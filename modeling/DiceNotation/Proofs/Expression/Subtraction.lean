import DiceNotation.Proofs.Expression.Reading
import DiceNotation.Proofs.Expression.Suffixes

/-!
# Numbers taken from dice and from lists

A `-` and a number behind dice, or behind a list with a suffix, subtract the number.  Behind the
suffix of a list this needs a suffix that ends with a digit: behind a letter the `-` is read as a
sign that belongs to the suffix.

Main definitions:

- `Text.less`: a text with a number taken from it.

Main results:

- `Outline.ofText_listOf_less`: the `-` behind a list whose suffix ends with a digit is an operator.
- `Expression.parse_dice_less`, `Expression.parse_listOf_less`: what is read from dice and from a
  list with a number taken from them.
-/

namespace DiceNotation

/-- A text with a number taken from it. -/
def Text.less (text number : Text) : Text := text ++ '-' :: number

namespace Outline

/-! ## Behind suffixes -/

/-- The characters of suffixes but `-`. -/
def isSuffixCharacter (c : Char) : Bool := c.isLower || c.isDigit || isComparison c

/-- Characters of suffixes continue one, whatever is before them. -/
theorem continuesSuffix_of_isSuffixCharacter {c : Char} (h : isSuffixCharacter c = true)
    (last : Option Char) : continuesSuffix last c = true := by
  have hminus : c ≠ '-' := by
    rintro rfl
    exact absurd h (by decide)
  rwa [continuesSuffix, if_neg hminus]

/-- A text of such characters is all suffix. -/
theorem suffixAfter_of_forall {text : Text} (h : ∀ c ∈ text, isSuffixCharacter c = true)
    (last : Option Char) : suffixAfter last text = text := by
  induction text generalizing last with
  | nil => rfl
  | cons c rest ih =>
      obtain ⟨hc, hrest⟩ := List.forall_mem_cons.mp h
      rw [suffixAfter, if_pos (continuesSuffix_of_isSuffixCharacter hc last), ih hrest]

/-- No digit is a letter. -/
theorem isLower_of_isDigit {c : Char} (h : c.isDigit = true) : c.isLower = false := by
  have hle := (Char.isDigit_iff_toNat.mp h).2
  refine Bool.eq_false_iff.mpr fun hlower => ?_
  have hge : 'a'.toNat ≤ c.toNat := of_decide_eq_true (Bool.and_eq_true_iff.mp hlower).1
  simp only [Char.reduceToNat] at hle hge
  omega

/-- A `-` behind a digit ends the suffix. -/
theorem step_minus {walk : Walk} {list : ClosedList} (hclosed : walk.closed = some list) {d : Char}
    (hlast : list.suffix.head? = some d) (hd : d.isDigit = true) :
    walk.step '-' =
      .ok { walk.settle with place := walk.place + 1, buffer := '-' :: walk.buffer } := by
  have hends : continuesSuffix list.suffix.head? '-' = false := by
    have hcomparison : isComparison d = false := Bool.eq_false_iff.mpr fun hcomparison => by
      simp [isDigit_of_isComparison hcomparison] at hd
    have hlower : d.isLower = false := isLower_of_isDigit hd
    simp [continuesSuffix, hlast, hcomparison, hlower]
  rw [Walk.step, hclosed]
  simp [hends, Walk.pass]

/-! ## Operands -/

/-- Behind a group, a `-` and a number leave the left slot open. -/
theorem ofMath_minus {number : Text} (h : IsOperand number) :
    ofMath ('-' :: number) true = .ok (.math ['-'] .empty (.leaf number)) := by
  have hformula : IsFormula true [] [(.subtract, number)] :=
    ⟨.inr ⟨rfl, rfl⟩, by simp, .inl h, trivial⟩
  simpa [formulaText, BinaryOp.symbol, Grouping.ofFormula, Grouping.extend, Grouping.outline, slot,
    h.ne_nil] using ofMath_formulaText hformula

/-- The number behind a list whose suffix ends with a digit is taken from the list. -/
theorem ofText_listOf_less {texts : List Text} {contents : List Outline} (hne : texts ≠ [])
    (h : List.Forall₂ (fun text content => Reads text [content]) texts contents) {suffix : Text}
    (hsuffix : ∀ c ∈ suffix, isSuffixCharacter c = true) {d : Char}
    (hlast : suffix.getLast? = some d) (hd : d.isDigit = true) {number : Text}
    (hnumber : IsOperand number) (hplain : ∀ c ∈ number, isBracket c = false) :
    ofText ((Text.listOf texts ++ suffix).less number) =
      .ok (.math ['-'] (.group { isList := true, suffix } (entriesOf contents)) (.leaf number)) := by
  rw [ofText, Text.less, List.foldlM_append, List.foldlM_append, walk_listOf hne h, ok_bind,
    walk_suffix rfl (suffixAfter_of_forall hsuffix _), ok_bind, List.foldlM_cons,
    step_minus rfl (by simpa using hlast) hd, ok_bind, walk_take hplain (by simp)]
  simp [Walk.finish, Walk.settle, Walk.content, ClosedList.outline, elementsWith,
    ofMath_minus hnumber, link, linkNext, isMath, fillLeft?, fillRight?]

/-- The number behind an operand is taken from the operand. -/
theorem ofText_less {text number : Text} (htext : IsOperand text) (hnumber : IsOperand number)
    (hplain : ∀ c ∈ text ++ number, isBracket c = false) :
    ofText (text.less number) = .ok (.math ['-'] (.leaf text) (.leaf number)) := by
  have hop : BinaryOp.subtract ≠ .undefined := by simp
  have hless : text.less number = text ++ BinaryOp.subtract.symbol ++ number := by
    simp [Text.less, BinaryOp.symbol]
  exact ofText_eq_ok_iff.mpr ⟨_, hless ▸ reads_operation hop htext hnumber hplain, rfl⟩

end Outline

/-! ## Characters -/

open Outline (IsLeafPart IsOperand isBracket isSuffixCharacter isLeafPart_marks)

/-- Whether all characters of a text may belong to a suffix. -/
def IsSuffixText (text : Text) : Prop := ∀ c ∈ text, isSuffixCharacter c = true

/-- Texts of suffixes may follow each other. -/
theorem IsSuffixText.append {s t : Text} (hs : IsSuffixText s) (ht : IsSuffixText t) :
    IsSuffixText (s ++ t) :=
  List.forall_mem_append.mpr ⟨hs, ht⟩

/-- A written number may belong to a suffix. -/
theorem WrittenNumber.isSuffixText (n : WrittenNumber) : IsSuffixText n.text := by
  intro c hc
  simp [isSuffixCharacter, n.isDigit_of_mem c hc]

/-- So may a condition without a sign. -/
theorem UnsignedCondition.isSuffixText (c : UnsignedCondition) : IsSuffixText c.text := by
  refine IsSuffixText.append ?_ c.target.isSuffixText
  intro d hd
  obtain ⟨comparison, -, rfl⟩ :
      ∃ comparison, c.comparison = some comparison ∧ comparison.mark = d := by
    simpa using hd
  cases comparison <;> rfl

/-- So may a selection by such conditions. -/
theorem UnsignedSelection.isSuffixText (s : UnsignedSelection) : IsSuffixText s.text := by
  cases s with
  | meeting keep first more =>
      intro d hd
      obtain ⟨c, -, hd⟩ := List.mem_flatMap.mp hd
      rcases List.mem_cons.mp hd with rfl | hd
      · cases keep <;> rfl
      · exact c.isSuffixText d hd
  | extreme keep highest count =>
      have hmarks : IsSuffixText [selectMark keep, if highest then 'h' else 'l'] := by
        cases keep <;> cases highest <;> exact List.all_eq_true.mp rfl
      cases count with
      | none => exact hmarks
      | some count => exact hmarks.append count.isSuffixText

/-- So may a score by such conditions. -/
theorem UnsignedScore.isSuffixText (s : UnsignedScore) : IsSuffixText s.text := by
  cases s with
  | groups counted =>
      cases counted <;> exact List.all_eq_true.mp rfl
  | successes success failure =>
      refine success.isSuffixText.append ?_
      cases failure with
      | none => exact List.forall_mem_nil _
      | some failure => exact List.forall_mem_cons.mpr ⟨rfl, failure.isSuffixText⟩

/-- A suffix of a list is made of characters of suffixes. -/
theorem ListSuffix.isSuffixText (s : ListSuffix) : IsSuffixText s.text := by
  cases s with
  | ofSelection selection => exact selection.isSuffixText
  | ofScore score => exact score.isSuffixText

/-- Dice are part of a leaf. -/
theorem isLeafPart_diceText (count sides : WrittenNumber) : IsLeafPart (diceText count sides) := by
  have hd : IsLeafPart ['d'] := isLeafPart_marks (by decide)
  exact count.isLeafPart_text.append (hd.append sides.isLeafPart_text)

/-- Dice have a text. -/
theorem diceText_ne_nil (count sides : WrittenNumber) : diceText count sides ≠ [] := by
  simp [diceText]

namespace Text

/-- A list of a text in standard form is in standard form. -/
theorem isStandard_listOf {text : Text} (h : ∀ c ∈ text, isStandard c = true) :
    ∀ c ∈ listOf [text], isStandard c = true :=
  List.forall_mem_cons.mpr ⟨rfl,
    List.forall_mem_append.mpr ⟨h, List.forall_mem_singleton.mpr rfl⟩⟩

/-- So is a text with a number taken from it. -/
theorem isStandard_less {text number : Text} (htext : ∀ c ∈ text, isStandard c = true)
    (hnumber : ∀ c ∈ number, isStandard c = true) : ∀ c ∈ text.less number, isStandard c = true :=
  List.forall_mem_append.mpr ⟨htext, List.forall_mem_cons.mpr ⟨rfl, hnumber⟩⟩

end Text

/-! ## Expressions -/

/-- What a number shows is written as it is commonly written. -/
theorem WrittenNumber.write_value (n : WrittenNumber) :
    Numeral.write n.value = .ok (Numeral.ofInt n.value) := by
  obtain ⟨shown, hwrite⟩ := Leaf.write_of_read n.literal.2 n.read_text
  have hshown := hwrite
  unfold Numeral.write at hshown
  split at hshown
  · simp at hshown
  · rw [hwrite, ← hshown]

namespace Expression

variable (count sides number : WrittenNumber)

/-- A number is read as what it shows. -/
theorem ofLeaf_number :
    ofLeaf number.text = .ok (.number (.int number.value) (Numeral.ofInt number.value)) := by
  rw [ofLeaf_literal number.literal, number.read_text, ok_bind, number.write_value]
  rfl

/-- What is read from a number that is taken from something. -/
theorem ofOutline_less {outline : Outline} (hempty : outline.isEmpty = false) :
    ofOutline (.math ['-'] outline (.leaf number.text)) = do
      let e ← ofOutline outline
      return .binary .subtract e (.number (.int number.value) (Numeral.ofInt number.value)) := by
  have hne : number.text ≠ [] := (Outline.isOperand_of_isLiteral number.literal).ne_nil
  have hsymbol : BinaryOp.ofSymbol? ['-'] = some .subtract := rfl
  have hright : Outline.isEmpty (.leaf number.text) = false := rfl
  simp [ofOutline, hempty, hright, hsymbol, hne, ofLeaf_number]

/-- Dice under what is written behind them. -/
theorem parse_dice (positive : 1 ≤ sides.value) {s : ListSuffix} (hs : ¬ s.StartsWithDigit) :
    parse (diceText count sides ++ s.text) =
      .ok (some (s.on (.dice count.value 1 sides.value))) := by
  have hpart := (isLeafPart_diceText count sides).append s.isLeafPart_text
  have hne : diceText count sides ++ s.text ≠ [] := by simp [diceText]
  exact parse_of_ofLeaf hpart hne (ofLeaf_suffix count sides positive hs)

/-- What is read from dice with a number taken from them, from what is read from the dice. -/
theorem parse_diceText_less (s : ListSuffix) :
    parse ((diceText count sides ++ s.text).less number.text) = do
      let e ← ofLeaf (diceText count sides ++ s.text)
      return some (.binary .subtract e
        (.number (.int number.value) (Numeral.ofInt number.value))) := by
  have hpart := (isLeafPart_diceText count sides).append s.isLeafPart_text
  have hnumber := number.isLeafPart_text
  have hne : diceText count sides ++ s.text ≠ [] := by simp [diceText]
  have hstandard := Text.isStandard_less hpart.isStandard hnumber.isStandard
  have houtline := Outline.ofText_less (hpart.isOperand hne)
    (Outline.isOperand_of_isLiteral number.literal) (hpart.append hnumber).isBracket_eq
  rw [parse_of_ofText hstandard houtline rfl, ofOutline_less number rfl, ofOutline,
    if_neg (by simpa using hne)]
  cases ofLeaf (diceText count sides ++ s.text) <;> rfl

/-- A number is taken from dice under what is written behind them. -/
theorem parse_dice_less (positive : 1 ≤ sides.value) {s : ListSuffix} (hs : ¬ s.StartsWithDigit) :
    parse ((diceText count sides ++ s.text).less number.text) =
      .ok (some (.binary .subtract (s.on (.dice count.value 1 sides.value))
        (.number (.int number.value) (Numeral.ofInt number.value)))) := by
  rw [parse_diceText_less, ofLeaf_suffix count sides positive hs]
  rfl

/-- A number is taken from a list under a suffix that ends with a digit. -/
theorem parse_listOf_less (positive : 1 ≤ sides.value) {s : ListSuffix} (hs : s.EndsWithDigit) :
    parse ((Text.listOf [diceText count sides] ++ s.text).less number.text) =
      .ok (some (.binary .subtract (s.on (.bracket (.dice count.value 1 sides.value)))
        (.number (.int number.value) (Numeral.ofInt number.value)))) := by
  obtain ⟨d, hlast, hd⟩ := hs
  have hdice := isLeafPart_diceText count sides
  have hnumber := number.isLeafPart_text
  have hne := diceText_ne_nil count sides
  have hstandard := Text.isStandard_less
    (List.forall_mem_append.mpr
      ⟨Text.isStandard_listOf hdice.isStandard, s.isLeafPart_text.isStandard⟩)
    hnumber.isStandard
  have houtline := Outline.ofText_listOf_less (List.cons_ne_nil _ _) (.cons (hdice.reads hne) .nil)
    s.isSuffixText hlast hd (Outline.isOperand_of_isLiteral number.literal) hnumber.isBracket_eq
  have hleaf := ofOutline_of_ofLeaf hne (ofLeaf_dice count sides positive)
  rw [parse_of_ofText hstandard houtline rfl, ofOutline_less number rfl, ofOutline,
    ofOutlines_entriesOf (.cons hleaf .nil)]
  simp [ofGroup, listed, shape, withSuffix_text, Except.map]

end Expression
end DiceNotation

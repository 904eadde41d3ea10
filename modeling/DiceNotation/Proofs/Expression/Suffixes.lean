import DiceNotation.Proofs.Expression.Chains
import DiceNotation.Proofs.Expression.Listed

/-!
# List suffixes as they are written

Behind a list may stand one selection or one score.  The same may be written behind dice, and is
read there as the same modifier or score, if it does not begin with a digit: digits behind the
sides of a die are more of them.

Numbers are written without a sign here.  The mark of a comparison may be left out before a number,
which is then compared for equality, and the count of a selection by size, which is then one.

Main definitions:

- `UnsignedCondition`, `UnsignedSelection`, `UnsignedScore`: conditions, selections and scores
  without a sign.
- `ListSuffix`: a selection or a score behind a list.
- `ListSuffix.on`: an expression under a suffix.

Main results:

- `Expression.withSuffix_text`: a suffix is read as what is written.
- `Expression.ofLeaf_suffix`: so it is behind dice, if it does not begin with a digit.
-/

namespace DiceNotation

/-! ## Suffixes -/

/-- A condition: a number, perhaps behind a comparison. -/
structure UnsignedCondition where
  comparison : Option Comparison
  target : WrittenNumber

namespace UnsignedCondition

/-- A condition as it is written. -/
def text (c : UnsignedCondition) : Text :=
  (c.comparison.map Comparison.mark).toList ++ c.target.text

/-- The condition that is written; a number alone is compared for equality. -/
def condition (c : UnsignedCondition) : Condition := ⟨c.comparison.getD .equal, c.target.value⟩

end UnsignedCondition

/-- Conditions, each behind the mark of a selection. -/
def selectText (keep : Bool) (conditions : List UnsignedCondition) : Text :=
  conditions.flatMap fun c => selectMark keep :: c.text

/-- A selection.  A chain has a condition at least. -/
inductive UnsignedSelection where
  | meeting (keep : Bool) (first : UnsignedCondition) (more : List UnsignedCondition)
  | extreme (keep highest : Bool) (count : Option WrittenNumber)

namespace UnsignedSelection

/-- A selection as it is written. -/
def text : UnsignedSelection → Text
  | meeting keep first more => selectText keep (first :: more)
  | extreme keep highest count =>
    selectMark keep :: (if highest then 'h' else 'l') :: countText count

/-- The selection that is written; without a count it takes one. -/
def modifier : UnsignedSelection → Modifier
  | meeting keep first more =>
    .select keep (.meeting ((first :: more).map UnsignedCondition.condition))
  | extreme keep highest count =>
    .select keep (.extreme highest (countValue count))

end UnsignedSelection

/-- A score. -/
inductive UnsignedScore where
  | groups (counted : Bool)
  | successes (success : UnsignedCondition) (failure : Option UnsignedCondition)

namespace UnsignedScore

/-- A score as it is written. -/
def text : UnsignedScore → Text
  | groups counted => if counted then ['m', 't'] else ['m']
  | successes success failure => success.text ++ (failure.map fun c => 'f' :: c.text).getD []

/-- The score that is written. -/
def score : UnsignedScore → Score
  | groups counted => .groups counted
  | successes success failure =>
    .successes success.condition (failure.map UnsignedCondition.condition)

end UnsignedScore

/-- What may stand behind a list: one selection or one score. -/
inductive ListSuffix where
  | ofSelection (selection : UnsignedSelection)
  | ofScore (score : UnsignedScore)

namespace ListSuffix

/-- A suffix as it is written. -/
def text : ListSuffix → Text
  | ofSelection selection => selection.text
  | ofScore score => score.text

/-- An expression under a suffix. -/
def on (suffix : ListSuffix) (operand : Expression) : Expression :=
  match suffix with
  | ofSelection selection => .modified selection.modifier operand
  | ofScore score => .scored score.score operand

end ListSuffix

/-! ## Reading suffixes -/

namespace Leaf

/-- A condition without a sign is read where no integer goes on. -/
theorem takes_unsignedCondition (c : UnsignedCondition) {rest : Text} (h : EndsInteger rest) :
    Takes readCondition c.text rest c.condition := by
  obtain ⟨comparison, target⟩ := c
  cases comparison with
  | some comparison => exact takes_readCondition ⟨comparison, target.toWrittenInteger⟩ h
  | none => exact takes_readCondition_number target h

/-- Conditions without a sign show their conditions. -/
theorem shows_unsigned : ShowsConditions UnsignedCondition.text UnsignedCondition.condition where
  head c rest := by
    obtain ⟨comparison, target⟩ := c
    cases comparison with
    | none => exact head?_number target rest
    | some comparison => exact ⟨comparison.mark, rfl, isConditionCharacter_mark comparison⟩
  takes c _ h := takes_unsignedCondition c h

/-! ### Selections -/

/-- A selection is read to the end of the text. -/
theorem takes_unsignedSelection (s : UnsignedSelection) :
    Takes readSelection s.text [] s.modifier := by
  cases s with
  | meeting keep first more =>
      have hends : EndsSelect keep [] := by simp [EndsSelect]
      exact takes_readSelection_meeting shows_unsigned keep first more endsInteger_nil hends
  | extreme keep highest count =>
      exact takes_readSelection_extreme keep highest count endsInteger_nil

/-- A selection begins with its mark. -/
theorem exists_mark (s : UnsignedSelection) : ∃ keep tail, s.text = selectMark keep :: tail := by
  cases s with
  | meeting keep first more => exact ⟨keep, _, rfl⟩
  | extreme keep highest count => exact ⟨keep, _, rfl⟩

/-- A selection behind dice is the only modifier. -/
theorem takes_readModifiers_selection (s : UnsignedSelection) {fuel : Nat} (hfuel : 0 < fuel) :
    Takes (readModifiers fuel) s.text [] [s.modifier] := by
  have hselection : Takes readModifier? s.text [] (some s.modifier) := by
    obtain ⟨keep, tail, htext⟩ := exists_mark s
    have hread := takes_unsignedSelection s
    rw [htext] at hread ⊢
    exact hread.selection
  have hitems : ∀ before item after, [s] = before ++ item :: after →
      Takes readModifier? item.text (after.flatMap UnsignedSelection.text ++ [])
        (some item.modifier) := by
    intro before item after hsplit
    cases before with
    | nil =>
        cases hsplit
        exact hselection
    | cons => simp at hsplit
  have hloop := repeats_readModifiers.takes hitems
    (takes_readModifier?_none (by simp [EndsModifiers])) hfuel
  rwa [List.flatMap_singleton] at hloop

/-! ### Scores -/

/-- A score is read to the end of the text. -/
theorem takes_unsignedScore (s : UnsignedScore) : Takes readScore? s.text [] (some s.score) := by
  cases s with
  | groups counted => exact takes_readScore? (some (.groups counted))
  | successes success failure => exact takes_readScore?_successes shows_unsigned success failure

/-- A score begins with `m` or as a condition does. -/
theorem head?_score (s : UnsignedScore) :
    ∃ c, s.text.head? = some c ∧ (c = 'm' ∨ isConditionCharacter c = true) := by
  cases s with
  | groups counted => cases counted <;> exact ⟨'m', rfl, .inl rfl⟩
  | successes success failure =>
      obtain ⟨c, hhead, hc⟩ := shows_unsigned.head success _
      exact ⟨c, hhead, .inr hc⟩

/-- No modifier goes on where a score begins. -/
theorem endsModifiers_score (s : UnsignedScore) : EndsModifiers s.text := by
  obtain ⟨c, hhead, hc⟩ := head?_score s
  have hmarks : ∀ d ∈ modifierMarks, d ≠ 'm' ∧ isConditionCharacter d = false := by
    simp [modifierMarks, isConditionCharacter, isIntegerCharacter, Outline.isComparison]
  rw [EndsModifiers, hhead]
  rintro _ ⟨⟩ hmark
  obtain ⟨hm, hcondition⟩ := hmarks c hmark
  rcases hc with rfl | hc
  · exact hm rfl
  · simp [hcondition] at hc

/-- No score begins with another character. -/
theorem takes_readScore?_none {rest : Text}
    (h : ∀ c ∈ rest.head?, c ≠ 'm' ∧ isConditionCharacter c = false) :
    Takes readScore? [] rest none := by
  unfold readScore?
  refine takes_peek rest.head? rfl ?_
  have hm : rest.head? ≠ some 'm' := fun hm => (h 'm' hm).1 rfl
  have hcondition : rest.head?.any isConditionCharacter = false :=
    (Option.any_eq_false ..).mpr fun c hc => (h c hc).2
  rw [if_neg hm, if_neg (by simp [hcondition])]
  exact takes_pure

/-! ### Sides -/

/-- Digits are a literal without a sign. -/
theorem isLiteral_of_digits {digits : Text} (hne : digits ≠ [])
    (h : ∀ c ∈ digits, c.isDigit = true) :
    Outline.IsLiteral digits ∧ Numeral.digits digits = digits ∧
      Numeral.isSigned digits = false := by
  have hsign : ∀ rest, digits ≠ '-' :: rest := by
    rintro rest rfl
    exact absurd (h '-' (List.mem_cons_self ..)) (by decide)
  have hdigits : Numeral.digits digits = digits := by
    unfold Numeral.digits
    split
    · exact absurd rfl (hsign _)
    · rfl
  refine ⟨by rw [Outline.IsLiteral, hdigits]; exact ⟨hne, h⟩, hdigits, ?_⟩
  unfold Numeral.isSigned
  split
  · exact absurd rfl (hsign _)
  · rfl

/-- The sides of a die may be too many digits to be read. -/
theorem run_readDie_tooLong (count : Int) {digits rest : Text}
    (hliteral : Outline.IsLiteral digits)
    (hlong : Numeral.digitLimit < (Numeral.digits digits).length) (hrest : EndsInteger rest)
    (behind : Text) (past : Nat) :
    ∃ cursor, (readDie count).run ⟨behind, 'd' :: (digits ++ rest), past⟩ =
      .error .numeralTooLong cursor := by
  have hread : Numeral.read digits = .error .numeralTooLong := if_pos hlong
  have hnumeral := run_readNumeral hliteral hrest ('d' :: behind) past
  cases digits with
  | nil => exact absurd hlong (by decide)
  | cons c tail =>
      have hc : isIntegerCharacter c = true := by
        simpa [isIntegerCharacter] using Outline.mem_of_isLiteral hliteral (List.mem_cons_self ..)
      rw [List.cons_append] at hnumeral ⊢
      simp [readDie, Cursor.next, Cursor.head?, hc, readInteger, hnumeral, hread, -bind_pure_comp]

end Leaf

/-! ## Characters of suffixes -/

open Outline (IsLeafPart isLeafPart_marks isLeafPart_flatMap)

/-- A written number is made of digits. -/
theorem WrittenNumber.isDigit_of_mem (n : WrittenNumber) : ∀ c ∈ n.text, c.isDigit = true := by
  have hdigits := n.literal.2
  rwa [n.digits_text] at hdigits

/-- A text ends in a digit if it ends in a number. -/
theorem WrittenNumber.getLast?_isDigit (n : WrittenNumber) (front : Text) :
    ∃ c ∈ (front ++ n.text).getLast?, c.isDigit = true := by
  have hne := (Outline.isOperand_of_isLiteral n.literal).ne_nil
  refine ⟨n.text.getLast hne, ?_, n.isDigit_of_mem _ (List.getLast_mem hne)⟩
  rw [List.getLast?_append_of_ne_nil _ hne]
  exact List.getLast?_eq_some_getLast hne

/-- A condition ends with the number that is compared. -/
theorem UnsignedCondition.getLast?_isDigit (c : UnsignedCondition) (front : Text) :
    ∃ d ∈ (front ++ c.text).getLast?, d.isDigit = true := by
  rw [UnsignedCondition.text, ← List.append_assoc]
  exact c.target.getLast?_isDigit _

/-- A condition without a sign is part of a leaf. -/
theorem UnsignedCondition.isLeafPart_text (c : UnsignedCondition) : IsLeafPart c.text := by
  obtain ⟨comparison, target⟩ := c
  cases comparison with
  | none => exact target.isLeafPart_text
  | some comparison =>
      exact Outline.isLeafPart_comparison (by cases comparison <;> rfl) target.literal

/-- So is a selection by such conditions. -/
theorem UnsignedSelection.isLeafPart_text (s : UnsignedSelection) : IsLeafPart s.text := by
  cases s with
  | meeting keep first more =>
      have hmark : IsLeafPart [selectMark keep] := isLeafPart_marks (by cases keep <;> decide)
      exact isLeafPart_flatMap (fun c => hmark.append c.isLeafPart_text) (first :: more)
  | extreme keep highest count =>
      have hmarks : IsLeafPart [selectMark keep, if highest then 'h' else 'l'] :=
        isLeafPart_marks (by cases keep <;> cases highest <;> decide)
      exact hmarks.append (isLeafPart_countText count)

/-- So is a score by such conditions. -/
theorem UnsignedScore.isLeafPart_text (s : UnsignedScore) : IsLeafPart s.text := by
  have hf : IsLeafPart ['f'] := isLeafPart_marks (by decide)
  cases s with
  | groups counted => cases counted <;> exact isLeafPart_marks (by decide)
  | successes success failure =>
      cases failure with
      | none => exact success.isLeafPart_text.append .nil
      | some failure => exact success.isLeafPart_text.append (hf.append failure.isLeafPart_text)

namespace ListSuffix

variable (s : ListSuffix)

/-- Whether the first character of a suffix is a digit. -/
def StartsWithDigit : Prop := ∃ c ∈ s.text.head?, c.isDigit = true

/-- Whether the last character of a suffix is a digit. -/
def EndsWithDigit : Prop := ∃ c ∈ s.text.getLast?, c.isDigit = true

/-- A suffix may be part of a leaf. -/
theorem isLeafPart_text : IsLeafPart s.text := by
  cases s with
  | ofSelection selection => exact selection.isLeafPart_text
  | ofScore score => exact score.isLeafPart_text

/-- A suffix has a text. -/
theorem text_ne_nil : s.text ≠ [] := by
  intro hnil
  cases s with
  | ofSelection selection =>
      obtain ⟨keep, tail, htext⟩ := Leaf.exists_mark selection
      simp [text, htext] at hnil
  | ofScore score =>
      obtain ⟨c, hhead, -⟩ := Leaf.head?_score score
      simp [show score.text = [] from hnil] at hhead

variable {s} in
/-- Digits are not continued by a suffix that does not begin with one. -/
theorem endsInteger (h : ¬ s.StartsWithDigit) : Leaf.EndsInteger s.text := by
  intro c hc
  have hdigit : c.isDigit = false := Bool.eq_false_iff.mpr fun hdigit => h ⟨c, hc, hdigit⟩
  have hminus : c ≠ '-' := by
    rintro rfl
    exact s.isLeafPart_text.head hc
  simp [Leaf.isIntegerCharacter, hdigit, hminus]

/-- A suffix that does not end with a digit is a selection without a count or a score of groups. -/
theorem endsWithDigit_or :
    s.EndsWithDigit ∨ (∃ keep highest, s = .ofSelection (.extreme keep highest none)) ∨
      ∃ counted, s = .ofScore (.groups counted) := by
  cases s with
  | ofSelection selection =>
      cases selection with
      | meeting keep first more =>
          obtain ⟨init, last, hlast⟩ : ∃ init last, first :: more = init ++ [last] :=
            ⟨_, _, (List.dropLast_concat_getLast (List.cons_ne_nil first more)).symm⟩
          have htext : selectText keep (first :: more) =
              selectText keep init ++ [selectMark keep] ++ last.text := by
            simp [hlast, selectText]
          left
          rw [EndsWithDigit, text, UnsignedSelection.text, htext]
          exact last.getLast?_isDigit _
      | extreme keep highest count =>
          cases count with
          | none => exact .inr (.inl ⟨keep, highest, rfl⟩)
          | some count =>
              exact .inl (count.getLast?_isDigit [selectMark keep, if highest then 'h' else 'l'])
  | ofScore score =>
      cases score with
      | groups counted => exact .inr (.inr ⟨counted, rfl⟩)
      | successes success failure =>
          left
          cases failure with
          | none =>
              have hlast := success.getLast?_isDigit []
              simpa [EndsWithDigit, text, UnsignedScore.text] using hlast
          | some failure =>
              have hlast := failure.getLast?_isDigit (success.text ++ ['f'])
              simpa [EndsWithDigit, text, UnsignedScore.text] using hlast

variable {s} in
/-- A suffix that begins with a digit counts what equals a number. -/
theorem exists_target (h : s.StartsWithDigit) :
    ∃ target failure, s = .ofScore (.successes ⟨none, target⟩ failure) := by
  obtain ⟨d, hd, hdigit⟩ := h
  cases s with
  | ofSelection selection =>
      obtain ⟨keep, tail, htext⟩ := Leaf.exists_mark selection
      rw [text, htext] at hd
      obtain rfl : selectMark keep = d := Option.some.inj hd
      cases keep <;> simp [selectMark] at hdigit
  | ofScore score =>
      cases score with
      | groups counted =>
          cases counted <;> cases hd <;> simp at hdigit
      | successes success failure =>
          obtain ⟨comparison, target⟩ := success
          cases comparison with
          | none => exact ⟨target, failure, rfl⟩
          | some comparison =>
              obtain rfl : comparison.mark = d := Option.some.inj hd
              cases comparison <;> simp [Comparison.mark] at hdigit

end ListSuffix

/-! ## Suffixes, read -/

/-- Dice of a count and sides as they are written. -/
def diceText (count sides : WrittenNumber) : Text := count.text ++ 'd' :: sides.text

namespace Expression

open Leaf

/-- What is written behind a list is read as what it shows. -/
theorem withSuffix_text (operand : Expression) (s : ListSuffix) :
    operand.withSuffix s.text = .ok (s.on operand) := by
  rw [withSuffix, if_neg (by simpa using s.text_ne_nil)]
  refine Takes.on ?_
  unfold readSuffix
  cases s with
  | ofScore score =>
      refine (takes_unsignedScore score).map ?_
      exact takes_requireEnd.map takes_pure
  | ofSelection selection =>
      obtain ⟨keep, tail, htext⟩ := exists_mark selection
      have hmark : selectMark keep = 'k' ∨ selectMark keep = 'd' := by cases keep <;> decide
      have hnone : Takes readScore? [] selection.text none := by
        refine takes_readScore?_none fun c hc => ?_
        rw [htext] at hc
        obtain rfl : selectMark keep = c := Option.some.inj hc
        cases keep <;> decide
      refine hnone.bind_end ?_
      refine takes_peek (some (selectMark keep)) (by rw [htext]; rfl) ?_
      rw [if_pos (by simpa using hmark)]
      exact (takes_unsignedSelection selection).map (takes_requireEnd.map takes_pure)

/-- So it is behind dice, if it cannot be taken for more sides. -/
theorem ofLeaf_suffix (count sides : WrittenNumber) (positive : 1 ≤ sides.value) {s : ListSuffix}
    (hs : ¬ s.StartsWithDigit) :
    ofLeaf (diceText count sides ++ s.text) = .ok (s.on (.dice count.value 1 sides.value)) := by
  have hends := ListSuffix.endsInteger hs
  rw [ofLeaf, diceText, List.append_assoc, List.cons_append]
  refine Takes.on (takes_readLeaf_count count ?_)
  cases s with
  | ofScore score =>
      have hnone : Takes (readModifiers ([] ++ score.text).length) [] score.text [] :=
        takes_readModifiers [] List.isChain_nil (by simp) (endsModifiers_score score)
          (Nat.zero_le _)
      exact takes_readDice_parts count.value_nonneg (.upTo sides positive) hends hnone
        (takes_unsignedScore score)
  | ofSelection selection =>
      have hselection : Takes (readModifiers (selection.text ++ []).length) selection.text []
          [selection.modifier] := by
        refine takes_readModifiers_selection selection ?_
        obtain ⟨keep, tail, htext⟩ := exists_mark selection
        simp [htext]
      have hdice := takes_readDice_parts count.value_nonneg (.upTo sides positive)
        (by rwa [List.append_nil]) hselection (takes_readScore? none)
      rwa [List.append_nil] at hdice

/-- Digits behind the sides of a die are more of them, and may be too many to be read. -/
theorem ofLeaf_tooLong (count sides : WrittenNumber)
    (hlong : sides.text.length = Numeral.digitLimit) {s : ListSuffix} (hs : s.StartsWithDigit) :
    ofLeaf (diceText count sides ++ s.text) = .error .numeralTooLong := by
  obtain ⟨target, failure, rfl⟩ := ListSuffix.exists_target hs
  obtain ⟨rest, hrest, htext⟩ : ∃ rest, EndsInteger rest ∧
      diceText count sides ++ (ListSuffix.ofScore (.successes ⟨none, target⟩ failure)).text =
        count.text ++ 'd' :: ((sides.text ++ target.text) ++ rest) := by
    refine ⟨(failure.map fun c => 'f' :: c.text).getD [], ?_, ?_⟩
    · cases failure with
      | none => exact endsInteger_nil
      | some failure => exact endsInteger_cons rfl _
    · simp [diceText, ListSuffix.text, UnsignedScore.text, UnsignedCondition.text]
  have hdigits : ∀ c ∈ sides.text ++ target.text, c.isDigit = true :=
    List.forall_mem_append.mpr ⟨sides.isDigit_of_mem, target.isDigit_of_mem⟩
  have htarget := (Outline.isOperand_of_isLiteral target.literal).ne_nil
  obtain ⟨hliteral, hlength, -⟩ := isLiteral_of_digits (by simp [htarget]) hdigits
  have hdie := run_readDie_tooLong count.value hliteral ?_ hrest (count.text.reverse ++ []) 0
  · obtain ⟨cursor, hdie⟩ := hdie
    rw [htext, ofLeaf, Reader.on, Cursor.ofText, run_readLeaf_count, readDice,
      if_neg (Int.not_lt.mpr count.value_nonneg)]
    dsimp only
    rw [EStateM.run_bind, hdie]
  · have hpos := List.length_pos_iff.mpr htarget
    rw [hlength, List.length_append]
    omega

/-- Dice alone. -/
theorem ofLeaf_dice (count sides : WrittenNumber) (positive : 1 ≤ sides.value) :
    ofLeaf (diceText count sides) = .ok (.dice count.value 1 sides.value) := by
  have hdice := ofLeaf_written
    { count := some count, faces := .upTo sides positive, modifiers := [],
      separate := List.isChain_nil, score := none, apart := by simp }
  simpa [WrittenDice.text, WrittenDice.expression, WrittenFaces.text, WrittenFaces.dice, scoreText,
    withScore, diceText, countText, countValue] using hdice

end Expression
end DiceNotation

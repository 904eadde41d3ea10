import DiceNotation.Proofs.Expression.Taking

/-!
# Dice with modifiers, parsed

What is written of dice has no bracket, and every `-` of it is the sign of a condition, so a text
of dice is one leaf; and the leaf is read as it was written.

Main definitions:

- `Outline.IsLeafPart`: texts that may be parts of a leaf, one behind the other.

Main results:

- `WrittenDice.isLeafPart_text`: dice are such parts.
- `Expression.parse_written`: modifiers act in the order in which they are written.
-/

namespace DiceNotation
namespace Outline

/-! ## Parts of a leaf -/

/-- The characters of dice that are not digits. -/
def diceMarks : Text :=
  ['-', '=', '<', '>', '!', 'd', 'f', 'h', 'k', 'l', 'm', 'o', 'p', 'r', 't']

/-- Whether a character may belong to dice. -/
def IsDiceCharacter (c : Char) : Prop := c.isDigit = true ∨ c ∈ diceMarks

/-- A digit is none of the marks where no mark is a digit. -/
theorem not_mem_of_isDigit {c : Char} (hc : c.isDigit = true) {marks : Text}
    (hmarks : marks.any Char.isDigit = false) : c ∉ marks := by
  intro hmem
  have hdigit := List.any_eq_false.mp hmarks c hmem
  exact hdigit hc

/-- No bracket is a digit. -/
theorem isDigit_of_isBracket {c : Char} (h : isBracket c = true) : c.isDigit = false := by
  simp only [isBracket, Bool.or_eq_true, beq_iff_eq] at h
  rcases h with (((rfl | rfl) | rfl) | rfl) | rfl <;> rfl

/-- No comparison is a digit. -/
theorem isDigit_of_isComparison {c : Char} (h : isComparison c = true) : c.isDigit = false := by
  simp only [isComparison, Bool.or_eq_true, beq_iff_eq] at h
  rcases h with (rfl | rfl) | rfl <;> rfl

namespace IsDiceCharacter

variable {c : Char}

/-- Characters of dice are in standard form. -/
theorem isStandard (h : IsDiceCharacter c) : Text.isStandard c = true := by
  have hmarks : diceMarks.all Text.isStandard = true := rfl
  rcases h with hdigit | hmark
  · exact isStandard_of_isFormulaCharacter (by simp [isFormulaCharacter, hdigit])
  · exact List.all_eq_true.mp hmarks c hmark

/-- Characters of dice are no operators, a `-` apart. -/
theorem not_operator (h : IsDiceCharacter c) : c ∉ ['+', '*', '/', '%', '^'] := by
  have hmarks : (diceMarks.any fun d => ['+', '*', '/', '%', '^'].contains d) = false := by decide
  rcases h with hdigit | hmark
  · exact not_mem_of_isDigit hdigit (by decide)
  · simpa using List.any_eq_false.mp hmarks c hmark

/-- Characters of dice are no brackets. -/
theorem isBracket_eq (h : IsDiceCharacter c) : isBracket c = false := by
  have hmarks : diceMarks.any isBracket = false := by decide
  rcases h with hdigit | hmark
  · refine Bool.eq_false_iff.mpr fun hbracket => ?_
    simp [isDigit_of_isBracket hbracket] at hdigit
  · exact Bool.eq_false_iff.mpr (List.any_eq_false.mp hmarks c hmark)

end IsDiceCharacter

/-- Characters of dice of which each `-` stands behind a comparison, and neither it nor a
comparison stands last. -/
structure IsLeafPart (text : Text) : Prop where
  characters : ∀ c ∈ text, IsDiceCharacter c
  signs : text.IsChain fun previous c => c = '-' → isComparison previous = true
  head : text.head? ≠ some '-'
  last : ∀ c, text.getLast? = some c → c ≠ '-' ∧ isComparison c = false

/-- The empty text is part of a leaf. -/
theorem IsLeafPart.nil : IsLeafPart [] where
  characters := by simp
  signs := List.isChain_nil
  head := by simp
  last := by simp

/-- Parts of a leaf may follow each other. -/
theorem IsLeafPart.append {s t : Text} (hs : IsLeafPart s) (ht : IsLeafPart t) :
    IsLeafPart (s ++ t) where
  characters := List.forall_mem_append.mpr ⟨hs.characters, ht.characters⟩
  signs := by
    refine hs.signs.append ht.signs ?_
    rintro previous - c hc rfl
    exact absurd hc ht.head
  head := by
    cases s with
    | nil => exact ht.head
    | cons c rest => exact hs.head
  last := by
    intro c hc
    rw [List.getLast?_append] at hc
    cases hlast : t.getLast? with
    | none =>
        rw [hlast] at hc
        exact hs.last c hc
    | some d =>
        rw [hlast] at hc
        obtain rfl : d = c := Option.some.inj hc
        exact ht.last d hlast

/-- Whether a character is neither a `-` nor a comparison. -/
def isPlainCharacter (c : Char) : Bool := c != '-' && !isComparison c

/-- Characters of dice without a `-` or a comparison. -/
theorem isLeafPart_of_forall {text : Text}
    (h : ∀ c ∈ text, IsDiceCharacter c ∧ isPlainCharacter c = true) : IsLeafPart text := by
  have hplain : ∀ c ∈ text, c ≠ '-' ∧ isComparison c = false := fun c hc => by
    simpa [isPlainCharacter] using (h c hc).2
  constructor
  · exact fun c hc => (h c hc).1
  · refine (List.pairwise_of_forall_mem_list ?_).isChain
    exact fun _ _ c hc hminus => absurd hminus (hplain c hc).1
  · exact fun hhead => (hplain '-' (List.mem_of_head? hhead)).1 rfl
  · exact fun c hc => hplain c (List.mem_of_getLast? hc)

/-- Digits are part of a leaf. -/
theorem isLeafPart_digits {digits : Text} (h : ∀ c ∈ digits, c.isDigit = true) :
    IsLeafPart digits := by
  refine isLeafPart_of_forall fun c hc => ⟨.inl (h c hc), ?_⟩
  have hcomparison : isComparison c = false := Bool.eq_false_iff.mpr fun hcomparison => by
    simpa [isDigit_of_isComparison hcomparison] using h c hc
  simpa [isPlainCharacter, hcomparison] using isDigit_ne (h c hc) rfl

/-- Marks that are no comparison. -/
theorem isLeafPart_marks {text : Text}
    (h : (text.all fun c => diceMarks.contains c && isPlainCharacter c) = true) :
    IsLeafPart text := by
  refine isLeafPart_of_forall fun c hc => ?_
  have hmark := List.all_eq_true.mp h c hc
  simp only [Bool.and_eq_true, List.contains_iff_mem] at hmark
  exact ⟨.inr hmark.1, hmark.2⟩

/-- A comparison and an integer. -/
theorem isLeafPart_comparison {mark : Char} (hmark : isComparison mark = true) {numeral : Text}
    (h : IsLiteral numeral) : IsLeafPart (mark :: numeral) := by
  have hmarks : mark ∈ diceMarks ∧ mark ≠ '-' := by
    simp only [isComparison, Bool.or_eq_true, beq_iff_eq] at hmark
    rcases hmark with (rfl | rfl) | rfl <;> decide
  have hoperand := isOperand_of_isLiteral h
  constructor
  · refine List.forall_mem_cons.mpr ⟨.inr hmarks.1, fun c hc => ?_⟩
    rcases mem_of_isLiteral h hc with rfl | hdigit
    · exact .inr (by decide)
    · exact .inl hdigit
  · refine List.IsChain.cons ?_ fun _ _ _ => hmark
    obtain ⟨digits, -, hdigits, rfl | rfl⟩ := digits_of_isLiteral h
    · exact (isLeafPart_digits hdigits).signs
    · refine (isLeafPart_digits hdigits).signs.cons ?_
      rintro c hc rfl
      exact absurd hc (isLeafPart_digits hdigits).head
  · simpa using hmarks.2
  · intro c hc
    rw [List.getLast?_cons] at hc
    cases hlast : numeral.getLast? with
    | none => exact absurd (List.getLast?_eq_none_iff.mp hlast) hoperand.ne_nil
    | some d =>
        rw [hlast] at hc
        obtain rfl : d = c := Option.some.inj hc
        exact hoperand.last d hlast

/-- Parts one behind the other. -/
theorem isLeafPart_flatMap {α : Type} {part : α → Text} (h : ∀ item, IsLeafPart (part item))
    (items : List α) : IsLeafPart (items.flatMap part) := by
  induction items with
  | nil => exact .nil
  | cons item rest ih =>
      rw [List.flatMap_cons]
      exact (h item).append ih

/-- A part of a leaf that is not missing is read as an operand. -/
theorem IsLeafPart.isOperand {text : Text} (h : IsLeafPart text) (hne : text ≠ []) :
    IsOperand text where
  ne_nil := hne
  plain c hc := (h.characters c hc).not_operator
  signs := by
    rintro before after rfl c hc
    exact (List.isChain_append.mp h.signs).2.2 c hc '-' rfl rfl
  last := h.last

/-- A part of a leaf is in standard form. -/
theorem IsLeafPart.isStandard {text : Text} (h : IsLeafPart text) :
    ∀ c ∈ text, Text.isStandard c = true :=
  fun c hc => (h.characters c hc).isStandard

/-- A part of a leaf has no brackets. -/
theorem IsLeafPart.isBracket_eq {text : Text} (h : IsLeafPart text) :
    ∀ c ∈ text, isBracket c = false :=
  fun c hc => (h.characters c hc).isBracket_eq

/-- On its own a part of a leaf that is not missing is a leaf. -/
theorem IsLeafPart.reads {text : Text} (h : IsLeafPart text) (hne : text ≠ []) :
    Reads text [.leaf text] :=
  reads_operand (h.isOperand hne) h.isBracket_eq

end Outline

/-! ## Parts of written dice -/

open Outline (IsLeafPart isLeafPart_marks isLeafPart_flatMap)

/-- A written number is part of a leaf. -/
theorem WrittenNumber.isLeafPart_text (n : WrittenNumber) : IsLeafPart n.text := by
  have hdigits := n.literal.2
  rw [n.digits_text] at hdigits
  exact Outline.isLeafPart_digits hdigits

/-- A written condition is part of a leaf, its comparison being followed by an integer. -/
theorem WrittenCondition.isLeafPart_text (c : WrittenCondition) : IsLeafPart c.text :=
  Outline.isLeafPart_comparison (by cases c.comparison <;> rfl) c.target.literal

/-- A written point is part of a leaf. -/
theorem WrittenPoint.isLeafPart_text (point : WrittenPoint) : IsLeafPart point.text := by
  cases point with
  | compared c => exact c.isLeafPart_text
  | alone n => exact n.isLeafPart_text

/-- A point is part of a leaf, and may be missing. -/
theorem isLeafPart_pointText (point : Option WrittenPoint) : IsLeafPart (pointText point) := by
  cases point with
  | none => exact .nil
  | some point => exact point.isLeafPart_text

/-- A count is part of a leaf, and may be missing. -/
theorem isLeafPart_countText (count : Option WrittenNumber) : IsLeafPart (countText count) := by
  cases count with
  | none => exact .nil
  | some n => exact n.isLeafPart_text

/-- A chain of conditions is part of a leaf, if its mark is. -/
theorem isLeafPart_chainText {mark : Text} (hmark : IsLeafPart mark)
    (conditions : List WrittenCondition) : IsLeafPart (chainText mark conditions) :=
  isLeafPart_flatMap (fun c => hmark.append c.isLeafPart_text) conditions

/-- A written modifier is part of a leaf. -/
theorem WrittenModifier.isLeafPart_text (m : WrittenModifier) : IsLeafPart m.text := by
  cases m with
  | explode explosion point =>
      have hmark : IsLeafPart explosion.mark :=
        isLeafPart_marks (by cases explosion <;> decide)
      exact hmark.append (isLeafPart_pointText point)
  | reroll once first more =>
      have hmark : IsLeafPart (rerollMark once) := isLeafPart_marks (by cases once <;> decide)
      exact isLeafPart_chainText hmark (first :: more)
  | meeting keep first more =>
      have hmark : IsLeafPart [selectMark keep] := isLeafPart_marks (by cases keep <;> decide)
      exact isLeafPart_chainText hmark (first :: more)
  | extreme keep highest count =>
      have hmark : IsLeafPart [selectMark keep, if highest then 'h' else 'l'] :=
        isLeafPart_marks (by cases keep <;> cases highest <;> decide)
      exact hmark.append (isLeafPart_countText count)

/-- A written score is part of a leaf. -/
theorem isLeafPart_scoreText (score : Option WrittenScore) : IsLeafPart (scoreText score) := by
  have hf : IsLeafPart ['f'] := isLeafPart_marks (by decide)
  cases score with
  | none => exact .nil
  | some score =>
      cases score with
      | groups counted => cases counted <;> exact isLeafPart_marks (by decide)
      | successes success failure =>
          cases failure with
          | none => exact success.isLeafPart_text
          | some failure => exact success.isLeafPart_text.append (hf.append failure.isLeafPart_text)

/-- Dice are parts of a leaf. -/
theorem WrittenDice.isLeafPart_text (w : WrittenDice) : IsLeafPart w.text := by
  have hd : IsLeafPart ['d'] := isLeafPart_marks (by decide)
  have hfaces : IsLeafPart w.faces.text := by
    cases w.faces with
    | upTo sides positive => exact sides.isLeafPart_text
    | fudge => exact isLeafPart_marks (by decide)
  have hmodifiers := isLeafPart_flatMap WrittenModifier.isLeafPart_text w.modifiers
  have htail := hmodifiers.append (isLeafPart_scoreText w.score)
  exact (isLeafPart_countText w.count).append (hd.append (hfaces.append htail))

/-- Written dice have a text. -/
theorem WrittenDice.text_ne_nil (w : WrittenDice) : w.text ≠ [] := by
  simp [text]

/-! ## Written dice, parsed -/

namespace Expression

/-- What is read from a text in standard form, if its outline is known. -/
theorem parse_of_ofText {text : Text} (hstandard : ∀ c ∈ text, Text.isStandard c = true)
    {outline : Outline} (houtline : Outline.ofText text = .ok outline)
    (hempty : outline.isEmpty = false) : parse text = (ofOutline outline).map some := by
  rw [parse, Text.standardize_of_isStandard hstandard, parseStandard, houtline, ok_bind]
  cases outline with
  | empty => simp [Outline.isEmpty] at hempty
  | leaf | math | group => rfl

/-- A leaf is the expression that is read from its text. -/
theorem ofOutline_of_ofLeaf {text : Text} (hne : text ≠ []) {e : Expression}
    (he : ofLeaf text = .ok e) : ofOutline (.leaf text) = .ok e := by
  rw [ofOutline, if_neg (by simpa using hne), he]

/-- A text that is one leaf is parsed as the expression that is read from it. -/
theorem parse_of_ofLeaf {text : Text} (h : IsLeafPart text) (hne : text ≠ []) {e : Expression}
    (he : ofLeaf text = .ok e) : parse text = .ok (some e) := by
  have houtline : Outline.ofText text = .ok (.leaf text) :=
    Outline.ofText_eq_ok_iff.mpr ⟨_, h.reads hne, rfl⟩
  rw [parse_of_ofText h.isStandard houtline rfl, ofOutline_of_ofLeaf hne he]
  rfl

/-- Written dice are read as a leaf. -/
theorem ofLeaf_written (w : WrittenDice) : ofLeaf w.text = .ok w.expression :=
  (Leaf.takes_readLeaf w).on

/-- Modifiers act in the order in which they are written, and the score acts on them all: any
dice, as they are written, are parsed as the expression they show. -/
theorem parse_written (w : WrittenDice) : parse w.text = .ok (some w.expression) :=
  parse_of_ofLeaf w.isLeafPart_text w.text_ne_nil (ofLeaf_written w)

example : ∃ w : WrittenDice,
    w.text = ['4', 'd', '6', 'r', '<', '-', '1', 'k', '=', '5', 'k', 'h', '3', '>', '4'] ∧
      w.expression = .scored (.successes ⟨.greater, 4⟩ none)
        (.modified (.select true (.extreme true 3))
          (.modified (.select true (.meeting [⟨.equal, 5⟩]))
            (.modified (.reroll [⟨.less, -1⟩] false) (.dice 4 1 6)))) := by
  refine ⟨{
    count := some (.ofNat 4 (by decide))
    faces := .upTo (.ofNat 6 (by decide)) (by decide)
    modifiers := [.reroll false ⟨.less, .ofInt (-1) (by decide)⟩ [],
      .meeting true ⟨.equal, .ofInt 5 (by decide)⟩ [],
      .extreme true true (some (.ofNat 3 (by decide)))]
    separate := by simp [WrittenModifier.Continues]
    score := some (.successes ⟨.greater, .ofInt 4 (by decide)⟩ none)
    apart := by simp [WrittenModifier.TakesIn] }, rfl, rfl⟩

end Expression
end DiceNotation

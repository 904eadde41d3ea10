import DiceNotation.Proofs.Expression.Compound
import DiceNotation.Proofs.Outline.Folding

/-!
# Literals, read

An integer as it is written is read as that integer, and a formula of such integers as the
expression that its grouping shows.

Main definitions:

- `Grouping.expression`: the expression of a grouping of terms.

Main results:

- `Leaf.run_readNumeral`: a numeral is read to its last digit.
- `Expression.ofLeaf_literal`: a literal is read as a number.
- `Expression.parse_termsText`: what is read from a formula with brackets.
-/

namespace DiceNotation

/-! ## Numerals -/

namespace Leaf

variable {digits rest : Text}

/-- A numeral is read up to the first character that may not belong to it. -/
theorem run_readNumeral_cons {c : Char} (hc : isIntegerCharacter c = true)
    (hdigits : ∀ d ∈ digits, d.isDigit = true) (hsign : c = '-' → digits ≠ [])
    (hrest : ∀ d ∈ rest.head?, isIntegerCharacter d = false) (behind : Text) (past : Nat) :
    readNumeral.run ⟨behind, c :: digits ++ rest, past⟩ =
      .ok (c :: digits) ⟨(c :: digits).reverse ++ behind, rest, past⟩ := by
  have hstop : ∀ d, rest.head? = some d → d.isDigit = false ∧ d ≠ '-' := by
    intro d hd
    simpa [isIntegerCharacter, and_comm] using hrest d hd
  have htake : (digits ++ rest).takeWhile Char.isDigit = digits := by
    rw [List.takeWhile_append_of_pos hdigits]
    cases rest with
    | nil => simp
    | cons d rest => simp [(hstop d rfl).1]
  have hdrop : (digits ++ rest).dropWhile Char.isDigit = rest := by
    rw [List.dropWhile_append_of_pos hdigits]
    cases rest with
    | nil => rfl
    | cons d rest => simp [(hstop d rfl).1]
  have hhead : rest.head? ≠ some '-' := fun h => (hstop _ h).2 rfl
  have hsigned : ¬ (c = '-' ∧ digits = []) := fun h => hsign h.1 h.2
  simp [readNumeral, hc, Cursor.head?, Cursor.next, Cursor.skipWhile, htake, hdrop, hhead,
    if_neg hsigned]

/-- A literal is read up to the first character that may not belong to it. -/
theorem run_readNumeral {numeral : Text} (h : Outline.IsLiteral numeral)
    (hrest : ∀ d ∈ rest.head?, isIntegerCharacter d = false) (behind : Text) (past : Nat) :
    readNumeral.run ⟨behind, numeral ++ rest, past⟩ =
      .ok numeral ⟨numeral.reverse ++ behind, rest, past⟩ := by
  obtain ⟨digits, hne, hdigits, rfl | rfl⟩ := Outline.digits_of_isLiteral h
  · cases numeral with
    | nil => exact absurd rfl hne
    | cons c digits =>
        obtain ⟨hc, hmore⟩ := List.forall_mem_cons.mp hdigits
        refine run_readNumeral_cons (by simp [isIntegerCharacter, hc]) hmore ?_ hrest behind past
        rintro rfl
        simp at hc
  · exact run_readNumeral_cons rfl hdigits (fun _ => hne) hrest behind past

/-- At the end of a text the demand that it end is met. -/
@[simp]
theorem run_requireEnd_nil (behind : Text) (past : Nat) :
    requireEnd.run ⟨behind, [], past⟩ = .ok () ⟨behind, [], past⟩ := rfl

end Leaf

namespace Expression

/-- A literal is read as the number it shows. -/
theorem ofLeaf_literal {text : Text} (h : Outline.IsLiteral text) :
    ofLeaf text = do
      let value ← Numeral.read text
      let shown ← Numeral.write value
      return .number (.int value) shown := by
  cases text with
  | nil => exact absurd rfl (Outline.isOperand_of_isLiteral h).ne_nil
  | cons c tail =>
      have hc : c ≠ 'd' := by
        rcases Outline.mem_of_isLiteral h (List.mem_cons_self ..) with rfl | hdigit
        · decide
        · exact Outline.isDigit_ne hdigit rfl
      have hrun : Leaf.readNumeral.run ⟨[], (c :: tail) ++ [], 0⟩ = _ :=
        Leaf.run_readNumeral h (by simp) [] 0
      rw [List.append_nil] at hrun
      rw [ofLeaf, Reader.on, Cursor.ofText, Leaf.readLeaf]
      simp [Cursor.requireMore, Cursor.head?, hc, hrun, -bind_pure_comp]
      cases hread : Numeral.read (c :: tail) with
      | error fault => simp
      | ok value =>
          cases hwrite : Numeral.write value <;> simp [hwrite]

end Expression

/-! ## Formulas -/

open Outline (Term IsLiteral IsTerms)

namespace Grouping

/-- The expression of a grouping of terms. -/
def expression : Grouping Term → Except Fault Expression
  | .operand term => do
    let e ← Expression.ofLeaf term.literal
    return if term.bracketed then .bracket e else e
  | .apply op left right => do
    let first ← left.expression
    let second ← right.expression
    return .binary op first second

/-- A formula of literals is no empty slot. -/
theorem isEmpty_outline {grouping : Grouping Term}
    (h : grouping.All fun term => IsLiteral term.literal) :
    (grouping.outline Term.outline).isEmpty = false := by
  cases grouping with
  | operand term => exact (Outline.whole_of_isLiteral h).2
  | apply => rfl

/-- The outline of a grouping is read as the expression of the grouping. -/
theorem ofOutline_outline {grouping : Grouping Term}
    (h : grouping.All fun term => IsLiteral term.literal) :
    Expression.ofOutline (grouping.outline Term.outline) = grouping.expression := by
  induction grouping with
  | operand term =>
      obtain ⟨literal, bracketed⟩ := term
      have hne := (Outline.isOperand_of_isLiteral h).ne_nil
      cases bracketed with
      | false =>
          simp [outline, Term.outline, Outline.slot, expression, Expression.ofOutline, hne]
          cases Expression.ofLeaf literal <;> rfl
      | true =>
          simp [outline, Term.outline, Outline.bracketed, expression, Expression.ofOutline,
            Expression.ofOutlines, Expression.ofGroup, Expression.enclosed, hne]
  | apply op left right ihleft ihright =>
      obtain ⟨hop, hleft, hright⟩ := h
      simp [outline, expression, Expression.ofOutline, isEmpty_outline hleft,
        isEmpty_outline hright, ihleft hleft, ihright hright, Expression.ofSymbol?_symbol hop]

end Grouping

namespace Outline

/-- The characters of formulas. -/
def isFormulaCharacter (c : Char) : Bool :=
  c.isDigit || ['+', '-', '*', '/', '%', '^', '(', ')'].contains c

/-- Characters of formulas are in standard form. -/
theorem isStandard_of_isFormulaCharacter {c : Char} (h : isFormulaCharacter c = true) :
    Text.isStandard c = true := by
  have hsmall : ∀ n : Fin 128, isFormulaCharacter (Char.ofNat n) = true →
      Text.isStandard (Char.ofNat n) = true := by
    decide +kernel
  have hc : c.toNat < 128 := by
    simp only [isFormulaCharacter, Bool.or_eq_true, List.contains_iff_mem, List.mem_cons,
      List.not_mem_nil, or_false] at h
    rcases h with hdigit | hsymbol
    · simp only [Char.isDigit, Bool.and_eq_true, decide_eq_true_eq] at hdigit
      have hle : c.toNat ≤ '9'.toNat := hdigit.2
      exact Nat.lt_of_le_of_lt hle (by decide)
    · rcases hsymbol with rfl | rfl | rfl | rfl | rfl | rfl | rfl | rfl <;> decide
  have hstandard := hsmall ⟨c.toNat, hc⟩
  rw [Char.ofNat_toNat] at hstandard
  exact hstandard h

/-- Operators are characters of formulas. -/
theorem isFormulaCharacter_mark {op : BinaryOp} (h : op ≠ .undefined) :
    isFormulaCharacter op.mark = true := by
  cases op with
  | undefined => exact absurd rfl h
  | add | subtract | multiply | divide | remainder | power => rfl

/-- A formula is in standard form. -/
theorem standardize_termsText {first : Term} {rest : List (BinaryOp × Term)}
    (hfirst : IsLiteral first.literal) (hrest : IsTerms rest) :
    (termsText first rest).standardize = termsText first rest := by
  have hterm : ∀ term : Term, IsLiteral term.literal → ∀ c ∈ term.text,
      isFormulaCharacter c = true := by
    rintro ⟨literal, bracketed⟩ hliteral c hc
    have hmem : c ∈ literal → isFormulaCharacter c = true := by
      intro hc
      rcases mem_of_isLiteral hliteral hc with rfl | hdigit
      · rfl
      · simp [isFormulaCharacter, hdigit]
    cases bracketed with
    | false => exact hmem hc
    | true =>
        simp only [Term.text, if_true, List.cons_append, List.mem_cons, List.mem_append,
          List.not_mem_nil, or_false] at hc
        rcases hc with rfl | hc | rfl
        · rfl
        · exact hmem hc
        · rfl
  refine Text.standardize_of_isStandard fun c hc => isStandard_of_isFormulaCharacter ?_
  rw [termsText, formulaText_flatMap, List.flatMap_map, List.mem_append, List.mem_flatMap] at hc
  rcases hc with hc | ⟨next, hnext, hc⟩
  · exact hterm first hfirst c hc
  · obtain ⟨hop, hliteral⟩ := hrest next hnext
    rcases List.mem_append.mp hc with hc | hc
    · rw [BinaryOp.symbol_eq_mark hop, List.mem_singleton] at hc
      rw [hc]
      exact isFormulaCharacter_mark hop
    · exact hterm next.2 hliteral c hc

end Outline

namespace Expression

/-- A formula with brackets is read as the expression of its grouping. -/
theorem parse_termsText {first : Term} {rest : List (BinaryOp × Term)}
    (hfirst : IsLiteral first.literal) (hrest : IsTerms rest) :
    parse (Outline.termsText first rest) = do
      let e ← (Outline.folded first rest).expression
      return some e := by
  have hall : (Outline.folded first rest).All fun term => IsLiteral term.literal :=
    Outline.all_folded_iff.mpr ⟨hfirst, hrest⟩
  have hempty := Grouping.isEmpty_outline hall
  rw [parse, Outline.standardize_termsText hfirst hrest, parseStandard,
    Outline.ofText_termsText hfirst hrest, ok_bind, ← Grouping.ofOutline_outline hall]
  cases houtline : (Outline.folded first rest).outline Term.outline with
  | empty => simp [houtline, Outline.isEmpty] at hempty
  | leaf | math | group => rfl

end Expression
end DiceNotation

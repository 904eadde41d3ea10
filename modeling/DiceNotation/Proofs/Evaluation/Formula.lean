import DiceNotation.Proofs.Evaluation.Compound
import DiceNotation.Proofs.Expression.Literal

/-!
# Formulas, evaluated

The outcome of a formula of integers, some of them in brackets, is the value of its
grouping; it takes no dice and no draws.

Main definitions:

- `Grouping.value`: the value of a grouping of terms.

Main results:

- `Expression.run_resolve_termsText`: the outcome of a formula.
-/

namespace DiceNotation

open Outline (Term IsLiteral IsTerms)

namespace Grouping

/-- The value of a grouping of terms. -/
def value : Grouping Term → Except Fault Number
  | .operand term => .ok (.int (Numeral.value term.literal))
  | .apply op left right => do
    let a ← left.value
    let b ← right.value
    op.apply a b

/-- A term that is read: its literal is not too long. -/
def Readable (term : Term) : Prop := ∃ e, Expression.ofLeaf term.literal = .ok e

/-- A grouping has an expression exactly if its terms are read. -/
theorem expression_eq_ok_iff {grouping : Grouping Term}
    (h : grouping.All fun term => IsLiteral term.literal) :
    (∃ e, grouping.expression = .ok e) ↔ grouping.All Readable := by
  induction grouping with
  | operand term =>
      simp only [expression, bind_eq_ok_iff, All, Readable]
      constructor
      · rintro ⟨_, e, he, -⟩
        exact ⟨e, he⟩
      · rintro ⟨e, he⟩
        exact ⟨_, e, he, rfl⟩
  | apply op left right ihleft ihright =>
      simp only [expression, bind_eq_ok_iff, All]
      rw [← ihleft h.2.1, ← ihright h.2.2]
      constructor
      · rintro ⟨_, first, hfirst, second, hsecond, -⟩
        exact ⟨h.1, ⟨first, hfirst⟩, second, hsecond⟩
      · rintro ⟨-, ⟨first, hfirst⟩, second, hsecond⟩
        exact ⟨_, first, hfirst, second, hsecond, rfl⟩

end Grouping

namespace Expression

variable {table : Table} {markup : Markup}

/-- What a number yields. -/
theorem run_outcomeOf_number {value : Int} {shown : Text} (h : Numeral.write value = .ok shown)
    (tally : Tally) :
    (outcomeOf table markup (.number (.int value) shown)).run tally =
      .ok { value := .int value, text := shown } tally := by
  by_cases hempty : shown.isEmpty = true
  · simp [outcomeOf, evaluate, hempty, Number.text, h]
  · simp [outcomeOf, evaluate, hempty]

variable (table markup) in
/-- The outcome of a literal that is read. -/
theorem run_outcomeOf_literal {literal : Text} (h : IsLiteral literal) {e : Expression}
    (he : ofLeaf literal = .ok e) (tally : Tally) :
    e.shape = .number ∧ ∃ text, (outcomeOf table markup e).run tally =
      .ok { value := .int (Numeral.value literal), text } tally := by
  rw [ofLeaf_literal h, bind_eq_ok_iff] at he
  obtain ⟨value, hread, he⟩ := he
  rw [bind_eq_ok_iff] at he
  obtain ⟨shown, hwrite, heq⟩ := he
  cases heq
  have hvalue : Numeral.value literal = value := by
    unfold Numeral.read at hread
    split at hread
    · simp at hread
    · exact Except.ok.inj hread
  exact ⟨by simp [shape], shown, by rw [hvalue, run_outcomeOf_number hwrite]⟩

variable (table markup) in
/-- The outcome of the expression of a grouping: a plain number, or the fault of an operator. -/
theorem run_outcomeOf_expression {grouping : Grouping Term}
    (h : grouping.All fun term => IsLiteral term.literal) {e : Expression}
    (he : grouping.expression = .ok e) (tally : Tally) :
    e.shape = .number ∧ ∃ text, (outcomeOf table markup e).run tally =
      match grouping.value with
      | .ok value => .ok { value, text } tally
      | .error fault => .error fault tally := by
  induction grouping generalizing e with
  | operand term =>
      obtain ⟨literal, bracketed⟩ := term
      rw [Grouping.expression, bind_eq_ok_iff] at he
      obtain ⟨leaf, hleaf, heq⟩ := he
      obtain ⟨hshape, text, hrun⟩ := run_outcomeOf_literal table markup h hleaf tally
      cases heq
      cases bracketed with
      | false => exact ⟨hshape, text, hrun⟩
      | true =>
          obtain ⟨text, hbracket⟩ := run_outcomeOf_bracket hrun
          exact ⟨by simpa using hshape, text, hbracket⟩
  | apply op left right ihleft ihright =>
      rw [Grouping.expression, bind_eq_ok_iff] at he
      obtain ⟨first, hfirst, he⟩ := he
      rw [bind_eq_ok_iff] at he
      obtain ⟨second, hsecond, heq⟩ := he
      cases heq
      obtain ⟨hshape, text, hleft⟩ := ihleft h.2.1 hfirst
      obtain ⟨-, text', hright⟩ := ihright h.2.2 hsecond
      have hnumber : (Expression.binary op first second).shape = .number := by
        cases op <;> simp [shape, hshape]
      refine ⟨hnumber, text ++ [' '] ++ markup.operator op.symbol ++ [' '] ++ text', ?_⟩
      rw [outcomeOf_binary (by simp [hnumber]), Grouping.value]
      cases hvalue : left.value with
      | error fault => simp [hleft, hvalue]
      | ok a =>
          cases hvalue' : right.value with
          | error fault => simp [hleft, hright, hvalue, hvalue']
          | ok b =>
              cases happly : op.apply a b <;>
                simp [hleft, hright, hvalue, hvalue', BinaryOp.outcome, happly]

/-- A formula has an outcome exactly if its literals are read and its grouping has a value. -/
theorem run_resolve_termsText {first : Term} {rest : List (BinaryOp × Term)}
    (hfirst : IsLiteral first.literal) (hrest : IsTerms rest) (tally tally' : Tally)
    (value : Number) :
    (∃ outcome, (resolve table markup (Outline.termsText first rest)).run tally =
        .ok outcome tally' ∧ outcome.value = value) ↔
      (Outline.folded first rest).All Grouping.Readable ∧
        (Outline.folded first rest).value = .ok value ∧ tally' = tally := by
  have hall : (Outline.folded first rest).All fun term => IsLiteral term.literal :=
    Outline.all_folded_iff.mpr ⟨hfirst, hrest⟩
  have hparse := parse_termsText hfirst hrest
  rw [← Grouping.expression_eq_ok_iff hall]
  cases he : (Outline.folded first rest).expression with
  | error fault =>
      rw [he, error_bind] at hparse
      simp [resolve, hparse]
  | ok e =>
      rw [he, ok_bind] at hparse
      obtain ⟨-, text, hrun⟩ := run_outcomeOf_expression table markup hall he tally
      rw [run_resolve_of_parse hparse, hrun]
      cases hvalue : (Outline.folded first rest).value with
      | error fault => simp
      | ok number =>
          constructor
          · rintro ⟨_, ⟨rfl, rfl⟩, rfl⟩
            exact ⟨⟨e, rfl⟩, rfl, rfl⟩
          · rintro ⟨-, ⟨rfl⟩, rfl⟩
            exact ⟨_, rfl, rfl⟩

end Expression
end DiceNotation

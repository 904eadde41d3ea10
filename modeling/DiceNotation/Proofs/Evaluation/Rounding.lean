import DiceNotation.Proofs.Evaluation.Compound
import DiceNotation.Proofs.Number.Halves

/-!
# Rounding expressions

The functions that round to an integer are laid over expressions whose value is an integer already:
over an expression with such a value, or over one another.  Integers are exact, and `floor`, `ceil`
and `abs` take them as they are; but `round` goes through a binary64 sum, which not all integers
survive.

Main definitions:

- `UnaryOp.IsRounding`: the functions that round to an integer.

Main results:

- `UnaryOp.apply_int_iff`, `UnaryOp.exists_int_of_apply`: what these leave alone, and what they
  yield.
- `Expression.run_outcomeOf_unary_iff`: the outcome of a function.
- `Expression.rounding_leaves_integers`: what is left alone by one of them, and by two in a row.
- `Expression.rounding_raises_odd`: an integer that `round` does not leave alone.
-/

namespace DiceNotation

/-- Whether arithmetic that an expression asked for succeeds. -/
theorem ArithmeticFault.guarded_eq_ok_iff {α : Type} {x : Except ArithmeticFault α} {a : α} :
    guarded x = .ok a ↔ x = .ok a := by
  cases x with
  | ok b => simp
  | error cause => simp [guarded, Except.mapError]

namespace UnaryOp

open Number

/-- The functions that round to an integer. -/
def IsRounding (op : UnaryOp) : Prop := op = .floor ∨ op = .ceiling ∨ op = .round

/-- Which integers a rounding function leaves alone. -/
theorem apply_int_iff {op : UnaryOp} (h : op.IsRounding) {n : Int} :
    op.apply (.int n) = .ok (.int n) ↔ (op = .round → SurvivesRounding n) := by
  obtain rfl | rfl | rfl := h
  · simp
  · simp
  · rw [← roundHalfUp_int_iff, apply, ArithmeticFault.guarded_eq_ok_iff]
    simp

/-- A rounding function yields an integer, and `round` one that it leaves alone. -/
theorem exists_int_of_apply {op : UnaryOp} (h : op.IsRounding) {a b : Number}
    (hb : op.apply a = .ok b) : ∃ n, b = .int n ∧ (op = .round → SurvivesRounding n) := by
  obtain rfl | rfl | rfl := h
  · rw [apply, ArithmeticFault.guarded_eq_ok_iff] at hb
    cases a with
    | int n => exact ⟨n, (Except.ok.inj hb).symm, by simp⟩
    | real x =>
        obtain ⟨n, -, hn⟩ := bind_eq_ok_iff.mp hb
        exact ⟨n, (Except.ok.inj hn).symm, by simp⟩
  · rw [apply, ArithmeticFault.guarded_eq_ok_iff] at hb
    cases a with
    | int n => exact ⟨n, (Except.ok.inj hb).symm, by simp⟩
    | real x =>
        obtain ⟨n, -, hn⟩ := bind_eq_ok_iff.mp hb
        exact ⟨n, (Except.ok.inj hn).symm, by simp⟩
  · rw [apply, ArithmeticFault.guarded_eq_ok_iff] at hb
    obtain ⟨n, hn, hsurvives⟩ := survivesRounding_of_roundHalfUp hb
    exact ⟨n, hn, fun _ => hsurvives⟩

end UnaryOp

namespace Expression

variable {table : Table} {markup : Markup} {e : Expression} {tally tally' : Tally}

/-- A function takes the outcome of its operand. -/
theorem outcomeOf_unary (op : UnaryOp) (e : Expression) :
    outcomeOf table markup (.unary op e) = (do
      let operand ← outcomeOf table markup e
      Roll.lift (op.outcome operand)) := by
  have hlift : ∀ outcome : Outcome, Roll.lift (.ok outcome) = (pure outcome : Roll Outcome) :=
    fun _ => rfl
  simp [outcomeOf, evaluate, hlift]

/-- The outcome of a function that has one. -/
theorem exists_operand {op : UnaryOp} {b : Outcome}
    (h : (outcomeOf table markup (.unary op e)).run tally = .ok b tally') :
    ∃ a, (outcomeOf table markup e).run tally = .ok a tally' ∧ op.apply a.value = .ok b.value := by
  rw [outcomeOf_unary, run_bind_eq_ok_iff] at h
  obtain ⟨a, later, ha, hb⟩ := h
  rw [Roll.run_lift_eq_ok_iff] at hb
  obtain ⟨hb, rfl⟩ := hb
  obtain ⟨value, hvalue, hb⟩ := bind_eq_ok_iff.mp hb
  obtain rfl := Except.ok.inj hb
  exact ⟨a, ha, hvalue⟩

/-- A function changes the value and the text of its operand, and nothing else. -/
theorem run_outcomeOf_unary_iff (op : UnaryOp) (value : Number) {a : Outcome}
    (h : (outcomeOf table markup e).run tally = .ok a tally') :
    (∃ text, (outcomeOf table markup (.unary op e)).run tally =
      .ok { a with value, text } tally') ↔ op.apply a.value = .ok value := by
  constructor
  · rintro ⟨text, hrun⟩
    obtain ⟨b, hb, hvalue⟩ := exists_operand hrun
    obtain ⟨rfl, -⟩ := EStateM.Result.ok.inj (h.symm.trans hb)
    exact hvalue
  · intro hvalue
    obtain ⟨text, hrun⟩ := run_outcomeOf_around op h
    exact ⟨text, by rw [hrun, hvalue]⟩

/-- Where there is an expression, there is text. -/
theorem standardize_ne_nil_of_parse {text : Text} (h : parse text = .ok (some e)) :
    text.standardize ≠ [] := by
  intro hnil
  rw [parse, hnil] at h
  cases h

/-- Rounding leaves integers alone, of any size: an expression with an integer for its value keeps
it under `floor` and `ceil`, and has its magnitude under `abs`.  Under `round` it keeps it exactly
if the integer survives the sum with one half, which is a binary64 number.  The same holds of two of
these in a row: the second leaves alone what the first yields, unless it is `round` behind another,
and what that yields does not survive. -/
theorem rounding_leaves_integers (table : Table) (markup : Markup) (e : Expression) :
    (∀ tally tally' a n, (outcomeOf table markup e).run tally = .ok a tally' → a.value = .int n →
      (∀ op : UnaryOp, op.IsRounding →
        ((∃ text, (outcomeOf table markup (.unary op e)).run tally =
            .ok { a with text } tally') ↔
          (op = .round → Number.SurvivesRounding n))) ∧
      ∃ text, (outcomeOf table markup (.unary .magnitude e)).run tally =
        .ok { a with value := .int n.natAbs, text } tally') ∧
    (∀ first second : UnaryOp, first.IsRounding → second.IsRounding → ∀ tally tally' b,
      (outcomeOf table markup (.unary first e)).run tally = .ok b tally' →
      ∃ n, b.value = .int n ∧
        ((∃ text, (outcomeOf table markup (.unary second (.unary first e))).run tally =
            .ok { b with text } tally') ↔
          (second = .round → first = .round ∨ Number.SurvivesRounding n))) ∧
    ∀ text, parse text = .ok (some e) → ∀ op : UnaryOp, op ≠ .undefined → ∀ tally,
      (resolve table markup (op.around text)).run tally =
        (outcomeOf table markup (.unary op e)).run tally := by
  refine ⟨?_, ?_, ?_⟩
  · rintro tally tally' a n hrun hn
    refine ⟨fun op hop => ?_, (run_outcomeOf_unary_iff _ _ hrun).mpr (by rw [hn]; rfl)⟩
    have hiff := run_outcomeOf_unary_iff op a.value hrun
    rwa [hn, UnaryOp.apply_int_iff hop, ← hn] at hiff
  · rintro first second hfirst hsecond tally tally' b hrun
    obtain ⟨a, -, hvalue⟩ := exists_operand hrun
    obtain ⟨n, hn, hsurvives⟩ := UnaryOp.exists_int_of_apply hfirst hvalue
    refine ⟨n, hn, ?_⟩
    have hiff := run_outcomeOf_unary_iff second b.value hrun
    rw [hn, UnaryOp.apply_int_iff hsecond, ← hn] at hiff
    rw [hiff]
    exact forall_congr' fun _ => ⟨.inr, fun h => h.elim hsurvives id⟩
  · rintro text hparse op hop tally
    exact run_resolve_of_parse (parse_around hop (standardize_ne_nil_of_parse hparse) hparse) tally

/-- A power of two is left alone, also past the integers that all are binary64 numbers. -/
theorem rounding_leaves_power :
    (∃ text, (resolve halves .plain (UnaryOp.round.around ['2', '^', '6', '0'])).run {} =
      .ok { value := .int (2 ^ 60), text } {}) ∧
    ∃ e text, parse ['2', '^', '6', '0'] = .ok (some e) ∧
      (outcomeOf halves .plain (.unary .ceiling (.unary .round e))).run {} =
        .ok { value := .int (2 ^ 60), text } {} := by
  have hresolve : (resolve halves .plain ['2', '^', '6', '0']).run {} =
      .ok { value := .int (2 ^ 60), text := ['2', ' ', '^', ' ', '6', '0'] } {} := by
    decide +kernel
  have hsurvives : Number.SurvivesRounding (2 ^ 60) :=
    .inr ⟨by decide, .finite false ⟨1083 * 2 ^ 52, by decide⟩, by decide +kernel⟩
  obtain ⟨e, hparse, hrun⟩ := exists_parse_of_resolve (by decide +kernel) hresolve
  obtain ⟨hkeeps, hrow, htexts⟩ := rounding_leaves_integers halves .plain e
  obtain ⟨text, hround⟩ :=
    ((hkeeps _ _ _ _ hrun rfl).1 .round (.inr (.inr rfl))).mpr fun _ => hsurvives
  obtain ⟨n, -, hceiling⟩ := hrow .round .ceiling (.inr (.inr rfl)) (.inr (.inl rfl)) _ _ _ hround
  obtain ⟨text', hceiling⟩ := hceiling.mpr (by simp)
  exact ⟨⟨text, (htexts _ hparse .round (by decide) _).trans hround⟩, e, text', hparse, hceiling⟩

/-- An odd integer of 53 bits is raised to the next one. -/
theorem rounding_raises_odd :
    (resolve halves .plain (Numeral.ofInt (2 ^ 52 + 1))).run {} =
      .ok { value := .int (2 ^ 52 + 1), text := Numeral.ofInt (2 ^ 52 + 1) } {} ∧
    (resolve halves .plain (UnaryOp.round.around (Numeral.ofInt (2 ^ 52 + 1)))).run {} =
      .ok { value := .int (2 ^ 52 + 2)
            text := UnaryOp.round.around (Numeral.ofInt (2 ^ 52 + 1)) } {} := by
  decide +kernel

end Expression
end DiceNotation

import DiceNotation.Evaluation.Basic
import DiceNotation.Proofs.Dice.Draws

/-!
# What an evaluation reckons

Between rolls an evaluation works with numbers and texts: it writes values down, adds and compares
them, and looks at the shapes of operands.  Any of this may fail, but not as rolling does: no limit
is passed, no draw is missing, and nothing goes on without end.
-/

namespace DiceNotation

open Fault (Unrolled unrolled_ok)

/-! ## Numbers -/

/-- Writing a numeral is no rolling. -/
theorem Numeral.unrolled_write (n : Int) : Unrolled (Numeral.write n) := by
  unfold Numeral.write
  split
  · exact fun h => h
  · trivial

/-- Nor is writing a number. -/
theorem Number.unrolled_text (value : Number) : Unrolled value.text := by
  cases value with
  | int n => exact Numeral.unrolled_write n
  | real x => trivial

/-- Guarded arithmetic is no rolling. -/
theorem ArithmeticFault.unrolled_guarded {α : Type} (x : Except ArithmeticFault α) :
    Unrolled (guarded x) := by
  cases x with
  | ok result => trivial
  | error cause => exact fun h => h

/-! ## Values -/

namespace Die

/-- Writing the rolls of a die is no rolling. -/
theorem unrolled_bareText (die : Die) : Unrolled die.bareText := by
  have hroll : ∀ roll, Unrolled (rollText roll) := by
    intro roll
    unfold rollText
    exact (Numeral.unrolled_write roll).bind fun numeral => unrolled_ok _
  have hsum : Unrolled die.sumText := by
    unfold sumText
    exact (Numeral.unrolled_write die.value).bind fun numeral => unrolled_ok _
  unfold bareText
  split
  · exact fun h => h
  · next first rest _ =>
      refine (Numeral.unrolled_write first).bind fun head => ?_
      refine (Unrolled.mapM hroll).bind fun tail => ?_
      dsimp only
      split
      · exact unrolled_ok _
      · exact hsum.bind fun sum => unrolled_ok _

/-- Nor is making an outcome of a die. -/
theorem unrolled_outcome (die : Die) (markup : Markup) : Unrolled (die.outcome markup) := by
  unfold outcome text
  exact (die.unrolled_bareText.bind fun bare => unrolled_ok _).bind fun text => unrolled_ok _

end Die

namespace Value

/-- Nor is taking the entries of a value. -/
theorem unrolled_entries (value : Value) (markup : Markup) :
    Unrolled (value.entries markup) := by
  cases value with
  | single outcome => trivial
  | list outcomes => trivial
  | pool dice =>
      unfold entries Outcome.ofPool
      exact Unrolled.mapM fun die => die.unrolled_outcome markup

/-- Taking the total of a value is no rolling. -/
theorem unrolled_collapse (value : Value) (markup : Markup) :
    Unrolled (value.collapse markup) := by
  have htotal : Unrolled (do
      let outcomes ← value.entries markup
      if outcomes.isEmpty then throw (.impossible .totalOfNothing)
      total outcomes) := by
    refine (value.unrolled_entries markup).bind fun outcomes => ?_
    dsimp only
    split
    · exact fun h => h
    · unfold total
      exact (ArithmeticFault.unrolled_unguarded _).bind fun sum => unrolled_ok _
  cases value with
  | single outcome => trivial
  | pool dice => exact htotal
  | list outcomes => exact htotal

end Value

/-! ## Operations -/

/-- A score is no rolling. -/
theorem Score.unrolled_apply (score : Score) (markup : Markup) (isDie : Bool)
    (entries : List Outcome) : Unrolled (score.apply markup isDie entries) := by
  cases score with
  | groups counted =>
      unfold apply matching
      dsimp only
      split
      · exact fun h => h
      · split
        · trivial
        · exact (ArithmeticFault.unrolled_unguarded _).bind fun sum => unrolled_ok _
  | successes success failure =>
      unfold apply counting
      dsimp only
      split
      · exact fun h => h
      · trivial

/-- Nor is a function. -/
theorem UnaryOp.unrolled_outcome (op : UnaryOp) (operand : Outcome) :
    Unrolled (op.outcome operand) := by
  have happly : Unrolled (op.apply operand.value) := by
    cases op with
    | magnitude => trivial
    | undefined => exact fun h => h
    | floor | ceiling | round => exact ArithmeticFault.unrolled_guarded _
  unfold outcome
  exact happly.bind fun value => unrolled_ok _

/-- Nor is an operator. -/
theorem BinaryOp.unrolled_outcome (op : BinaryOp) (markup : Markup) (left right : Outcome) :
    Unrolled (op.outcome markup left right) := by
  have happly : Unrolled (op.apply left.value right.value) := by
    cases op with
    | undefined => exact fun h => h
    | _ => exact ArithmeticFault.unrolled_guarded _
  unfold outcome
  exact happly.bind fun value => unrolled_ok _

namespace Expression

/-- Asking for dice is no rolling. -/
theorem unrolled_demand (owner operand : Expression) : Unrolled (demand owner operand) := by
  unfold demand
  split
  · trivial
  · exact fun h => h

end Expression
end DiceNotation

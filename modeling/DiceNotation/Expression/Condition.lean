import DiceNotation.Number.Basic

/-!
# Conditions

Modifiers and scores select values by comparing them with an integer: `=5`, `<2`, `>7`.

Main results:

- `Condition.anyHolds_append`: one of several conditions is enough.
-/

namespace DiceNotation

/-- How a value is compared. -/
inductive Comparison where
  | equal
  | less
  | greater
deriving Repr, DecidableEq

namespace Comparison

/-- The mark of a comparison. -/
def mark : Comparison → Char
  | .equal => '='
  | .less => '<'
  | .greater => '>'

/-- The comparison with a mark. -/
def ofMark? : Char → Option Comparison
  | '=' => some .equal
  | '<' => some .less
  | '>' => some .greater
  | _ => none

@[simp]
theorem ofMark?_mark (comparison : Comparison) : ofMark? comparison.mark = some comparison := by
  cases comparison <;> rfl

end Comparison

/-- A comparison with an integer. -/
structure Condition where
  comparison : Comparison
  target : Int
deriving Repr, DecidableEq

namespace Condition

/-- A condition as it is written. -/
def written (condition : Condition) : Text :=
  condition.comparison.mark :: Numeral.ofInt condition.target

/-- Whether a value satisfies a condition. -/
def holdsFor (condition : Condition) (value : Number) : Bool :=
  match condition.comparison with
  | .equal => value.eqv (.int condition.target)
  | .less => value.lt (.int condition.target)
  | .greater => (Number.int condition.target).lt value

/-- Whether a value satisfies one of several conditions. -/
def anyHolds (conditions : List Condition) (value : Number) : Bool :=
  conditions.any fun condition => condition.holdsFor value
@[simp]
theorem anyHolds_append (xs ys : List Condition) (value : Number) :
    anyHolds (xs ++ ys) value = (anyHolds xs value || anyHolds ys value) := by
  simp [anyHolds]

end Condition
end DiceNotation

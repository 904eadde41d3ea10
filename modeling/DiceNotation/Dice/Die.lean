import DiceNotation.Dice.Table

/-!
# Dice

A die remembers every roll that has contributed to it, the ones it grew by and the `-1` of
a penetrating explosion included, so that its value is always the sum of its rolls.  A
discarded die keeps its rolls.

Main definitions:

- `Faces`, `Die`: what a die can show, and a die with its rolls.
- `Die.value`: the sum of the rolls.
- `Table.rollLike`, `Table.rollDice`: fresh dice, drawn.

Main results:

- `Die.value_addResult`: a result adds to the value.
- `Die.fresh_addResult`: a fresh die has the faces of the old one and nothing else.
-/

namespace DiceNotation

/-- What a die can show: a range of integers, or listed ones. -/
inductive Faces where
  | range (least greatest : Int)
  | listed (values : List Int)
deriving Repr, DecidableEq

/-- A die and every roll that has contributed to it. -/
structure Die where
  faces : Faces
  rolls : List Int := []
  discarded : Bool := false
  exploded : Bool := false
deriving Repr, DecidableEq

namespace Die

/-- The value of a die is the sum of its rolls. -/
def value (die : Die) : Int := die.rolls.sum

/-- The roll from which a die explodes by itself; listed faces have none. -/
def threshold? (die : Die) : Option Int :=
  match die.faces with
  | .range _ greatest => some greatest
  | .listed _ => none

/-- A die with the same faces that has not been rolled. -/
def fresh (die : Die) : Die := { faces := die.faces }

/-- A further result of a die. -/
def addResult (die : Die) (result : Int) : Die := { die with rolls := die.rolls ++ [result] }

@[simp]
theorem value_addResult (die : Die) (result : Int) :
    (die.addResult result).value = die.value + result := by
  simp [value, addResult]

@[simp]
theorem fresh_addResult (die : Die) (result : Int) :
    (die.addResult result).fresh = die.fresh := rfl

@[simp]
theorem value_fresh (die : Die) : die.fresh.value = 0 := rfl

end Die

namespace Table

/-- One of the faces, drawn. -/
def drawFace (table : Table) : Faces → Roll Int
  | .range least greatest => table.draw least greatest
  | .listed values => do
    let place ← table.draw 0 (values.length - 1)
    match Text.atPlace? values place with
    | some face => return face
    | none => throw .noSuchPlace

/-- A die with one more roll. -/
def addRoll (table : Table) (die : Die) : Roll Die := do
  let result ← table.drawFace die.faces
  return die.addResult result

/-- A fresh die with the faces of another, rolled once. -/
def rollLike (table : Table) (die : Die) : Roll Die := table.addRoll die.fresh

/-- Several dice, each rolled once, in turn. -/
def rollDice (table : Table) (faces : Faces) : Nat → Roll (List Die)
  | 0 => return []
  | count + 1 => do
    let die ← table.addRoll { faces }
    let others ← table.rollDice faces count
    return die :: others

end Table
end DiceNotation

import DiceNotation.Expression.Leaf

/-!
# Loops of readers

Modifiers, and the further conditions of one, are read as long as another follows.  All of them are
read by one loop, over a step that finds the next item if there is one.

Main definitions:

- `Leaf.Repeats`: loops that take one item after another, as long as a step finds one.
- `Leaf.readRerollCondition?`, `Leaf.readSelectCondition?`: steps that find further conditions.

Main results:

- `Leaf.repeats_readModifiers`, `Leaf.repeats_readRerollConditions`,
  `Leaf.repeats_readSelectConditions`: the loops and their steps.
-/

namespace DiceNotation
namespace Leaf

/-- Whether a loop takes one item after another, as long as its step finds one and at most as many
as its fuel. -/
structure Repeats {α : Type} (loop : Nat → Reader (List α)) (step : Reader (Option α)) :
    Prop where
  zero : loop 0 = pure []
  succ : ∀ fuel, loop (fuel + 1) = do
    match ← step with
    | none => return []
    | some item => return item :: (← loop fuel)

/-- A further condition of a reroll, if one follows. -/
def readRerollCondition? (once : Bool) : Reader (Option Condition) := do
  if (← peek) ≠ some 'r' then return none
  if ((← peekSecond) == some 'o') != once then return none
  skip
  if once then skip
  return some (← readCondition)

/-- A further condition of a selection, if one follows. -/
def readSelectCondition? (mark : Char) : Reader (Option Condition) := do
  if (← peek) ≠ some mark then return none
  let second ← peekSecond
  if second = some 'h' ∨ second = some 'l' then return none
  skip
  return some (← readCondition)

/-- Modifiers are read in a loop. -/
theorem repeats_readModifiers : Repeats readModifiers readModifier? where
  zero := rfl
  succ := by
    intro fuel
    rw [readModifiers]
    congr 1
    funext modifier?
    cases modifier? <;> rfl

/-- So are conditions of a reroll. -/
theorem repeats_readRerollConditions (once : Bool) :
    Repeats (readRerollConditions once) (readRerollCondition? once) where
  zero := rfl
  succ := by
    intro fuel
    rw [readRerollConditions, readRerollCondition?, bind_assoc]
    congr 1
    funext mark
    split
    · rw [pure_bind]
    · rw [bind_assoc]
      congr 1
      funext second
      split
      · rw [pure_bind]
      · cases once <;> simp [bind_assoc]

/-- So are conditions of a selection. -/
theorem repeats_readSelectConditions (mark : Char) :
    Repeats (readSelectConditions mark) (readSelectCondition? mark) where
  zero := rfl
  succ := by
    intro fuel
    rw [readSelectConditions, readSelectCondition?, bind_assoc]
    congr 1
    funext first
    split
    · rw [pure_bind]
    · rw [bind_assoc]
      congr 1
      funext second
      split
      · rw [pure_bind]
      · simp [bind_assoc]

end Leaf
end DiceNotation

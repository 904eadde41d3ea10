import DiceNotation.Dice.Die
import DiceNotation.Expression.Basic

/-!
# Growing pools

Explosions and rerolls call for new dice, which join the end of the pool and may call for
dice in turn.  The pool grows in rounds: in each round the dice that joined in the round
before are looked at, in order, and the dice that they call for join.  So the draws are
made in the order in which the dice stand in the final pool.

Every new die is announced, so a limit on dice also bounds the rounds.

Main definitions:

- `Table.cascade`: rounds, until no die calls for another.
- `Table.explode`: the three kinds of explosion.
- `Table.reroll`: replacing dice.

Main results:

- `Table.generation_nil`: a round without dice calls for none.
-/

namespace DiceNotation

/-- The roll from which a die explodes by itself. -/
def Die.threshold (die : Die) : Except Fault Int :=
  match die.threshold? with
  | some threshold => .ok threshold
  | none => .error (.impossible .explodingCustomDie)

/-- Whether a roll explodes: it meets the condition, or without one reaches the
threshold. -/
def explodes (condition : Option Condition) (threshold roll : Int) : Bool :=
  match condition with
  | none => decide (threshold ≤ roll)
  | some condition => condition.holdsFor (.int roll)

namespace Table

/-! ## Rounds -/

/-- One round: what `spawn` makes of each die in turn, and the dice it calls for. -/
def generation (spawn : Die → Roll (Die × List Die)) (pool : List Die) :
    Roll (List Die × List Die) := do
  let seen ← pool.mapM spawn
  return (seen.map Prod.fst, seen.flatMap Prod.snd)

@[simp]
theorem generation_nil (spawn : Die → Roll (Die × List Die)) :
    generation spawn [] = pure ([], []) := rfl

/-- Rounds until no die calls for another, at most as many as the fuel allows. -/
def cascade (spawn : Die → Roll (Die × List Die)) : Nat → List Die → Roll (List Die)
  | 0, _ => throw .unsettled
  | fuel + 1, pool => do
    let (kept, joined) ← generation spawn pool
    if joined.isEmpty then return kept
    let later ← cascade spawn fuel joined
    return kept ++ later

/-! ## Explosions -/

/-- A new die for a roll that exploded; a penetrating explosion takes one off its value. -/
def spawnLike (table : Table) (penetrating : Bool) (die : Die) : Roll Die := do
  table.announce 1
  let rolled ← table.rollLike die
  return if penetrating then rolled.addResult (-1) else rolled

/-- The rolls by which a die explodes.  Penetrating looks only at the die's own roll, never
at the `-1` that was taken off. -/
def explodingRolls (penetrating : Bool) (condition : Option Condition) (threshold : Int)
    (die : Die) : List Int :=
  (if penetrating then die.rolls.take 1 else die.rolls).filter (explodes condition threshold)

/-- What an explosion into new dice makes of one die.  A discarded die does not explode, but
must have faces that could. -/
def explodeDie (table : Table) (penetrating : Bool) (condition : Option Condition)
    (die : Die) : Roll (Die × List Die) := do
  let threshold ← Roll.lift die.threshold
  if die.discarded then return (die, [])
  let hits := explodingRolls penetrating condition threshold die
  let joined ← hits.mapM fun _ => table.spawnLike penetrating die
  return ({ die with exploded := die.exploded || !hits.isEmpty }, joined)

/-- A die that grows while its last roll explodes. -/
def compoundDie (table : Table) (condition : Option Condition) (threshold : Int) :
    Nat → Die → Roll Die
  | 0, _ => throw .unsettled
  | fuel + 1, die =>
    match die.rolls.getLast? with
    | none => throw .noSuchPlace
    | some last => do
      if !explodes condition threshold last then return die
      table.announce 1
      let grown ← table.addRoll { die with exploded := true }
      compoundDie table condition threshold fuel grown

/-- A die of a compounding explosion. -/
def compound (table : Table) (condition : Option Condition) (die : Die) : Roll Die := do
  let threshold ← Roll.lift die.threshold
  if die.discarded then return die
  table.compoundDie condition threshold (← table.rounds) die

/-- A pool after an explosion. -/
def explode (table : Table) (explosion : Explosion) (condition : Option Condition)
    (pool : List Die) : Roll (List Die) := do
  match explosion with
  | .regular => cascade (table.explodeDie false condition) (← table.rounds) pool
  | .penetrating => cascade (table.explodeDie true condition) (← table.rounds) pool
  | .compounding => pool.mapM (table.compound condition)

/-! ## Rerolls -/

/-- What a reroll makes of one die: if its value meets a condition it is discarded, and a
new die joins. -/
def rerollDie (table : Table) (conditions : List Condition) (die : Die) :
    Roll (Die × List Die) := do
  if die.discarded || !Condition.anyHolds conditions (.int die.value) then return (die, [])
  table.announce 1
  let joined ← table.rollLike die
  return ({ die with discarded := true }, [joined])

/-- A pool after a reroll.  Rerolling once does not look at the dice that join. -/
def reroll (table : Table) (conditions : List Condition) (once : Bool) (pool : List Die) :
    Roll (List Die) := do
  if once then
    let (kept, joined) ← generation (table.rerollDie conditions) pool
    return kept ++ joined
  else cascade (table.rerollDie conditions) (← table.rounds) pool

end Table
end DiceNotation

import DiceNotation.Number.Basic

/-!
# The dice table

Dice are rolled on a table, which supplies draws and limits how many dice may be rolled.
Every die is announced before it is drawn; the tally of announced dice and of draws made
is kept also when an evaluation fails, so that one tally can serve a whole session.

Main definitions:

- `Source`: a source of draws.
- `Table`, `Tally`, `Roll`: what is rolled on, what is counted, and computations that roll.
- `Table.announce`, `Table.draw`: announcing dice, and drawing from a range.

Main results:

- `Table.run_announce`: announcing counts the dice and makes no draw, and fails exactly
  past the limit.
- `Table.run_nextDraw`: a draw counts once the source has supplied it.
-/

namespace DiceNotation

/-- A source of draws: the draw with a number, counted from zero, unless it has run dry. -/
abbrev Source := Nat → Option Binary64

/-- What dice are rolled on: where draws come from, and how many dice are allowed.  Where no
limit bounds the rounds in which dice call for more dice, `patience` does. -/
structure Table where
  source : Source
  limit : Option Int := none
  patience : Nat := 2 ^ 62

/-- The dice announced and the draws made. -/
structure Tally where
  announced : Int := 0
  drawn : Nat := 0
deriving Repr, DecidableEq

/-- A computation that rolls.  The tally is kept when it fails. -/
abbrev Roll := EStateM Fault Tally

namespace Roll

/-- What does not roll. -/
def lift {α : Type} (result : Except Fault α) : Roll α := MonadExcept.ofExcept result

@[simp]
theorem run_lift_ok {α : Type} (a : α) (tally : Tally) :
    (lift (.ok a)).run tally = .ok a tally := rfl

@[simp]
theorem run_lift_error {α : Type} (fault : Fault) (tally : Tally) :
    (lift (.error fault) : Roll α).run tally = .error fault tally := rfl

end Roll

/-- Arithmetic that no expression asked for. -/
def ArithmeticFault.unguarded {α : Type} : Except ArithmeticFault α → Except Fault α :=
  Except.mapError Fault.unguarded

@[simp]
theorem ArithmeticFault.unguarded_ok {α : Type} (a : α) :
    ArithmeticFault.unguarded (.ok a) = .ok a := rfl

namespace Table

/-! ## Announcing -/

/-- The fault of too many dice; a limit too long to be written has none of its own. -/
def excess (limit : Int) : Fault :=
  match Numeral.write limit with
  | .ok _ => .overBudget limit
  | .error fault => fault

/-- Announce dice, before any of them is drawn. -/
def announce (table : Table) (count : Int) : Roll Unit := do
  modify fun tally => { tally with announced := tally.announced + count }
  match table.limit with
  | none => return
  | some limit => if limit < (← get).announced then throw (excess limit)

/-- The number of dice that can still be announced; `0` past the limit. -/
def allowance (table : Table) (tally : Tally) : Option Nat :=
  table.limit.map fun limit => (limit - tally.announced).toNat

/-- The rounds in which dice may call for more dice: every round but the last announces
one at least. -/
def rounds (table : Table) : Roll Nat := do
  return match table.allowance (← get) with
    | some allowed => allowed + 1
    | none => table.patience

/-- The tally with more dice announced. -/
def counted (tally : Tally) (count : Int) : Tally :=
  { tally with announced := tally.announced + count }

/-- Announcing counts the dice, also when it fails. -/
theorem run_announce (table : Table) (count : Int) (tally : Tally) :
    (table.announce count).run tally =
      match table.limit with
      | none => .ok () (counted tally count)
      | some limit =>
        if limit < tally.announced + count then .error (excess limit) (counted tally count)
        else .ok () (counted tally count) := by
  unfold announce counted
  cases table.limit with
  | none => simp
  | some limit =>
      simp only [EStateM.run_bind, EStateM.run_modify, EStateM.run_get]
      split <;> simp

/-- Announcing within the limit succeeds. -/
theorem run_announce_of_le {table : Table} {limit : Int} (h : table.limit = some limit)
    {tally : Tally} {count : Int} (hle : tally.announced + count ≤ limit) :
    (table.announce count).run tally = .ok () (counted tally count) := by
  simp [run_announce, h, Int.not_lt.mpr hle]

/-- Announcing past the limit fails. -/
theorem run_announce_of_lt {table : Table} {limit : Int} (h : table.limit = some limit)
    {tally : Tally} {count : Int} (hlt : limit < tally.announced + count) :
    (table.announce count).run tally = .error (excess limit) (counted tally count) := by
  simp [run_announce, h, hlt]

/-- Without a limit, announcing succeeds. -/
theorem run_announce_of_none {table : Table} (h : table.limit = none) (tally : Tally)
    (count : Int) : (table.announce count).run tally = .ok () (counted tally count) := by
  simp [run_announce, h]

/-! ## Drawing -/

/-- The integer of a draw on the range `least`, …, `greatest`.  The width of the range and
its product with the draw are rounded; cutting to an integer and shifting are exact. -/
def place (x : Binary64) (least greatest : Int) : Except ArithmeticFault Int := do
  let width ← Binary64.ofInt (greatest - least + 1)
  let offset ← (x * width).floor
  return offset + least

/-- The next draw.  It counts as made as soon as the source has supplied it. -/
def nextDraw (table : Table) : Roll Binary64 := do
  let tally ← get
  match table.source tally.drawn with
  | none => throw .drawsExhausted
  | some x =>
    set { tally with drawn := tally.drawn + 1 }
    return x

/-- A draw counts once the source has supplied it. -/
theorem run_nextDraw (table : Table) (tally : Tally) :
    table.nextDraw.run tally =
      match table.source tally.drawn with
      | none => .error .drawsExhausted tally
      | some x => .ok x { tally with drawn := tally.drawn + 1 } := by
  unfold nextDraw
  simp only [EStateM.run_bind, EStateM.run_get]
  cases table.source tally.drawn <;> rfl

/-- An integer of the range `least`, …, `greatest`, drawn. -/
def draw (table : Table) (least greatest : Int) : Roll Int := do
  let x ← table.nextDraw
  Roll.lift (ArithmeticFault.unguarded (place x least greatest))

end Table
end DiceNotation

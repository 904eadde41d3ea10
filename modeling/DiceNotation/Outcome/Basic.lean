import DiceNotation.Dice.Die
import DiceNotation.Outcome.Markup

/-!
# Outcomes

An outcome is a number together with its audit text, which shows how the number came about,
and its kind.  An evaluation yields one outcome, a pool of dice, or a list of outcomes; any
of these collapses into one outcome, the total of what has not been discarded.

Main definitions:

- `Outcome`: a number with its audit text.
- `Die.text`: the audit text of a die.
- `Outcome.listText`: the audit text of a list.
- `Value`, `Value.collapse`: what an evaluation yields, and its total.

Main results:

- `Outcome.shared_self`: combining outcomes of one kind keeps the kind.
- `Value.collapse_single`: one outcome is its own total.
-/

namespace DiceNotation

/-! ## Outcomes -/

/-- What the number of an outcome counts. -/
inductive OutcomeKind where
  | plain
  | successes
  | groups
deriving Repr, DecidableEq

/-- A number with its audit text. -/
structure Outcome where
  value : Number
  text : Text
  kind : OutcomeKind := .plain
  discarded : Bool := false
deriving Repr, DecidableEq

/-- What a combination of two outcomes counts: the same as both, if they agree. -/
def OutcomeKind.shared (a b : OutcomeKind) : OutcomeKind := if a = b then a else .plain

@[simp]
theorem OutcomeKind.shared_self (a : OutcomeKind) : a.shared a = a := by simp [shared]
namespace Outcome

/-- The audit text of a list: a single entry as it is, several in brackets. -/
def listText (outcomes : List Outcome) (separator : Text) : Text :=
  match outcomes with
  | [] => []
  | [outcome] => outcome.text
  | outcomes => ['('] ++ Text.joinedBy separator (outcomes.map text) ++ [')']

/-- What stands between the entries of a list. -/
def plus : Text := [' ', '+', ' ']

/-- The value of an outcome in a total: a discarded one counts zero. -/
def share (outcome : Outcome) : Number := if outcome.discarded then .int 0 else outcome.value

/-- An outcome that is discarded, and marked so. -/
def discard (outcome : Outcome) (markup : Markup) : Outcome :=
  { outcome with text := markup.discarded outcome.text, discarded := true }

end Outcome

/-! ## Dice as outcomes -/

namespace Die

/-- A further roll, behind its sign. -/
def rollText (roll : Int) : Except Fault Text := do
  let numeral ← Numeral.write roll
  return if roll < 0 then numeral else '+' :: numeral

/-- The value of a die behind its rolls. -/
def sumText (die : Die) : Except Fault Text := do
  let numeral ← Numeral.write die.value
  return '=' :: numeral

/-- The rolls of a die in square brackets, and behind several of them their sum. -/
def bareText (die : Die) : Except Fault Text :=
  match die.rolls with
  | [] => .error .noSuchPlace
  | first :: rest => do
    let head ← Numeral.write first
    let tail ← rest.mapM rollText
    let sum ← if rest.isEmpty then .ok [] else die.sumText
    return ['['] ++ head ++ tail.flatten ++ sum ++ [']']

/-- The audit text of a die. -/
def text (die : Die) (markup : Markup) : Except Fault Text := do
  let bare ← die.bareText
  let struck := if die.discarded then markup.discarded bare else bare
  return if die.exploded then markup.exploded struck true else struck

/-- The outcome of a die. -/
def outcome (die : Die) (markup : Markup) : Except Fault Outcome := do
  return { value := .int die.value, text := ← die.text markup, discarded := die.discarded }

end Die

/-- The outcomes of a pool, die by die. -/
def Outcome.ofPool (pool : List Die) (markup : Markup) : Except Fault (List Outcome) :=
  pool.mapM fun die => die.outcome markup

/-! ## What an evaluation yields -/

/-- What an evaluation yields. -/
inductive Value where
  | single (outcome : Outcome)
  | pool (dice : List Die)
  | list (outcomes : List Outcome)
deriving Repr, DecidableEq

namespace Value

/-- The dice of a pool; nothing else has dice. -/
def dice : Value → List Die
  | .pool dice => dice
  | _ => []

/-- The entries of a value. -/
def entries (value : Value) (markup : Markup) : Except Fault (List Outcome) :=
  match value with
  | .single outcome => .ok [outcome]
  | .pool dice => Outcome.ofPool dice markup
  | .list outcomes => .ok outcomes

/-- The total of entries that have not been discarded, with the text of all entries. -/
def total (outcomes : List Outcome) : Except Fault Outcome := do
  let value ← ArithmeticFault.unguarded (Number.total (outcomes.map Outcome.share))
  return { value, text := Outcome.listText outcomes Outcome.plus }

/-- One outcome for a value.  A total needs an entry. -/
def collapse (value : Value) (markup : Markup) : Except Fault Outcome :=
  match value with
  | .single outcome => .ok outcome
  | value => do
    let outcomes ← value.entries markup
    if outcomes.isEmpty then throw (.impossible .totalOfNothing)
    total outcomes

@[simp]
theorem collapse_single (outcome : Outcome) (markup : Markup) :
    (Value.single outcome).collapse markup = .ok outcome := rfl

end Value
end DiceNotation

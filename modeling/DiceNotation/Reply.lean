import DiceNotation.Evaluation.Basic
import DiceNotation.Settings

/-!
# Replies

A roll is reported as a receipt, the outcome with all that is known about it, or as a chat
message that repeats the command and shows the value above the audit text.  A fault that is
the user's to mend becomes a message too.

Main definitions:

- `Outcome.render`: the value of an outcome above its audit text.
- `Reply.shorten`: a message cut to a length.
- `Reply.receipt`, `Reply.message`: the receipt of a roll, and the chat message.

Main results:

- `Reply.shorten_of_le`: a message within its length is left alone.
-/

namespace DiceNotation

/-! ## Rendering -/

/-- What the value of an outcome counts, and the value to show: failures are shown as a
positive number. -/
def Outcome.counted (outcome : Outcome) : Text × Number :=
  match outcome.kind with
  | .plain => ([], outcome.value)
  | .groups => (" Matches".toList, outcome.value)
  | .successes =>
    if (Number.int 0).lt outcome.value || outcome.value.eqv (.int 0) then
      (" Successes".toList, outcome.value)
    else (" Failures".toList, outcome.value.abs)

/-- The value of an outcome above its audit text. -/
def Outcome.render (outcome : Outcome) : Except Fault Text := do
  let (suffix, value) := outcome.counted
  let shown ← value.plainText
  return "**Result: ".toList ++ shown ++ suffix ++ "**\n>>> ".toList ++ outcome.text

namespace Reply

/-- What stands in place of the end of a shortened message. -/
def ellipsis : Text := ['.', '.', '.']

/-- A message longer than `limit` is cut where the ellipsis should begin.  A limit shorter
than the ellipsis puts the cut before the front, which is then counted from the end. -/
def shorten (message : Text) (limit : Int) : Text :=
  if limit < message.length then message.cutAt (limit - 3) ++ ellipsis else message

/-- A message within its length is left alone. -/
theorem shorten_of_le {message : Text} {limit : Int} (h : message.length ≤ limit) :
    shorten message limit = message := by
  simp [shorten, Int.not_lt.mpr h]

/-! ## Receipts -/

/-- A roll with all that is known about it. -/
structure Receipt where
  standardForm : Text
  outcome : Outcome
  announced : Int
  message : Text
deriving Repr, DecidableEq

/-- The table that the settings set up. -/
def table (settings : Settings) (source : Source) : Table where
  source := source
  limit := some settings.maxDice

/-- The receipt of a roll. -/
def receipt (settings : Settings) (source : Source) (text : Text) : Roll Receipt := do
  let outcome ← Expression.resolve (table settings source) .markdown text
  let message ← Roll.lift outcome.render
  return { standardForm := text.standardize, outcome, announced := (← get).announced, message }

/-! ## Messages -/

/-- What the body of a message says about a fault, if the fault is the user's to mend. -/
def faultText (report : Report) : Text := "Error: ".toList ++ report.line.toList

/-- The body of a message; a fault that is not the user's passes through. -/
def body (settings : Settings) (source : Source) (text : Text) : Roll Text := fun tally =>
  match receipt settings source text tally with
  | .ok receipt tally => .ok receipt.message tally
  | .error fault tally =>
    match fault.report? with
    | some report => .ok (faultText report) tally
    | none => .error fault tally

/-- The command that a message answers, as it was understood. -/
def header (command text : Text) : Text :=
  "> `/".toList ++ command ++ " input:".toList ++ text.standardize ++ "`\n".toList

/-- The message before it is shortened. -/
def fullMessage (settings : Settings) (source : Source) (command text : Text) : Roll Text := do
  let body ← body settings source text
  return header command text ++ body

/-- The chat message that answers a command. -/
def message (settings : Settings) (source : Source) (command text : Text) : Roll Text := do
  let full ← fullMessage settings source command text
  return shorten full settings.maxLength

end Reply
end DiceNotation

import DiceNotation.Outline.Precedence
import DiceNotation.Outline.Slots

/-!
# Brackets

The outline of a whole text is found in one walk from left to right.  The walk keeps what
is open around the current place: round brackets, perhaps after the name of a function,
and entries of lists.  A bracket that closes hands its outline to what stands around it,
and characters that directly follow a list may be its suffix.

Main definitions:

- `Outline.functionSuffix`: the name of a function at the end of a text.
- `Outline.leadingSuffix`: the list suffix at the front of a text.
- `Outline.Surroundings`, `Outline.Walk`: what is open, and how far the walk has come.
- `Outline.ofText`: the outline of a whole text.
-/

namespace DiceNotation
namespace Outline

/-! ## Function names -/

/-- The functions that may stand before a bracket. -/
def functionNames : List Text :=
  [['f', 'l', 'o', 'o', 'r'], ['c', 'e', 'i', 'l'], ['r', 'o', 'u', 'n', 'd'], ['a', 'b', 's']]

/-- The name of a function at the end of a text, empty if there is none. -/
def functionSuffix (text : Text) : Text :=
  (functionNames.find? fun name => name.isSuffixOf text).getD []

/-! ## List suffixes -/

/-- The marks of a comparison. -/
def isComparison (c : Char) : Bool := c == '=' || c == '<' || c == '>'

/-- Whether a character continues a list suffix that so far ends with `last`.  A `-` does
so only as the sign of a number to compare with, behind a letter or a comparison. -/
def continuesSuffix (last : Option Char) (c : Char) : Bool :=
  if c = '-' then last.any fun l => isComparison l || l.isLower
  else c.isLower || c.isDigit || isComparison c

/-- The list suffix at the front of a text that follows `last`. -/
def suffixAfter (last : Option Char) : Text → Text
  | [] => []
  | c :: rest => if continuesSuffix last c then c :: suffixAfter (some c) rest else []

/-- The list suffix at the front of a text. -/
def leadingSuffix (text : Text) : Text := suffixAfter none text

/-! ## The walk -/

/-- What is open around a place: nothing, a round bracket, or an entry of a list.  Each
remembers what it stands in and the elements found there before it. -/
inductive Surroundings where
  | top
  | bracket (function : Text) (outer : Surroundings) (before : List Outline)
  | list (entries : List Outline) (outer : Surroundings) (before : List Outline)

/-- A list that has closed while its suffix is still being read, last character first. -/
structure ClosedList where
  entries : List Outline
  suffix : Text := []

/-- A walk through a text: the place of the next character, what is open there, the
elements found in it, the characters since the last of them, latest first, and the list
whose suffix is being read, if any. -/
structure Walk where
  place : Nat := 0
  surroundings : Surroundings := .top
  elements : List Outline := []
  buffer : Text := []
  closed : Option ClosedList := none

/-- The outline of a list with its suffix. -/
def ClosedList.outline (closed : ClosedList) : Outline :=
  .group { isList := true, suffix := closed.suffix.reverse } closed.entries

/-- The fault of the character, or the end, at the current place. -/
def Walk.fault (walk : Walk) (cause : Malformation) : Fault :=
  .malformed cause (some walk.place)

/-- A closed list becomes an element once its suffix has ended. -/
def Walk.settle (walk : Walk) : Walk :=
  match walk.closed with
  | none => walk
  | some list =>
    { walk with elements := walk.elements ++ [list.outline], closed := none }

/-- The elements found so far, the characters since the last of them included. -/
def elementsWith (elements : List Outline) (buffer : Text) : Except Fault (List Outline) :=
  if buffer.isEmpty then .ok elements
  else do
    let element ← ofMath buffer.reverse (!elements.isEmpty)
    return elements ++ [element]

/-- The content of a bracket that ends here: at most one element once all are linked. -/
def Walk.content (walk : Walk) : Except Fault (List Outline) := do
  let elements ← elementsWith walk.elements walk.buffer
  let linked ← link elements
  if linked.length > 1 then .error (.malformed .unlinkedElements none) else .ok linked

/-- A round bracket opens; the name of a function before it belongs to it. -/
def Walk.openBracket (walk : Walk) : Except Fault Walk := do
  let function := functionSuffix walk.buffer.reverse
  let before ← elementsWith walk.elements (walk.buffer.drop function.length)
  return { place := walk.place + 1, surroundings := .bracket function walk.surroundings before }

/-- A list opens. -/
def Walk.openList (walk : Walk) : Except Fault Walk := do
  let function := functionSuffix walk.buffer.reverse
  if !function.isEmpty then throw (walk.fault (.functionOfList function))
  let before ← elementsWith walk.elements walk.buffer
  return { place := walk.place + 1, surroundings := .list [] walk.surroundings before }

/-- A bracket or an entry of a list ends with `terminator`.  An entry without content is
left out of its list. -/
def Walk.close (walk : Walk) (terminator : Char) : Except Fault Walk :=
  match walk.surroundings with
  | .top => .error (walk.fault .strayTerminator)
  | .bracket function outer before =>
    if terminator ≠ ')' then .error (walk.fault .bracketNotClosed)
    else do
      let content ← walk.content
      let bracket := Outline.group { function, terminator := some [terminator] } content
      return { place := walk.place + 1, surroundings := outer, elements := before ++ [bracket] }
  | .list entries outer before =>
    if terminator = ')' then .error (walk.fault .bracketNotClosed)
    else do
      let content ← walk.content
      let entry := Outline.group { terminator := some [terminator] } content
      let entries := if content.isEmpty then entries else entries ++ [entry]
      if terminator = ',' then
        return { place := walk.place + 1, surroundings := .list entries outer before }
      else
        return { place := walk.place + 1, surroundings := outer, elements := before,
                 closed := some { entries } }

/-- The walk past a character that belongs to no suffix. -/
def Walk.pass (walk : Walk) (c : Char) : Except Fault Walk :=
  if c = '(' then walk.openBracket
  else if c = '\x7b' then walk.openList
  else if c = ')' ∨ c = '\x7d' ∨ c = ',' then walk.close c
  else .ok { walk with place := walk.place + 1, buffer := c :: walk.buffer }

/-- The walk one character on. -/
def Walk.step (walk : Walk) (c : Char) : Except Fault Walk :=
  match walk.closed with
  | none => walk.pass c
  | some list =>
    if continuesSuffix list.suffix.head? c then
      .ok { walk with
            place := walk.place + 1
            closed := some { list with suffix := c :: list.suffix } }
    else walk.settle.pass c

/-- What a walk has found at the end of the text: nothing may be open there. -/
def Walk.finish (walk : Walk) : Except Fault Outline := do
  let walk := walk.settle
  match walk.surroundings with
  | .top =>
    let content ← walk.content
    return content.head?.getD .empty
  | _ => throw (walk.fault .bracketNotClosed)

/-- The outline of a whole text; a text without characters has the empty outline. -/
def ofText (text : Text) : Except Fault Outline := do
  let walk ← text.foldlM Walk.step {}
  walk.finish

@[simp]
theorem ofText_nil : ofText [] = .ok .empty := rfl

end Outline
end DiceNotation

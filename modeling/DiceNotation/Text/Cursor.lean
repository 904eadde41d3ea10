import DiceNotation.Fault

/-!
# Cursors

A cursor walks once through a text.  It remembers what lies behind it, nearest character
first, and what lies ahead; a step past the end is counted, so that a place beyond the text
can be reported.

Main results:

- `Cursor.text_next`, `Cursor.text_skipWhile`: walking neither loses nor changes text.
- `Cursor.index_next`: each step moves one place, also past the end.
-/

namespace DiceNotation

/-- A walk through a text: the part behind, read backwards, the part ahead, and the number
of steps taken past the end. -/
structure Cursor where
  behind : Text := []
  ahead : Text
  past : Nat := 0
deriving Repr, DecidableEq

namespace Cursor

/-- A cursor before the first character. -/
def ofText (text : Text) : Cursor where
  ahead := text

/-- The whole text, wherever the cursor stands. -/
def text (cursor : Cursor) : Text := cursor.behind.reverse ++ cursor.ahead

/-- The place of the character that was read last, `-1` before the first. -/
def index (cursor : Cursor) : Int := cursor.behind.length + cursor.past - 1

@[simp]
theorem text_ofText (t : Text) : (ofText t).text = t := rfl

@[simp]
theorem index_ofText (t : Text) : (ofText t).index = -1 := rfl

/-! ## Looking -/

/-- The next character, if the text goes on. -/
def head? (cursor : Cursor) : Option Char := cursor.ahead.head?

/-- The character after the next. -/
def second? (cursor : Cursor) : Option Char := cursor.ahead.tail.head?

/-- The character `offset` places after the one read last; nothing beyond the end.  Before
the front of the text, places are counted from its end. -/
def peek? (cursor : Cursor) (offset : Int) : Except Fault (Option Char) :=
  let place := cursor.index + offset
  if cursor.text.length ≤ place then .ok none
  else match Text.atPlace? cursor.text place with
    | some c => .ok (some c)
    | none => .error .noSuchPlace

/-- Whether the text is used up. -/
def done (cursor : Cursor) : Bool := cursor.head?.isNone

/-! ## Moving -/

/-- The cursor one step on. -/
def next (cursor : Cursor) : Cursor :=
  match cursor.ahead with
  | [] => { cursor with past := cursor.past + 1 }
  | c :: rest => { cursor with behind := c :: cursor.behind, ahead := rest }

/-- The cursor behind the longest run of characters in a class. -/
def skipWhile (inClass : Char → Bool) (cursor : Cursor) : Cursor where
  behind := (cursor.ahead.takeWhile inClass).reverse ++ cursor.behind
  ahead := cursor.ahead.dropWhile inClass
  past := cursor.past

@[simp]
theorem text_next (cursor : Cursor) : cursor.next.text = cursor.text := by
  unfold next
  split <;> simp_all [text]

@[simp]
theorem text_skipWhile (inClass : Char → Bool) (cursor : Cursor) :
    (cursor.skipWhile inClass).text = cursor.text := by
  simp [skipWhile, text]

@[simp]
theorem index_next (cursor : Cursor) : cursor.next.index = cursor.index + 1 := by
  unfold next
  split <;> simp only [index, List.length_cons] <;> omega

/-! ## Demands -/

/-- The text must end here. -/
def requireEnd (cursor : Cursor) : Except Fault Unit :=
  match cursor.head? with
  | some c => .error (.malformed (.unexpectedCharacter c) (some (cursor.index + 1)))
  | none => .ok ()

/-- The text must go on here. -/
def requireMore (cursor : Cursor) : Except Fault Unit :=
  match cursor.head? with
  | some _ => .ok ()
  | none => .error (.malformed .unexpectedEnd (some (cursor.index + 1)))

end Cursor
end DiceNotation

/-!
# Texts

Expressions are read, and audit trails are written, one character at a time, so a text is
the list of its characters.  Lengths and places count characters.

Main definitions:

- `Text.atPlace?`: the item at a place counted from the front, or from the back when the
  place is negative.
- `Text.cutAt`: what stands before such a place.
- `Text.without`: a text less every occurrence of a marker.
-/

namespace DiceNotation

/-- A text is the list of its characters. -/
abbrev Text := List Char

namespace Text

/-! ## Places counted from either end -/

/-- The item at `place`: the first has place `0` and the last has place `-1`. -/
def atPlace? {α : Type} (items : List α) (place : Int) : Option α :=
  if 0 ≤ place then items[place.toNat]?
  else if (-place).toNat ≤ items.length then items[items.length - (-place).toNat]?
  else none

/-- What stands before `place`; a negative place is counted from the end, and one beyond
either end cuts there. -/
def cutAt (text : Text) (place : Int) : Text :=
  if 0 ≤ place then text.take place.toNat else text.take (text.length - (-place).toNat)

@[simp]
theorem cutAt_natCast (text : Text) (n : Nat) : text.cutAt n = text.take n := by
  simp [cutAt]

/-! ## Removing a marker -/

/-- One pass from left to right: `skip` characters still belong to an occurrence already
met, and occurrences do not overlap. -/
def withoutFrom (marker : Text) : Nat → Text → Text
  | _, [] => []
  | skip + 1, _ :: rest => withoutFrom marker skip rest
  | 0, c :: rest =>
    if marker.isPrefixOf (c :: rest) then withoutFrom marker (marker.length - 1) rest
    else c :: withoutFrom marker 0 rest

/-- The text less every occurrence of `marker`, found from left to right. -/
def without (text marker : Text) : Text := withoutFrom marker 0 text

@[simp]
theorem without_nil (marker : Text) : without [] marker = [] := rfl

/-- Text that follows a separator after the first item. -/
def joinedBy (separator : Text) : List Text → Text
  | [] => []
  | [item] => item
  | item :: next :: rest => item ++ separator ++ joinedBy separator (next :: rest)

@[simp]
theorem joinedBy_singleton (separator item : Text) : joinedBy separator [item] = item := rfl

end Text
end DiceNotation

import DiceNotation.Text.Basic

/-!
# Outlines

The outline of an expression shows its brackets, lists and operators; what stands between
them is kept as text.  Text beside a bracket may leave an operand of an operator open, as
`*2` does in `(1+1)*2`, so an outline has a constructor for a slot that is still empty.

Main definitions:

- `Outline`: the outline of an expression.
- `Outline.written`: the text an outline stands for.
-/

namespace DiceNotation

/-- How a group is enclosed.  A bracket may follow the name of a function; a list may be
followed by a modifier. -/
structure Enclosure where
  isList : Bool := false
  function : Text := []
  suffix : Text := []
  terminator : Option Text := none
deriving Repr, DecidableEq

/-- The outline of an expression. -/
inductive Outline where
  /-- A slot without an operand. -/
  | empty
  /-- A number or dice, not yet read. -/
  | leaf (text : Text)
  /-- An operator between two slots. -/
  | math (symbol : Text) (left right : Outline)
  /-- A bracket, or a list of such. -/
  | group (enclosure : Enclosure) (elements : List Outline)
deriving Repr

namespace Outline

/-- Whether an outline is an operator with its slots. -/
def isMath : Outline → Bool
  | .math .. => true
  | _ => false

/-- Whether an outline is an empty slot. -/
def isEmpty : Outline → Bool
  | .empty => true
  | _ => false

/-! ## The text of an outline -/

mutual

/-- The text an outline stands for, read from left to right; an empty slot is no text. -/
def written : Outline → Text
  | .empty => []
  | .leaf text => text
  | .math symbol left right => left.written ++ symbol ++ right.written
  | .group enclosure elements =>
    if enclosure.isList then
      ['\x7b'] ++ Text.joinedBy [','] (entriesWritten elements) ++ ['\x7d'] ++ enclosure.suffix
    else
      enclosure.function ++ ['('] ++ elementsWritten elements ++ [')']

/-- The entries of a list, each a text; an entry is written as what it holds. -/
def entriesWritten : List Outline → List Text
  | [] => []
  | .group _ elements :: rest => elementsWritten elements :: entriesWritten rest
  | other :: rest => other.written :: entriesWritten rest

/-- The elements of a group, one after the other. -/
def elementsWritten : List Outline → Text
  | [] => []
  | element :: rest => element.written ++ elementsWritten rest

end

@[simp]
theorem written_empty : written .empty = [] := by simp [written]

@[simp]
theorem written_leaf (text : Text) : written (.leaf text) = text := by simp [written]

@[simp]
theorem written_math (symbol : Text) (left right : Outline) :
    written (.math symbol left right) = left.written ++ symbol ++ right.written := by
  simp [written]

end Outline
end DiceNotation

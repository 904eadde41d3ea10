import DiceNotation.Fault
import DiceNotation.Outline.Basic

/-!
# Slots

Operators with an empty slot take a neighbour for their operand: in `(1+1)*2` the outline
of `*2` takes the bracket before it.

Main definitions:

- `Outline.fillLeft?`, `Outline.fillRight?`: an outline with its first empty slot on that
  side filled, if it has one.
- `Outline.link`: the elements of a group, each operator linked with its neighbours.
-/

namespace DiceNotation
namespace Outline

/-- Put `operand` into the first operator without a left side, the operator itself before
those in its slots, left before right. -/
def fillLeft? (operand : Outline) : Outline → Option Outline
  | .math symbol .empty right => some (.math symbol operand right)
  | .math symbol left right =>
    match fillLeft? operand left with
    | some left => some (.math symbol left right)
    | none => (fillLeft? operand right).map (.math symbol left ·)
  | _ => none

/-- Put `operand` into the first operator without a right side, the operator itself before
those in its slots, right before left. -/
def fillRight? (operand : Outline) : Outline → Option Outline
  | .math symbol left .empty => some (.math symbol left operand)
  | .math symbol left right =>
    match fillRight? operand right with
    | some right => some (.math symbol left right)
    | none => (fillRight? operand left).map (.math symbol · right)
  | _ => none

/-- Link one more element with those before it, the nearest of which comes first.  Exactly
one of two neighbours may take the other; where neither is an operator they stay apart. -/
def linkNext : List Outline → Outline → Except Fault (List Outline)
  | [], element => .ok [element]
  | previous :: earlier, element =>
    if !previous.isMath && !element.isMath then .ok (element :: previous :: earlier)
    else match fillRight? element previous, fillLeft? previous element with
      | some filled, none => .ok (filled :: earlier)
      | none, some filled => .ok (filled :: earlier)
      | _, _ => .error (.malformed .operandConflict none)

/-- The elements of a group, each operator linked with its neighbours. -/
def link (elements : List Outline) : Except Fault (List Outline) := do
  let linked ← elements.foldlM linkNext []
  return linked.reverse

@[simp]
theorem link_nil : link [] = .ok [] := rfl

@[simp]
theorem link_singleton (element : Outline) : link [element] = .ok [element] := rfl

end Outline
end DiceNotation

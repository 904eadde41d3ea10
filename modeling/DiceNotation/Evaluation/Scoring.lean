import DiceNotation.Expression.Basic
import DiceNotation.Outcome.Basic
import DiceNotation.Sorting.Order

/-!
# Scores

A score makes one outcome of a list.  Matching brings entries of equal value together, the
largest groups first and of two groups of one size the one of higher value; it adds all
values up, or counts the groups of two and more.  Counting successes adds one for a success
and takes one off for a failure.  Discarded entries are shown and do not count.

Main definitions:

- `Score.groupsOf`: entries of equal value, together.
- `Score.apply`: the outcome of a score.
-/

namespace DiceNotation
namespace Score

/-! ## Matching -/

/-- Put an entry into the group of its value, or into a group of its own behind the others.
What is not a number is always alone. -/
def insertGroup (groups : List (List Outcome)) (entry : Outcome) : List (List Outcome) :=
  match groups with
  | [] => [[entry]]
  | group :: rest =>
    if (group.head?.any fun first => first.value.eqv entry.value) then (group ++ [entry]) :: rest
    else group :: insertGroup rest entry

/-- Entries of equal value together, in the order in which the values come first. -/
def groupsOf (entries : List Outcome) : List (List Outcome) := entries.foldl insertGroup []

/-- Whether a group is smaller than another, or as large and of a lower value. -/
def smallerGroup (a b : List Outcome) : Bool :=
  decide (a.length < b.length) ||
    (a.length == b.length &&
      match a.head?, b.head? with
      | some first, some second => first.value.lt second.value
      | _, _ => false)

/-- The groups of the entries that are not discarded, the largest first. -/
def rankedGroups (entries : List Outcome) : List (List Outcome) :=
  let live := entries.filter fun entry => !entry.discarded
  Sorting.descending smallerGroup (live.all fun entry => !entry.value.isNan) (groupsOf live)

/-- Entries of equal value brought together; discarded entries follow behind. -/
def matching (counted : Bool) (entries : List Outcome) : Except Fault Outcome := do
  if entries.isEmpty then throw (.impossible .matchingNothing)
  let groups := rankedGroups entries
  let ordered := groups.flatten ++ entries.filter Outcome.discarded
  let text := Outcome.listText ordered Outcome.plus
  if counted then
    let several := (groups.filter fun group => group.length > 1).length
    return { value := .int several, text, kind := .groups }
  else
    let sum := Number.total (groups.flatten.map Outcome.value)
    return { value := ← ArithmeticFault.unguarded sum, text }

/-! ## Successes -/

/-- What an entry counts: one for a success, less one for a failure. -/
inductive Mark where
  | success
  | failure
  | neither
deriving Repr, DecidableEq

/-- The mark of an entry.  A success is not looked at again for a failure. -/
def markOf (success : Condition) (failure : Option Condition) (entry : Outcome) : Mark :=
  if entry.discarded then .neither
  else if success.holdsFor entry.value then .success
  else if failure.any fun condition => condition.holdsFor entry.value then .failure
  else .neither

/-- What a mark adds to the score. -/
def Mark.points : Mark → Int
  | .success => 1
  | .failure => -1
  | .neither => 0

/-- An entry with its mark shown. -/
def Mark.show (mark : Mark) (markup : Markup) (isDie : Bool) (entry : Outcome) : Outcome :=
  match mark with
  | .success => { entry with text := markup.success entry.text isDie }
  | .failure => { entry with text := markup.failure entry.text isDie }
  | .neither => entry

/-- Successes less failures. -/
def counting (success : Condition) (failure : Option Condition) (markup : Markup)
    (isDie : Bool) (entries : List Outcome) : Except Fault Outcome := do
  if entries.isEmpty then throw (.impossible .totalOfNothing)
  let marks := entries.map (markOf success failure)
  let shown := List.zipWith (fun mark entry => Mark.show mark markup isDie entry) marks entries
  return { value := .int (marks.map Mark.points).sum
           text := Outcome.listText shown Outcome.plus
           kind := .successes }

/-- The outcome of a score. -/
def apply (score : Score) (markup : Markup) (isDie : Bool) (entries : List Outcome) :
    Except Fault Outcome :=
  match score with
  | .groups counted => matching counted entries
  | .successes success failure => counting success failure markup isDie entries

end Score
end DiceNotation

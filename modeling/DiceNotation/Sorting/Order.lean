import DiceNotation.Sorting.Runs
import DiceNotation.Sorting.Stable

/-!
# Sorted lists

A list is sorted upward or downward, equal items keeping the order in which they are given.
Where all items are comparable this says what the sorted list is; a list with others is
sorted by runs.

Main definitions:

- `Sorting.ascending`, `Sorting.descending`: sorted lists, upward and downward.

Main results:

- `Sorting.ascending_perm`, `Sorting.descending_perm`: sorting loses nothing and adds
  nothing.
-/

namespace DiceNotation
namespace Sorting

variable {α : Type}

/-- The items in ascending order; equal items keep their order. -/
def ascending (less : α → α → Bool) (comparable : Bool) (items : List α) : List α :=
  if comparable then stable less items else byRuns less items

/-- The items in descending order; equal items keep their order. -/
def descending (less : α → α → Bool) (comparable : Bool) (items : List α) : List α :=
  if comparable then stable (fun a b => less b a) items
  else (byRuns less items.reverse).reverse

/-- Sorting upward loses nothing and adds nothing. -/
theorem ascending_perm (less : α → α → Bool) (comparable : Bool) (items : List α) :
    (ascending less comparable items).Perm items := by
  unfold ascending
  split
  · exact stable_perm less items
  · exact byRuns_perm less items

/-- Sorting downward loses nothing and adds nothing. -/
theorem descending_perm (less : α → α → Bool) (comparable : Bool) (items : List α) :
    (descending less comparable items).Perm items := by
  unfold descending
  split
  · exact stable_perm _ items
  · exact (List.reverse_perm _).trans ((byRuns_perm less _).trans (List.reverse_perm items))

end Sorting
end DiceNotation

/-!
# Stable sorting

Items that are all comparable are put in order one by one, equal items keeping the order in
which they are given.

Main definitions:

- `Sorting.insertSorted`: a sorted list with one more item.
- `Sorting.stable`: comparable items sorted.

Main results:

- `Sorting.stable_perm`: sorting loses nothing and adds nothing.
-/

namespace DiceNotation
namespace Sorting

variable {α : Type}

/-- A sorted list with one more item, put before the first that is not less. -/
def insertSorted (less : α → α → Bool) (item : α) : List α → List α
  | [] => [item]
  | other :: rest =>
    if less other item then other :: insertSorted less item rest else item :: other :: rest

/-- The items in the order of `less`; equal items keep their order. -/
def stable (less : α → α → Bool) (items : List α) : List α :=
  items.foldr (insertSorted less) []

@[simp]
theorem stable_nil (less : α → α → Bool) : stable less [] = [] := rfl

@[simp]
theorem stable_cons (less : α → α → Bool) (item : α) (rest : List α) :
    stable less (item :: rest) = insertSorted less item (stable less rest) := rfl

theorem insertSorted_perm (less : α → α → Bool) (item : α) (items : List α) :
    (insertSorted less item items).Perm (item :: items) := by
  induction items with
  | nil => exact .refl _
  | cons other rest ih =>
      unfold insertSorted
      split
      · exact (ih.cons other).trans (.swap item other rest)
      · exact .refl _

/-- Sorting loses nothing and adds nothing. -/
theorem stable_perm (less : α → α → Bool) (items : List α) : (stable less items).Perm items := by
  induction items with
  | nil => exact .refl _
  | cons item rest ih => exact (insertSorted_perm less item _).trans (ih.cons item)

@[simp]
theorem length_stable (less : α → α → Bool) (items : List α) :
    (stable less items).length = items.length :=
  (stable_perm less items).length_eq

end Sorting
end DiceNotation

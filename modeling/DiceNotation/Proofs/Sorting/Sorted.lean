import DiceNotation.Sorting.Order
import Mathlib.Order.Lattice
import Mathlib.Order.OrderDual

/-!
# Sorted by a key

Items that compare by a key are sorted by that key, and items with the same key keep the order in
which they stood.

Main definitions:

- `Sorting.Precedes`: whether an item comes before another.

Main results:

- `Sorting.pairwise_ascending`, `Sorting.pairwise_descending`: sorted lists rise and fall, and
  among equal items keep the order that there was.
-/

namespace DiceNotation
namespace Sorting

variable {α κ : Type} [LinearOrder κ]

/-- Whether an item comes before another: by its key, or as `tie` says where the keys are equal. -/
def Precedes (key : α → κ) (tie : α → α → Prop) (a b : α) : Prop :=
  key a < key b ∨ key a = key b ∧ tie a b

variable {less : α → α → Bool} {P : α → Prop} {key : α → κ} {tie : α → α → Prop}

/-- What precedes has no greater key. -/
theorem Precedes.key_le {a b : α} (h : Precedes key tie a b) : key a ≤ key b := by
  rcases h with hlt | ⟨heq, -⟩
  · exact le_of_lt hlt
  · exact le_of_eq heq

/-- Of one key, what precedes is first in the tie. -/
theorem Precedes.tie_of_eq {a b : α} (h : Precedes key tie a b) (heq : key a = key b) :
    tie a b := by
  rcases h with hlt | ⟨-, htie⟩
  · exact absurd heq (ne_of_lt hlt)
  · exact htie

/-- An item precedes those that it is not greater than and ties with. -/
theorem precedes_of_le {a b : α} (hle : key a ≤ key b) (htie : tie a b) : Precedes key tie a b := by
  rcases lt_or_eq_of_le hle with hlt | heq
  · exact .inl hlt
  · exact .inr ⟨heq, htie⟩

/-- A sorted list stays sorted with one more item, which stood before the others. -/
theorem pairwise_insertSorted (hless : ∀ a b, P a → P b → less a b = decide (key a < key b))
    {item : α} (hitem : P item) {items : List α} (hitems : ∀ other ∈ items, P other)
    (hties : ∀ other ∈ items, tie item other) (h : items.Pairwise (Precedes key tie)) :
    (insertSorted less item items).Pairwise (Precedes key tie) := by
  induction items with
  | nil => exact List.pairwise_singleton _ _
  | cons other rest ih =>
      obtain ⟨hother, hrest⟩ := List.forall_mem_cons.mp hitems
      obtain ⟨htie, hmore⟩ := List.forall_mem_cons.mp hties
      obtain ⟨hfirst, hlater⟩ := List.pairwise_cons.mp h
      unfold insertSorted
      rw [hless other item hother hitem]
      split
      · next hlt =>
          refine List.pairwise_cons.mpr ⟨?_, ih hrest hmore hlater⟩
          intro b hb
          rcases List.mem_cons.mp ((insertSorted_perm less item rest).mem_iff.mp hb) with rfl | hb
          · exact .inl (of_decide_eq_true hlt)
          · exact hfirst b hb
      · next hge =>
          have hle : key item ≤ key other := by simpa using hge
          refine List.pairwise_cons.mpr ⟨?_, h⟩
          intro b hb
          rcases List.mem_cons.mp hb with rfl | hb
          · exact precedes_of_le hle htie
          · exact precedes_of_le (le_trans hle (hfirst b hb).key_le) (hmore b hb)

/-- Items sorted one by one precede each other. -/
theorem pairwise_stable (hless : ∀ a b, P a → P b → less a b = decide (key a < key b))
    {items : List α} (hitems : ∀ item ∈ items, P item) (hties : items.Pairwise tie) :
    (stable less items).Pairwise (Precedes key tie) := by
  induction items with
  | nil => exact .nil
  | cons item rest ih =>
      obtain ⟨hitem, hrest⟩ := List.forall_mem_cons.mp hitems
      obtain ⟨htie, hmore⟩ := List.pairwise_cons.mp hties
      have hperm := stable_perm less rest
      rw [stable_cons]
      refine pairwise_insertSorted hless hitem ?_ ?_ (ih hrest hmore)
      · exact fun other hother => hrest other (hperm.mem_iff.mp hother)
      · exact fun other hother => htie other (hperm.mem_iff.mp hother)

/-- A list that is sorted upward rises. -/
theorem pairwise_ascending (hless : ∀ a b, P a → P b → less a b = decide (key a < key b))
    {items : List α} (hitems : ∀ item ∈ items, P item) (hties : items.Pairwise tie) :
    (ascending less true items).Pairwise (Precedes key tie) :=
  pairwise_stable hless hitems hties

/-- A list that is sorted downward falls. -/
theorem pairwise_descending (hless : ∀ a b, P a → P b → less a b = decide (key a < key b))
    {items : List α} (hitems : ∀ item ∈ items, P item) (hties : items.Pairwise tie) :
    (descending less true items).Pairwise (Precedes (fun a => OrderDual.toDual (key a)) tie) :=
  pairwise_stable (fun a b ha hb => hless b a hb ha) hitems hties

end Sorting
end DiceNotation

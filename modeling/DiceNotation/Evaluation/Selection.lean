import DiceNotation.Expression.Basic
import DiceNotation.Outcome.Basic
import DiceNotation.Sorting.Order

/-!
# Selections

A selector chooses among the entries of a pool or list, by conditions or as the highest or
lowest values.  Keeping discards the entries that are not chosen and dropping discards
those that are; an entry discarded before is left as it is and is no candidate.

Main definitions:

- `Selector.chosen`: which entries are chosen.
- `Selector.discards`: which entries are newly discarded.
- `Value.select`: a pool or list after a selection.

Main results:

- `Selector.length_discards`: every entry has an answer.
- `Value.forall_dice_select`: a selection leaves of the dice what a mark leaves of them.
-/

namespace DiceNotation

/-- What a selector sees of an entry. -/
structure Standing where
  value : Number
  discarded : Bool
deriving Repr, DecidableEq

/-- What a selector sees of a die. -/
def Die.standing (die : Die) : Standing := ⟨.int die.value, die.discarded⟩

/-- What a selector sees of an outcome. -/
def Outcome.standing (outcome : Outcome) : Standing := ⟨outcome.value, outcome.discarded⟩

namespace Selector

/-- The places of the entries, ordered by value: the highest first, or the lowest. -/
def ranking (highest : Bool) (entries : List Standing) : List (Standing × Nat) :=
  let less (a b : Standing × Nat) := a.1.value.lt b.1.value
  let comparable := entries.all fun entry => !entry.value.isNan
  if highest then Sorting.descending less comparable entries.zipIdx
  else Sorting.ascending less comparable entries.zipIdx

/-- The places of the `count` highest or lowest entries that are not discarded. -/
def extremes (highest : Bool) (count : Nat) (entries : List Standing) : List Nat :=
  (((ranking highest entries).filter fun entry => !entry.1.discarded).take count).map Prod.snd

/-- Which entries are chosen. -/
def chosen (selector : Selector) (entries : List Standing) : List Bool :=
  match selector with
  | .meeting conditions => entries.map fun entry => Condition.anyHolds conditions entry.value
  | .extreme highest count =>
    let places := extremes highest count.toNat entries
    (List.range entries.length).map fun place => places.contains place

/-- Which entries are newly discarded: of those that are not discarded yet, keeping
discards the ones that are not chosen and dropping the ones that are. -/
def discards (keep : Bool) (selector : Selector) (entries : List Standing) : List Bool :=
  List.zipWith (fun entry chosen => !entry.discarded && chosen != keep) entries
    (selector.chosen entries)

@[simp]
theorem length_chosen (selector : Selector) (entries : List Standing) :
    (selector.chosen entries).length = entries.length := by
  cases selector <;> simp [chosen]

@[simp]
theorem length_discards (keep : Bool) (selector : Selector) (entries : List Standing) :
    (selector.discards keep entries).length = entries.length := by
  simp [discards]

end Selector

namespace Value

/-- A pool or list after a selection. -/
def select (value : Value) (keep : Bool) (selector : Selector) (markup : Markup) : Value :=
  match value with
  | .single outcome => .single outcome
  | .pool dice =>
    .pool (List.zipWith
      (fun die discard => if discard then { die with discarded := true } else die)
      dice (selector.discards keep (dice.map Die.standing)))
  | .list outcomes =>
    .list (List.zipWith
      (fun outcome discard => if discard then outcome.discard markup else outcome)
      outcomes (selector.discards keep (outcomes.map Outcome.standing)))

/-- A selection marks dice and takes none away, so what a mark leaves alone holds of all dice. -/
theorem forall_dice_select {P : Die → Prop} (hmark : ∀ die, P die → P { die with discarded := true })
    {value : Value} (h : ∀ die ∈ value.dice, P die) (keep : Bool) (selector : Selector)
    (markup : Markup) : ∀ die ∈ (value.select keep selector markup).dice, P die := by
  cases value with
  | single outcome => exact h
  | list outcomes => exact h
  | pool dice =>
      have hall : ∀ die ∈ dice, P die := h
      intro die hdie
      change die ∈ List.zipWith _ dice _ at hdie
      obtain ⟨k, hk, rfl⟩ := List.mem_iff_getElem.mp hdie
      rw [List.length_zipWith] at hk
      rw [List.getElem_zipWith]
      have hplain := hall dice[k] (List.getElem_mem (by omega))
      split
      · exact hmark _ hplain
      · exact hplain

end Value
end DiceNotation

import DiceNotation.Evaluation.Selection
import DiceNotation.Proofs.Number.Order
import DiceNotation.Proofs.Sorting.Sorted
import Mathlib.Data.List.Perm.Basic
import Mathlib.Data.Multiset.Sort

/-!
# What a selection leaves in play

Entries that have not been discarded are in play.  A selection sees entries in an order, and some of
them are discarded before; but which values it leaves in play depends only on the values that were
in play, not on where they stood.

Main definitions:

- `Standing.select`: entries after a selection.
- `Standing.inPlay`: the integers in play.
- `Selector.leaves`: what a selection leaves of such integers.

Main results:

- `Standing.pairwise_ranked`: the order in which entries are ranked.
- `Standing.inPlay_select`: what is in play after a selection is left of what was in play before.
-/

namespace DiceNotation

/-! ## Lists -/

namespace Selector

section Lists

variable {α β : Type} [DecidableEq β] {f : α → β}

/-- In a list of different items the first ones are found by what they are. -/
theorem filter_contains_take {items : List α} (h : (items.map f).Nodup) (k : Nat) :
    (items.filter fun a => ((items.take k).map f).contains (f a)) = items.take k ∧
      (items.filter fun a => !((items.take k).map f).contains (f a)) = items.drop k := by
  have hsplit := List.take_append_drop k items
  generalize items.take k = first, items.drop k = rest at hsplit
  subst hsplit
  rw [List.map_append, List.nodup_append] at h
  obtain ⟨-, -, hdisjoint⟩ := h
  have hfirst : ∀ a ∈ first, (first.map f).contains (f a) = true := fun a ha => by
    simpa using ⟨a, ha, rfl⟩
  have hrest : ∀ a ∈ rest, (first.map f).contains (f a) = false := fun a ha => by
    rw [Bool.eq_false_iff, Ne, List.contains_iff_mem]
    exact fun hmem => hdisjoint _ hmem _ (List.mem_map_of_mem ha) rfl
  rw [List.filter_append, List.filter_append]
  constructor
  · rw [List.filter_eq_self.mpr hfirst,
      List.filter_eq_nil_iff.mpr fun a ha => Bool.eq_false_iff.mp (hrest a ha), List.append_nil]
  · rw [List.filter_eq_nil_iff.mpr fun a ha => by rw [hfirst a ha]; decide,
      List.filter_eq_self.mpr fun a ha => by rw [hrest a ha]; rfl, List.nil_append]

/-- A list in order is the sorted list of its items. -/
theorem eq_sort_of_pairwise {r : α → α → Prop} [DecidableRel r] [IsTrans α r] [Std.Antisymm r]
    [Std.Total r] {items : List α} (h : items.Pairwise r) : items = (items : Multiset α).sort r :=
  (Multiset.coe_eq_coe.mp (Multiset.sort_eq _ r)).symm.eq_of_pairwise' h
    (Multiset.pairwise_sort _ r)

end Lists

/-! ## Integers in play -/

/-- Integers in order, from the highest or from the lowest. -/
def inOrder (highest : Bool) (values : Multiset Int) : List Int :=
  if highest then values.sort (· ≥ ·) else values.sort (· ≤ ·)

/-- What a selection leaves of the integers in play: those that meet a condition or those that do
not, the first in order or the others. -/
def leaves (selector : Selector) (keep : Bool) (values : Multiset Int) : Multiset Int :=
  match selector with
  | .meeting conditions => values.filter fun n => Condition.anyHolds conditions (.int n) = keep
  | .extreme highest count =>
    let order := inOrder highest values
    ((if keep then order.take count.toNat else order.drop count.toNat : List Int) : Multiset Int)

end Selector

/-- The integer that a number is. -/
def Number.integer : Number → Int
  | .int n => n
  | .real _ => 0

namespace Standing

/-- Entries after a selection. -/
def select (keep : Bool) (selector : Selector) (entries : List Standing) : List Standing :=
  List.zipWith (fun entry discard => if discard then { entry with discarded := true } else entry)
    entries (selector.discards keep entries)

/-- Whether the values of entries are integers. -/
def AreIntegers (entries : List Standing) : Prop := ∀ entry ∈ entries, ∃ n, entry.value = .int n

/-- Outcomes stand with integers just when each of them has one. -/
theorem areIntegers_standing {outcomes : List Outcome} :
    AreIntegers (outcomes.map Outcome.standing) ↔
      ∀ outcome ∈ outcomes, ∃ n, outcome.value = .int n :=
  List.forall_mem_map

/-- The integers in play: the values of the entries that are not discarded. -/
def inPlay (entries : List Standing) : Multiset Int :=
  ((entries.filter fun entry => !entry.discarded).map fun entry => entry.value.integer : List Int)

/-- What a selection leaves in play are the entries that were in play and that it keeps. -/
theorem live_select (keep : Bool) (selector : Selector) (entries : List Standing) :
    ((select keep selector entries).filter fun entry => !entry.discarded) =
      ((entries.zip (selector.chosen entries)).filter fun entry =>
        !entry.1.discarded && entry.2 == keep).map Prod.fst := by
  unfold select Selector.discards
  have hlength := selector.length_chosen entries
  generalize selector.chosen entries = flags at hlength
  induction entries generalizing flags with
  | nil => rfl
  | cons entry rest ih =>
      cases flags with
      | nil => simp at hlength
      | cons flag flags =>
          have hrest := ih flags (Nat.succ.inj hlength)
          simp only [List.zipWith_cons_cons, List.zip_cons_cons, List.filter_cons, hrest]
          cases hentry : entry.discarded <;> cases flag <;> cases keep <;> simp [hentry]

/-- A selection leaves each item as it is, or marks one that was not discarded. -/
theorem forall₂_select {α : Type} {R : α → α → Prop} {standing : α → Standing} {mark : α → α}
    (self : ∀ item, R item item)
    (marked : ∀ item, (standing item).discarded = false → R item (mark item)) (keep : Bool)
    (selector : Selector) (items : List α) :
    List.Forall₂ R items (List.zipWith (fun item discard => if discard then mark item else item)
      items (selector.discards keep (items.map standing))) := by
  unfold Selector.discards
  have hlength : (selector.chosen (items.map standing)).length = items.length := by simp
  generalize selector.chosen (items.map standing) = flags at hlength
  induction items generalizing flags with
  | nil => exact .nil
  | cons item rest ih =>
      cases flags with
      | nil => simp at hlength
      | cons flag flags =>
          refine .cons ?_ (ih flags (Nat.succ.inj hlength))
          dsimp only
          split
          · next hdiscard =>
              rw [Bool.and_eq_true, Bool.not_eq_true'] at hdiscard
              exact marked item hdiscard.1
          · exact self item

/-! ## Conditions -/

/-- What a selection by conditions leaves in play depends on the values in play only. -/
theorem inPlay_select_meeting (keep : Bool) (conditions : List Condition) {entries : List Standing}
    (hentries : AreIntegers entries) :
    inPlay (select keep (.meeting conditions) entries) =
      Selector.leaves (.meeting conditions) keep (inPlay entries) := by
  have hpairs : entries.zip (entries.map fun entry => Condition.anyHolds conditions entry.value) =
      entries.map fun entry => (entry, Condition.anyHolds conditions entry.value) := by
    induction entries with
    | nil => rfl
    | cons entry rest ih => simp [ih (List.forall_mem_cons.mp hentries).2]
  have hsame : ∀ entry ∈ entries, (!entry.discarded &&
      Condition.anyHolds conditions entry.value == keep) =
      (decide (Condition.anyHolds conditions (.int entry.value.integer) = keep) &&
        !entry.discarded) := by
    intro entry hentry
    obtain ⟨n, hn⟩ := hentries entry hentry
    rw [hn, Bool.and_comm]
    rfl
  rw [inPlay, live_select, Selector.chosen, hpairs, Selector.leaves, inPlay, Multiset.filter_coe]
  simp only [List.filter_map, List.map_map, List.filter_filter]
  exact congrArg (fun kept => ((kept.map fun entry : Standing => entry.value.integer : List Int) :
    Multiset Int)) (List.filter_congr hsame)

/-! ## The highest and the lowest -/

/-- The entries in play, the highest first or the lowest, with their places. -/
def ranked (highest : Bool) (entries : List Standing) : List (Standing × Nat) :=
  (Selector.ranking highest entries).filter fun entry => !entry.1.discarded

/-- The ranking has every entry once, with its place. -/
theorem ranking_perm (highest : Bool) (entries : List Standing) :
    (Selector.ranking highest entries).Perm entries.zipIdx := by
  unfold Selector.ranking
  split
  · exact Sorting.descending_perm ..
  · exact Sorting.ascending_perm ..

/-- Each entry is ranked once. -/
theorem nodup_ranked (highest : Bool) (entries : List Standing) :
    ((ranked highest entries).map Prod.snd).Nodup := by
  have hplaces : (entries.zipIdx.map Prod.snd).Nodup := by
    rw [List.zipIdx_map_snd]
    exact List.nodup_range'
  have hranking := ((ranking_perm highest entries).map Prod.snd).nodup_iff.mpr hplaces
  exact hranking.sublist (List.filter_sublist.map _)

/-- Those ranked are the entries not discarded. -/
theorem ranked_perm (highest : Bool) (entries : List Standing) :
    ((ranked highest entries).map Prod.fst).Perm
      (entries.filter fun entry => !entry.discarded) := by
  have hlive := (ranking_perm highest entries).filter fun entry => !entry.1.discarded
  have hranked := hlive.map Prod.fst
  have hplain : (entries.zipIdx.filter fun entry => !entry.1.discarded).map Prod.fst =
      entries.filter fun entry => !entry.discarded := by
    have hmap := List.filter_map (f := Prod.fst) (p := fun entry : Standing => !entry.discarded)
      (l := entries.zipIdx)
    rw [List.zipIdx_map_fst] at hmap
    exact hmap.symm
  exact hplain ▸ hranked

/-- Whether one number is preferred to another: the higher or the lower of the two. -/
def prefers (highest : Bool) (a b : Number) : Bool := if highest then b.lt a else a.lt b

/-- Whether an entry is ranked ahead of another: the other is not preferred to it, and stands behind
it where the two are equal. -/
structure RanksAhead (highest : Bool) (a b : Standing × Nat) : Prop where
  not_preferred : prefers highest b.1.value a.1.value = false
  place_lt : a.1.value.eqv b.1.value = true → a.2 < b.2

/-- Entries that can be compared are ranked as they are preferred, and equal ones as they stand. -/
theorem pairwise_ranked (highest : Bool) {entries : List Standing}
    (hentries : ∀ entry ∈ entries, entry.value.isNan = false) :
    (ranked highest entries).Pairwise (RanksAhead highest) := by
  let less (a b : Standing × Nat) : Bool := a.1.value.lt b.1.value
  let IsComparable (item : Standing × Nat) : Prop := item.1.value.isNan = false
  let height (item : Standing × Nat) := item.1.value.height
  let Stands (a b : Standing × Nat) : Prop := a.2 < b.2
  have hless : ∀ a b, IsComparable a → IsComparable b → less a b = decide (height a < height b) :=
    fun a b ha hb => Number.lt_eq_decide ha hb
  have hitems : ∀ item ∈ entries.zipIdx, IsComparable item :=
    fun item hitem => hentries _ (List.fst_mem_of_mem_zipIdx hitem)
  have hstands : entries.zipIdx.Pairwise Stands := by
    have hplaces : (entries.zipIdx.map Prod.snd).Pairwise (· < ·) := by
      rw [List.zipIdx_map_snd]
      exact List.pairwise_lt_range'
    exact List.pairwise_map.mp hplaces
  have hcomparable : (entries.all fun entry => !entry.value.isNan) = true :=
    List.all_eq_true.mpr fun entry hentry => by simp [hentries entry hentry]
  suffices hranking : (Selector.ranking highest entries).Pairwise (RanksAhead highest) from
    hranking.filter _
  have hmem : ∀ item ∈ Selector.ranking highest entries, IsComparable item :=
    fun item hitem => hitems item ((ranking_perm highest entries).mem_iff.mp hitem)
  unfold Selector.ranking at hmem ⊢
  rw [hcomparable] at hmem ⊢
  cases highest with
  | true =>
      refine (Sorting.pairwise_descending hless hitems hstands).imp_of_mem fun ha hb h => ?_
      have ha := hmem _ ha
      have hb := hmem _ hb
      refine ⟨(Number.lt_eq_false_iff ha hb).mpr h.key_le, fun heqv => h.tie_of_eq ?_⟩
      exact (Number.eqv_iff ha hb).mp heqv
  | false =>
      refine (Sorting.pairwise_ascending hless hitems hstands).imp_of_mem fun ha hb h => ?_
      have ha := hmem _ ha
      have hb := hmem _ hb
      refine ⟨(Number.lt_eq_false_iff hb ha).mpr h.key_le, fun heqv => h.tie_of_eq ?_⟩
      exact (Number.eqv_iff ha hb).mp heqv

/-- Integers are ranked by their order. -/
theorem values_ranked (highest : Bool) {entries : List Standing} (hentries : AreIntegers entries) :
    ((ranked highest entries).map fun entry => entry.1.value.integer) =
      Selector.inOrder highest (inPlay entries) := by
  have hcomparable : ∀ entry ∈ entries, entry.value.isNan = false := by
    intro entry hentry
    obtain ⟨n, hn⟩ := hentries entry hentry
    rw [hn]
    rfl
  have hperm : inPlay entries =
      Multiset.ofList ((ranked highest entries).map fun entry => entry.1.value.integer) := by
    have hvalues := (ranked_perm highest entries).map fun entry => entry.value.integer
    rw [List.map_map] at hvalues
    exact (Multiset.coe_eq_coe.mpr hvalues).symm
  have hvalue : ∀ item ∈ ranked highest entries, item.1.value = .int item.1.value.integer := by
    intro item hitem
    have hlive := (ranked_perm highest entries).mem_iff.mp
      (List.mem_map_of_mem (f := Prod.fst) hitem)
    obtain ⟨n, hn⟩ := hentries _ (List.mem_of_mem_filter hlive)
    rw [hn, Number.integer]
  have hnot : (ranked highest entries).Pairwise fun a b =>
      prefers highest (.int b.1.value.integer) (.int a.1.value.integer) = false := by
    refine (pairwise_ranked highest hcomparable).imp_of_mem fun ha hb h => ?_
    rw [← hvalue _ ha, ← hvalue _ hb]
    exact h.not_preferred
  rw [hperm]
  cases highest with
  | true =>
      have hfalls : (ranked true entries).Pairwise fun a b =>
          a.1.value.integer ≥ b.1.value.integer := hnot.imp fun h => by simpa [prefers] using h
      exact Selector.eq_sort_of_pairwise (List.pairwise_map.mpr hfalls)
  | false =>
      have hrises : (ranked false entries).Pairwise fun a b =>
          a.1.value.integer ≤ b.1.value.integer := hnot.imp fun h => by simpa [prefers] using h
      exact Selector.eq_sort_of_pairwise (List.pairwise_map.mpr hrises)

/-- Those that are chosen of the entries in play are ranked first, and the others behind them. -/
theorem filter_ranked (highest : Bool) (count : Nat) (entries : List Standing) (chosen : Bool) :
    ((ranked highest entries).filter fun entry =>
      (Selector.extremes highest count entries).contains entry.2 == chosen) =
      if chosen then (ranked highest entries).take count
      else (ranked highest entries).drop count := by
  obtain ⟨htake, hdrop⟩ := Selector.filter_contains_take (nodup_ranked highest entries) count
  cases chosen with
  | true => simpa [Selector.extremes, ranked] using htake
  | false => simpa [Selector.extremes, ranked] using hdrop

/-- What a selection of extremes leaves in play depends on the values in play only. -/
theorem inPlay_select_extreme (keep highest : Bool) (count : Int) {entries : List Standing}
    (hentries : AreIntegers entries) :
    inPlay (select keep (.extreme highest count) entries) =
      Selector.leaves (.extreme highest count) keep (inPlay entries) := by
  let places := Selector.extremes highest count.toNat entries
  have hpairs : entries.zip ((Selector.extreme highest count).chosen entries) =
      entries.zipIdx.map fun entry => (entry.1, places.contains entry.2) := by
    rw [Selector.chosen, List.zipIdx_eq_zip_range', List.range_eq_range', List.zip_map_right]
    rfl
  -- The entries in play are ranked, and the selection keeps the first of them or the others.
  have hlive : (entries.zipIdx.filter fun entry =>
      !entry.1.discarded && places.contains entry.2 == keep).Perm
      ((ranked highest entries).filter fun entry => places.contains entry.2 == keep) := by
    have hranking := (ranking_perm highest entries).symm.filter fun entry =>
      !entry.1.discarded && places.contains entry.2 == keep
    refine hranking.trans (List.Perm.of_eq ?_)
    rw [ranked, List.filter_filter]
    exact List.filter_congr fun _ _ => Bool.and_comm ..
  rw [inPlay, live_select, hpairs, Selector.leaves, ← values_ranked highest hentries]
  simp only [List.filter_map, List.map_map]
  refine (Multiset.coe_eq_coe.mpr (hlive.map _)).trans ?_
  rw [filter_ranked]
  cases keep with
  | true => exact congrArg Multiset.ofList List.map_take
  | false => exact congrArg Multiset.ofList List.map_drop

/-- What is in play after a selection depends only on the integers in play before it. -/
theorem inPlay_select (keep : Bool) (selector : Selector) {entries : List Standing}
    (hentries : AreIntegers entries) :
    inPlay (select keep selector entries) = selector.leaves keep (inPlay entries) := by
  cases selector with
  | meeting conditions => exact inPlay_select_meeting keep conditions hentries
  | extreme highest count => exact inPlay_select_extreme keep highest count hentries

end Standing
end DiceNotation

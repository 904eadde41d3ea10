import DiceNotation.Proofs.Evaluation.Places

/-!
# The highest and the lowest

A selector of the highest or lowest entries ranks those in play by their values, equal ones by their
places, and chooses the first.  Keeping discards the others, dropping discards these.  So a
selection is exact: it discards as many entries as it should, prefers none that it leaves out to one
that it has chosen, and decides between equal ones by their places, from whichever end they are
ranked.

Main definitions:

- `Standing.chosenPlaces`: the places that a selection has chosen, by what has become of them.
- `Standing.SelectsExtremes`: exact selections.

Main results:

- `Standing.mem_ranksOf`: the first of the ranking are chosen, and the others are not.
- `Standing.selectsExtremes_select`: selections are exact.
- `Expression.select_extremes`: so are the selections of expressions.
-/

namespace DiceNotation
namespace Standing

variable {highest : Bool} {entries : List Standing} {place : Nat}

/-! ## The highest and the lowest -/

/-- The ranking shows every entry in play with its place. -/
theorem mem_ranked {entry : Standing} : (entry, place) ∈ ranked highest entries ↔
    entries[place]? = some entry ∧ entry.discarded = false := by
  rw [ranked, List.mem_filter, (ranking_perm highest entries).mem_iff,
    List.mk_mem_zipIdx_iff_getElem?]
  simp

/-- The places of the entries in play that are ranked first, or of those behind them. -/
def ranksOf (highest : Bool) (count : Nat) (entries : List Standing) (first : Bool) : List Nat :=
  (if first then (ranked highest entries).take count
    else (ranked highest entries).drop count).map Prod.snd

/-- The first of the ranking are chosen, and the others are not. -/
theorem mem_ranksOf {count : Int} {chosen : Bool} :
    place ∈ ranksOf highest count.toNat entries chosen ↔ place ∈ live entries ∧
      ((Selector.extreme highest count).chosen entries)[place]? = some chosen := by
  have hflag (hlive : place ∈ live entries) :
      ((Selector.extreme highest count).chosen entries)[place]? =
        some ((Selector.extremes highest count.toNat entries).contains place) := by
    obtain ⟨entry, hentry, -⟩ := mem_live.mp hlive
    have hplace := (List.getElem?_eq_some_iff.mp hentry).1
    simp [Selector.chosen, List.getElem?_range hplace]
  rw [ranksOf, ← filter_ranked, List.mem_map]
  constructor
  · rintro ⟨⟨entry, _⟩, hentry, rfl⟩
    obtain ⟨hranked, hchosen⟩ := List.mem_filter.mp hentry
    have hlive := mem_live.mpr ⟨entry, mem_ranked.mp hranked⟩
    exact ⟨hlive, by rw [hflag hlive, eq_of_beq hchosen]⟩
  · rintro ⟨hlive, hchosen⟩
    obtain ⟨entry, hentry⟩ := mem_live.mp hlive
    rw [hflag hlive, Option.some.injEq] at hchosen
    exact ⟨(entry, place), List.mem_filter.mpr ⟨mem_ranked.mpr hentry, beq_iff_eq.mpr hchosen⟩, rfl⟩

/-- All entries in play are ranked. -/
theorem length_ranked : (ranked highest entries).length = (live entries).card := by
  rw [live, card_places, List.countP_eq_length_filter, ← (ranked_perm highest entries).length_eq,
    List.length_map]

/-- As many places are ranked first as are asked for, and there are. -/
theorem card_ranksOf {count : Nat} {first : Bool} :
    (ranksOf highest count entries first).toFinset.card =
      if first then min count (live entries).card else (live entries).card - count := by
  have hnodup := nodup_ranked highest entries
  rw [ranksOf, List.toFinset_card_of_nodup]
  · cases first <;> simp [length_ranked]
  · cases first with
    | true => exact hnodup.sublist ((List.take_sublist _ _).map _)
    | false => exact hnodup.sublist ((List.drop_sublist _ _).map _)

/-- The first of the ranking are ranked ahead of the others. -/
theorem ranksAhead_of_mem (hentries : ∀ entry ∈ entries, entry.value.isNan = false) {count : Nat}
    {i j : Nat} (hi : i ∈ ranksOf highest count entries true)
    (hj : j ∈ ranksOf highest count entries false) {a b : Standing} (ha : entries[i]? = some a)
    (hb : entries[j]? = some b) : RanksAhead highest (a, i) (b, j) := by
  have hranked := pairwise_ranked highest hentries
  rw [← List.take_append_drop count (ranked highest entries), List.pairwise_append] at hranked
  obtain ⟨⟨a', _⟩, hfirst, rfl⟩ := List.mem_map.mp hi
  obtain ⟨⟨b', _⟩, hlater, rfl⟩ := List.mem_map.mp hj
  have ha' := (mem_ranked.mp (List.mem_of_mem_take hfirst)).1
  have hb' := (mem_ranked.mp (List.mem_of_mem_drop hlater)).1
  rw [ha'] at ha
  rw [hb'] at hb
  cases ha
  cases hb
  exact hranked.2.2 _ hfirst _ hlater

/-- The places of the entries that a selection has chosen: it keeps what it chooses, or drops it. -/
def chosenPlaces (keep : Bool) (before after : List Standing) : Finset Nat :=
  if keep then live after else struck before after

/-- The places a selection keeps or drops are those of the ranks it chooses. -/
theorem chosenPlaces_select (keep chosen : Bool) (count : Int) :
    chosenPlaces (keep == chosen) entries (select keep (.extreme highest count) entries) =
      (ranksOf highest count.toNat entries chosen).toFinset := by
  ext place
  rw [List.mem_toFinset, mem_ranksOf, chosenPlaces]
  cases keep <;> cases chosen <;> simp [mem_live_select, mem_struck_select]

/-- Whether a selection has been exact: as many of the highest or lowest entries in play are chosen
as there should be, or all of them; no other entry is preferred to one that is chosen, and of equal
ones those are chosen that stand first. -/
structure SelectsExtremes (keep highest : Bool) (count : Nat) (before after : List Standing) :
    Prop where
  values_eq : after.map Standing.value = before.map Standing.value
  card_struck : (struck before after).card =
    if keep then (live before).card - count else min count (live before).card
  not_preferred : ∀ i ∈ chosenPlaces keep before after, ∀ j ∈ chosenPlaces (!keep) before after,
    ∀ a b, before[i]? = some a → before[j]? = some b → prefers highest b.value a.value = false
  place_lt : ∀ i ∈ chosenPlaces keep before after, ∀ j ∈ chosenPlaces (!keep) before after,
    ∀ a b, before[i]? = some a → before[j]? = some b → a.value.eqv b.value = true → i < j

/-- Selections of the highest and lowest are exact. -/
theorem selectsExtremes_select (hentries : ∀ entry ∈ entries, entry.value.isNan = false)
    (keep : Bool) (count : Int) :
    SelectsExtremes keep highest count.toNat entries
      (select keep (.extreme highest count) entries) := by
  have hchosen : chosenPlaces keep entries (select keep (.extreme highest count) entries) =
      (ranksOf highest count.toNat entries true).toFinset := by
    simpa using chosenPlaces_select keep true count
  have hothers : chosenPlaces (!keep) entries (select keep (.extreme highest count) entries) =
      (ranksOf highest count.toNat entries false).toFinset := by
    simpa using chosenPlaces_select keep false count
  have hahead : ∀ i ∈ (ranksOf highest count.toNat entries true).toFinset,
      ∀ j ∈ (ranksOf highest count.toNat entries false).toFinset, ∀ a b,
      entries[i]? = some a → entries[j]? = some b → RanksAhead highest (a, i) (b, j) :=
    fun i hi j hj a b ha hb =>
      ranksAhead_of_mem hentries (List.mem_toFinset.mp hi) (List.mem_toFinset.mp hj) ha hb
  refine ⟨map_value_select, ?_, ?_, ?_⟩
  · cases keep with
    | true => exact (congrArg Finset.card hothers).trans card_ranksOf
    | false => exact (congrArg Finset.card hchosen).trans card_ranksOf
  · rw [hchosen, hothers]
    exact fun i hi j hj a b ha hb => (hahead i hi j hj a b ha hb).not_preferred
  · rw [hchosen, hothers]
    exact fun i hi j hj a b ha hb => (hahead i hi j hj a b ha hb).place_lt

end Standing

namespace Expression

/-- Selections of the highest and lowest are exact, for every pool or list of numbers and whatever
has been discarded of it; and that is what an expression yields that keeps or drops entries of the
pool or list that its operand yields. -/
theorem select_extremes {value : Value} (hshape : value.shape ≠ .number)
    (hnumbers : ∀ entry ∈ value.standings, entry.value.isNan = false) (keep highest : Bool)
    (count : Int) (markup : Markup) :
    Standing.SelectsExtremes keep highest count.toNat value.standings
        (value.select keep (.extreme highest count) markup).standings ∧
      ∀ (table : Table) (operand : Expression) (tally later : Tally),
        (evaluate table markup operand).run tally = .ok value later →
          (evaluate table markup (.modified (.select keep (.extreme highest count)) operand)).run
            tally = .ok (value.select keep (.extreme highest count) markup) later := by
  constructor
  · rw [Value.standings_select hshape]
    exact Standing.selectsExtremes_select hnumbers keep count
  · intro table operand tally later hvalue
    have hoperand : operand.shape ≠ .number := by rwa [← (fits_of_run hvalue).shape_eq]
    exact run_evaluate_select hoperand keep (.extreme highest count) hvalue

/-- A list of four numbers, the highest of which has been dropped. -/
def highestDropped : Expression :=
  .modified (.select false (.extreme true 1))
    (.list [.number (.int 5) ['5'], .number (.int 3) ['3'], .number (.int 5) ['5'],
      .number (.int 5) ['5']])

/-- Of the equal numbers the first has been dropped, and the second is kept as the highest. -/
theorem select_extremes_ties :
    ∃ value later,
      (evaluate { source := fun _ => none } .plain highestDropped).run {} = .ok value later ∧
      value.standings = [⟨.int 5, true⟩, ⟨.int 3, false⟩, ⟨.int 5, false⟩, ⟨.int 5, false⟩] ∧
      Standing.SelectsExtremes true true 1 value.standings
        [⟨.int 5, true⟩, ⟨.int 3, true⟩, ⟨.int 5, false⟩, ⟨.int 5, true⟩] ∧
      (evaluate { source := fun _ => none } .plain
        (.modified (.select true (.extreme true 1)) highestDropped)).run {} =
          .ok (value.select true (.extreme true 1) .plain) later := by
  have h : (evaluate { source := fun _ => none } .plain highestDropped).run {} =
      .ok (.list [{ value := .int 5, text := ['~', '5', '~'], discarded := true },
        { value := .int 3, text := ['3'] }, { value := .int 5, text := ['5'] },
        { value := .int 5, text := ['5'] }]) {} := by
    decide +kernel
  refine ⟨_, _, h, rfl, ?_, ?_⟩
  · exact (select_extremes (by decide) (by decide) true true 1 .plain).1
  · exact (select_extremes (by decide) (by decide) true true 1 .plain).2 _ _ _ _ h

end Expression
end DiceNotation

import DiceNotation.Proofs.Evaluation.Selection
import DiceNotation.Proofs.Evaluation.Shapes
import Mathlib.Data.Finset.Card
import Mathlib.Data.Finset.Range

/-!
# Places of entries

Modifiers move no entry: what stood in the first place of a pool or list stands there afterwards,
and what joins a pool joins behind.  So what happened to which entry can be told by places.

Main definitions:

- `places`: the places of the items with a property.
- `Value.standings`: the entries of a pool or list, as a selector sees them.
- `Standing.live`, `Standing.struck`: the places of what is not discarded, and of what has been
  discarded since.

Main results:

- `card_places`: there are as many places as items.
- `Standing.mem_live_select`, `Standing.mem_struck_select`: what a selection leaves, and what it
  discards.
- `Value.standings_select`, `Expression.evaluate_select`: a selection is made on the entries that
  its operand yields, as a selector sees them.
- `Expression.evaluate_scored`: so is a score.
-/

namespace DiceNotation

/-! ## Places -/

section Places

variable {α β : Type}

/-- The places of the items that have a property. -/
def places (p : α → Bool) (items : List α) : Finset Nat :=
  {place ∈ Finset.range items.length | items[place]?.any p}

variable {p : α → Bool} {items : List α}

/-- A place has a property if the item there has it. -/
theorem mem_places {place : Nat} :
    place ∈ places p items ↔ ∃ item, items[place]? = some item ∧ p item = true := by
  rw [places, Finset.mem_filter, Finset.mem_range, Option.any_eq_true]
  refine and_iff_right_of_imp ?_
  rintro ⟨item, hitem, -⟩
  exact (List.getElem?_eq_some_iff.mp hitem).1

/-- Places of what has been replaced are those of what replaces it. -/
theorem places_map (f : β → α) (items : List β) :
    places p (items.map f) = places (fun item => p (f item)) items := by
  ext place
  simp [mem_places]

/-- A weaker property has more places. -/
theorem places_mono {q : α → Bool} (h : ∀ item, p item = true → q item = true) :
    places p items ⊆ places q items := by
  intro place hplace
  obtain ⟨item, hitem, hp⟩ := mem_places.mp hplace
  exact mem_places.mpr ⟨item, hitem, h item hp⟩

/-- Places of one property but not of another are those of both together. -/
theorem places_sdiff (p q : α → Bool) (items : List α) :
    places p items \ places q items = places (fun item => p item && !q item) items := by
  ext place
  simp only [Finset.mem_sdiff, mem_places]
  cases items[place]? <;> simp

/-- What stands behind items moves none of them. -/
theorem places_subset_append (more : List α) : places p items ⊆ places p (items ++ more) := by
  intro place hplace
  obtain ⟨item, hitem, hp⟩ := mem_places.mp hplace
  have hlt := (List.getElem?_eq_some_iff.mp hitem).1
  exact mem_places.mpr ⟨item, by rwa [List.getElem?_append_left hlt], hp⟩

/-- Items without the property have no place among those with it. -/
theorem places_append_of_forall {more : List α} (h : ∀ item ∈ more, p item = false) :
    places p (items ++ more) = places p items := by
  refine Finset.Subset.antisymm ?_ (places_subset_append more)
  intro place hplace
  obtain ⟨item, hitem, hp⟩ := mem_places.mp hplace
  by_cases hlt : place < items.length
  · rw [List.getElem?_append_left hlt] at hitem
    exact mem_places.mpr ⟨item, hitem, hp⟩
  · rw [List.getElem?_append_right (Nat.le_of_not_lt hlt)] at hitem
    rw [h item (List.mem_of_getElem? hitem)] at hp
    contradiction

/-- One more item may add its place. -/
theorem places_append_singleton (item : α) :
    places p (items ++ [item]) =
      if p item then insert items.length (places p items) else places p items := by
  have hbefore : ∀ place ∈ Finset.range items.length,
      (items ++ [item])[place]?.any p = items[place]?.any p := by
    intro place hplace
    rw [List.getElem?_append_left (Finset.mem_range.mp hplace)]
  rw [places, List.length_append, List.length_singleton, Finset.range_add_one, Finset.filter_insert,
    Finset.filter_congr fun place hplace => by rw [hbefore place hplace]]
  simp [places]

/-- There are as many places as items. -/
theorem card_places : (places p items).card = items.countP p := by
  induction items using List.reverseRecOn with
  | nil => rfl
  | append_singleton items item ih =>
      have hbehind : items.length ∉ places p items := by
        rw [places, Finset.mem_filter, Finset.mem_range]
        exact fun h => absurd h.1 (Nat.lt_irrefl _)
      rw [places_append_singleton, List.countP_append, ← ih]
      cases hitem : p item with
      | true => simp [hitem, Finset.card_insert_of_notMem hbehind]
      | false => simp [hitem]

end Places

/-! ## Entries -/

/-- The entries of a pool or list, as a selector sees them. -/
def Value.standings : Value → List Standing
  | .single outcome => [outcome.standing]
  | .pool dice => dice.map Die.standing
  | .list outcomes => outcomes.map Outcome.standing

namespace Standing

/-- The places of the entries that are discarded. -/
def discardedPlaces (entries : List Standing) : Finset Nat :=
  places (fun entry => entry.discarded) entries

/-- The places of the entries that are not discarded. -/
def live (entries : List Standing) : Finset Nat := places (fun entry => !entry.discarded) entries

/-- The places of the entries that are newly discarded: they were not discarded before, or were not
there. -/
def struck (before after : List Standing) : Finset Nat :=
  discardedPlaces after \ discardedPlaces before

variable {entries before after : List Standing} {place : Nat}

/-- A live place is that of an entry that is not discarded. -/
theorem mem_live : place ∈ live entries ↔
    ∃ entry, entries[place]? = some entry ∧ entry.discarded = false := by
  simp [live, mem_places]

/-- A discarded place is that of an entry that is discarded. -/
theorem mem_discardedPlaces : place ∈ discardedPlaces entries ↔
    ∃ entry, entries[place]? = some entry ∧ entry.discarded = true := mem_places

/-- Entries that join, as many as are newly discarded, make up for these. -/
theorem length_add_card_struck (hdiscarded : discardedPlaces before ⊆ discardedPlaces after)
    (hlive : (live after).card = (live before).card) :
    before.length + (struck before after).card = after.length := by
  have hlength (entries : List Standing) :
      entries.length = (discardedPlaces entries).card + (live entries).card := by
    rw [live, discardedPlaces, card_places, card_places,
      List.length_eq_countP_add_countP fun entry : Standing => entry.discarded]
    simp
  have hle := Finset.card_le_card hdiscarded
  rw [struck, Finset.card_sdiff_of_subset hdiscarded, hlength before, hlength after]
  omega

/-! ## Selections -/

section Selections

variable {keep : Bool} {selector : Selector}

/-- Entries after a selection, by what the selector chooses. -/
theorem select_eq_zipWith : select keep selector entries =
    List.zipWith (fun entry chosen =>
      { entry with discarded := entry.discarded || chosen != keep })
      entries (selector.chosen entries) := by
  unfold select Selector.discards
  generalize selector.chosen entries = flags
  induction entries generalizing flags with
  | nil => rfl
  | cons entry rest ih =>
      cases flags with
      | nil => rfl
      | cons flag flags =>
          simp only [List.zipWith_cons_cons, ih flags]
          obtain ⟨value, discarded⟩ := entry
          cases discarded <;> cases flag <;> cases keep <;> rfl

/-- A selection leaves the entries that it chooses to keep, or does not choose to drop. -/
theorem mem_live_select : place ∈ live (select keep selector entries) ↔
    place ∈ live entries ∧ (selector.chosen entries)[place]? = some keep := by
  simp only [mem_live, select_eq_zipWith, List.getElem?_zipWith]
  cases entries[place]? with
  | none => simp
  | some entry => cases (selector.chosen entries)[place]? <;> simp

/-- A selection newly discards the others that were not discarded before. -/
theorem mem_struck_select : place ∈ struck entries (select keep selector entries) ↔
    place ∈ live entries ∧ (selector.chosen entries)[place]? = some (!keep) := by
  simp only [struck, Finset.mem_sdiff, mem_live, mem_discardedPlaces, select_eq_zipWith,
    List.getElem?_zipWith]
  cases entries[place]? with
  | none => simp
  | some entry =>
      cases (selector.chosen entries)[place]? with
      | none => simp
      | some chosen => cases entry.discarded <;> cases chosen <;> cases keep <;> simp

/-- A selection changes no value. -/
theorem map_value_select :
    (select keep selector entries).map Standing.value = entries.map Standing.value := by
  have hzip : (entries.zip (selector.chosen entries)).map Prod.fst = entries :=
    List.map_fst_zip (by simp)
  calc (select keep selector entries).map Standing.value
      = (entries.zip (selector.chosen entries)).map (Standing.value ∘ Prod.fst) := by
        rw [select_eq_zipWith, List.map_zipWith, List.map_zip_eq_zipWith]
        rfl
    _ = entries.map Standing.value := by rw [← List.map_map, hzip]

end Selections

end Standing

namespace Value

variable {keep : Bool} {selector : Selector} {markup : Markup}

/-- A selection keeps the shape of a value. -/
@[simp]
theorem shape_select (value : Value) :
    (value.select keep selector markup).shape = value.shape := by
  cases value <;> rfl

/-- A selector sees of a pool or list what it sees of its entries. -/
theorem standings_select {value : Value} (hshape : value.shape ≠ .number) :
    (value.select keep selector markup).standings =
      Standing.select keep selector value.standings := by
  cases value with
  | single outcome => exact absurd rfl hshape
  | pool dice =>
      simp only [select, standings, Standing.select, List.map_zipWith, List.zipWith_map_left]
      congr 1
      funext die discard
      cases discard <;> rfl
  | list outcomes =>
      simp only [select, standings, Standing.select, List.map_zipWith, List.zipWith_map_left]
      congr 1
      funext outcome discard
      cases discard <;> rfl

/-- So it leaves in play of their integers what it leaves of these. -/
theorem inPlay_select {value : Value} (hshape : value.shape ≠ .number)
    (hintegers : Standing.AreIntegers value.standings) :
    Standing.inPlay (value.select keep selector markup).standings =
      selector.leaves keep (Standing.inPlay value.standings) := by
  rw [standings_select hshape, Standing.inPlay_select keep selector hintegers]

end Value

namespace Expression

variable {table : Table} {markup : Markup} {e : Expression} (hshape : e.shape ≠ .number)
include hshape

/-- A score of a pool or list is made of what it yields. -/
theorem evaluate_scored (score : Score) :
    evaluate table markup (.scored score e) =
      evaluate table markup e >>= fun value => scoreOf markup score (e.shape == .pool) value := by
  have hdemand : demand (.scored score e) e = .ok () := by
    simp [demand, accepts, hshape]
  rw [evaluate, hdemand]
  rfl

variable (keep : Bool) (selector : Selector)

/-- A selection of a pool or list is made on what it yields. -/
theorem evaluate_select :
    evaluate table markup (.modified (.select keep selector) e) =
      evaluate table markup e >>= fun value => pure (value.select keep selector markup) := by
  have hdemand : demand (.modified (.select keep selector) e) e = .ok () := by
    simp [demand, accepts, hshape]
  rw [evaluate, hdemand]
  rfl

/-- A selection takes no draws of its own. -/
theorem run_evaluate_select {value : Value} {tally later : Tally}
    (h : (evaluate table markup e).run tally = .ok value later) :
    (evaluate table markup (.modified (.select keep selector) e)).run tally =
      .ok (value.select keep selector markup) later := by
  rw [evaluate_select hshape, EStateM.run_bind, h]
  rfl

end Expression
end DiceNotation

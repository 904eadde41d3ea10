import DiceNotation.Proofs.Evaluation.Listed
import DiceNotation.Proofs.Evaluation.Places
import DiceNotation.Proofs.Evaluation.Turns
import DiceNotation.Proofs.Outcome.Pools

/-!
# Totals of what is kept and dropped

The total of a pool or list is the sum of the integers in play.  What a selector keeps and what it
drops are complements: every entry in play is left by just one of the two.  So the two totals add up
to the total of the whole.

Main definitions:

- `Standing.Complements`: what is kept of entries and what is dropped.

Main results:

- `Value.value_of_collapse`, `Value.exists_collapse_iff`: the total of a pool or list, and whether
  there is one.
- `Selector.leaves_add_leaves`: what is kept and what is dropped, brought together.
- `Expression.kept_and_dropped`: keeping and dropping make up the whole.
-/

namespace DiceNotation

/-! ## Integers in play -/

namespace Standing

variable {entries : List Standing} {keep : Bool} {selector : Selector}

/-- What an entry adds to a total: its integer, unless it is discarded. -/
def share (entry : Standing) : Int := if entry.discarded then 0 else entry.value.integer

/-- What is in play adds up to the shares. -/
theorem sum_inPlay (entries : List Standing) : (inPlay entries).sum = (entries.map share).sum := by
  unfold inPlay
  rw [Multiset.sum_coe]
  induction entries with
  | nil => rfl
  | cons entry rest ih =>
      rw [List.map_cons, List.sum_cons, ← ih, List.filter_cons]
      cases hentry : entry.discarded <;> simp [share, hentry]

/-- A selection changes no values. -/
theorem AreIntegers.select (h : AreIntegers entries) :
    AreIntegers (Standing.select keep selector entries) := by
  intro entry hentry
  have hvalue := List.mem_map_of_mem (f := Standing.value) hentry
  rw [map_value_select] at hvalue
  obtain ⟨before, hbefore, heq⟩ := List.mem_map.mp hvalue
  exact heq ▸ h before hbefore

end Standing

namespace Selector

/-- What a selection keeps of integers and what it drops are all of them. -/
theorem leaves_add_leaves (selector : Selector) (values : Multiset Int) :
    selector.leaves true values + selector.leaves false values = values := by
  cases selector with
  | meeting conditions =>
      have hsplit := Multiset.filter_add_not
        (fun n => Condition.anyHolds conditions (.int n) = true) values
      simpa only [leaves, Bool.not_eq_true] using hsplit
  | extreme highest count =>
      have horder : (inOrder highest values : Multiset Int) = values := by
        cases highest <;> exact Multiset.sort_eq ..
      simp only [leaves, if_true, Bool.false_eq_true, if_false, Multiset.coe_add,
        List.take_append_drop, horder]

end Selector

/-! ## Totals -/

/-- The shares of dice add up to what is in play. -/
theorem Die.sum_shares (dice : List Die) :
    (shares dice).sum = (Standing.inPlay (dice.map Die.standing)).sum := by
  rw [Standing.sum_inPlay, List.map_map]
  rfl

/-- The outcomes of a list show what a selector sees of them. -/
theorem Outcome.shares_eq {outcomes : List Outcome}
    (h : Standing.AreIntegers (outcomes.map standing)) :
    outcomes.map share = ((outcomes.map standing).map Standing.share).map Number.int := by
  simp only [List.map_map]
  refine List.map_congr_left fun outcome houtcome => ?_
  obtain ⟨n, hn⟩ := Standing.areIntegers_standing.mp h outcome houtcome
  unfold share
  cases hlive : outcome.discarded <;>
    simp [Standing.share, standing, hlive, hn, Number.integer]

namespace Value

variable {value : Value} {markup : Markup} {keep : Bool} {selector : Selector}

/-- The values of dice are integers. -/
theorem areIntegers_standing (dice : List Die) : Standing.AreIntegers (dice.map Die.standing) :=
  List.forall_mem_map.mpr fun die _ => ⟨die.value, rfl⟩

/-- The total of a pool or list of integers is the sum of those in play. -/
theorem value_of_collapse (hshape : value.shape ≠ .number)
    (hintegers : Standing.AreIntegers value.standings) {total : Outcome}
    (h : value.collapse markup = .ok total) :
    total.value = .int (Standing.inPlay value.standings).sum := by
  cases value with
  | single outcome => exact absurd rfl hshape
  | pool dice =>
      obtain ⟨_, -, -, rfl⟩ := collapse_pool_eq_ok_iff.mp h
      rw [Die.sum_shares]
      rfl
  | list outcomes =>
      have hne : outcomes ≠ [] := by
        rintro rfl
        simp [collapse, entries] at h
      rw [Expression.collapse_list hne (Outcome.shares_eq hintegers)] at h
      cases h
      rw [← Standing.sum_inPlay]
      rfl

/-- A pool or list of integers has a total if it has an entry and the rolls of its dice can be
written. -/
theorem exists_collapse_iff (hshape : value.shape ≠ .number)
    (hintegers : Standing.AreIntegers value.standings) :
    (∃ total, value.collapse markup = .ok total) ↔ value.standings ≠ [] ∧
      ∀ die ∈ value.dice.map Die.unmarked, ∃ bare, die.bareText = .ok bare := by
  cases value with
  | single outcome => exact absurd rfl hshape
  | pool pool =>
      have hwritten := Outcome.ofPool_eq_ok_iff markup pool
      have hne : ∀ outcomes, Outcome.ofPool pool markup = .ok outcomes →
          (outcomes ≠ [] ↔ pool ≠ []) := by
        intro outcomes houtcomes
        have hlength := congrArg List.length (Outcome.shares_ofPool houtcomes)
        simp only [Die.shares, List.length_map] at hlength
        rw [← List.length_pos_iff, hlength, List.length_pos_iff]
      simp only [collapse_pool_eq_ok_iff, standings, dice, ← hwritten, ne_eq, List.map_eq_nil_iff]
      constructor
      · rintro ⟨_, outcomes, houtcomes, hsome, -⟩
        exact ⟨(hne outcomes houtcomes).mp hsome, outcomes, houtcomes⟩
      · rintro ⟨hsome, outcomes, houtcomes⟩
        exact ⟨_, outcomes, houtcomes, (hne outcomes houtcomes).mpr hsome, rfl⟩
  | list outcomes =>
      constructor
      · rintro ⟨total, htotal⟩
        refine ⟨fun hnone => ?_, by simp [dice]⟩
        obtain rfl := List.map_eq_nil_iff.mp hnone
        simp [collapse, entries] at htotal
      · rintro ⟨hsome, -⟩
        have hne : outcomes ≠ [] := fun hnone => hsome (by rw [hnone]; rfl)
        exact ⟨_, Expression.collapse_list hne (Outcome.shares_eq hintegers)⟩

/-- A selection takes away no roll. -/
theorem unmarked_select (value : Value) :
    (value.select keep selector markup).dice.map Die.unmarked = value.dice.map Die.unmarked := by
  cases value with
  | pool pool =>
      obtain ⟨marked, hselect, hmarked⟩ := remains_select keep selector markup pool
      rw [hselect]
      exact Die.unmarked_of_remains hmarked
  | single | list => rfl

variable (keep selector) in
/-- What a selection leaves of integers that have a total has one: the sum of what it leaves in
play. -/
theorem exists_collapse_select (hshape : value.shape ≠ .number)
    (hintegers : Standing.AreIntegers value.standings) {total : Outcome}
    (h : value.collapse markup = .ok total) :
    ∃ part, (value.select keep selector markup).collapse markup = .ok part ∧
      part.value = .int (selector.leaves keep (Standing.inPlay value.standings)).sum := by
  have hshape' : (value.select keep selector markup).shape ≠ .number := by
    rwa [shape_select]
  have hstandings : (value.select keep selector markup).standings =
      Standing.select keep selector value.standings := standings_select hshape
  have hintegers' : Standing.AreIntegers (value.select keep selector markup).standings :=
    hstandings ▸ hintegers.select
  obtain ⟨hsome, hwritten⟩ := (exists_collapse_iff hshape hintegers).mp ⟨total, h⟩
  have hsome' : (value.select keep selector markup).standings ≠ [] := by
    intro hnone
    have hvalues : (Standing.select keep selector value.standings).map Standing.value =
        value.standings.map Standing.value := Standing.map_value_select
    rw [← hstandings, hnone] at hvalues
    exact hsome (List.map_eq_nil_iff.mp hvalues.symm)
  rw [← unmarked_select value] at hwritten
  obtain ⟨part, hpart⟩ := (exists_collapse_iff hshape' hintegers').mpr ⟨hsome', hwritten⟩
  refine ⟨part, hpart, ?_⟩
  rw [value_of_collapse hshape' hintegers' hpart, inPlay_select hshape hintegers]

/-- What a selection leaves in play of a pool; it moves no dice. -/
theorem select_pool (markup : Markup) (keep : Bool) (selector : Selector) (dice : List Die) :
    ∃ marked, (pool dice).select keep selector markup = .pool marked ∧
      marked.map Die.unmarked = dice.map Die.unmarked ∧
      Standing.inPlay (marked.map Die.standing) =
        selector.leaves keep (Standing.inPlay (dice.map Die.standing)) := by
  obtain ⟨marked, hselect, hmarked⟩ := remains_select keep selector markup dice
  have hinPlay : Standing.inPlay ((pool dice).select keep selector markup).standings =
      selector.leaves keep (Standing.inPlay (dice.map Die.standing)) :=
    inPlay_select nofun (areIntegers_standing dice)
  rw [hselect] at hinPlay
  exact ⟨marked, hselect, Die.unmarked_of_remains hmarked, hinPlay⟩

end Value

/-! ## Complements -/

/-- Whether two parts of entries are complements: neither has another value, what is left of one is
not left of the other, and what was left before is left of one of them. -/
structure Standing.Complements (entries kept dropped : List Standing) : Prop where
  kept_values : kept.map Standing.value = entries.map Standing.value
  dropped_values : dropped.map Standing.value = entries.map Standing.value
  disjoint : Disjoint (live kept) (live dropped)
  union_eq : live kept ∪ live dropped = live entries

/-- What a selector keeps and what it drops are complements. -/
theorem Standing.complements_select (selector : Selector) (entries : List Standing) :
    Complements entries (select true selector entries) (select false selector entries) := by
  refine ⟨map_value_select, map_value_select, ?_, ?_⟩
  · refine Finset.disjoint_left.mpr fun place hkept hdropped => ?_
    have hkept := (mem_live_select.mp hkept).2
    have hdropped := (mem_live_select.mp hdropped).2
    rw [hkept] at hdropped
    simp at hdropped
  · ext place
    rw [Finset.mem_union, mem_live_select, mem_live_select, ← and_or_left, and_iff_left_iff_imp]
    intro hplace
    obtain ⟨entry, hentry, -⟩ := mem_live.mp hplace
    have hchosen : place < (selector.chosen entries).length := by
      simpa using (List.getElem?_eq_some_iff.mp hentry).1
    rw [List.getElem?_eq_getElem hchosen]
    cases (selector.chosen entries)[place] <;> simp

namespace Expression

variable {table : Table} {markup : Markup}

/-- Of a pool or list that an expression yields, keeping and dropping by one selector make up the
whole: on the same draws both succeed, and what they leave in play are complements.  Where the
values are integers and have a total, both parts have one, and the two add up to that of the whole.
-/
theorem kept_and_dropped {e : Expression} (hshape : e.shape ≠ .number) (selector : Selector)
    {tally later : Tally} {value : Value}
    (h : (evaluate table markup e).run tally = .ok value later) :
    ∃ kept dropped,
      (evaluate table markup (.modified (.select true selector) e)).run tally = .ok kept later ∧
      (evaluate table markup (.modified (.select false selector) e)).run tally =
        .ok dropped later ∧
      Standing.Complements value.standings kept.standings dropped.standings ∧
      (Standing.AreIntegers value.standings → ∀ total, value.collapse markup = .ok total →
        ∃ first second m n, kept.collapse markup = .ok first ∧
          dropped.collapse markup = .ok second ∧ first.value = .int m ∧ second.value = .int n ∧
          total.value = .int (m + n)) := by
  have hvalue : value.shape ≠ .number := by rwa [(fits_of_run h).shape_eq]
  refine ⟨value.select true selector markup, value.select false selector markup,
    run_evaluate_select hshape true selector h, run_evaluate_select hshape false selector h, ?_, ?_⟩
  · rw [Value.standings_select hvalue, Value.standings_select hvalue]
    exact Standing.complements_select selector value.standings
  · intro hintegers total htotal
    obtain ⟨first, hfirst, hm⟩ :=
      Value.exists_collapse_select true selector hvalue hintegers htotal
    obtain ⟨second, hsecond, hn⟩ :=
      Value.exists_collapse_select false selector hvalue hintegers htotal
    refine ⟨first, second, _, _, hfirst, hsecond, hm, hn, ?_⟩
    rw [← Multiset.sum_add, Selector.leaves_add_leaves]
    exact Value.value_of_collapse hvalue hintegers htotal

/-- Three dice, the lowest of which has been dropped. -/
def lowestDropped : Expression := .modified (.select false (.extreme false 1)) (.dice 3 1 6)

/-- The first of three equal dice has been dropped; of the others the first is the highest. -/
theorem kept_and_dropped_ties :
    ∃ value later kept dropped,
      (evaluate halves .plain lowestDropped).run {} = .ok value later ∧
      (evaluate halves .plain (.modified (.select true (.extreme true 1)) lowestDropped)).run {} =
        .ok kept later ∧
      (evaluate halves .plain (.modified (.select false (.extreme true 1)) lowestDropped)).run {} =
        .ok dropped later ∧
      value.standings = [⟨.int 4, true⟩, ⟨.int 4, false⟩, ⟨.int 4, false⟩] ∧
      Standing.Complements value.standings kept.standings dropped.standings ∧
      ∃ first second m n, kept.collapse .plain = .ok first ∧
        dropped.collapse .plain = .ok second ∧ first.value = .int m ∧ second.value = .int n ∧
        Number.int 8 = .int (m + n) := by
  have h : (evaluate halves .plain lowestDropped).run {} =
      .ok (.pool [{ faces := .range 1 6, rolls := [4], discarded := true },
        { faces := .range 1 6, rolls := [4] }, { faces := .range 1 6, rolls := [4] }])
        { announced := 3, drawn := 3 } := by
    decide +kernel
  obtain ⟨kept, dropped, hkept, hdropped, hcomplements, htotals⟩ :=
    kept_and_dropped (by decide) (.extreme true 1) h
  exact ⟨_, _, kept, dropped, h, hkept, hdropped, rfl, hcomplements,
    htotals (Value.areIntegers_standing _) _ rfl⟩

end Expression

end DiceNotation

import DiceNotation.Proofs.Evaluation.Choice
import DiceNotation.Proofs.Evaluation.Scoring
import DiceNotation.Proofs.Evaluation.Totals
import DiceNotation.Proofs.Sorting.Sorted
import Mathlib.Data.Prod.Lex

/-!
# What matching displays

Matching displays all entries of a pool or list, and none twice: first those in play, brought
together in groups of equal value, then those that are discarded.  Larger groups come first, and of
two groups of one size the one of the higher value.  Nothing of this changes what the entries come
to.  A die that has a number too long to be written cannot be displayed, and then the pool has no
total either.

Main definitions:

- `Score.rank`: the size and the value of a group.
- `Score.Regroups`: groups of entries as they are displayed.

Main results:

- `Score.Regroups.unique`: there is one way only to display entries.
- `Score.regroups_rankedGroups`: the groups that matching makes of integers.
- `Value.exists_entries`, `Value.exists_unwritten`: the entries of a pool or list stand as the pool
  or list does, and there are none if a die cannot be written.
- `Expression.matching_regroups`: what matching makes of every pool or list of integers.
- `Expression.matching_long_face`: a pool that cannot be displayed.
-/

namespace DiceNotation

namespace Score

/-! ## Ranks of groups -/

/-- The entries that are in play. -/
def live (entries : List Outcome) : List Outcome := entries.filter fun entry => !entry.discarded

/-- The rank of a group: its size, and of two groups of one size the value that its entries have. -/
def rank (group : List Outcome) : Nat ×ₗ Int :=
  toLex (group.length, (group.head?.map fun first => first.value.integer).getD 0)

/-- Whether the first entry of a group is an integer. -/
def StartsWithInteger (group : List Outcome) : Prop :=
  ∃ first ∈ group.head?, ∃ n, first.value = .int n

/-- Groups of integers compare by their ranks. -/
theorem smallerGroup_eq_decide {a b : List Outcome} (ha : StartsWithInteger a)
    (hb : StartsWithInteger b) : smallerGroup a b = decide (rank a < rank b) := by
  obtain ⟨first, hfirst, m, hm⟩ := ha
  obtain ⟨other, hother, n, hn⟩ := hb
  have hlt : rank a < rank b ↔ a.length < b.length ∨ a.length = b.length ∧ m < n := by
    rw [rank, rank, Option.mem_def.mp hfirst, Option.mem_def.mp hother, Prod.Lex.toLex_lt_toLex]
    simp [hm, hn, Number.integer]
  rw [Bool.eq_iff_iff, decide_eq_true_iff, hlt, smallerGroup, Option.mem_def.mp hfirst,
    Option.mem_def.mp hother]
  simp [hm, hn]

/-- Groups of entries as they are displayed, with the discarded entries behind them.  No entry is
lost and none is added; the groups hold those in play, each group all of one value in the order in
which they stood, and the ranks of the groups fall. -/
structure Regroups (entries : List Outcome) (groups : List (List Outcome)) : Prop where
  lossless : (groups.flatten ++ entries.filter Outcome.discarded).Perm entries
  live_flatten : groups.flatten.Perm (live entries)
  together : ∀ group ∈ groups, group ≠ [] ∧ ∃ n, group = ofValue (live entries) n
  ranked : groups.Pairwise fun group other => rank other < rank group

namespace Regroups

variable {entries : List Outcome} {groups other : List (List Outcome)}

/-- The groups are all entries in play of one value, for each value that there is. -/
theorem mem_iff (h : Regroups entries groups) {group : List Outcome} :
    group ∈ groups ↔ group ≠ [] ∧ ∃ n, group = ofValue (live entries) n := by
  refine ⟨h.together group, ?_⟩
  rintro ⟨hne, n, rfl⟩
  obtain ⟨entry, hentry⟩ := List.exists_mem_of_ne_nil _ hne
  obtain ⟨hlive, hn⟩ := List.mem_filter.mp hentry
  obtain ⟨group, hgroup, hmem⟩ := List.mem_flatten.mp (h.live_flatten.mem_iff.mpr hlive)
  obtain ⟨-, m, rfl⟩ := h.together group hgroup
  have hm := (List.mem_filter.mp hmem).2
  rwa [← of_decide_eq_true hn, of_decide_eq_true hm]

/-- Entries are displayed in one way only. -/
theorem unique (h : Regroups entries groups) (h' : Regroups entries other) : groups = other := by
  have hnodup : ∀ {groups : List (List Outcome)}, Regroups entries groups → groups.Nodup :=
    fun h => h.ranked.imp fun hlt => ne_of_apply_ne rank (ne_of_gt hlt)
  have hperm : groups.Perm other :=
    (List.perm_ext_iff_of_nodup (hnodup h) (hnodup h')).mpr fun group =>
      h.mem_iff.trans h'.mem_iff.symm
  exact hperm.eq_of_pairwise (fun _ _ _ _ hlt hgt => absurd hlt (lt_asymm hgt)) h.ranked h'.ranked

end Regroups
section Integers

variable {entries : List Outcome} (hentries : ∀ entry ∈ entries, ∃ n, entry.value = .int n)
include hentries

/-- Entries that are not discarded have integers. -/
theorem integers_live : ∀ entry ∈ live entries, ∃ n, entry.value = .int n :=
  fun entry hentry => hentries entry (List.mem_of_mem_filter hentry)

/-- A group starts with its value. -/
theorem startsWithInteger_ofValue {n : Int} (hn : n ∈ values entries) :
    StartsWithInteger (ofValue entries n) := by
  obtain ⟨first, hfirst, hvalue⟩ := exists_first_ofValue hentries hn
  exact ⟨first, hfirst, n, hvalue⟩

/-- A group ranks by its size and then by its value. -/
theorem rank_ofValue {n : Int} (hn : n ∈ values entries) :
    rank (ofValue entries n) = toLex ((ofValue entries n).length, n) := by
  obtain ⟨first, hfirst, hvalue⟩ := exists_first_ofValue hentries hn
  rw [rank, Option.mem_def.mp hfirst, Option.map_some, Option.getD_some, hvalue, Number.integer]

/-- No two groups of integers have one rank. -/
theorem pairwise_rank_ne :
    ((values entries).map (ofValue entries)).Pairwise fun a b => rank a ≠ rank b := by
  refine List.pairwise_map.mpr ((nodup_values entries).imp_of_mem ?_)
  intro m n hm hn hne heq
  rw [rank_ofValue hentries hm, rank_ofValue hentries hn] at heq
  exact hne (Prod.ext_iff.mp (toLex.injective heq)).2

/-- The ranked groups are those of the values, sorted. -/
theorem rankedGroups_eq_descending :
    rankedGroups entries = Sorting.descending smallerGroup true
      ((values (live entries)).map (ofValue (live entries))) := by
  have hintegers := integers_live hentries
  have hcomparable : ((live entries).all fun entry => !entry.value.isNan) = true := by
    refine List.all_eq_true.mpr fun entry hentry => ?_
    obtain ⟨n, hn⟩ := hintegers entry hentry
    rw [hn]
    rfl
  rw [← groupsOf_eq_map hintegers, ← hcomparable]
  rfl

/-- The ranks of the groups fall. -/
theorem pairwise_rankedGroups :
    (rankedGroups entries).Pairwise fun group other => rank other < rank group := by
  have hintegers := integers_live hentries
  rw [rankedGroups_eq_descending hentries]
  have hstart : ∀ group ∈ (values (live entries)).map (ofValue (live entries)),
      StartsWithInteger group :=
    List.forall_mem_map.mpr fun n hn => startsWithInteger_ofValue hintegers hn
  refine (Sorting.pairwise_descending (fun a b => smallerGroup_eq_decide) hstart
    (pairwise_rank_ne hintegers)).imp ?_
  rintro group other (hlt | ⟨heq, hne⟩)
  · exact hlt
  · exact absurd heq hne

/-- Matching displays the entries as it should. -/
theorem regroups_rankedGroups : Regroups entries (rankedGroups entries) := by
  have hlive : (rankedGroups entries).flatten.Perm (live entries) := rankedGroups_perm entries
  refine ⟨?_, hlive, ?_, pairwise_rankedGroups hentries⟩
  · refine (hlive.append_right _).trans (List.perm_append_comm.trans ?_)
    exact List.filter_append_perm Outcome.discarded entries
  · intro group hgroup
    rw [rankedGroups_eq_descending hentries] at hgroup
    obtain ⟨n, hn, rfl⟩ := List.mem_map.mp ((Sorting.descending_perm ..).mem_iff.mp hgroup)
    obtain ⟨first, hfirst, -⟩ := exists_first_ofValue (integers_live hentries) hn
    exact ⟨List.ne_nil_of_mem (List.mem_of_mem_head? hfirst), n, rfl⟩

end Integers

end Score

/-! ## Entries of pools and lists -/

namespace Value

variable {value : Value} {markup : Markup}

/-- The entries of a pool of dice that can be written, or of a list, stand as it does. -/
theorem exists_entries (hshape : value.shape ≠ .number) (markup : Markup)
    (hwritten : ∀ die ∈ value.dice, die.IsWritten) :
    ∃ entries, value.entries markup = .ok entries ∧
      entries.map Outcome.standing = value.standings := by
  cases value with
  | single outcome => exact absurd rfl hshape
  | list outcomes => exact ⟨outcomes, rfl, rfl⟩
  | pool dice =>
      obtain ⟨entries, hentries⟩ := (Outcome.exists_ofPool_iff markup dice).mpr hwritten
      have hrolled : ∀ die ∈ dice, die.rolls ≠ [] := fun die hdie => (hwritten die hdie).rolled
      have hgives := Outcome.gives_ofPool markup hrolled
      rw [hentries, gives_ok] at hgives
      exact ⟨entries, hentries, hgives⟩

/-- A pool with a die that cannot be written has no entries, and no total by the same fault. -/
theorem exists_unwritten (markup : Markup) (hunwritten : ¬ ∀ die ∈ value.dice, die.IsWritten) :
    ∃ fault, value.entries markup = .error fault ∧ value.collapse markup = .error fault := by
  cases value with
  | single outcome => exact absurd (by simp [dice]) hunwritten
  | list outcomes => exact absurd (by simp [dice]) hunwritten
  | pool dice =>
      cases hentries : Outcome.ofPool dice markup with
      | ok entries =>
          exact absurd ((Outcome.exists_ofPool_iff markup dice).mp ⟨_, hentries⟩) hunwritten
      | error fault => exact ⟨fault, hentries, collapse_pool_error hentries⟩

/-- A pool or list of integers that has entries has a total. -/
theorem collapse_of_entries (hshape : value.shape ≠ .number)
    (hintegers : Standing.AreIntegers value.standings) (hsome : value.standings ≠ [])
    {entries : List Outcome} (h : value.entries markup = .ok entries) :
    ∃ total, value.collapse markup = .ok total ∧
      total.value = .int (Standing.inPlay value.standings).sum := by
  have hwritten : ∀ die ∈ value.dice.map Die.unmarked, ∃ bare, die.bareText = .ok bare := by
    cases value with
    | pool dice => exact (Outcome.ofPool_eq_ok_iff markup dice).mp ⟨entries, h⟩
    | single | list => simp [dice]
  obtain ⟨total, htotal⟩ := (exists_collapse_iff hshape hintegers).mpr ⟨hsome, hwritten⟩
  exact ⟨total, htotal, value_of_collapse hshape hintegers htotal⟩

end Value

/-! ## Matching -/

namespace Expression

variable {table : Table} {markup : Markup} {value : Value}

/-- A score of dice or of a list takes no draws of its own. -/
theorem run_evaluate_scored (hshape : value.shape ≠ .number) (score : Score) {operand : Expression}
    {tally later : Tally} (h : (evaluate table markup operand).run tally = .ok value later) :
    (evaluate table markup (.scored score operand)).run tally =
      (scoreOf markup score (operand.shape == .pool) value).run later := by
  have hoperand : operand.shape ≠ .number := by rwa [← (fits_of_run h).shape_eq]
  rw [evaluate_scored hoperand, EStateM.run_bind, h]

/-- Matching displays the entries of every pool or list of integers in groups, whatever has been
discarded of it, if the dice can be written.  Without counting its number is that of the total, and
with counting that of the values that several entries in play have.  This is what an expression
comes to that matches what its operand yields.  Where a die cannot be written there is nothing to
display, and the total fails alike. -/
theorem matching_regroups (counted : Bool) (hshape : value.shape ≠ .number)
    (hsome : value.standings ≠ []) (hintegers : Standing.AreIntegers value.standings)
    (markup : Markup) :
    ((∀ die ∈ value.dice, die.IsWritten) → ∃ entries groups total outcome,
      value.entries markup = .ok entries ∧ entries.map Outcome.standing = value.standings ∧
      Score.Regroups entries groups ∧
      Score.matching counted entries = .ok outcome ∧
      outcome.text =
        Outcome.listText (groups.flatten ++ entries.filter Outcome.discarded) Outcome.plus ∧
      value.collapse markup = .ok total ∧
      outcome.value = (if counted then
        .int ((Standing.inPlay value.standings).toFinset.filter fun n =>
          1 < (Standing.inPlay value.standings).count n).card else total.value) ∧
      ∀ (table : Table) (operand : Expression) (tally later : Tally),
        (evaluate table markup operand).run tally = .ok value later →
          (evaluate table markup (.scored (.groups counted) operand)).run tally =
            .ok (.single outcome) later) ∧
    ((¬ ∀ die ∈ value.dice, die.IsWritten) → ∃ fault, value.collapse markup = .error fault ∧
      ∀ (table : Table) (operand : Expression) (tally later : Tally),
        (evaluate table markup operand).run tally = .ok value later →
          (evaluate table markup (.scored (.groups counted) operand)).run tally =
            .error fault later) := by
  constructor
  · intro hwritten
    obtain ⟨entries, hentries, hstandings⟩ := Value.exists_entries hshape markup hwritten
    have hintegers' := Standing.areIntegers_standing.mp (hstandings ▸ hintegers)
    have hne : entries ≠ [] := by
      rintro rfl
      exact hsome hstandings.symm
    obtain ⟨total, htotal, hsum⟩ := Value.collapse_of_entries hshape hintegers hsome hentries
    have hmatching := Score.matching_integers hintegers' counted hne
    rw [hstandings] at hmatching
    refine ⟨entries, _, total, _, hentries, hstandings, Score.regroups_rankedGroups hintegers',
      hmatching, rfl, htotal, ?_, ?_⟩
    · cases counted with
      | true => rfl
      | false => exact hsum.symm
    · intro table operand tally later hvalue
      rw [run_evaluate_scored hshape _ hvalue, scoreOf, hentries]
      change (Roll.lift (Score.matching counted entries) >>= _).run later = _
      rw [hmatching]
      rfl
  · intro hunwritten
    obtain ⟨fault, hentries, hcollapse⟩ := Value.exists_unwritten markup hunwritten
    refine ⟨fault, hcollapse, fun table operand tally later hvalue => ?_⟩
    rw [run_evaluate_scored hshape _ hvalue, scoreOf, hentries]
    rfl

/-- What the list of four numbers yields, the highest of which has been dropped. -/
def numbersDropped : Value :=
  .list [{ value := .int 5, text := ['~', '5', '~'], discarded := true },
    { value := .int 3, text := ['3'] }, { value := .int 5, text := ['5'] },
    { value := .int 5, text := ['5'] }]

/-- Two of the numbers in play are equal; they come first, and the dropped one last. -/
theorem matching_regroups_dropped :
    ∃ later entries groups total outcome,
      numbersDropped.shape ≠ .number ∧ numbersDropped.standings ≠ [] ∧
      Standing.AreIntegers numbersDropped.standings ∧
      (evaluate { source := fun _ => none } .plain highestDropped).run {} =
        .ok numbersDropped later ∧
      numbersDropped.entries .plain = .ok entries ∧
      Score.Regroups entries groups ∧
      outcome.text =
        Outcome.listText (groups.flatten ++ entries.filter Outcome.discarded) Outcome.plus ∧
      numbersDropped.collapse .plain = .ok total ∧
      outcome = { value := .int 1, text := "(5 + 5 + 3 + ~5~)".toList, kind := .groups } ∧
      (evaluate { source := fun _ => none } .plain (.scored (.groups true) highestDropped)).run {} =
        .ok (.single outcome) later := by
  have hshape : numbersDropped.shape ≠ .number := by decide
  have hsome : numbersDropped.standings ≠ [] := by decide
  have hintegers : Standing.AreIntegers numbersDropped.standings := by
    simp [Standing.AreIntegers, numbersDropped, Value.standings, Outcome.standing]
  have h : (evaluate { source := fun _ => none } .plain highestDropped).run {} =
      .ok numbersDropped {} := by
    decide +kernel
  have hwritten : ∀ die ∈ numbersDropped.dice, die.IsWritten := by simp [numbersDropped, Value.dice]
  obtain ⟨entries, groups, total, outcome, hentries, -, hgroups, hmatching, htext, htotal, -,
    hscored⟩ := (matching_regroups true hshape hsome hintegers .plain).1 hwritten
  cases hentries
  have houtcome : .ok outcome = Except.ok
      { value := .int 1, text := "(5 + 5 + 3 + ~5~)".toList, kind := .groups } :=
    hmatching.symm.trans (by decide +kernel)
  exact ⟨_, _, groups, total, outcome, hshape, hsome, hintegers, h, rfl, hgroups, htext, htotal,
    Except.ok.inj houtcome, hscored _ _ _ _ h⟩

/-- A die rolls its only face, which is too long to be written, and so cannot be displayed. -/
theorem matching_long_face :
    let face : Int := 10 ^ Numeral.digitLimit
    let value : Value := .pool [{ faces := .listed [face], rolls := [face] }]
    let table : Table := { source := fun _ => some (.ofRat 0) }
    ∃ later, value.shape ≠ .number ∧ value.standings ≠ [] ∧
      Standing.AreIntegers value.standings ∧
      (evaluate table .plain (.customDice 1 [face])).run {} = .ok value later ∧
      (evaluate table .plain (.scored (.groups false) (.customDice 1 [face]))).run {} =
        .error .numeralTooLong later := by
  intro face value table
  have hdraw (tally : Tally) : (table.drawFace (.listed [face])).run tally =
      .ok face { tally with drawn := tally.drawn + 1 } := by
    have hplace : Table.place (.ofRat 0) 0 0 = .ok 0 := by decide +kernel
    simp [Table.drawFace, Table.draw, Table.run_nextDraw, table, hplace, Text.atPlace?]
  have hvalue : (evaluate table .plain (.customDice 1 [face])).run {} =
      .ok value { announced := 1, drawn := 1 } := by
    rw [evaluate, rollAnnounced, EStateM.run_bind, Table.run_announce_of_none rfl]
    simp [Table.rollDice, Table.addRoll, hdraw, Table.counted, Die.addResult, value,
      -bind_pure_comp]
  have hshape : value.shape ≠ .number := by simp [value, Value.shape]
  have hlong : Die.IsLong { faces := .listed [face], rolls := [face] } := by
    refine .inl ⟨face, List.mem_singleton_self face, ?_⟩
    simp [face, Int.natAbs_pow]
  have hunwritten : ¬ ∀ die ∈ value.dice, die.IsWritten :=
    fun hwritten => (hwritten _ (List.mem_singleton_self _)).short hlong
  have htooLong : value.collapse .plain = .error .numeralTooLong :=
    Value.collapse_pool_long .plain (by simp) ⟨_, List.mem_singleton_self _, hlong⟩
  obtain ⟨fault, hentries, hfault⟩ := Value.exists_unwritten .plain hunwritten
  obtain rfl : fault = .numeralTooLong := Except.error.inj (hfault.symm.trans htooLong)
  refine ⟨_, hshape, by simp [value, Value.standings], ?_, hvalue, ?_⟩
  · simp [Standing.AreIntegers, value, Value.standings, Die.standing]
  · rw [run_evaluate_scored hshape _ hvalue, scoreOf, hentries]
    rfl

end Expression
end DiceNotation

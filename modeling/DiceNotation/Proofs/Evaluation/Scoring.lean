import DiceNotation.Evaluation.Scoring
import DiceNotation.Proofs.Evaluation.Selection
import DiceNotation.Proofs.Steps
import Mathlib.Algebra.BigOperators.Group.Multiset.Basic
import Mathlib.Data.Finset.Card
import Mathlib.Data.List.Dedup

/-!
# What a score makes of integers

Entries of equal value are brought together in one group for each value, in the order in which they
stood.  So what a score makes of integers depends only on which integers are in play and how often:
the sum of all, the number of values that stand there several times, or the successes less the
failures.

Main definitions:

- `Score.number`, `Score.kind`: what a score makes of integers in play.

Main results:

- `Score.groupsOf_eq_map`: the groups of integers.
- `Score.matching_integers`, `Score.apply_integers`: a score of integers.
-/

namespace DiceNotation
namespace Score

/-! ## Groups -/

/-- Grouping loses nothing and adds nothing. -/
theorem insertGroup_perm (groups : List (List Outcome)) (entry : Outcome) :
    (insertGroup groups entry).flatten.Perm (groups.flatten ++ [entry]) := by
  induction groups with
  | nil => exact .refl _
  | cons group rest ih =>
      unfold insertGroup
      split
      · rw [List.flatten_cons, List.flatten_cons, List.append_assoc, List.append_assoc]
        exact List.perm_append_comm.append_left group
      · rw [List.flatten_cons, List.flatten_cons, List.append_assoc]
        exact ih.append_left group

/-- Grouping loses nothing and adds nothing. -/
theorem groupsOf_perm (entries : List Outcome) : (groupsOf entries).flatten.Perm entries := by
  induction entries using List.reverseRecOn with
  | nil => exact .refl _
  | append_singleton entries entry ih =>
      rw [groupsOf, List.foldl_append]
      exact (insertGroup_perm _ entry).trans (ih.append_right [entry])

/-- The groups hold the entries in play. -/
theorem rankedGroups_perm (entries : List Outcome) :
    (rankedGroups entries).flatten.Perm (entries.filter fun entry => !entry.discarded) :=
  (Sorting.descending_perm ..).flatten.trans (groupsOf_perm _)

/-- The values of entries, each of them once, in the order in which they come first. -/
def values (entries : List Outcome) : List Int :=
  (entries.map fun entry => entry.value.integer).reverse.dedup.reverse

/-- Each value is there once. -/
theorem nodup_values (entries : List Outcome) : (values entries).Nodup :=
  List.nodup_reverse.mpr (List.nodup_dedup _)

/-- The values are those of the entries. -/
theorem mem_values {entries : List Outcome} {n : Int} :
    n ∈ values entries ↔ ∃ entry ∈ entries, entry.value.integer = n := by
  simp [values]

/-- One more entry adds its value if it is a new one. -/
theorem values_append_singleton (entries : List Outcome) (entry : Outcome) :
    values (entries ++ [entry]) =
      if entry.value.integer ∈ values entries then values entries
      else values entries ++ [entry.value.integer] := by
  have hsplit : ((entries ++ [entry]).map fun entry => entry.value.integer).reverse =
      entry.value.integer :: (entries.map fun entry => entry.value.integer).reverse := by
    simp
  unfold values
  rw [hsplit]
  split
  · next hmem => rw [List.dedup_cons_of_mem (by simpa using hmem)]
  · next hmem => rw [List.dedup_cons_of_notMem (by simpa using hmem), List.reverse_cons]

/-- The entries of a value. -/
def ofValue (entries : List Outcome) (n : Int) : List Outcome :=
  entries.filter fun entry => entry.value.integer = n

/-- An entry joins the group of its value, or stands alone behind the others. -/
theorem insertGroup_map {values : List Int} (hvalues : values.Nodup) {group : Int → List Outcome}
    (hgroup : ∀ n ∈ values, ∃ first ∈ (group n).head?, first.value = .int n) {entry : Outcome}
    {m : Int} (hentry : entry.value = .int m) :
    insertGroup (values.map group) entry =
      if m ∈ values then values.map fun n => if n = m then group n ++ [entry] else group n
      else values.map group ++ [[entry]] := by
  induction values with
  | nil => rfl
  | cons n rest ih =>
      obtain ⟨hn, hrest⟩ := List.nodup_cons.mp hvalues
      obtain ⟨⟨first, hfirst, hvalue⟩, hmore⟩ := List.forall_mem_cons.mp hgroup
      rw [List.map_cons, insertGroup, hfirst, Option.any_some, hvalue, hentry, Number.eqv_int]
      by_cases hnm : n = m
      · subst hnm
        have hothers : ∀ k ∈ rest, (if k = n then group k ++ [entry] else group k) = group k :=
          fun k hk => if_neg (ne_of_mem_of_not_mem hk hn)
        rw [if_pos (by simp), if_pos (List.mem_cons_self ..), List.map_cons, if_pos rfl,
          List.map_congr_left hothers]
      · rw [if_neg (by simpa using hnm), ih hrest hmore]
        by_cases hm : m ∈ rest
        · rw [if_pos hm, if_pos (List.mem_cons_of_mem _ hm), List.map_cons, if_neg hnm]
        · rw [if_neg hm, if_neg (by simp [Ne.symm hnm, hm]), List.cons_append]

/-- The entries of a value that is there begin with an entry of that value. -/
theorem exists_first_ofValue {entries : List Outcome}
    (hentries : ∀ entry ∈ entries, ∃ n, entry.value = .int n) {n : Int} (hn : n ∈ values entries) :
    ∃ first ∈ (ofValue entries n).head?, first.value = .int n := by
  obtain ⟨other, hother, hvalue⟩ := mem_values.mp hn
  have hfound : other ∈ ofValue entries n := List.mem_filter.mpr ⟨hother, by simpa using hvalue⟩
  obtain ⟨first, hhead⟩ := Option.isSome_iff_exists.mp
    (List.isSome_head?.mpr (List.ne_nil_of_mem hfound))
  obtain ⟨hmem, hinteger⟩ := List.mem_filter.mp (List.mem_of_mem_head? hhead)
  obtain ⟨k, hk⟩ := hentries first hmem
  refine ⟨first, hhead, ?_⟩
  rw [hk] at hinteger ⊢
  exact congrArg Number.int (of_decide_eq_true hinteger)

/-- An entry behind the others is the last one of its value. -/
theorem ofValue_append_singleton (entries : List Outcome) (entry : Outcome) (n : Int) :
    ofValue (entries ++ [entry]) n =
      if n = entry.value.integer then ofValue entries n ++ [entry] else ofValue entries n := by
  unfold ofValue
  rw [List.filter_append]
  by_cases hn : n = entry.value.integer
  · simp [hn]
  · simp [hn, Ne.symm hn]

/-- No entries have a value that is none of theirs. -/
theorem ofValue_eq_nil {entries : List Outcome} {n : Int} (hn : n ∉ values entries) :
    ofValue entries n = [] := by
  refine List.filter_eq_nil_iff.mpr fun other hother hvalue => ?_
  exact hn (mem_values.mpr ⟨other, hother, of_decide_eq_true hvalue⟩)

/-- The groups of integers: one for each value, with all entries of the value in the order in which
they stood. -/
theorem groupsOf_eq_map {entries : List Outcome}
    (hentries : ∀ entry ∈ entries, ∃ n, entry.value = .int n) :
    groupsOf entries = (values entries).map (ofValue entries) := by
  induction entries using List.reverseRecOn with
  | nil => rfl
  | append_singleton entries entry ih =>
      obtain ⟨hbefore, hlast⟩ := List.forall_mem_append.mp hentries
      obtain ⟨m, hm⟩ := hlast entry (List.mem_singleton_self entry)
      have hinteger : entry.value.integer = m := by rw [hm, Number.integer]
      have hgroups : groupsOf (entries ++ [entry]) = insertGroup (groupsOf entries) entry := by
        rw [groupsOf, List.foldl_append]
        rfl
      rw [hgroups, ih hbefore, insertGroup_map (nodup_values entries)
        (fun n => exists_first_ofValue hbefore) hm, values_append_singleton, hinteger]
      by_cases hknown : m ∈ values entries
      · rw [if_pos hknown, if_pos hknown]
        exact List.map_congr_left fun n _ => by rw [ofValue_append_singleton, hinteger]
      · have hothers : ∀ n ∈ values entries,
            ofValue entries n = ofValue (entries ++ [entry]) n := fun n hn => by
          rw [ofValue_append_singleton, hinteger, if_neg (ne_of_mem_of_not_mem hn hknown)]
        rw [if_neg hknown, if_neg hknown, List.map_append, List.map_congr_left hothers]
        simp [ofValue_append_singleton, hinteger, ofValue_eq_nil hknown]

/-! ## Integers in play -/

/-- The kind of a score's outcome. -/
def kind : Score → OutcomeKind
  | .groups counted => if counted then .groups else .plain
  | .successes .. => .successes

/-- What a score makes of the integers in play: the sum of all, the number of values that stand
there several times, or the successes less the failures. -/
def number (score : Score) (inPlay : Multiset Int) : Int :=
  match score with
  | .groups counted =>
    if counted then (inPlay.toFinset.filter fun n => 1 < inPlay.count n).card else inPlay.sum
  | .successes success failure =>
    (inPlay.map fun n => (markOf success failure { value := .int n, text := [] }).points).sum

/-- The values of outcomes that are in play. -/
theorem inPlay_standing (entries : List Outcome) :
    Standing.inPlay (entries.map Outcome.standing) =
      ((entries.filter fun entry => !entry.discarded).map fun entry => entry.value.integer :
        List Int) := by
  rw [Standing.inPlay, List.filter_map, List.map_map]
  rfl

/-- There is no score of nothing. -/
theorem ne_nil_of_apply {score : Score} {markup : Markup} {isDie : Bool} {entries : List Outcome}
    {outcome : Outcome} (h : score.apply markup isDie entries = .ok outcome) : entries ≠ [] := by
  rintro rfl
  cases score <;> simp [apply, matching, counting] at h

section Integers

variable {entries : List Outcome} (hentries : ∀ entry ∈ entries, ∃ n, entry.value = .int n)
include hentries

/-- An entry with an integer has it for its value. -/
theorem value_eq_integer {entry : Outcome} (h : entry ∈ entries) :
    entry.value = .int entry.value.integer := by
  obtain ⟨n, hn⟩ := hentries entry h
  rw [hn, Number.integer]

/-- The groups add up to the entries in play. -/
theorem total_rankedGroups :
    Number.total ((rankedGroups entries).flatten.map Outcome.value) =
      .ok (.int (Standing.inPlay (entries.map Outcome.standing)).sum) := by
  have hperm := rankedGroups_perm entries
  have hvalues : (rankedGroups entries).flatten.map Outcome.value =
      ((rankedGroups entries).flatten.map fun entry => entry.value.integer).map .int := by
    rw [List.map_map]
    refine List.map_congr_left fun entry hentry => ?_
    exact value_eq_integer hentries (List.mem_of_mem_filter (hperm.mem_iff.mp hentry))
  rw [hvalues, Number.total_int, inPlay_standing, Multiset.sum_coe, (hperm.map _).sum_eq]

/-- The groups of two or more are those of values held by several entries in play. -/
theorem several_rankedGroups :
    ((rankedGroups entries).filter fun group => group.length > 1).length =
      number (.groups true) (Standing.inPlay (entries.map Outcome.standing)) := by
  generalize hlive : (entries.filter fun entry => !entry.discarded) = live
  have hintegers : ∀ entry ∈ live, ∃ n, entry.value = .int n :=
    fun entry hentry => hentries entry (List.mem_of_mem_filter (hlive ▸ hentry))
  have hcount : ∀ n, Multiset.count n
      ((live.map fun entry => entry.value.integer : List Int) : Multiset Int) =
        (ofValue live n).length := by
    intro n
    rw [Multiset.coe_count, List.count, List.countP_map, List.countP_eq_length_filter]
    rfl
  have hgroups : (rankedGroups entries).Perm ((values live).map (ofValue live)) := by
    rw [rankedGroups, hlive, ← groupsOf_eq_map hintegers]
    exact Sorting.descending_perm ..
  have hfinset : (Multiset.toFinset
      ((live.map fun entry => entry.value.integer : List Int) : Multiset Int)).filter
        (fun n => 1 < (ofValue live n).length) =
      ((values live).filter fun n => 1 < (ofValue live n).length).toFinset := by
    ext n
    simp [mem_values]
  simp only [number, if_true, inPlay_standing, hlive, hcount]
  rw [hfinset, List.toFinset_card_of_nodup ((nodup_values live).filter _),
    (hgroups.filter _).length_eq, List.filter_map, List.length_map]
  rfl

/-- The marks count successes less failures of the entries in play. -/
theorem points_markOf (success : Condition) (failure : Option Condition) :
    ((entries.map (markOf success failure)).map Mark.points).sum =
      number (.successes success failure) (Standing.inPlay (entries.map Outcome.standing)) := by
  rw [number, inPlay_standing, Multiset.map_coe, Multiset.sum_coe]
  induction entries with
  | nil => rfl
  | cons entry rest ih =>
      obtain ⟨⟨n, hn⟩, hrest⟩ := List.forall_mem_cons.mp hentries
      have hmark : markOf success failure entry = if entry.discarded then .neither else
          markOf success failure { value := .int entry.value.integer, text := [] } := by
        unfold markOf
        rw [hn]
        cases entry.discarded <;> rfl
      simp only [List.map_cons, List.sum_cons, ih hrest, List.filter_cons, hmark]
      cases entry.discarded <;> simp [Mark.points]

/-- What matching makes of integers. -/
theorem matching_integers (counted : Bool) (hne : entries ≠ []) :
    matching counted entries =
      .ok { value := .int ((groups counted).number (Standing.inPlay (entries.map Outcome.standing)))
            text := Outcome.listText
              ((rankedGroups entries).flatten ++ entries.filter Outcome.discarded) Outcome.plus
            kind := (groups counted).kind } := by
  have hempty : entries.isEmpty = false := by simpa using hne
  cases counted with
  | true =>
      simp only [matching, hempty, ← several_rankedGroups hentries]
      rfl
  | false =>
      simp only [matching, hempty, total_rankedGroups hentries]
      rfl

/-- What a score makes of integers depends only on which of them are in play. -/
theorem apply_integers (score : Score) (markup : Markup) (isDie : Bool) (hne : entries ≠ []) :
    ∃ text, score.apply markup isDie entries =
      .ok { value := .int (score.number (Standing.inPlay (entries.map Outcome.standing))), text,
            kind := score.kind } := by
  cases score with
  | groups counted => exact ⟨_, matching_integers hentries counted hne⟩
  | successes success failure =>
      have hempty : entries.isEmpty = false := by simpa using hne
      refine ⟨Outcome.listText (List.zipWith (fun mark entry => Mark.show mark markup isDie entry)
        (entries.map (markOf success failure)) entries) Outcome.plus, ?_⟩
      simp only [apply, counting, hempty, points_markOf hentries]
      rfl

end Integers

end Score
end DiceNotation

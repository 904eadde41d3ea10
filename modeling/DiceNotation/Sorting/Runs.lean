import DiceNotation.Sorting.Merge

/-!
# Sorting by runs

A list falls into runs, leading parts that ascend or strictly descend; a short run is made
longer by putting the next items where halving leads.  Neighbouring runs are merged in the
order in which a balanced cutting of the whole list would join them.

Every item is put somewhere, whatever the comparison says, so that also a list with items
that compare with nothing has one outcome.

Main definitions:

- `Sorting.leadingRun`, `Sorting.nextRun`: the run at the front of a list.
- `Sorting.level`: how deep in a balanced cutting the boundary of two runs lies.
- `Sorting.Pile`: runs that wait to be merged.
- `Sorting.byRuns`: a list sorted by runs.

Main results:

- `Sorting.byRuns_perm`: sorting by runs loses nothing and adds nothing.
-/

namespace DiceNotation
namespace Sorting

variable {α : Type}

/-! ## Runs -/

/-- The run that starts behind `last`, each item following the one before it by `follows`,
and what comes after the run. -/
def takeRun (follows : α → α → Bool) (last : α) : List α → List α × List α
  | [] => ([], [])
  | item :: rest =>
    if follows last item then
      let (run, after) := takeRun follows item rest
      (item :: run, after)
    else ([], item :: rest)

/-- The leading run in ascending order, and what comes after it.  A run descends strictly
or else does not descend. -/
def leadingRun (less : α → α → Bool) : List α → List α × List α
  | first :: second :: rest =>
    if less second first then
      let (run, after) := takeRun (fun a b => less b a) second rest
      ((first :: second :: run).reverse, after)
    else
      let (run, after) := takeRun (fun a b => !less b a) second rest
      (first :: second :: run, after)
  | items => (items, [])

/-- A sorted list with one more item, put where halving leads. -/
def insertHalving (less : α → α → Bool) (sorted : List α) (item : α) : List α :=
  let place := halve (fun i => sorted[i]?.any fun other => !less item other)
    (sorted.length + 1) 0 sorted.length
  sorted.take place ++ item :: sorted.drop place

/-- The leading run made at least as long as `least`, and what comes after it. -/
def nextRun (less : α → α → Bool) (least : Nat) (items : List α) : List α × List α :=
  let (run, after) := leadingRun less items
  let missing := least - run.length
  ((after.take missing).foldl (insertHalving less) run, after.drop missing)

/-- A run and what is behind it are the items. -/
theorem takeRun_append (follows : α → α → Bool) (last : α) (items : List α) :
    (takeRun follows last items).1 ++ (takeRun follows last items).2 = items := by
  induction items generalizing last with
  | nil => rfl
  | cons item rest ih =>
      unfold takeRun
      split
      · simp [ih item]
      · rfl

/-- Taking the leading run loses nothing and adds nothing. -/
theorem leadingRun_perm (less : α → α → Bool) (items : List α) :
    ((leadingRun less items).1 ++ (leadingRun less items).2).Perm items := by
  unfold leadingRun
  split
  · next first second rest =>
      split
      · have happend := takeRun_append (fun a b => less b a) second rest
        refine ((List.reverse_perm _).append_right _).trans (.of_eq ?_)
        simp [happend]
      · have happend := takeRun_append (fun a b => !less b a) second rest
        simp [happend]
  · simp

/-- Insertion by halving adds just the item. -/
theorem insertHalving_perm (less : α → α → Bool) (sorted : List α) (item : α) :
    (insertHalving less sorted item).Perm (item :: sorted) := by
  simp only [insertHalving]
  refine List.perm_middle.trans ?_
  rw [List.take_append_drop]

/-- Several insertions add just the items. -/
theorem foldl_insertHalving_perm (less : α → α → Bool) (items sorted : List α) :
    (items.foldl (insertHalving less) sorted).Perm (sorted ++ items) := by
  induction items generalizing sorted with
  | nil => simp
  | cons item rest ih =>
      refine (ih _).trans (((insertHalving_perm less sorted item).append_right rest).trans ?_)
      exact List.perm_middle.symm

/-- Taking the next run loses nothing and adds nothing. -/
theorem nextRun_perm (less : α → α → Bool) (least : Nat) (items : List α) :
    ((nextRun less least items).1 ++ (nextRun less least items).2).Perm items := by
  simp only [nextRun]
  refine ((foldl_insertHalving_perm less _ _).append_right _).trans ?_
  rw [List.append_assoc, List.take_append_drop]
  exact leadingRun_perm less items

-- Powers of numbers are those of the core library, whatever else is imported.
attribute [local instance (high)] instPowNat

/-- The least length of a run: halves of the whole, rounded up, until they are short. -/
def leastRun (size : Nat) : Nat :=
  let halvings := size.log2 - 5
  (size + 2 ^ halvings - 1) / 2 ^ halvings

/-! ## The order of merging -/

/-- How often a whole of `size` items has to be cut in halves until a cut falls between the
middles of two runs of lengths `before` and `after` that meet at `place`. -/
def level (size place before after : Nat) : Nat :=
  ((List.range (size.log2 + 1)).find? fun halvings =>
    (2 * place - before) * 2 ^ halvings / size != (2 * place + after) * 2 ^ halvings / size).getD 0

/-- A run that waits to be merged, and the level of its boundary with the run before it. -/
structure Waiting (α : Type) where
  run : List α
  level : Nat

/-- Runs that wait to be merged, the last of them first, and the patience of the merges. -/
structure Pile (α : Type) where
  runs : List (Waiting α) := []
  patience : Nat := leapLength

namespace Pile

/-- All items of a list of runs. -/
def items (runs : List (Waiting α)) : List α := runs.flatMap Waiting.run

/-- Merge the last run with those before it as long as its boundary lies deeper than
`level`. -/
def mergeDeeper (less : α → α → Bool) (level : Nat) (patience : Nat) (last : Waiting α) :
    List (Waiting α) → Pile α
  | [] => { runs := [last], patience }
  | before :: rest =>
    if level < last.level then
      let (merged, patience) := mergeRuns less patience before.run last.run
      mergeDeeper less level patience { run := merged, level := before.level } rest
    else { runs := last :: before :: rest, patience }

/-- A pile with one more run, which begins at `place` of a whole of `size` items. -/
def push (less : α → α → Bool) (size place : Nat) (pile : Pile α) (run : List α) : Pile α :=
  match pile.runs with
  | [] => { pile with runs := [{ run, level := 0 }] }
  | last :: rest =>
    let level := level size place last.run.length run.length
    let merged := mergeDeeper less level pile.patience last rest
    { merged with runs := { run, level } :: merged.runs }

/-- The runs that are left merged into one, the shorter neighbour of the last but one
first. -/
def gather (less : α → α → Bool) : Nat → Nat → List (List α) → List α
  | fuel + 1, patience, last :: middle :: before :: rest =>
    if before.length < last.length then
      let (merged, patience) := mergeRuns less patience before middle
      gather less fuel patience (last :: merged :: rest)
    else
      let (merged, patience) := mergeRuns less patience middle last
      gather less fuel patience (merged :: before :: rest)
  | _, patience, [last, before] => (mergeRuns less patience before last).1
  | _, _, runs => runs.reverse.flatten

/-- Merging the runs that wait keeps all items. -/
theorem mergeDeeper_perm (less : α → α → Bool) (level patience : Nat) (last : Waiting α)
    (runs : List (Waiting α)) :
    (items (mergeDeeper less level patience last runs).runs).Perm (last.run ++ items runs) := by
  induction runs generalizing last patience with
  | nil => simp [mergeDeeper, items]
  | cons before rest ih =>
      unfold mergeDeeper
      split
      · have hmerge := mergeRuns_perm less patience before.run last.run
        refine (ih _ _).trans ?_
        refine ((hmerge.trans List.perm_append_comm).append_right _).trans (.of_eq ?_)
        simp [items]
      · simp [items]

/-- Putting a run on a pile adds just its items. -/
theorem push_perm (less : α → α → Bool) (size place : Nat) (pile : Pile α) (run : List α) :
    (items (push less size place pile run).runs).Perm (run ++ items pile.runs) := by
  unfold push
  split
  · next hruns => simp [items, hruns]
  · next last rest hruns =>
      rw [hruns]
      exact (mergeDeeper_perm less _ _ last rest).append_left run

/-- Gathering runs keeps all items. -/
theorem gather_perm (less : α → α → Bool) (fuel patience : Nat) (runs : List (List α)) :
    (gather less fuel patience runs).Perm runs.flatten := by
  fun_induction gather less fuel patience runs with
  | case1 fuel patience last middle before rest hshort merged _ hmerge ih =>
      have hperm := mergeRuns_perm less patience before middle
      rw [hmerge] at hperm
      refine ih.trans ?_
      simp only [List.flatten_cons]
      rw [← List.append_assoc middle]
      exact ((hperm.trans List.perm_append_comm).append_right _).append_left last
  | case2 fuel patience last middle before rest hlong merged _ hmerge ih =>
      have hperm := mergeRuns_perm less patience middle last
      rw [hmerge] at hperm
      refine ih.trans ?_
      simp only [List.flatten_cons]
      rw [← List.append_assoc last]
      exact (hperm.trans List.perm_append_comm).append_right _
  | case3 =>
      refine (mergeRuns_perm less _ _ _).trans ?_
      simpa using List.perm_append_comm
  | case4 => exact (List.reverse_perm _).flatten

end Pile

/-! ## Whole lists -/

/-- The runs of the items from `place` on, piled and merged as their levels ask for.  Each
run takes an item at least. -/
def pileUp (less : α → α → Bool) (size : Nat) : Nat → Nat → Pile α → List α → Pile α
  | _, _, pile, [] => pile
  | 0, place, pile, rest => pile.push less size place rest
  | fuel + 1, place, pile, item :: rest =>
    let (run, after) := nextRun less (leastRun size) (item :: rest)
    pileUp less size fuel (place + run.length) (pile.push less size place run) after

/-- A list sorted by runs. -/
def byRuns (less : α → α → Bool) (items : List α) : List α :=
  let pile := pileUp less items.length items.length 0 {} items
  Pile.gather less pile.runs.length pile.patience (pile.runs.map Waiting.run)

/-- Piling up a list adds just its items. -/
theorem pileUp_perm (less : α → α → Bool) (size fuel place : Nat) (pile : Pile α)
    (rest : List α) :
    (Pile.items (pileUp less size fuel place pile rest).runs).Perm
      (rest ++ Pile.items pile.runs) := by
  fun_induction pileUp less size fuel place pile rest with
  | case1 => exact .refl _
  | case2 => exact Pile.push_perm less size _ _ _
  | case3 fuel place pile item rest run after hrun ih =>
      have hperm := nextRun_perm less (leastRun size) (item :: rest)
      rw [hrun] at hperm
      refine ih.trans (((pile.push_perm less size place run).append_left after).trans ?_)
      rw [← List.append_assoc]
      exact (List.perm_append_comm.trans hperm).append_right _

/-- Sorting by runs loses nothing and adds nothing. -/
theorem byRuns_perm (less : α → α → Bool) (items : List α) : (byRuns less items).Perm items := by
  refine (Pile.gather_perm less _ _ _).trans ?_
  rw [← List.flatMap_def]
  exact (pileUp_perm less _ _ 0 {} items).trans (by simp [Pile.items])

end Sorting
end DiceNotation

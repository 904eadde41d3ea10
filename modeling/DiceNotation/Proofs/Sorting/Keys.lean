import DiceNotation.Sorting.Order
import Mathlib.Data.List.Forall2
import Mathlib.Logic.Function.Defs

/-!
# Sorting by keys

A sorting compares items and looks at nothing else of them.  So sorting items by their keys and
then taking the keys is the same as taking the keys and sorting these, also where the comparison
is not that of an order.  Two lists whose items are related one by one, and compare in the same
way, are therefore sorted in the same way.

Main definitions:

- `Sorting.Merge.map`, `Sorting.Progress.map`, `Sorting.Pile.map`: the keys of a sorting that is
  under way.

Main results:

- `Sorting.mergeRuns_map`, `Sorting.byRuns_map`: the keys of merged runs, and of lists sorted by
  runs.
- `Sorting.descending_map`: the keys of a list sorted downward.
- `Sorting.forall₂_descending`: lists that are related are sorted in the same way.
-/

namespace DiceNotation
namespace Sorting

open Function

variable {α β : Type} (key : α → β) (less : β → β → Bool)

/-! ## Stable sorting -/

/-- Insertion by keys inserts the keys. -/
theorem insertSorted_map (item : α) (items : List α) :
    insertSorted less (key item) (items.map key) =
      (insertSorted (onFun less key) item items).map key := by
  induction items with
  | nil => rfl
  | cons other rest ih =>
      simp only [List.map_cons, insertSorted, ih, onFun]
      split <;> rfl

/-- Sorting by keys, one by one, sorts the keys. -/
theorem stable_map (items : List α) :
    stable less (items.map key) = (stable (onFun less key) items).map key := by
  induction items with
  | nil => rfl
  | cons item rest ih => rw [List.map_cons, stable_cons, stable_cons, ih, insertSorted_map]

/-! ## Searching -/

/-- A boundary among keys is that among what has them. -/
theorem boundaryOf_map (belongs : β → Bool) (items : List α) (hint : Nat) :
    boundaryOf belongs (items.map key) hint = boundaryOf (fun a => belongs (key a)) items hint := by
  simp [boundaryOf, Option.any_map]

/-! ## Sides -/

namespace Side

/-- The next key of a run is the key of its next item. -/
theorem next?_map (side : Side) (run : List α) :
    side.next? (run.map key) = (side.next? run).map key := by
  cases side <;> simp [next?]

/-- Where a search begins depends on the length of the run only. -/
theorem hint_map (side : Side) (run : List α) : side.hint (run.map key) = side.hint run := by
  cases side <;> simp [hint]

/-- A run is parted as its keys are. -/
theorem part_map (side : Side) (count : Nat) (run : List α) :
    side.part count (run.map key) =
      ((side.part count run).1.map key, (side.part count run).2.map key) := by
  cases side <;> simp [part]

/-- Moved items carry their keys with them. -/
theorem put_map (side : Side) (merged items : List α) :
    side.put (merged.map key) (items.map key) = (side.put merged items).map key := by
  cases side <;> simp [put]

/-- How far a boundary is depends on the length of the run only. -/
theorem reach_map (side : Side) (run : List α) (boundary : Nat) :
    side.reach (run.map key) boundary = side.reach run boundary := by
  cases side <;> simp [reach]

end Side

/-! ## Merges -/

namespace Merge

/-- The keys of a merge. -/
def map (m : Merge α) : Merge β where
  first := m.first.map key
  second := m.second.map key
  merged := m.merged.map key

variable (m : Merge α) (side : Side)

/-- Moving items of the first run moves their keys. -/
theorem moveFirst_map (count : Nat) :
    (m.map key).moveFirst side count = (m.moveFirst side count).map key := by
  simp [map, moveFirst, Side.part_map, Side.put_map]

/-- Moving items of the second run moves their keys. -/
theorem moveSecond_map (count : Nat) :
    (m.map key).moveSecond side count = (m.moveSecond side count).map key := by
  simp [map, moveSecond, Side.part_map, Side.put_map]

/-- A merge by keys is settled when that of the keys is. -/
theorem settled_map : (m.map key).settled side = m.settled side := by
  cases side <;> simp [map, settled]

/-- The outcome of a merge by keys has the keys for its keys. -/
theorem outcome_map : (m.map key).outcome side = (m.outcome side).map key := by
  cases side <;> simp [map, outcome]

/-- The same run wins by keys and among keys. -/
theorem firstWins_map :
    (m.map key).firstWins side less = m.firstWins side (onFun less key) := by
  simp only [firstWins, map, Side.next?_map]
  cases side.next? m.first <;> cases side.next? m.second <;> rfl

/-- The first run wins as often in a row by keys as among keys. -/
theorem winsOfFirst_map :
    (m.map key).winsOfFirst side less = m.winsOfFirst side (onFun less key) := by
  simp only [winsOfFirst, map, Side.next?_map]
  cases side.next? m.second with
  | none => rfl
  | some b => simp [boundaryOf_map, Side.hint_map, Side.reach_map, onFun]

/-- The second run wins as often in a row by keys as among keys. -/
theorem winsOfSecond_map :
    (m.map key).winsOfSecond side less = m.winsOfSecond side (onFun less key) := by
  simp only [winsOfSecond, map, Side.next?_map]
  cases side.next? m.first with
  | none => rfl
  | some a => simp [boundaryOf_map, Side.hint_map, Side.reach_map, onFun]

end Merge

/-! ## Walking and leaping -/

namespace Progress

/-- The keys of a merge that goes on. -/
def map (p : Progress α) : Progress β where
  merge := p.merge.map key
  gait := p.gait
  patience := p.patience

variable (p : Progress α) (side : Side)

/-- A walk of a merge takes the same steps among keys. -/
theorem walk_map (firstWon secondWon : Nat) :
    (p.map key).walk side less firstWon secondWon =
      (p.walk side (onFun less key) firstWon secondWon).map key := by
  simp only [walk, map, Merge.firstWins_map, Merge.moveFirst_map, Merge.moveSecond_map]
  split <;> rfl

/-- One leap over both runs is the same among keys. -/
theorem leapOnce_map (m : Merge α) :
    leapOnce (m.map key) side less =
      ((leapOnce m side (onFun less key)).1.map key, (leapOnce m side (onFun less key)).2) := by
  simp only [leapOnce, Merge.winsOfFirst_map, Merge.winsOfSecond_map, Merge.moveFirst_map,
    Merge.moveSecond_map, Merge.settled_map]
  split
  · rfl
  · split
    · rfl
    · split <;> rfl

/-- Leaping goes on as long among keys. -/
theorem leap_map (fresh : Bool) :
    (p.map key).leap side less fresh = (p.leap side (onFun less key) fresh).map key := by
  simp only [leap, map, leapOnce_map, Merge.settled_map]
  split <;> rfl

/-- A step is the same among keys, be it a walk or leaps. -/
theorem step_map : (p.map key).step side less = (p.step side (onFun less key)).map key := by
  have hgait : (p.map key).gait = p.gait := rfl
  rw [step, step, hgait]
  cases p.gait with
  | walking firstWon secondWon => exact walk_map key less p side firstWon secondWon
  | leaping fresh => exact leap_map key less p side fresh

/-- Any number of steps are the same among keys. -/
theorem run_map (fuel : Nat) :
    run side less fuel (p.map key) = (run side (onFun less key) fuel p).map key := by
  induction fuel generalizing p with
  | zero => rfl
  | succ fuel ih =>
      have hsettled : (p.map key).merge.settled side = p.merge.settled side :=
        p.merge.settled_map key side
      rw [run, run, hsettled, step_map, ih]
      split <;> rfl

end Progress

/-! ## Two runs -/

/-- Merging from one side by keys merges the keys, and keeps the same patience. -/
theorem mergeFrom_map (side : Side) (patience : Nat) (first second : List α) :
    mergeFrom side less patience (first.map key) (second.map key) =
      ((mergeFrom side (onFun less key) patience first second).1.map key,
        (mergeFrom side (onFun less key) patience first second).2) := by
  have hrun : ∀ (m : Merge α) (fuel : Nat),
      Progress.run side less fuel { merge := m.map key, patience } =
        (Progress.run side (onFun less key) fuel { merge := m, patience }).map key :=
    fun m fuel => Progress.run_map key less { merge := m, patience } side fuel
  cases side with
  | front =>
      have hbegun : Merge.moveSecond { first := first.map key, second := second.map key } .front 1 =
          (Merge.moveSecond { first, second } .front 1).map key :=
        Merge.moveSecond_map key { first, second } .front 1
      simp only [mergeFrom, List.length_map, hbegun, hrun, Progress.map, Merge.outcome_map]
  | back =>
      have hbegun : Merge.moveFirst { first := first.map key, second := second.map key } .back 1 =
          (Merge.moveFirst { first, second } .back 1).map key :=
        Merge.moveFirst_map key { first, second } .back 1
      simp only [mergeFrom, List.length_map, hbegun, hrun, Progress.map, Merge.outcome_map]

/-- How many items of the first run come before all of the second. -/
def lead (less : α → α → Bool) (first second : List α) : Nat :=
  match second.head? with
  | none => first.length
  | some b => boundaryOf (fun a => !less b a) first 0

/-- How many items of the second run do not come after all of those that wait. -/
def tail (less : α → α → Bool) (waiting second : List α) : Nat :=
  match waiting.getLast? with
  | none => 0
  | some a => boundaryOf (fun b => less b a) second (second.length - 1)

/-- A merge leaves in place what comes before and behind, and begins with the shorter run. -/
theorem mergeRuns_eq (less : α → α → Bool) (patience : Nat) (first second : List α) :
    mergeRuns less patience first second =
      let waiting := first.drop (lead less first second)
      let coming := second.take (tail less waiting second)
      if waiting.isEmpty || coming.isEmpty then (first ++ second, patience)
      else
        let side : Side := if waiting.length ≤ coming.length then .front else .back
        let merged := mergeFrom side less patience waiting coming
        (first.take (lead less first second) ++
          (merged.1 ++ second.drop (tail less waiting second)), merged.2) := rfl

/-- As many keys lead as items by their keys. -/
theorem lead_map (first second : List α) :
    lead less (first.map key) (second.map key) = lead (onFun less key) first second := by
  rw [lead, lead, List.head?_map]
  cases second.head? with
  | none => simp
  | some b => exact boundaryOf_map key _ first 0

/-- As many keys belong to the tail as items by their keys. -/
theorem tail_map (waiting second : List α) :
    tail less (waiting.map key) (second.map key) = tail (onFun less key) waiting second := by
  rw [tail, tail, List.getLast?_map, List.length_map]
  cases waiting.getLast? with
  | none => rfl
  | some a => exact boundaryOf_map key _ second _

/-- The keys of two merged runs. -/
theorem mergeRuns_map (patience : Nat) (first second : List α) :
    mergeRuns less patience (first.map key) (second.map key) =
      ((mergeRuns (onFun less key) patience first second).1.map key,
        (mergeRuns (onFun less key) patience first second).2) := by
  simp only [mergeRuns_eq, lead_map, ← List.map_drop, tail_map, ← List.map_take, mergeFrom_map,
    List.isEmpty_map, List.length_map]
  split <;> simp

/-! ## Runs -/

/-- A run goes on for as many keys. -/
theorem takeRun_map (follows : β → β → Bool) (last : α) (items : List α) :
    takeRun follows (key last) (items.map key) =
      ((takeRun (onFun follows key) last items).1.map key,
        (takeRun (onFun follows key) last items).2.map key) := by
  induction items generalizing last with
  | nil => rfl
  | cons item rest ih =>
      simp only [List.map_cons, takeRun, ih, onFun]
      split <;> rfl

/-- The leading run of keys has the keys of the leading run. -/
theorem leadingRun_map (items : List α) :
    leadingRun less (items.map key) =
      ((leadingRun (onFun less key) items).1.map key,
        (leadingRun (onFun less key) items).2.map key) := by
  rcases items with _ | ⟨first, _ | ⟨second, rest⟩⟩
  · rfl
  · rfl
  · have hdescends := takeRun_map key (fun a b => less b a) second rest
    have hascends := takeRun_map key (fun a b => !less b a) second rest
    simp only [List.map_cons, leadingRun, hdescends, hascends, onFun]
    split
    · simp
    · rfl

/-- Halving finds the same place for a key. -/
theorem insertHalving_map (sorted : List α) (item : α) :
    insertHalving less (sorted.map key) (key item) =
      (insertHalving (onFun less key) sorted item).map key := by
  simp [insertHalving, Option.any_map, onFun]

/-- So it does for one item after the other. -/
theorem foldl_insertHalving_map (items sorted : List α) :
    (items.map key).foldl (insertHalving less) (sorted.map key) =
      (items.foldl (insertHalving (onFun less key)) sorted).map key := by
  induction items generalizing sorted with
  | nil => rfl
  | cons item rest ih => simp only [List.map_cons, List.foldl_cons, insertHalving_map, ih]

/-- The next run of keys has the keys of the next run. -/
theorem nextRun_map (least : Nat) (items : List α) :
    nextRun less least (items.map key) =
      ((nextRun (onFun less key) least items).1.map key,
        (nextRun (onFun less key) least items).2.map key) := by
  simp [nextRun, leadingRun_map, ← List.map_take, foldl_insertHalving_map]

/-! ## Piles -/

/-- The keys of a run that waits. -/
def Waiting.map (waiting : Waiting α) : Waiting β where
  run := waiting.run.map key
  level := waiting.level

namespace Pile

/-- The keys of a pile. -/
def map (pile : Pile α) : Pile β where
  runs := pile.runs.map (Waiting.map key)
  patience := pile.patience

/-- The runs that wait are merged alike. -/
theorem mergeDeeper_map (level patience : Nat) (last : Waiting α) (runs : List (Waiting α)) :
    mergeDeeper less level patience (last.map key) (runs.map (Waiting.map key)) =
      (mergeDeeper (onFun less key) level patience last runs).map key := by
  induction runs generalizing last patience with
  | nil => rfl
  | cons before rest ih =>
      simp only [List.map_cons, mergeDeeper, Waiting.map, mergeRuns_map]
      split
      · exact ih _ { run := _, level := _ }
      · rfl

/-- A run is put on a pile alike. -/
theorem push_map (size place : Nat) (pile : Pile α) (run : List α) :
    (pile.map key).push less size place (run.map key) =
      (pile.push (onFun less key) size place run).map key := by
  obtain ⟨runs, patience⟩ := pile
  cases runs with
  | nil => rfl
  | cons last rest =>
      have hlevel : (last.map key).run.length = last.run.length := by simp [Waiting.map]
      have hrun : (run.map key).length = run.length := List.length_map key
      simp only [push, map, List.map_cons, hlevel, hrun, mergeDeeper_map]
      rfl

/-- Lists of runs are gathered alike. -/
theorem gather_map (fuel patience : Nat) (runs : List (List α)) :
    gather less fuel patience (runs.map (List.map key)) =
      (gather (onFun less key) fuel patience runs).map key := by
  induction fuel generalizing patience runs with
  | zero =>
      rcases runs with _ | ⟨last, _ | ⟨before, _ | ⟨earlier, rest⟩⟩⟩ <;>
        simp [gather, mergeRuns_map]
  | succ fuel ih =>
      rcases runs with _ | ⟨last, _ | ⟨middle, _ | ⟨before, rest⟩⟩⟩
      · rfl
      · simp [gather]
      · simp [gather, mergeRuns_map]
      · simp only [List.map_cons, gather, mergeRuns_map, List.length_map]
        split
        · exact ih _ (last :: _ :: rest)
        · exact ih _ (_ :: before :: rest)

end Pile

/-! ## Whole lists -/

/-- A whole list is piled up alike. -/
theorem pileUp_map (size fuel place : Nat) (pile : Pile α) (rest : List α) :
    pileUp less size fuel place (pile.map key) (rest.map key) =
      (pileUp (onFun less key) size fuel place pile rest).map key := by
  induction fuel generalizing place pile rest with
  | zero =>
      cases rest with
      | nil => rfl
      | cons item rest => exact Pile.push_map key less size place pile (item :: rest)
  | succ fuel ih =>
      cases rest with
      | nil => rfl
      | cons item rest =>
          have hnext := nextRun_map key less (leastRun size) (item :: rest)
          simp only [List.map_cons] at hnext
          simp only [List.map_cons, pileUp, hnext, Pile.push_map, List.length_map, ih]

/-- The keys of a list sorted by runs. -/
theorem byRuns_map (items : List α) :
    byRuns less (items.map key) = (byRuns (onFun less key) items).map key := by
  have hpile := pileUp_map key less items.length items.length 0 {} items
  have hruns : ∀ runs : List (Waiting α), (runs.map (Waiting.map key)).map Waiting.run =
      (runs.map Waiting.run).map (List.map key) := by
    simp [Waiting.map]
  have hempty : ({} : Pile α).map key = {} := rfl
  rw [hempty] at hpile
  simp only [byRuns, List.length_map, hpile, Pile.map, hruns, Pile.gather_map]

/-- The keys of a list sorted downward. -/
theorem descending_map (comparable : Bool) (items : List α) :
    descending less comparable (items.map key) =
      (descending (onFun less key) comparable items).map key := by
  have hstable := stable_map key (fun a b => less b a) items
  unfold descending
  split
  · exact hstable
  · rw [← List.map_reverse, byRuns_map, List.map_reverse]

section Related

variable {R : α → β → Prop}

/-- Lists whose items are related one by one are the two sides of a list of pairs. -/
theorem exists_pairs {items : List α} {items' : List β} (h : List.Forall₂ R items items') :
    ∃ pairs : List {pair : α × β // R pair.1 pair.2},
      pairs.map (fun pair => pair.1.1) = items ∧ pairs.map (fun pair => pair.1.2) = items' := by
  induction h with
  | nil => exact ⟨[], rfl, rfl⟩
  | cons hfirst _ ih =>
      obtain ⟨pairs, rfl, rfl⟩ := ih
      exact ⟨⟨(_, _), hfirst⟩ :: pairs, rfl, rfl⟩

/-- Pairs of related items are related lists. -/
theorem forall₂_pairs (pairs : List {pair : α × β // R pair.1 pair.2}) :
    List.Forall₂ R (pairs.map fun pair => pair.1.1) (pairs.map fun pair => pair.1.2) := by
  induction pairs with
  | nil => exact .nil
  | cons pair rest ih => exact .cons pair.2 ih

/-- Lists whose items are related one by one, and compare in the same way, are sorted downward in
the same way. -/
theorem forall₂_descending {less : α → α → Bool} {less' : β → β → Bool}
    (hless : ∀ a b a' b', R a a' → R b b' → less a b = less' a' b') (comparable : Bool)
    {items : List α} {items' : List β} (h : List.Forall₂ R items items') :
    List.Forall₂ R (descending less comparable items) (descending less' comparable items') := by
  -- The items of both lists are the sides of one list of related pairs.
  obtain ⟨pairs, rfl, rfl⟩ := exists_pairs h
  let first (pair : {pair : α × β // R pair.1 pair.2}) : α := pair.1.1
  let second (pair : {pair : α × β // R pair.1 pair.2}) : β := pair.1.2
  have hsame : onFun less first = onFun less' second :=
    funext fun a => funext fun b => hless _ _ _ _ a.2 b.2
  rw [descending_map first, descending_map second, hsame]
  exact forall₂_pairs _

end Related

end Sorting
end DiceNotation

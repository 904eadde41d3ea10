/-!
# Merging runs

Two neighbouring runs are merged in place of the pair, the first run winning where neither
item is less.  The merge works from the end where the shorter run is used up, one item at a
time; when one run keeps winning it leaps over many items at once, found by a search in
growing steps.  How long a run has to keep winning is the *patience*, which adapts while
leaping pays and is handed on from merge to merge.

All this fixes which items are compared, and in which order, so that a merge has one
outcome also where the comparison is not that of an order.

Main definitions:

- `Sorting.boundary`: a search in growing steps from a hint.
- `Sorting.Side`, `Sorting.Merge`, `Sorting.Progress`: the end a merge works from, what is
  left of both runs, and how it goes on.
- `Sorting.mergeRuns`: two runs merged, with the patience handed on.

Main results:

- `Sorting.mergeRuns_perm`: merging loses nothing and adds nothing.
-/

namespace DiceNotation
namespace Sorting

variable {α : Type}

/-! ## Searching -/

/-- The place between `low` and `high` to which halving leads; the places in front are taken
to be those where `inFront` holds. -/
def halve (inFront : Nat → Bool) : Nat → Nat → Nat → Nat
  | 0, low, _ => low
  | fuel + 1, low, high =>
    if low < high then
      let middle := (low + high) / 2
      if inFront middle then halve inFront fuel (middle + 1) high
      else halve inFront fuel low middle
    else low

/-- Growing steps `1`, `3`, `7`, … as long as they stay below `limit` and `goesOn` holds: the
last step at which it held, and the first at which it need not hold. -/
def stride (goesOn : Nat → Bool) (limit : Nat) : Nat → Nat → Nat → Nat × Nat
  | 0, last, next => (last, min next limit)
  | fuel + 1, last, next =>
    if next < limit && goesOn next then stride goesOn limit fuel next (2 * next + 1)
    else (last, min next limit)

/-- The first of `size` places that is not in front: found in growing steps away from
`hint`, and then by halving. -/
def boundary (inFront : Nat → Bool) (size hint : Nat) : Nat :=
  if inFront hint then
    let (last, next) := stride (fun step => inFront (hint + step)) (size - hint) size 0 1
    halve inFront size (hint + last + 1) (hint + next)
  else
    let (last, next) := stride (fun step => !inFront (hint - step)) (hint + 1) size 0 1
    halve inFront size (hint + 1 - next) (hint - last)

/-- The boundary behind the items that belong in front. -/
def boundaryOf (belongs : α → Bool) (items : List α) (hint : Nat) : Nat :=
  boundary (fun place => items[place]?.any belongs) items.length hint

/-! ## Sides -/

/-- The end that a merge works from. -/
inductive Side where
  | front
  | back
deriving Repr, DecidableEq

namespace Side

/-- The item of a run that is looked at next. -/
def next? (side : Side) (run : List α) : Option α :=
  match side with
  | .front => run.head?
  | .back => run.getLast?

/-- Where a search in a run starts. -/
def hint (side : Side) (run : List α) : Nat :=
  match side with
  | .front => 0
  | .back => run.length - 1

/-- The next `count` items of a run, and the others. -/
def part (side : Side) (count : Nat) (run : List α) : List α × List α :=
  match side with
  | .front => (run.take count, run.drop count)
  | .back => (run.drop (run.length - count), run.take (run.length - count))

/-- What has been merged, with further items. -/
def put (side : Side) (merged items : List α) : List α :=
  match side with
  | .front => merged ++ items
  | .back => items ++ merged

/-- How many places lie on the nearer side of a boundary. -/
def reach (side : Side) (run : List α) (boundary : Nat) : Nat :=
  match side with
  | .front => boundary
  | .back => run.length - boundary

/-- Parting a run loses nothing and adds nothing. -/
theorem part_perm (side : Side) (count : Nat) (run : List α) :
    ((side.part count run).1 ++ (side.part count run).2).Perm run := by
  cases side with
  | front => exact .of_eq (List.take_append_drop count run)
  | back =>
      exact List.perm_append_comm.trans (.of_eq (List.take_append_drop (run.length - count) run))

/-- Putting items down loses nothing and adds nothing. -/
theorem put_perm (side : Side) (merged items : List α) :
    (side.put merged items).Perm (merged ++ items) := by
  cases side with
  | front => exact .refl _
  | back => exact List.perm_append_comm

end Side

/-! ## Merges -/

/-- What is left of two runs, and what has been merged. -/
structure Merge (α : Type) where
  first : List α
  second : List α
  merged : List α := []

namespace Merge

/-- All items of a merge. -/
def items (m : Merge α) : List α := m.merged ++ (m.first ++ m.second)

/-- Merge the next `count` items of the first run. -/
def moveFirst (m : Merge α) (side : Side) (count : Nat) : Merge α :=
  let (moved, first) := side.part count m.first
  { m with first, merged := side.put m.merged moved }

/-- Merge the next `count` items of the second run. -/
def moveSecond (m : Merge α) (side : Side) (count : Nat) : Merge α :=
  let (moved, second) := side.part count m.second
  { m with second, merged := side.put m.merged moved }

/-- Whether nothing is left to compare.  The last item of the run that is used up from the
end is known to come last. -/
def settled (m : Merge α) (side : Side) : Bool :=
  match side with
  | .front => m.second.isEmpty || m.first.length ≤ 1
  | .back => m.first.isEmpty || m.second.length ≤ 1

/-- The outcome of a settled merge. -/
def outcome (m : Merge α) (side : Side) : List α :=
  match side with
  | .front => m.merged ++ (m.second ++ m.first)
  | .back => (m.second ++ m.first) ++ m.merged

/-- Whether the next item is one of the first run. -/
def firstWins (m : Merge α) (side : Side) (less : α → α → Bool) : Bool :=
  match side.next? m.first, side.next? m.second with
  | some a, some b => if side = .front then !less b a else less b a
  | _, _ => false

/-- How many items of the first run come before the next of the second. -/
def winsOfFirst (m : Merge α) (side : Side) (less : α → α → Bool) : Nat :=
  match side.next? m.second with
  | none => 0
  | some b => side.reach m.first (boundaryOf (fun a => !less b a) m.first (side.hint m.first))

/-- How many items of the second run come before the next of the first. -/
def winsOfSecond (m : Merge α) (side : Side) (less : α → α → Bool) : Nat :=
  match side.next? m.first with
  | none => 0
  | some a => side.reach m.second (boundaryOf (fun b => less b a) m.second (side.hint m.second))

/-- Moving items of the first run keeps all items. -/
theorem moveFirst_perm (m : Merge α) (side : Side) (count : Nat) :
    (m.moveFirst side count).items.Perm m.items := by
  have hput := side.put_perm m.merged (side.part count m.first).1
  have hpart := side.part_perm count m.first
  refine (hput.append_right _).trans ?_
  rw [List.append_assoc, ← List.append_assoc (side.part count m.first).1]
  exact (hpart.append_right _).append_left _

/-- Moving items of the second run keeps all items. -/
theorem moveSecond_perm (m : Merge α) (side : Side) (count : Nat) :
    (m.moveSecond side count).items.Perm m.items := by
  have hput := side.put_perm m.merged (side.part count m.second).1
  have hpart := side.part_perm count m.second
  refine (hput.append_right _).trans ?_
  rw [List.append_assoc]
  refine List.Perm.append_left _ ?_
  refine (List.perm_append_comm_assoc _ _ _).trans ?_
  exact hpart.append_left _

/-- Ending a merge keeps all items. -/
theorem outcome_perm (m : Merge α) (side : Side) : (m.outcome side).Perm m.items := by
  cases side with
  | front => exact List.perm_append_comm.append_left _
  | back =>
      exact List.perm_append_comm.trans (List.perm_append_comm.append_left _)

end Merge

/-! ## Walking and leaping -/

/-- A merge goes on item by item, counting how often in a row either run has won, or in
leaps; the leaps are fresh until one has been made. -/
inductive Gait where
  | walking (firstWon secondWon : Nat)
  | leaping (fresh : Bool)
deriving Repr, DecidableEq

/-- Leaps as long as this pay. -/
def leapLength : Nat := 7

/-- A merge, its gait, and the patience with which it walks. -/
structure Progress (α : Type) where
  merge : Merge α
  gait : Gait := .walking 0 0
  patience : Nat

namespace Progress

/-- One item merged.  A run that has won as often as the patience allows begins to leap. -/
def walk (p : Progress α) (side : Side) (less : α → α → Bool) (firstWon secondWon : Nat) :
    Progress α :=
  if p.merge.firstWins side less then
    { p with
      merge := p.merge.moveFirst side 1
      gait := if p.patience ≤ firstWon + 1 then .leaping true else .walking (firstWon + 1) 0 }
  else
    { p with
      merge := p.merge.moveSecond side 1
      gait := if p.patience ≤ secondWon + 1 then .leaping true else .walking 0 (secondWon + 1) }

/-- The items by which the first run wins and one of the second, then the other way round;
a merge that settles on the way goes no further.  With it, whether the leaps were long. -/
def leapOnce (m : Merge α) (side : Side) (less : α → α → Bool) : Merge α × Bool :=
  let firstCount := m.winsOfFirst side less
  let afterFirst := m.moveFirst side firstCount
  if afterFirst.settled side then (afterFirst, true)
  else
    let turned := afterFirst.moveSecond side 1
    if turned.settled side then (turned, true)
    else
      let secondCount := turned.winsOfSecond side less
      let afterSecond := turned.moveSecond side secondCount
      if afterSecond.settled side then (afterSecond, true)
      else (afterSecond.moveFirst side 1, leapLength ≤ firstCount || leapLength ≤ secondCount)

/-- A pair of leaps.  Every pair after the first makes the next leaps come easier, and short
ones, which end the leaping, make them come harder. -/
def leap (p : Progress α) (side : Side) (less : α → α → Bool) (fresh : Bool) : Progress α :=
  let patience := if fresh then p.patience else max 1 (p.patience - 1)
  let (merge, long) := leapOnce p.merge side less
  if merge.settled side || long then { merge, gait := .leaping false, patience }
  else { merge, gait := .walking 0 0, patience := patience + 1 }

/-- One step of a merge. -/
def step (p : Progress α) (side : Side) (less : α → α → Bool) : Progress α :=
  match p.gait with
  | .walking firstWon secondWon => p.walk side less firstWon secondWon
  | .leaping fresh => p.leap side less fresh

/-- Steps until the merge has settled, which takes at most one for each item. -/
def run (side : Side) (less : α → α → Bool) : Nat → Progress α → Progress α
  | 0, p => p
  | fuel + 1, p => if p.merge.settled side then p else run side less fuel (p.step side less)

/-- A walk keeps all items. -/
theorem walk_perm (p : Progress α) (side : Side) (less : α → α → Bool)
    (firstWon secondWon : Nat) :
    (p.walk side less firstWon secondWon).merge.items.Perm p.merge.items := by
  unfold walk
  split
  · exact p.merge.moveFirst_perm side 1
  · exact p.merge.moveSecond_perm side 1

/-- A leap keeps all items. -/
theorem leapOnce_perm (m : Merge α) (side : Side) (less : α → α → Bool) :
    (leapOnce m side less).1.items.Perm m.items := by
  simp only [leapOnce]
  split
  · exact m.moveFirst_perm side _
  · split
    · exact (Merge.moveSecond_perm _ side 1).trans (m.moveFirst_perm side _)
    · split
      · exact (Merge.moveSecond_perm _ side _).trans
          ((Merge.moveSecond_perm _ side 1).trans (m.moveFirst_perm side _))
      · exact (Merge.moveFirst_perm _ side 1).trans ((Merge.moveSecond_perm _ side _).trans
          ((Merge.moveSecond_perm _ side 1).trans (m.moveFirst_perm side _)))

/-- A step keeps all items. -/
theorem step_perm (p : Progress α) (side : Side) (less : α → α → Bool) :
    (p.step side less).merge.items.Perm p.merge.items := by
  unfold step
  split
  · exact p.walk_perm side less _ _
  · simp only [leap]
    split <;> exact leapOnce_perm p.merge side less

/-- Several steps keep all items. -/
theorem run_perm (side : Side) (less : α → α → Bool) (fuel : Nat) (p : Progress α) :
    (run side less fuel p).merge.items.Perm p.merge.items := by
  induction fuel generalizing p with
  | zero => exact .refl _
  | succ fuel ih =>
      unfold run
      split
      · exact .refl _
      · exact (ih _).trans (p.step_perm side less)

end Progress

/-! ## Two runs -/

/-- Two runs merged from one end.  The first item is that of the run which is not used up
from the end. -/
def mergeFrom (side : Side) (less : α → α → Bool) (patience : Nat) (first second : List α) :
    List α × Nat :=
  let begun : Merge α :=
    match side with
    | .front => Merge.moveSecond { first, second } side 1
    | .back => Merge.moveFirst { first, second } side 1
  let done := Progress.run side less (first.length + second.length) { merge := begun, patience }
  (done.merge.outcome side, done.patience)

/-- A merge from one side loses nothing and adds nothing. -/
theorem mergeFrom_perm (side : Side) (less : α → α → Bool) (patience : Nat)
    (first second : List α) :
    (mergeFrom side less patience first second).1.Perm (first ++ second) := by
  refine (Merge.outcome_perm _ side).trans ((Progress.run_perm side less _ _).trans ?_)
  cases side with
  | front => exact Merge.moveSecond_perm { first, second } .front 1
  | back => exact Merge.moveFirst_perm { first, second } .back 1

/-- Two neighbouring runs merged, and the patience handed on.  The items of the first run
that come before all of the second stay, as do those of the second that come after all of
the first; the others are merged from the end where the shorter run is used up. -/
def mergeRuns (less : α → α → Bool) (patience : Nat) (first second : List α) :
    List α × Nat :=
  let lead := match second.head? with
    | none => first.length
    | some b => boundaryOf (fun a => !less b a) first 0
  let waiting := first.drop lead
  let tail := match waiting.getLast? with
    | none => 0
    | some a => boundaryOf (fun b => less b a) second (second.length - 1)
  let coming := second.take tail
  if waiting.isEmpty || coming.isEmpty then (first ++ second, patience)
  else
    let side : Side := if waiting.length ≤ coming.length then .front else .back
    let (merged, patience) := mergeFrom side less patience waiting coming
    (first.take lead ++ (merged ++ second.drop tail), patience)

/-- Merging loses nothing and adds nothing. -/
theorem mergeRuns_perm (less : α → α → Bool) (patience : Nat) (first second : List α) :
    (mergeRuns less patience first second).1.Perm (first ++ second) := by
  simp only [mergeRuns]
  generalize (match second.head? with
    | none => first.length
    | some b => boundaryOf (fun a => !less b a) first 0) = lead
  generalize (match (first.drop lead).getLast? with
    | none => 0
    | some a => boundaryOf (fun b => less b a) second (second.length - 1)) = tail
  split
  · exact .refl _
  · generalize (if (first.drop lead).length ≤ (second.take tail).length then Side.front
      else Side.back) = side
    have hmerged := mergeFrom_perm side less patience (first.drop lead) (second.take tail)
    refine ((hmerged.append_right _).append_left _).trans (.of_eq ?_)
    rw [List.append_assoc, List.take_append_drop, ← List.append_assoc, List.take_append_drop]

end Sorting
end DiceNotation

import DiceNotation.Proofs.Dice.Growth

/-!
# Dice that call for others

Growth that goes on until no die calls for another comes to a fixpoint: as many dice have joined the
pool as all of its dice call for, those that joined included, and every die of the pool has been
marked.  It is enough to know for each die how it is marked, how many dice it calls for, and what
these are like.

Main definitions:

- `Die.CallsFor`: what growth of a kind makes of one die.

Main results:

- `Table.calls_mapM`: as many dice join in one round as the pool calls for.
- `Table.calls_cascade`: as many dice join in all rounds as the pool and they call for.
-/

namespace DiceNotation

/-- What growth of a kind makes of a die, which has to be `Fit` for it: the die is marked, and calls
for a number of dice, all of which are `New`. -/
structure Die.CallsFor (Fit : Die → Prop) (mark : Die → Die) (number : Die → Nat) (New : Die → Prop)
    (die : Die) (made : Die × List Die) : Prop where
  fit : Fit die
  marked_eq : made.1 = mark die
  length_joined : made.2.length = number die
  joined : ∀ new ∈ made.2, New new

variable {spawn : Die → Roll (Die × List Die)} {Fit New : Die → Prop} {mark : Die → Die}
  {number : Die → Nat}

/-- What growth makes of each die of a pool, brought together. -/
theorem Die.CallsFor.round {pool : List Die} {seen : List (Die × List Die)}
    (h : List.Forall₂ (CallsFor Fit mark number New) pool seen) :
    (∀ die ∈ pool, Fit die) ∧ seen.map Prod.fst = pool.map mark ∧
      (seen.flatMap Prod.snd).length = (pool.map number).sum ∧
      ∀ new ∈ seen.flatMap Prod.snd, New new := by
  induction h with
  | nil => simp
  | cons hdie _ ih =>
      obtain ⟨hfit, hmarked, hlength, hnew⟩ := ih
      refine ⟨List.forall_mem_cons.mpr ⟨hdie.fit, hfit⟩, ?_, ?_, ?_⟩
      · rw [List.map_cons, List.map_cons, hdie.marked_eq, hmarked]
      · rw [List.flatMap_cons, List.length_append, hdie.length_joined, hlength, List.map_cons,
          List.sum_cons]
      · rw [List.flatMap_cons, List.forall_mem_append]
        exact ⟨hdie.joined, hnew⟩

namespace Table

variable (hspawn : ∀ die tally,
  Yields (spawn die) tally fun made _ => die.CallsFor Fit mark number New made)
include hspawn

/-- In one round as many dice join as those of the pool call for. -/
theorem calls_mapM (pool : List Die) (tally : Tally) :
    Yields (pool.mapM spawn) tally fun seen _ =>
      (∀ die ∈ pool, Fit die) ∧ seen.map Prod.fst = pool.map mark ∧
        (seen.flatMap Prod.snd).length = (pool.map number).sum ∧
        ∀ new ∈ seen.flatMap Prod.snd, New new := by
  have hall : Yields (pool.mapM spawn) tally fun seen _ =>
      List.Forall₂ (Die.CallsFor Fit mark number New) pool seen :=
    Ends.forall₂_mapM fun die _ tally => hspawn die tally
  exact hall.imp (fun _ _ h => Die.CallsFor.round h) fun _ _ h => h

/-- In all rounds together as many dice join as those of the pool and they themselves call for. -/
theorem calls_cascade (fuel : Nat) (pool : List Die) (tally : Tally) :
    Yields (cascade spawn fuel pool) tally fun dice _ =>
      ∃ joined, dice = (pool ++ joined).map mark ∧
        joined.length = ((pool ++ joined).map number).sum ∧
        (∀ die ∈ pool ++ joined, Fit die) ∧ ∀ new ∈ joined, New new := by
  refine cascade_induction (P := fun pool _ dice _ =>
    ∃ joined, dice = (pool ++ joined).map mark ∧
      joined.length = ((pool ++ joined).map number).sum ∧
      (∀ die ∈ pool ++ joined, Fit die) ∧ ∀ new ∈ joined, New new) ?_ ?_ fuel pool tally
  · exact fun _ => ⟨[], by simp⟩
  · intro pool tally
    refine (calls_mapM hspawn pool tally).imp ?_ fun _ _ h => h
    rintro seen _ ⟨hfit, hmarked, hlength, hnew⟩ _ _ ⟨later, rfl, hlater, hfitLater, hnewLater⟩
    refine ⟨seen.flatMap Prod.snd ++ later, ?_, ?_, ?_, ?_⟩
    · rw [hmarked, ← List.map_append]
    · rw [List.length_append, hlength, hlater, ← List.sum_append, ← List.map_append]
    · exact List.forall_mem_append.mpr ⟨hfit, hfitLater⟩
    · exact List.forall_mem_append.mpr ⟨hnew, hnewLater⟩

end Table
end DiceNotation

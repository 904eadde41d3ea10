import DiceNotation.Proofs.Dice.Allowance
import DiceNotation.Proofs.Dice.Turns
import Mathlib.Data.List.Perm.Basic

/-!
# Throws

Dice that are rolled together make one throw.  What a throw shows is what its draws show, one by
one; so when the draws come in another order, the throw shows the same in another order.

Main definitions:

- `Faces.face`: what a draw shows, if there is one.
- `Die.thrown`: a die of a throw.

Main results:

- `mapM_of_perm`: a run through items in another order.
- `Table.answer_rollDice`: a throw shows what its draws show.
-/

namespace DiceNotation

/-- A run through items that succeeds does so in any order, with the same results in that order. -/
theorem mapM_of_perm {ε α β : Type} {f : α → Except ε β} {items items' : List α}
    (h : items.Perm items') {made : List β} (hmade : items.mapM f = .ok made) :
    ∃ made', items'.mapM f = .ok made' ∧ made.Perm made' := by
  obtain ⟨made', hmade', hperm⟩ := List.perm_comp_forall₂ h.symm (mapM_eq_ok_iff.mp hmade)
  exact ⟨made', mapM_eq_ok_iff.mpr hmade', hperm.symm⟩

/-- What a draw shows on faces, if there is one. -/
def Faces.face (faces : Faces) (draw : Option Binary64) : Except Fault Int :=
  match draw with
  | none => .error .drawsExhausted
  | some x => faces.shown x

/-- A die of a throw. -/
def Die.thrown (faces : Faces) (face : Int) : Die := { faces, rolls := [face] }

/-- The draws of a throw: so many in a row. -/
def Source.drawsFrom (source : Source) (start count : Nat) : List (Option Binary64) :=
  (List.range' start count).map source

namespace Roll

/-- Whoever has drawn dice that others announced has counted the draws, and nothing else. -/
theorem Draws.tally_of_ok {α : Type} {count : Nat} {x : Roll α} (h : Draws count x) {tally : Tally}
    {a : α} (hanswer : (x.attempt tally).answer = .ok a) :
    (x.attempt tally).tally = { tally with drawn := tally.drawn + count } := by
  have hends := ends_iff_attempt.mp (h tally)
  rw [hanswer] at hends
  obtain ⟨hannounced, hdrawn⟩ := hends
  generalize (x.attempt tally).tally = later at *
  obtain ⟨announced, drawn⟩ := later
  simp_all

end Roll

namespace Table

open Roll

variable {table : Table}

/-- A roll of a fresh die is the face that the next draw shows. -/
theorem answer_addRoll (faces : Faces) (tally : Tally) :
    ((table.addRoll { faces }).attempt tally).answer =
      (faces.face (table.source tally.drawn)).map (Die.thrown faces) := by
  unfold addRoll
  rw [drawFace_eq, bind_assoc]
  have hnext := table.attempt_nextDraw tally
  cases hx : table.source tally.drawn with
  | none =>
      rw [hx] at hnext
      rw [attempt_bind_of_error (by rw [hnext])]
      rfl
  | some x =>
      rw [hx] at hnext
      rw [attempt_bind_of_ok (by rw [hnext]), attempt_bind_pure, attempt_lift]
      rfl

/-- A throw shows what its draws show. -/
theorem answer_rollDice (faces : Faces) (count : Nat) (tally : Tally) :
    ((table.rollDice faces count).attempt tally).answer =
      ((table.source.drawsFrom tally.drawn count).mapM faces.face).map
        (List.map (Die.thrown faces)) := by
  induction count generalizing tally with
  | zero => rfl
  | succ count ih =>
      have hdraws : Draws 1 (table.addRoll { faces }) := draws_addRoll _
      have hfirst := table.answer_addRoll faces tally
      rw [rollDice, Source.drawsFrom, List.range'_succ, List.map_cons, List.mapM_cons]
      cases hface : faces.face (table.source tally.drawn) with
      | error fault =>
          rw [hface] at hfirst
          rw [attempt_bind_of_error hfirst]
          rfl
      | ok face =>
          rw [hface] at hfirst
          rw [attempt_bind_of_ok hfirst, attempt_bind_pure, Attempt.map, ih,
            hdraws.tally_of_ok hfirst, Source.drawsFrom]
          cases ((List.range' (tally.drawn + 1) count).map table.source).mapM faces.face <;> rfl

/-- A throw of which all draws show a face. -/
theorem attempt_rollDice {faces : Faces} {count : Nat} {tally : Tally} {shown : List Int}
    (hshown : (table.source.drawsFrom tally.drawn count).mapM faces.face = .ok shown) :
    (table.rollDice faces count).attempt tally =
      ⟨.ok (shown.map (Die.thrown faces)), { tally with drawn := tally.drawn + count }⟩ := by
  have hanswer := table.answer_rollDice faces count tally
  have hdraws : Draws count (table.rollDice faces count) := draws_rollDice faces count
  rw [hshown] at hanswer
  rw [← hdraws.tally_of_ok hanswer]
  exact congrArg (Attempt.mk · _) hanswer

/-- A throw of which a draw shows no face. -/
theorem answer_rollDice_error {faces : Faces} {count : Nat} {tally : Tally}
    {draw : Option Binary64} (hdraw : draw ∈ table.source.drawsFrom tally.drawn count)
    {fault : Fault} (hfault : faces.face draw = .error fault) :
    ∃ fault, ((table.rollDice faces count).attempt tally).answer = .error fault := by
  rw [answer_rollDice]
  cases hshown : (table.source.drawsFrom tally.drawn count).mapM faces.face with
  | error fault => exact ⟨fault, rfl⟩
  | ok shown =>
      obtain ⟨face, hface⟩ := exists_mapM_eq_ok_iff.mp ⟨shown, hshown⟩ draw hdraw
      rw [hfault] at hface
      contradiction

end Table
end DiceNotation

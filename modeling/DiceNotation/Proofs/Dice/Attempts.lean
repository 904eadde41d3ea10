import DiceNotation.Dice.Table
import DiceNotation.Proofs.Steps

/-!
# Attempts

A computation that rolls ends in a result or in a fault, and either way leaves a tally.  Seen
from outside, that is all there is to a run.

Main definitions:

- `Attempt`, `Roll.attempt`: what a computation ends in, and the tally that it leaves.

Main results:

- `Roll.ends_iff_attempt`: what holds of the end of a run, said of the attempt.
- `Roll.attempt_bind_of_ok`, `Roll.attempt_bind_of_error`: attempts at chains of steps.
- `Table.attempt_announce`, `Table.attempt_nextDraw`, `Table.attempt_rounds_bind`: attempts at
  announcing, at drawing, and at what depends on the rounds that are left.
-/

namespace DiceNotation

/-- What a computation ends in, and the tally that it leaves. -/
structure Attempt (α : Type) where
  answer : Except Fault α
  tally : Tally

/-- An attempt of which the result, if there is one, is made into another. -/
def Attempt.map {α β : Type} (f : α → β) (attempt : Attempt α) : Attempt β :=
  ⟨attempt.answer.map f, attempt.tally⟩

namespace Roll

variable {α β : Type} {x : Roll α} {tally later : Tally}

/-- An attempt at a computation. -/
def attempt (x : Roll α) (tally : Tally) : Attempt α :=
  match x.run tally with
  | .ok a later => ⟨.ok a, later⟩
  | .error fault later => ⟨.error fault, later⟩

/-- What a run ends in is told by its attempt. -/
theorem ends_iff_attempt {Q : α → Tally → Prop} {E : Fault → Tally → Prop} :
    Ends x tally Q E ↔
      Gives (x.attempt tally).answer (fun a => Q a (x.attempt tally).tally)
        fun fault => E fault (x.attempt tally).tally := by
  unfold Ends attempt
  cases x.run tally <;> rfl

/-- What holds of the tally however a computation ends, holds of the tally that is left. -/
theorem attempt_tally {P : Tally → Prop}
    (h : Ends x tally (fun _ later => P later) fun _ later => P later) :
    P (x.attempt tally).tally := by
  rw [ends_iff_attempt] at h
  cases hanswer : (x.attempt tally).answer with
  | ok a => rwa [hanswer] at h
  | error fault => rwa [hanswer] at h

/-- A success is the answer of an attempt. -/
theorem attempt_of_run_ok {a : α} (h : x.run tally = .ok a later) :
    x.attempt tally = ⟨.ok a, later⟩ := by
  rw [attempt, h]

/-- A failure is the answer of an attempt. -/
theorem attempt_of_run_error {fault : Fault} (h : x.run tally = .error fault later) :
    x.attempt tally = ⟨.error fault, later⟩ := by
  rw [attempt, h]

/-- An attempt with an answer is a run with that result. -/
theorem run_of_answer_ok {a : α} (h : (x.attempt tally).answer = .ok a) :
    x.run tally = .ok a (x.attempt tally).tally := by
  unfold attempt at h ⊢
  cases hrun : x.run tally with
  | ok b later =>
      rw [hrun] at h
      cases h
      rfl
  | error fault later =>
      rw [hrun] at h
      cases h

/-- Attempts show all there is to a run. -/
theorem run_eq_of_attempt_eq {y : Roll α} (h : x.attempt tally = y.attempt tally) :
    x.run tally = y.run tally := by
  unfold attempt at h
  revert h
  cases x.run tally <;> cases y.run tally <;> simp

/-! ## Chains of steps -/

/-- What does not roll keeps its tally. -/
@[simp]
theorem attempt_lift (x : Except Fault α) (tally : Tally) :
    (lift x).attempt tally = ⟨x, tally⟩ := by
  cases x <;> rfl

/-- A sequence goes on from a success. -/
theorem attempt_bind_of_ok {f : α → Roll β} {a : α} (h : (x.attempt tally).answer = .ok a) :
    (x >>= f).attempt tally = (f a).attempt (x.attempt tally).tally := by
  unfold attempt at h ⊢
  rw [EStateM.run_bind]
  cases hrun : x.run tally with
  | ok b later =>
      rw [hrun] at h
      obtain rfl : b = a := Except.ok.inj h
      rfl
  | error fault later =>
      rw [hrun] at h
      cases h

/-- A sequence ends with a failure. -/
theorem attempt_bind_of_error {f : α → Roll β} {fault : Fault}
    (h : (x.attempt tally).answer = .error fault) :
    (x >>= f).attempt tally = ⟨.error fault, (x.attempt tally).tally⟩ := by
  unfold attempt at h ⊢
  rw [EStateM.run_bind]
  cases hrun : x.run tally with
  | ok b later =>
      rw [hrun] at h
      cases h
  | error other later =>
      rw [hrun] at h
      obtain rfl : other = fault := Except.error.inj h
      rfl

/-- A step that does not roll leaves the tally alone. -/
theorem attempt_bind_lift (x : Roll α) (f : α → Except Fault β) (tally : Tally) :
    (x >>= fun a => lift (f a)).attempt tally =
      ⟨(x.attempt tally).answer >>= f, (x.attempt tally).tally⟩ := by
  cases hanswer : (x.attempt tally).answer with
  | ok a => rw [attempt_bind_of_ok hanswer, attempt_lift, ok_bind]
  | error fault => rw [attempt_bind_of_error hanswer, error_bind]

/-- A step that only makes one result into another. -/
theorem attempt_bind_pure (x : Roll α) (f : α → β) (tally : Tally) :
    (x >>= fun a => pure (f a)).attempt tally = (x.attempt tally).map f := by
  unfold attempt Attempt.map
  rw [EStateM.run_bind]
  cases x.run tally <;> rfl

end Roll

/-! ## On the table -/

namespace Table

open Roll

variable {table : Table} {limit : Int}

/-- An announcement past the limit fails, and is counted all the same. -/
theorem attempt_announce (hlimit : table.limit = some limit) (count : Int) (tally : Tally) :
    (table.announce count).attempt tally =
      if limit < tally.announced + count then ⟨.error (excess limit), counted tally count⟩
      else ⟨.ok (), counted tally count⟩ := by
  unfold attempt
  by_cases hexcess : limit < tally.announced + count
  · rw [run_announce_of_lt hlimit hexcess, if_pos hexcess]
  · rw [run_announce_of_le hlimit (Int.not_lt.mp hexcess), if_neg hexcess]

/-- A draw is counted if there is one. -/
theorem attempt_nextDraw (tally : Tally) :
    table.nextDraw.attempt tally =
      match table.source tally.drawn with
      | none => ⟨.error .drawsExhausted, tally⟩
      | some x => ⟨.ok x, { tally with drawn := tally.drawn + 1 }⟩ := by
  unfold attempt
  rw [run_nextDraw]
  cases table.source tally.drawn <;> rfl

/-- Under a limit there is a round for each die that can still be announced, and one more. -/
theorem run_rounds (hlimit : table.limit = some limit) (tally : Tally) :
    table.rounds.run tally = .ok ((limit - tally.announced).toNat + 1) tally := by
  unfold rounds allowance
  rw [hlimit]
  rfl

/-- What depends on the rounds that are left depends on the limit. -/
theorem attempt_rounds_bind {α : Type} (hlimit : table.limit = some limit) (f : Nat → Roll α)
    (tally : Tally) :
    (table.rounds >>= f).attempt tally =
      (f ((limit - tally.announced).toNat + 1)).attempt tally := by
  unfold attempt
  rw [EStateM.run_bind, run_rounds hlimit]

end Table
end DiceNotation

import DiceNotation.Proofs.Dice.Attempts
import DiceNotation.Proofs.Dice.Congruence

/-!
# Announced dice and draws

On a table with a limit every draw is of a die that was announced before, and no die is drawn
once the limit is passed.  A computation that succeeds has drawn as many dice as it announced;
one that fails may have announced more.

Main definitions:

- `Tally.Accounts`: what may happen between two tallies under a limit.
- `Roll.Accounted`: computations that announce all that they draw.

Main results:

- `Roll.Draws.announced`: dice that are announced may be drawn.
- `Table.alike_accounted`: what rolls on a table with a limit accounts for its draws.
- `Roll.Accounted.accounts`, `Roll.Accounted.balance`, `Roll.Accounted.passed`: what an attempt
  leaves.
-/

namespace DiceNotation

/-! ## Tallies -/

/-- What may happen between two tallies under a limit: draws are made of dice that were
announced, and of no more than the limit had left. -/
structure Tally.Accounts (limit : Int) (before after : Tally) : Prop where
  drawn_le : before.drawn ≤ after.drawn
  draws_le : (after.drawn : Int) - before.drawn ≤ after.announced - before.announced
  left_le : (after.drawn : Int) - before.drawn ≤ (limit - before.announced).toNat

/-- Where nothing happens, nothing is to account for. -/
theorem Tally.Accounts.refl (limit : Int) (tally : Tally) : tally.Accounts limit tally :=
  ⟨Nat.le_refl _, by omega, by omega⟩

namespace Tally.Accounts

variable {limit : Int} {first second third : Tally}

/-- What happens one after the other is accounted for together. -/
theorem trans (h : first.Accounts limit second) (h' : second.Accounts limit third) :
    first.Accounts limit third := by
  obtain ⟨hdrawn, hdraws, hleft⟩ := h
  obtain ⟨hdrawn', hdraws', hleft'⟩ := h'
  exact ⟨by omega, by omega, by omega⟩

/-- Past the limit no die is drawn. -/
theorem drawn_eq (h : first.Accounts limit second) (hpast : limit < first.announced) :
    second.drawn = first.drawn := by
  have hdrawn := h.drawn_le
  have hleft := h.left_le
  omega

end Tally.Accounts

/-! ## The limit -/

/-- A fault that blames the limit tells it. -/
theorem Table.eq_overBudget_of_excess {limit : Int} (h : (excess limit).IsOverBudget) :
    excess limit = .overBudget limit := by
  rw [excess_eq] at h ⊢
  split at h
  · exact h.elim
  · next hshort => rw [if_neg hshort]

/-! ## Accounts -/

namespace Roll

variable {α β : Type} {limit : Int}

/-- Whether a computation announces all that it draws: as much as it draws if it succeeds.  It
blames the limit only if the limit is passed. -/
def Accounted (limit : Int) (x : Roll α) : Prop :=
  ∀ tally, Ends x tally
    (fun _ later => tally.Accounts limit later ∧
      later.announced - tally.announced = (later.drawn : Int) - tally.drawn)
    (fun fault later => tally.Accounts limit later ∧
      (fault.IsOverBudget → fault = .overBudget limit ∧ limit < later.announced))

/-- What does not roll is accounted for. -/
theorem accounted_lift {x : Except Fault α} (h : Fault.Unlimited x) :
    Accounted limit (lift x) := by
  intro tally
  rw [lift, ends_ofExcept]
  exact h.imp (fun _ _ _ => ⟨.refl limit tally, by omega⟩)
    fun _ hfault => ⟨.refl limit tally, fun h => absurd h hfault⟩

/-- So is a sequence, if its parts are. -/
theorem Accounted.bind {x : Roll α} {f : α → Roll β} (hx : Accounted limit x)
    (hf : ∀ a, Accounted limit (f a)) : Accounted limit (x >>= f) := by
  intro tally
  rw [ends_bind]
  refine (hx tally).imp ?_ fun _ _ h => h
  rintro a later ⟨⟨hdrawn, hdraws, hleft⟩, hexact⟩
  refine (hf a later).imp ?_ ?_
  · rintro b last ⟨⟨hdrawn', hdraws', hleft'⟩, hexact'⟩
    exact ⟨⟨by omega, by omega, by omega⟩, by omega⟩
  · rintro fault last ⟨⟨hdrawn', hdraws', hleft'⟩, hfault⟩
    exact ⟨⟨by omega, by omega, by omega⟩, hfault⟩

/-- Dice that are announced may be drawn. -/
theorem Draws.announced {table : Table} (hlimit : table.limit = some limit) {count : Nat}
    {x : Unit → Roll α} (hx : Draws count (x ())) :
    Accounted limit (table.announce count >>= x) := by
  intro tally
  by_cases hle : tally.announced + count ≤ limit
  · have hcounted := hx (Table.counted tally count)
    have hannounce := Table.run_announce_of_le hlimit hle
    unfold Ends at hcounted ⊢
    rw [EStateM.run_bind, hannounce]
    refine Ends.imp hcounted ?_ ?_
    · rintro a later ⟨hannounced, hdrawn⟩
      have hannounced : later.announced = tally.announced + count := hannounced
      have hdrawn : later.drawn = tally.drawn + count := hdrawn
      exact ⟨⟨by omega, by omega, by omega⟩, by omega⟩
    · rintro fault later ⟨hannounced, hge, hle', hfault⟩
      have hannounced : later.announced = tally.announced + count := hannounced
      have hge : tally.drawn ≤ later.drawn := hge
      have hle' : later.drawn ≤ tally.drawn + count := hle'
      exact ⟨⟨hge, by omega, by omega⟩, fun h => absurd h hfault⟩
  · have hannounce := Table.run_announce_of_lt hlimit (Int.not_le.mp hle)
    unfold Ends
    rw [EStateM.run_bind, hannounce]
    refine ⟨⟨Nat.le_refl _, ?_, ?_⟩, ?_⟩
    · simp only [Table.counted]
      omega
    · simp only [Table.counted]
      omega
    · exact fun hfault => ⟨Table.eq_overBudget_of_excess hfault, Int.not_le.mp hle⟩

namespace Accounted

variable {x : Roll α} {tally : Tally}

/-- An attempt accounts for its draws, whatever it ends in. -/
theorem accounts (h : Accounted limit x) (tally : Tally) :
    tally.Accounts limit (x.attempt tally).tally :=
  attempt_tally ((h tally).imp (fun _ _ h => h.1) fun _ _ h => h.1)

/-- An attempt that succeeds has drawn what it announced. -/
theorem balance (h : Accounted limit x) {a : α} (hok : (x.attempt tally).answer = .ok a) :
    (x.attempt tally).tally.announced - tally.announced =
      ((x.attempt tally).tally.drawn : Int) - tally.drawn := by
  have hends := ends_iff_attempt.mp (h tally)
  rw [hok] at hends
  exact hends.2

/-- An attempt that blames the limit has passed it. -/
theorem passed (h : Accounted limit x) {blamed : Int}
    (herror : (x.attempt tally).answer = .error (.overBudget blamed)) :
    limit < (x.attempt tally).tally.announced := by
  have hends := ends_iff_attempt.mp (h tally)
  rw [herror] at hends
  exact (hends.2 trivial).2

end Accounted
end Roll

namespace Table

open Roll

/-- What rolls on a table with a limit accounts for its draws. -/
theorem alike_accounted {table : Table} {limit : Int} (hlimit : table.limit = some limit) :
    Alike (fun x _ => Accounted limit x) limit table table where
  lift := accounted_lift
  bind := Accounted.bind
  limited := hlimit
  roll count faces := Draws.announced hlimit (draws_rollDice faces count)
  add die := Draws.announced hlimit (draws_addRoll die)
  rounds _ hrounds tally := hrounds _ tally

end Table
end DiceNotation

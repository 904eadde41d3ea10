import DiceNotation.Proofs.Dice.Turns
import DiceNotation.Proofs.Evaluation.Shapes

/-!
# Halting under a limit

Dice that keep calling for dice, as a one-sided die that explodes or a reroll of every value, would
go on for ever; nothing in the pool gets less.  What gets less is what the limit leaves: each new
die is announced by itself, and the first one past the limit ends the evaluation.  So on a table
with a limit and a source that never runs dry every evaluation ends in a value or in a fault, and
the rounds that bound the growth of a pool never cut it short.

Main definitions:

- `Roll.StopsPast`: computations that announce no more than one die past a limit.

Main results:

- `Table.evaluates_supplied`: what evaluating comes to on such a table.
- `Table.growAlike_stopsPast`: growing pools stop at the first die past the limit.
- `Expression.evaluation_halts`: evaluations and the growth of pools come to an end.
-/

namespace DiceNotation
namespace Roll

variable {α β : Type} {limit : Int}

/-- Whether a computation announces no more dice than a limit leaves, and one more if it fails. -/
def StopsPast (limit : Int) (x : Roll α) : Prop :=
  ∀ tally, Ends x tally
    (fun _ later => tally.announced ≤ later.announced ∧
      later.announced ≤ max limit tally.announced)
    (fun _ later => tally.announced ≤ later.announced ∧
      later.announced ≤ max limit tally.announced + 1)

/-- What does not roll passes no limit. -/
theorem stopsPast_lift (x : Except Fault α) : StopsPast limit (lift x) := by
  intro tally
  cases x with
  | ok a => exact ⟨Int.le_refl _, Int.le_max_right ..⟩
  | error fault => exact ⟨Int.le_refl _, by show tally.announced ≤ _; omega⟩

/-- A sequence stops past the limit if its parts do. -/
theorem StopsPast.bind {x : Roll α} {f : α → Roll β} (hx : StopsPast limit x)
    (hf : ∀ a, StopsPast limit (f a)) : StopsPast limit (x >>= f) := by
  intro tally
  rw [ends_bind]
  refine (hx tally).imp ?_ fun _ _ h => h
  rintro a later ⟨hge, hle⟩
  refine (hf a later).imp ?_ ?_
  · rintro b last ⟨hge', hle'⟩
    exact ⟨by omega, by omega⟩
  · rintro fault last ⟨hge', hle'⟩
    exact ⟨by omega, by omega⟩

/-- Who stops past a limit announces at most one die more than the limit leaves. -/
theorem StopsPast.announced_le {x : Roll α} (hx : StopsPast limit x) {tally : Tally}
    (hwithin : tally.announced ≤ limit) :
    tally.announced ≤ (x.attempt tally).tally.announced ∧
      (x.attempt tally).tally.announced - tally.announced ≤ limit - tally.announced + 1 := by
  refine attempt_tally (P := fun later => tally.announced ≤ later.announced ∧
    later.announced - tally.announced ≤ limit - tally.announced + 1) ((hx tally).imp ?_ ?_)
  · rintro a later ⟨hge, hle⟩
    exact ⟨hge, by omega⟩
  · rintro fault later ⟨hge, hle⟩
    exact ⟨hge, by omega⟩

end Roll

namespace Table

open Roll

variable {table : Table} {limit : Int}

/-! ## Growing pools -/

/-- A further roll that is announced past the limit is not made. -/
theorem stopsPast_addAnnounced (hlimit : table.limit = some limit) (die : Die) :
    StopsPast limit (table.addAnnounced die) := by
  intro tally
  refine (ends_addAnnounced hlimit die tally).imp ?_ ?_
  · rintro rolled later ⟨hannounced, hle⟩
    exact ⟨by omega, by omega⟩
  · intro fault later hannounced
    exact ⟨by omega, by omega⟩

/-- However a pool grows, it stops at the first die past the limit. -/
theorem growAlike_stopsPast (hlimit : table.limit = some limit) :
    GrowAlike (fun x _ => StopsPast limit x) limit table table where
  lift _ := stopsPast_lift _
  bind := StopsPast.bind
  limited := hlimit
  add := stopsPast_addAnnounced hlimit
  rounds _ hrounds tally := hrounds _ tally

/-! ## Evaluation -/

/-- On a table with a limit and a source that never runs dry, no draw is missing and no growth goes
on without end. -/
theorem evaluates_supplied (hlimit : table.limit = some limit)
    (hsource : ∀ n, table.source n ≠ none) :
    table.Evaluates fun fault => fault ≠ .unsettled ∧ fault ≠ .drawsExhausted := by
  have hreckons : ∀ fault : Fault, ¬ fault.IsOfRolling →
      fault ≠ .unsettled ∧ fault ≠ .drawsExhausted := by
    intro fault hfault
    exact ⟨fun h => hfault (h ▸ trivial), fun h => hfault (h ▸ trivial)⟩
  refine ⟨⟨?_, ?_, ?_, fun hnone => ?_⟩, hreckons⟩
  · refine ends_announce fun limit => ?_
    rw [excess_eq]
    split <;> simp
  · intro faces _ tally
    have hnext : Ends table.nextDraw tally (fun _ _ => True)
        fun fault _ => fault ≠ .unsettled ∧ fault ≠ .drawsExhausted := by
      unfold Ends
      rw [run_nextDraw]
      cases hx : table.source tally.drawn with
      | none => exact absurd hx (hsource _)
      | some x => trivial
    rw [drawFace_eq]
    refine hnext.bind ?_
    intro x later _
    rw [Roll.lift, ends_ofExcept]
    exact (faces.unrolled_shown x).imp (fun _ _ h => h) hreckons
  · intro die _
    exact die.unrolled_threshold.imp (fun _ _ h => h) hreckons
  · rw [hlimit] at hnone
    contradiction

end Table

namespace Expression

/-- On a table with a limit and a source that never runs dry, every evaluation ends in a value of
its shape or in a fault other than a missing draw or a growth without end.  Pools that grow, by any
conditions and whatever dice are in them, are gone through to the end, die by die, as if there were
no bound on the rounds.  Every die that joins is announced by itself, and where the limit was not
passed before, at most one more is announced than the limit leaves. -/
theorem evaluation_halts {table : Table} {limit : Int} (hlimit : table.limit = some limit)
    (hsource : ∀ n, table.source n ≠ none) (markup : Markup) :
    (∀ e tally, Ends (evaluate table markup e) tally (fun value _ => value.Fits e.shape)
      fun fault _ => fault ≠ .unsettled ∧ fault ≠ .drawsExhausted) ∧
    (∀ penetrating condition pool tally,
      Table.Scans (table.explodeDie penetrating condition) pool tally
        ((table.explode (if penetrating then .penetrating else .regular) condition pool).attempt
          tally)) ∧
    (∀ conditions pool tally,
      Table.Scans (table.rerollDie conditions) pool tally
        ((table.reroll conditions false pool).attempt tally)) ∧
    (∀ condition (die : Die) threshold tally, die.threshold = .ok threshold →
      die.discarded = false →
      Table.Compounds table condition threshold die tally
        ((table.compound condition die).attempt tally)) ∧
    ∀ tally : Tally, tally.announced ≤ limit →
      (∀ explosion condition pool,
        let later := ((table.explode explosion condition pool).attempt tally).tally
        tally.announced ≤ later.announced ∧
          later.announced - tally.announced ≤ limit - tally.announced + 1) ∧
      ∀ conditions once pool,
        let later := ((table.reroll conditions once pool).attempt tally).tally
        tally.announced ≤ later.announced ∧
          later.announced - tally.announced ≤ limit - tally.announced + 1 := by
  have hgrow := Table.growAlike_stopsPast hlimit
  refine ⟨(Table.evaluates_supplied hlimit hsource).evaluate, Table.scans_explode hlimit,
    Table.scans_reroll hlimit, ?_, ?_⟩
  · intro condition die threshold tally hthreshold hlive
    exact Table.compounds_compound hlimit condition hthreshold hlive tally
  · intro tally hwithin
    constructor
    · exact fun explosion condition pool =>
        (hgrow.explode explosion condition pool).announced_le hwithin
    · exact fun conditions once pool => (hgrow.reroll conditions once pool).announced_le hwithin

/-- A one-sided die explodes on every roll.  With three dice allowed the fourth is announced and not
rolled. -/
theorem evaluation_halts_oneSided :
    let table : Table := { source := fun _ => some Number.half, limit := some 3 }
    let pool : List Die := [{ faces := .range 1 1, rolls := [1] }]
    (evaluate table .plain (.modified (.explode .regular none) (.dice 1 1 1))).run {} =
        .error (.overBudget 3) { announced := 4, drawn := 3 } ∧
      Ends (evaluate table .plain (.modified (.explode .regular none) (.dice 1 1 1))) {}
        (fun value _ => value.Fits .pool)
        (fun fault _ => fault ≠ .unsettled ∧ fault ≠ .drawsExhausted) ∧
      let later := ((table.explode .regular none pool).attempt { announced := 1, drawn := 1 }).tally
      1 ≤ later.announced ∧ later.announced - 1 ≤ (3 : Int) - 1 + 1 := by
  intro table pool
  have hlimit : table.limit = some 3 := rfl
  have hsource : ∀ n, table.source n ≠ none := fun _ => Option.some_ne_none _
  obtain ⟨hends, -, -, -, hstops⟩ := evaluation_halts hlimit hsource .plain
  refine ⟨by decide +kernel, hends _ {}, ?_⟩
  exact (hstops { announced := 1, drawn := 1 } (by decide)).1 .regular none pool

end Expression
end DiceNotation

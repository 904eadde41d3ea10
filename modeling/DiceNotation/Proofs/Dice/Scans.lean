import DiceNotation.Proofs.Dice.Attempts
import DiceNotation.Proofs.Dice.Draws

/-!
# Growing pools, die by die

A pool that grows may be gone through die by die: the dice that a die calls for join the end of
the pool, and nothing but the pool itself says when to stop.  A compounding die is rolled again
until a roll does not explode.  Neither has a bound on what it may go through.  Under a limit both
come to an end, since whatever joins was announced before, and they come to the same as the rounds
in which a pool is grown.

Main definitions:

- `Table.Scans`: what going through a growing pool comes to.
- `Table.Compounds`: what growing one die comes to.

Main results:

- `Table.Scans.unique`, `Table.Compounds.unique`: they come to one thing at most.
- `Table.scans_cascade`, `Table.compounds_compoundDie`: under a limit they do come to something.
- `Table.scans_explode`, `Table.scans_reroll`, `Table.compounds_compound`: so explosions and rerolls
  go on until no die calls for another.
-/

namespace DiceNotation
namespace Table

/-- What going through a pool that grows comes to, from a tally on: the dice that a die calls for
join the end of the pool, until all have been looked at or a die has failed. -/
inductive Scans (spawn : Die → Roll (Die × List Die)) :
    List Die → Tally → Attempt (List Die) → Prop where
  | done (tally : Tally) : Scans spawn [] tally ⟨.ok [], tally⟩
  | fails {die : Die} {rest : List Die} {tally later : Tally} {fault : Fault}
      (hdie : (spawn die).run tally = .error fault later) :
      Scans spawn (die :: rest) tally ⟨.error fault, later⟩
  | passes {die seen : Die} {rest joined : List Die} {tally later : Tally}
      {attempt : Attempt (List Die)} (hdie : (spawn die).run tally = .ok (seen, joined) later)
      (hrest : Scans spawn (rest ++ joined) later attempt) :
      Scans spawn (die :: rest) tally (attempt.map (seen :: ·))

/-- What growing one die comes to, from a tally on: while its last roll explodes, one more is
announced and rolled. -/
inductive Compounds (table : Table) (condition : Option Condition) (threshold : Int) :
    Die → Tally → Attempt Die → Prop where
  | unrolled {die : Die} {tally : Tally} (hlast : die.rolls.getLast? = none) :
      Compounds table condition threshold die tally ⟨.error .noSuchPlace, tally⟩
  | rests {die : Die} {last : Int} {tally : Tally} (hlast : die.rolls.getLast? = some last)
      (hexplodes : explodes condition threshold last = false) :
      Compounds table condition threshold die tally ⟨.ok die, tally⟩
  | fails {die : Die} {last : Int} {tally later : Tally} {fault : Fault}
      (hlast : die.rolls.getLast? = some last)
      (hexplodes : explodes condition threshold last = true)
      (hroll : (table.addAnnounced { die with exploded := true }).run tally = .error fault later) :
      Compounds table condition threshold die tally ⟨.error fault, later⟩
  | grows {die grown : Die} {last : Int} {tally later : Tally} {attempt : Attempt Die}
      (hlast : die.rolls.getLast? = some last)
      (hexplodes : explodes condition threshold last = true)
      (hroll : (table.addAnnounced { die with exploded := true }).run tally = .ok grown later)
      (hrest : Compounds table condition threshold grown later attempt) :
      Compounds table condition threshold die tally attempt

/-! ## Growing pools -/

section Scans

variable {spawn : Die → Roll (Die × List Die)} {pool pending : List Die} {tally later : Tally}
  {attempt : Attempt (List Die)}

/-- Going through a pool comes to one thing at most. -/
theorem Scans.unique (h : Scans spawn pool tally attempt) {other : Attempt (List Die)}
    (h' : Scans spawn pool tally other) : attempt = other := by
  induction h generalizing other with
  | done tally => cases h' with | done => rfl
  | fails hdie =>
      cases h' with
      | fails hdie' =>
          rw [hdie] at hdie'
          cases hdie'
          rfl
      | passes hdie' =>
          rw [hdie] at hdie'
          cases hdie'
  | passes hdie _ ih =>
      cases h' with
      | fails hdie' =>
          rw [hdie] at hdie'
          cases hdie'
      | passes hdie' hrest' =>
          rw [hdie] at hdie'
          cases hdie'
          rw [ih hrest']

/-- A die that fails where several are looked at in turn ends it all. -/
theorem scans_append_of_error {fault : Fault}
    (h : (pool.mapM spawn).run tally = .error fault later) (pending : List Die) :
    Scans spawn (pool ++ pending) tally ⟨.error fault, later⟩ := by
  induction pool generalizing pending tally with
  | nil => cases h
  | cons die rest ih =>
      rw [List.mapM_cons, EStateM.run_bind] at h
      cases hdie : (spawn die).run tally with
      | error fault' later' =>
          rw [hdie] at h
          cases h
          exact .fails hdie
      | ok made middle =>
          rw [hdie] at h
          dsimp only at h
          have hrest : (rest.mapM spawn).run middle = .error fault later := by
            rw [EStateM.run_bind] at h
            cases hmore : (rest.mapM spawn).run middle with
            | ok more last =>
                rw [hmore] at h
                cases h
            | error fault' last =>
                rw [hmore] at h
                exact h
          have hscan := ih hrest (pending ++ made.2)
          rw [← List.append_assoc] at hscan
          exact .passes hdie hscan

/-- Behind dice that have been looked at in turn, what is still to come is followed by the dice
that they called for. -/
theorem scans_append_of_ok {made : List (Die × List Die)}
    (h : (pool.mapM spawn).run tally = .ok made later)
    (hrest : Scans spawn (pending ++ made.flatMap Prod.snd) later attempt) :
    Scans spawn (pool ++ pending) tally (attempt.map (made.map Prod.fst ++ ·)) := by
  induction pool generalizing pending tally made with
  | nil =>
      cases h
      obtain ⟨answer, last⟩ := attempt
      cases answer <;> simpa [Attempt.map, Except.map] using hrest
  | cons die rest ih =>
      obtain ⟨one, middle, others, hdie, hothers, rfl⟩ := run_mapM_cons_eq_ok_iff.mp h
      rw [List.flatMap_cons, ← List.append_assoc] at hrest
      have hscan := ih hothers hrest
      rw [← List.append_assoc] at hscan
      have hpasses := Scans.passes hdie hscan
      obtain ⟨answer, last⟩ := attempt
      cases answer <;> exact hpasses

/-- Behind a whole pool come the dice that it called for. -/
theorem scans_of_ok {made : List (Die × List Die)}
    (h : (pool.mapM spawn).run tally = .ok made later)
    (hrest : Scans spawn (made.flatMap Prod.snd) later attempt) :
    Scans spawn pool tally (attempt.map (made.map Prod.fst ++ ·)) := by
  have hall : Scans spawn ([] ++ made.flatMap Prod.snd) later attempt := hrest
  simpa using scans_append_of_ok h hall

/-- What rounds come to, once the dice of the first have been looked at. -/
theorem attempt_cascade {made : List (Die × List Die)}
    (h : (pool.mapM spawn).run tally = .ok made later) (rounds : Nat) :
    (cascade spawn (rounds + 1) pool).attempt tally =
      if (made.flatMap Prod.snd).isEmpty then ⟨.ok (made.map Prod.fst), later⟩
      else ((cascade spawn rounds (made.flatMap Prod.snd)).attempt later).map
        (made.map Prod.fst ++ ·) := by
  have hround : ((generation spawn pool).attempt tally) =
      ⟨.ok (made.map Prod.fst, made.flatMap Prod.snd), later⟩ := by
    unfold generation
    rw [Roll.attempt_bind_pure, Roll.attempt_of_run_ok h]
    rfl
  rw [cascade, Roll.attempt_bind_of_ok (by rw [hround]), hround]
  dsimp only
  split
  · rfl
  · exact Roll.attempt_bind_pure _ _ later

/-- Under a limit going through a growing pool comes to an end, and to what its rounds come to: of
the rounds that the limit leaves each but the last announces a die at least. -/
theorem scans_cascade {limit : Int}
    (hspawn : ∀ die, Roll.Announces limit (fun made => made.2.length) (spawn die)) (pool : List Die)
    {rounds : Nat} (hrounds : (limit - tally.announced).toNat < rounds) :
    Scans spawn pool tally ((cascade spawn rounds pool).attempt tally) := by
  induction rounds generalizing pool tally with
  | zero => omega
  | succ rounds ih =>
      cases hrun : (pool.mapM spawn).run tally with
      | error fault later =>
          have hfails := scans_append_of_error hrun []
          rw [List.append_nil] at hfails
          unfold cascade generation
          rwa [bind_assoc, Roll.attempt_bind_of_error (by rw [Roll.attempt_of_run_error hrun]),
            Roll.attempt_of_run_error hrun]
      | ok made later =>
          have hround := yields_iff.mp (announces_generation hspawn pool tally)
            (made.map Prod.fst, made.flatMap Prod.snd) later
            (by rw [generation, EStateM.run_bind, hrun]; rfl)
          obtain ⟨hcount, hmax⟩ := hround
          dsimp only at hcount
          rw [attempt_cascade hrun]
          split
          · next hempty =>
              have hnone : made.flatMap Prod.snd = [] := List.isEmpty_iff.mp hempty
              have hdone : Scans spawn (made.flatMap Prod.snd) later ⟨.ok [], later⟩ := by
                rw [hnone]
                exact .done later
              simpa [Attempt.map, Except.map] using scans_of_ok hrun hdone
          · next hempty =>
              -- The dice that joined were announced, so that fewer are left than before.
              have hlength : 0 < (made.flatMap Prod.snd).length :=
                List.length_pos_iff.mpr fun hnil => hempty (by simp [hnil])
              have hfewer : (limit - later.announced).toNat < rounds := by omega
              exact scans_of_ok hrun (ih (made.flatMap Prod.snd) hfewer)

end Scans

/-! ## Compounding dice -/

section Compounds

variable {table : Table} {condition : Option Condition} {threshold : Int} {die : Die}
  {tally : Tally} {attempt : Attempt Die}

/-- Growing a die comes to one thing at most. -/
theorem Compounds.unique (h : Compounds table condition threshold die tally attempt)
    {other : Attempt Die} (h' : Compounds table condition threshold die tally other) :
    attempt = other := by
  induction h generalizing other with
  | unrolled hlast => cases h' <;> simp_all
  | rests hlast hexplodes => cases h' <;> simp_all
  | fails hlast hexplodes hroll => cases h' <;> simp_all
  | grows hlast hexplodes hroll _ ih =>
      cases h' with
      | grows hlast' hexplodes' hroll' hrest' =>
          rw [hroll] at hroll'
          cases hroll'
          exact ih hrest'
      | _ => simp_all

/-- Under a limit growing a die comes to an end, and to what its rounds come to: each round but the
last announces a roll. -/
theorem compounds_compoundDie {limit : Int} (hlimit : table.limit = some limit)
    {rounds : Nat} (hrounds : (limit - tally.announced).toNat < rounds) :
    Compounds table condition threshold die tally
      ((table.compoundDie condition threshold rounds die).attempt tally) := by
  induction rounds generalizing die tally with
  | zero => omega
  | succ rounds ih =>
      rw [compoundDie_succ]
      cases hlast : die.rolls.getLast? with
      | none => exact .unrolled hlast
      | some last =>
          dsimp only
          by_cases hexplodes : explodes condition threshold last = true
          · rw [if_neg (by simpa using hexplodes)]
            cases hroll : (table.addAnnounced { die with exploded := true }).run tally with
            | error fault later =>
                rw [Roll.attempt_bind_of_error (by rw [Roll.attempt_of_run_error hroll]),
                  Roll.attempt_of_run_error hroll]
                exact .fails hlast hexplodes hroll
            | ok grown later =>
                have hannounces := announces_addAnnounced hlimit { die with exploded := true } tally
                obtain ⟨hcount, hmax⟩ := yields_iff.mp hannounces grown later hroll
                dsimp only at hcount
                rw [Roll.attempt_bind_of_ok (by rw [Roll.attempt_of_run_ok hroll]),
                  Roll.attempt_of_run_ok hroll]
                exact .grows hlast hexplodes hroll (ih (by omega))
          · rw [if_pos (by simpa using hexplodes)]
            exact .rests hlast (by simpa using hexplodes)

end Compounds

/-! ## On a table with a limit -/

section Limited

variable {table : Table} {limit : Int} (hlimit : table.limit = some limit)
include hlimit

/-- An explosion into new dice goes through the pool to its end. -/
theorem scans_explode (penetrating : Bool) (condition : Option Condition) (pool : List Die)
    (tally : Tally) :
    Scans (table.explodeDie penetrating condition) pool tally
      ((table.explode (if penetrating then .penetrating else .regular) condition pool).attempt
        tally) := by
  rw [explode_eq_cascade, attempt_rounds_bind hlimit]
  exact scans_cascade (announces_explodeDie hlimit penetrating condition) pool (Nat.lt_succ_self _)

/-- So does a reroll. -/
theorem scans_reroll (conditions : List Condition) (pool : List Die) (tally : Tally) :
    Scans (table.rerollDie conditions) pool tally
      ((table.reroll conditions false pool).attempt tally) := by
  have hreroll : table.reroll conditions false pool =
      table.rounds >>= fun rounds => cascade (table.rerollDie conditions) rounds pool := rfl
  rw [hreroll, attempt_rounds_bind hlimit]
  exact scans_cascade (announces_rerollDie hlimit conditions) pool (Nat.lt_succ_self _)

/-- A compounding die that takes part grows to its end. -/
theorem compounds_compound (condition : Option Condition) {die : Die} {threshold : Int}
    (hthreshold : die.threshold = .ok threshold) (hlive : die.discarded = false) (tally : Tally) :
    Compounds table condition threshold die tally
      ((table.compound condition die).attempt tally) := by
  have hcompound : table.compound condition die =
      table.rounds >>= fun rounds => table.compoundDie condition threshold rounds die := by
    unfold compound
    rw [hthreshold]
    simp only [hlive]
    rfl
  rw [hcompound, attempt_rounds_bind hlimit]
  exact compounds_compoundDie hlimit (Nat.lt_succ_self _)

end Limited
end Table
end DiceNotation

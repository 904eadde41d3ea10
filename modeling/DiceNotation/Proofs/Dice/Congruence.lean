import DiceNotation.Proofs.Dice.Scans

/-!
# Relations between rolls

Rolling does the same things on every table; only announcing, drawing and the number of rounds
depend on it.  So a relation between computations that chains of steps inherit from their steps
relates what is done on two tables as soon as it relates these few steps.

A limit leaves a number of rounds in which dice may call for more dice.  Each of them but the last
announces a die, so a table with more rounds to spare makes nothing else of the pool.

Main definitions:

- `Roll.Congruence`: relations that chains of steps inherit.
- `Roll.Settles`: computations that the rounds which a limit leaves suffice for.
- `Table.GrowAlike`, `Table.Alike`: congruences that relate how pools grow, and all that is rolled,
  on two tables.

Main results:

- `Table.settles_cascade`, `Table.settles_compoundDie`: growth is not cut short.
- `Table.GrowAlike.explode`, `Table.GrowAlike.reroll`: growing pools are related.
-/

namespace DiceNotation
namespace Roll

/-! ## Congruences -/

/-- A relation between computations that chains of steps inherit from their steps.  What does
not roll, and does not blame a limit, is related to itself. -/
structure Congruence (R : ∀ {α : Type}, Roll α → Roll α → Prop) : Prop where
  lift : ∀ {α : Type} {x : Except Fault α}, Fault.Unlimited x → R (lift x) (lift x)
  bind : ∀ {α β : Type} {x x' : Roll α} {f f' : α → Roll β}, R x x' →
    (∀ a, R (f a) (f' a)) → R (x >>= f) (x' >>= f')

namespace Congruence

variable {R : ∀ {α : Type}, Roll α → Roll α → Prop} (hR : Congruence R) {α β : Type}
include hR

/-- A result at hand is alike on both tables. -/
theorem pure (a : α) : R (pure a) (pure a) :=
  hR.lift (Fault.unlimited_ok a)

/-- So is a failure that does not blame the limit. -/
theorem throw {fault : Fault} (h : ¬ fault.IsOverBudget) :
    R (throw fault : Roll α) (throw fault) :=
  hR.lift (x := .error fault) h

/-- So is what is done for one item after the other. -/
theorem mapM {f f' : α → Roll β} (hf : ∀ item, R (f item) (f' item)) (items : List α) :
    R (items.mapM f) (items.mapM f') := by
  induction items with
  | nil => exact hR.pure []
  | cons item rest ih =>
      rw [List.mapM_cons, List.mapM_cons]
      exact hR.bind (hf item) fun b => hR.bind ih fun more => hR.pure (b :: more)

end Congruence

/-! ## Rounds -/

variable {α : Type} {limit : Int}

/-- Whether a computation that may run for some rounds has enough of the rounds that a limit
leaves, so that it makes the same of any more. -/
def Settles (limit : Int) (f : Nat → Roll α) : Prop :=
  ∀ tally rounds rounds', (limit - tally.announced).toNat < rounds → rounds ≤ rounds' →
    (f rounds).run tally = (f rounds').run tally

end Roll

namespace Table

open Roll

variable {table : Table} {limit : Int}

/-! ## Rounds suffice -/

/-- Growth is not cut short by the rounds that a limit leaves: it comes to what going through the
pool without a bound comes to. -/
theorem settles_cascade {spawn : Die → Roll (Die × List Die)}
    (hspawn : ∀ die, Announces limit (fun made => made.2.length) (spawn die)) (pool : List Die) :
    Settles limit fun rounds => cascade spawn rounds pool := by
  intro tally rounds rounds' hrounds hle
  have hscan := scans_cascade hspawn pool hrounds
  have hscan' := scans_cascade hspawn pool (Nat.lt_of_lt_of_le hrounds hle)
  exact run_eq_of_attempt_eq (hscan.unique hscan')

/-- Nor is that of a compounding die. -/
theorem settles_compoundDie (hlimit : table.limit = some limit) (condition : Option Condition)
    (threshold : Int) (die : Die) :
    Settles limit fun rounds => table.compoundDie condition threshold rounds die := by
  intro tally rounds rounds' hrounds hle
  have hgrows : ∀ enough, (limit - tally.announced).toNat < enough →
      Compounds table condition threshold die tally
        ((table.compoundDie condition threshold enough die).attempt tally) :=
    fun enough henough => compounds_compoundDie hlimit henough
  exact run_eq_of_attempt_eq
    ((hgrows rounds hrounds).unique (hgrows rounds' (Nat.lt_of_lt_of_le hrounds hle)))

/-! ## Growing pools -/

/-- A relation between how pools grow on two tables, the first of which has a limit: chains of
steps inherit it, and so do a new roll, announced, and rounds that suffice. -/
structure GrowAlike (R : ∀ {α : Type}, Roll α → Roll α → Prop) (limit : Int)
    (table table' : Table) : Prop extends Congruence R where
  limited : table.limit = some limit
  add : ∀ die, R (table.addAnnounced die) (table'.addAnnounced die)
  rounds : ∀ {α : Type} {f f' : Nat → Roll α}, Settles limit f →
    (∀ rounds, R (f rounds) (f' rounds)) → R (table.rounds >>= f) (table'.rounds >>= f')

/-- A relation between all that is rolled on two tables. -/
structure Alike (R : ∀ {α : Type}, Roll α → Roll α → Prop) (limit : Int) (table table' : Table) :
    Prop extends GrowAlike R limit table table' where
  roll : ∀ (count : Nat) (faces : Faces),
    R (table.announce count >>= fun _ => table.rollDice faces count)
      (table'.announce count >>= fun _ => table'.rollDice faces count)

namespace GrowAlike

variable {R : ∀ {α : Type}, Roll α → Roll α → Prop} {table' : Table}
  (hR : GrowAlike R limit table table')
include hR

/-- A die explodes alike. -/
theorem explodeDie (penetrating : Bool) (condition : Option Condition) (die : Die) :
    R (table.explodeDie penetrating condition die)
      (table'.explodeDie penetrating condition die) := by
  have hspawn : R (table.spawnLike penetrating die) (table'.spawnLike penetrating die) := by
    rw [spawnLike_eq, spawnLike_eq]
    exact hR.bind (hR.add _) fun rolled => hR.pure _
  unfold Table.explodeDie
  refine hR.bind (hR.lift die.unrolled_threshold.unlimited) fun threshold => ?_
  split
  · exact hR.pure _
  · exact hR.bind (hR.mapM (fun _ => hspawn) _) fun joined => hR.pure _

/-- A die is rerolled alike. -/
theorem rerollDie (conditions : List Condition) (die : Die) :
    R (table.rerollDie conditions die) (table'.rerollDie conditions die) := by
  rw [rerollDie_eq, rerollDie_eq]
  split
  · exact hR.pure _
  · exact hR.bind (hR.add _) fun joined => hR.pure _

/-- A die compounds alike. -/
theorem compoundDie (condition : Option Condition) (threshold : Int) (rounds : Nat) (die : Die) :
    R (table.compoundDie condition threshold rounds die)
      (table'.compoundDie condition threshold rounds die) := by
  induction rounds generalizing die with
  | zero => exact hR.throw fun h => h
  | succ rounds ih =>
      rw [compoundDie_succ, compoundDie_succ]
      split
      · exact hR.throw fun h => h
      · split
        · exact hR.pure die
        · exact hR.bind (hR.add _) ih

section Spawn

variable {spawn spawn' : Die → Roll (Die × List Die)} (hspawn : ∀ die, R (spawn die) (spawn' die))
include hspawn

/-- One generation of dice is alike. -/
theorem generation (pool : List Die) : R (generation spawn pool) (generation spawn' pool) :=
  hR.bind (hR.mapM hspawn pool) fun _ => hR.pure _

/-- So are all generations. -/
theorem cascade (rounds : Nat) (pool : List Die) :
    R (cascade spawn rounds pool) (cascade spawn' rounds pool) := by
  induction rounds generalizing pool with
  | zero => exact hR.throw fun h => h
  | succ rounds ih =>
      refine hR.bind (hR.generation hspawn pool) ?_
      rintro ⟨kept, joined⟩
      dsimp only
      split
      · exact hR.pure _
      · exact hR.bind (ih joined) fun later => hR.pure _

end Spawn

/-- What exploding makes of a pool is related. -/
theorem explode (explosion : Explosion) (condition : Option Condition) (pool : List Die) :
    R (table.explode explosion condition pool) (table'.explode explosion condition pool) := by
  have hnew : ∀ penetrating,
      R (table.rounds >>= fun rounds =>
          Table.cascade (table.explodeDie penetrating condition) rounds pool)
        (table'.rounds >>= fun rounds =>
          Table.cascade (table'.explodeDie penetrating condition) rounds pool) := by
    intro penetrating
    have hannounces := announces_explodeDie hR.limited penetrating condition
    refine hR.rounds (settles_cascade hannounces pool) ?_
    exact fun rounds => hR.cascade (hR.explodeDie penetrating condition) rounds pool
  cases explosion with
  | regular => exact hnew false
  | penetrating => exact hnew true
  | compounding =>
      refine hR.mapM (fun die => ?_) pool
      unfold compound
      refine hR.bind (hR.lift die.unrolled_threshold.unlimited) fun threshold => ?_
      split
      · exact hR.pure _
      · refine hR.rounds (settles_compoundDie hR.limited condition threshold die) ?_
        exact fun rounds => hR.compoundDie condition threshold rounds die

/-- So is what rerolling makes of it. -/
theorem reroll (conditions : List Condition) (once : Bool) (pool : List Die) :
    R (table.reroll conditions once pool) (table'.reroll conditions once pool) := by
  have hspawn := hR.rerollDie conditions
  unfold Table.reroll
  split
  · exact hR.bind (hR.generation hspawn pool) fun made => hR.pure _
  · refine hR.rounds (settles_cascade (announces_rerollDie hR.limited conditions) pool) ?_
    exact fun rounds => hR.cascade hspawn rounds pool

end GrowAlike
end Table
end DiceNotation

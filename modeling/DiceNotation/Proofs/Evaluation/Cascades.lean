import DiceNotation.Proofs.Dice.Calls
import DiceNotation.Proofs.Evaluation.Modifiers

/-!
# What explosions into new dice do

A die in play explodes by those of its rolls that meet the condition, or that reach its greatest
face where there is none.  A regular explosion looks at all rolls of a die and a penetrating one at
the first of them, and for each roll by which a die explodes one new die joins the pool.  The new
dice may explode in turn; in the end as many have joined as there are such rolls in the whole pool,
and just the dice that have one are marked.

Main definitions:

- `Die.qualifies`, `Die.qualifying`: the rolls by which a die explodes.
- `Die.Spawned`: a die that an explosion calls for.
- `Die.Exploded`: what an explosion into new dice makes of a pool.

Main results:

- `Table.callsFor_explodeDie`: what an explosion makes of one die.
- `Table.exploded_explode`: an explosion comes to its fixpoint.
- `Expression.exploded_of_evaluate`: so does every expression with an explosion into new dice.
-/

namespace DiceNotation

namespace Die

/-! ## Rolls that explode -/

/-- Whether a roll of a die qualifies for an explosion: it meets the condition, or without one is at
least the greatest face. -/
def qualifies (condition : Option Condition) (die : Die) (roll : Int) : Bool :=
  match condition with
  | some condition => condition.holdsFor (.int roll)
  | none =>
    match die.faces with
    | .range _ greatest => decide (greatest ≤ roll)
    | .listed _ => false

/-- The rolls by which a die explodes if it is in play: all that qualify, or for a penetrating
explosion the first if it does. -/
def qualifying (penetrating : Bool) (condition : Option Condition) (die : Die) : List Int :=
  if die.discarded then []
  else (if penetrating then die.rolls.take 1 else die.rolls).filter (die.qualifies condition)

/-- A die that an explosion has looked at: it is marked if it explodes. -/
def lookedAt (penetrating : Bool) (condition : Option Condition) (die : Die) : Die :=
  { die with exploded := die.exploded || !(die.qualifying penetrating condition).isEmpty }

/-- A die that an explosion calls for: it has been rolled once, less one if the explosion
penetrates. -/
structure Spawned (penetrating : Bool) (die : Die) : Prop where
  faces : die.faces.IsRange
  live : die.discarded = false
  unmarked : die.exploded = false
  rolls : ∃ roll, die.rolls = if penetrating then [roll, -1] else [roll]

/-- What an explosion into new dice makes of a pool.  Its dice stand where they stood, and those that
explode are marked.  Behind them stand the new dice, which are rolled once, less one if the explosion
penetrates, and are marked if they explode in turn: as many as there are rolls by which dice of the
whole pool explode.  None of the dice has listed faces. -/
structure Exploded (penetrating : Bool) (condition : Option Condition)
    (pool kept joined : List Die) : Prop where
  kept_eq : kept = pool.map (lookedAt penetrating condition)
  length_joined : joined.length =
    ((kept ++ joined).map fun die => (die.qualifying penetrating condition).length).sum
  rolls_joined : ∀ die ∈ joined, ∃ roll, die.rolls = if penetrating then [roll, -1] else [roll]
  live_joined : ∀ die ∈ joined, die.discarded = false
  exploded_joined : ∀ die ∈ joined,
    die.exploded = !(die.qualifying penetrating condition).isEmpty
  ranges : ∀ die ∈ kept ++ joined, die.faces.IsRange

variable {penetrating : Bool} {condition : Option Condition} {pool : List Die} {die : Die}

/-- A die with listed faces cannot explode. -/
theorem threshold_eq_ok_iff {threshold : Int} :
    die.threshold = .ok threshold ↔ ∃ least, die.faces = .range least threshold := by
  unfold Die.threshold Die.threshold?
  cases die.faces with
  | range least greatest => simp
  | listed values => simp

/-- On a range of faces the rolls that explode are those that qualify. -/
theorem explodes_eq_qualifies {least greatest : Int} (hfaces : die.faces = .range least greatest) :
    explodes condition greatest = die.qualifies condition := by
  funext roll
  unfold explodes qualifies
  rw [hfaces]
  cases condition <;> rfl

/-- A discarded die is left as it is. -/
theorem lookedAt_of_discarded (h : die.discarded = true) :
    die.lookedAt penetrating condition = die := by
  have hnone : die.qualifying penetrating condition = [] := if_pos h
  simp [lookedAt, hnone]

/-- As many dice have joined as the dice of the pool and they themselves call for. -/
theorem exploded_of_spawned {joined : List Die}
    (hlength : joined.length =
      ((pool ++ joined).map fun die => (die.qualifying penetrating condition).length).sum)
    (hranges : ∀ die ∈ pool ++ joined, die.faces.IsRange)
    (hspawned : ∀ new ∈ joined, new.Spawned penetrating) :
    Exploded penetrating condition pool (pool.map (lookedAt penetrating condition))
      (joined.map (lookedAt penetrating condition)) where
  kept_eq := rfl
  length_joined := by
    rw [List.length_map, hlength, ← List.map_append, List.map_map]
    rfl
  rolls_joined := List.forall_mem_map.mpr fun new hnew => (hspawned new hnew).rolls
  live_joined := List.forall_mem_map.mpr fun new hnew => (hspawned new hnew).live
  exploded_joined := List.forall_mem_map.mpr fun new hnew => by
    rw [lookedAt, (hspawned new hnew).unmarked, Bool.false_or]
    rfl
  ranges := by
    rw [← List.map_append]
    exact List.forall_mem_map.mpr hranges

end Die

namespace Table

variable {table : Table}

/-- What is rolled for a die that explodes is a spawned die. -/
theorem spawned_spawnLike (penetrating : Bool) {die : Die} (hfaces : die.faces.IsRange)
    (tally : Tally) :
    Yields (table.spawnLike penetrating die) tally fun new _ => new.Spawned penetrating := by
  rw [spawnLike_eq]
  refine (yields_addAnnounced die.fresh tally).bind ?_
  rintro _ _ ⟨face, rfl⟩
  refine ends_pure.mpr ?_
  cases penetrating with
  | false => exact ⟨hfaces, rfl, rfl, face, rfl⟩
  | true => exact ⟨hfaces, rfl, rfl, face, rfl⟩

/-- An explosion calls for one die for each roll by which a die explodes. -/
theorem callsFor_explodeDie (penetrating : Bool) (condition : Option Condition) (die : Die)
    (tally : Tally) :
    Yields (table.explodeDie penetrating condition die) tally fun made _ =>
      die.CallsFor (fun die => die.faces.IsRange) (Die.lookedAt penetrating condition)
        (fun die => (die.qualifying penetrating condition).length) (Die.Spawned penetrating) made := by
  unfold explodeDie Yields
  rw [ends_bind, Roll.lift, ends_ofExcept]
  cases hthreshold : die.threshold with
  | error fault => trivial
  | ok threshold =>
      obtain ⟨least, hfaces⟩ := Die.threshold_eq_ok_iff.mp hthreshold
      have hrange : die.faces.IsRange := ⟨least, threshold, hfaces⟩
      dsimp only [Gives]
      split
      · next hdiscarded =>
          refine ends_pure.mpr ⟨hrange, (Die.lookedAt_of_discarded hdiscarded).symm, ?_, by simp⟩
          simp [Die.qualifying, hdiscarded]
      · next hlive =>
          have hhits : explodingRolls penetrating condition threshold die =
              die.qualifying penetrating condition := by
            rw [Die.qualifying, if_neg hlive, explodingRolls, Die.explodes_eq_qualifies hfaces]
          rw [hhits]
          have hall : Yields ((die.qualifying penetrating condition).mapM
              fun _ => table.spawnLike penetrating die) tally fun joined _ =>
              joined.length = (die.qualifying penetrating condition).length ∧
                ∀ new ∈ joined, new.Spawned penetrating := by
            refine Ends.mapM (P := fun read made _ => made.length = read.length ∧
              ∀ new ∈ made, Die.Spawned penetrating new) (by simp) ?_
            rintro read made before _ - ⟨hlength, hmade⟩
            refine (spawned_spawnLike penetrating hrange before).imp ?_ fun _ _ h => h
            intro new _ hnew
            refine ⟨by simp [hlength], List.forall_mem_append.mpr ⟨hmade, by simpa using hnew⟩⟩
          refine hall.bind ?_
          exact fun joined _ hjoined => ends_pure.mpr ⟨hrange, rfl, hjoined.1, hjoined.2⟩

/-- An explosion into new dice goes on until every roll by which a die explodes has called for a new
die. -/
theorem exploded_explode (penetrating : Bool) (condition : Option Condition) (pool : List Die)
    (tally : Tally) :
    Yields (table.explode (if penetrating then .penetrating else .regular) condition pool) tally
      fun dice _ => ∃ kept joined, dice = kept ++ joined ∧
        Die.Exploded penetrating condition pool kept joined := by
  rw [explode_eq_cascade]
  refine (keeps_rounds table tally).bind ?_
  rintro rounds _ rfl
  refine (calls_cascade (callsFor_explodeDie penetrating condition) rounds pool _).imp ?_
    fun _ _ h => h
  rintro _ _ ⟨joined, rfl, hlength, hranges, hspawned⟩
  exact ⟨_, _, List.map_append, Die.exploded_of_spawned hlength hranges hspawned⟩

end Table

namespace Expression

variable {table : Table} {markup : Markup}

/-- What an expression with an explosion into new dice yields is the pool that its operand yields,
with those dice marked that explode, and behind it one new die for each roll by which a die of the
whole pool explodes. -/
theorem exploded_of_evaluate (penetrating : Bool) {condition : Option Condition}
    {operand : Expression} {tally later : Tally} {after : Value}
    (h : (evaluate table markup (.modified
      (.explode (if penetrating then .penetrating else .regular) condition) operand)).run tally =
        .ok after later) :
    ∃ pool middle kept joined,
      (evaluate table markup operand).run tally = .ok (.pool pool) middle ∧
      after = .pool (kept ++ joined) ∧ Die.Exploded penetrating condition pool kept joined := by
  obtain ⟨pool, middle, dice, hoperand, hexplode, rfl⟩ := exists_run_explode h
  obtain ⟨kept, joined, rfl, hexploded⟩ :=
    yields_iff.mp (Table.exploded_explode penetrating condition pool middle) _ _ hexplode
  exact ⟨pool, middle, kept, joined, hoperand, rfl, hexploded⟩

/-- A die with a penetrating explosion. -/
def penetrated : Expression := .modified (.explode .penetrating none) (.dice 1 1 6)

/-- The six has called for a die less one; a regular explosion of what is below zero looks at that
one as well, and calls for another die. -/
theorem exploded_of_evaluate_penetrated :
    ∃ after later,
      (evaluate { source := highFirst, limit := some 3 } .plain
        (.modified (.explode .regular (some ⟨.less, 0⟩)) penetrated)).run {} = .ok after later ∧
      after = .pool [{ faces := .range 1 6, rolls := [6], exploded := true },
        { faces := .range 1 6, rolls := [4, -1], exploded := true },
        { faces := .range 1 6, rolls := [4] }] ∧
      ∃ pool middle kept joined,
        (evaluate { source := highFirst, limit := some 3 } .plain penetrated).run {} =
          .ok (.pool pool) middle ∧
        after = .pool (kept ++ joined) ∧ Die.Exploded false (some ⟨.less, 0⟩) pool kept joined := by
  have h : (evaluate { source := highFirst, limit := some 3 } .plain
      (.modified (.explode .regular (some ⟨.less, 0⟩)) penetrated)).run {} =
      .ok (.pool [{ faces := .range 1 6, rolls := [6], exploded := true },
        { faces := .range 1 6, rolls := [4, -1], exploded := true },
        { faces := .range 1 6, rolls := [4] }]) { announced := 3, drawn := 3 } := by
    decide +kernel
  exact ⟨_, _, h, rfl, exploded_of_evaluate false h⟩

end Expression
end DiceNotation

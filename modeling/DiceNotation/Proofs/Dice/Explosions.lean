import DiceNotation.Proofs.Dice.Agreement
import DiceNotation.Proofs.Dice.Draws
import DiceNotation.Proofs.Number.Bounds

/-!
# Kinds of explosions

A regular and a penetrating explosion look at the same rolls: a new die is announced and drawn
alike, and the `-1` that a penetrating one takes off it is never looked at.  So their pools grow in
step, die by die, and differ by the `-1` of each die that joined.  A single die that compounds rolls
what the dice of a regular explosion would, and keeps it to itself.

Main definitions:

- `Die.IsRolledOnce`: a die with one roll, near its least face.
- `Die.Follows`: the die of a penetrating explosion that follows one of a regular explosion.
- `Die.GrownAlike`: pools that have grown in step.
- `Die.GrownBy`: a die that has grown by a pool.

Main results:

- `Table.agree_addAnnounced`: dice with the same faces show the same draw.
- `Table.agree_cascade`: regular and penetrating pools grow in step.
- `Table.agree_compoundDie`: a compounding die rolls what a regular pool does.
-/

namespace DiceNotation
namespace Die

/-- Whether a die has a range of faces from `least` on and has been rolled once, near its least
face, and is not discarded. -/
structure IsRolledOnce (least : Int) (die : Die) : Prop where
  faces : ∃ greatest, die.faces = .range least greatest
  live : die.discarded = false
  rolls : ∃ roll, die.rolls = [roll] ∧ (roll - least).natAbs ≤ Binary64.past

/-- Whether a die shows what another one does that was rolled once, with `off` taken off it. -/
structure Follows (least : Int) (off : List Int) (die die' : Die) : Prop where
  rolled : die.IsRolledOnce least
  faces_eq : die'.faces = die.faces
  discarded_eq : die'.discarded = die.discarded
  rolls_eq : die'.rolls = die.rolls ++ off

/-- Whether two pools have grown in step from `count` dice, of which `off` was taken off those of
the second pool: of its dice that joined one was taken off. -/
def GrownAlike (least : Int) (off : List Int) (count : Nat) (dice dice' : List Die) : Prop :=
  ∃ kept kept' joined joined', dice = kept ++ joined ∧ dice' = kept' ++ joined' ∧
    kept.length = count ∧ List.Forall₂ (Follows least off) kept kept' ∧
    List.Forall₂ (Follows least [-1]) joined joined'

/-- Whether a die has grown by what the dice of a pool show, each of which was rolled once. -/
structure GrownBy (least : Int) (earlier : List Int) (dice : List Die) (grown : Die) : Prop where
  dice_ne_nil : dice ≠ []
  rolled : ∀ die ∈ dice, die.IsRolledOnce least
  live : grown.discarded = false
  rolls_eq : grown.rolls = earlier ++ dice.flatMap Die.rolls

end Die

namespace Table

open Roll

variable {table : Table} {least greatest : Int} {condition : Option Condition}

/-! ## New dice -/

/-- What is drawn on a range is near its least face. -/
theorem yields_drawFace (table : Table) (least greatest : Int) (tally : Tally) :
    Yields (table.drawFace (.range least greatest)) tally
      fun face _ => (face - least).natAbs ≤ Binary64.past := by
  refine (yields_true table.nextDraw tally).bind fun x later _ => ?_
  rw [Roll.lift, ends_ofExcept]
  cases hplace : place x least greatest with
  | error cause => trivial
  | ok face => exact natAbs_place_le hplace

/-- Dice with the same faces show the same draw. -/
theorem agree_addAnnounced {die die' : Die} (hfaces : die.faces = .range least greatest)
    (hsame : die'.faces = die.faces) :
    Roll.Agree (fun rolled rolled' => ∃ face, (face - least).natAbs ≤ Binary64.past ∧
      rolled = die.addResult face ∧ rolled' = die'.addResult face)
      (table.addAnnounced die) (table.addAnnounced die') := by
  unfold addAnnounced addRoll
  rw [hsame, hfaces]
  refine (Roll.agree_eq _).bind fun _ _ _ => ?_
  refine (agree_of_yields (yields_drawFace table least greatest)).bind ?_
  rintro _ face ⟨rfl, hnear⟩
  exact agree_pure ⟨face, hnear, rfl, rfl⟩

/-- A fresh die with a face near its least one was rolled once. -/
theorem isRolledOnce_addResult {die : Die} (hfaces : die.faces = .range least greatest) {face : Int}
    (hnear : (face - least).natAbs ≤ Binary64.past) :
    (die.fresh.addResult face).IsRolledOnce least :=
  ⟨⟨greatest, hfaces⟩, rfl, face, rfl, hnear⟩

/-- The new dice of a regular and a penetrating explosion. -/
theorem agree_spawnLike {die die' : Die} (hfaces : die.faces = .range least greatest)
    (hsame : die'.faces = die.faces) :
    Roll.Agree (Die.Follows least [-1]) (table.spawnLike false die)
      (table.spawnLike true die') := by
  have hfresh : die.fresh.faces = .range least greatest := hfaces
  have hfresh' : die'.fresh.faces = die.fresh.faces := hsame
  rw [spawnLike_eq, spawnLike_eq]
  refine (agree_addAnnounced hfresh hfresh').bind ?_
  rintro _ _ ⟨face, hnear, rfl, rfl⟩
  exact agree_pure ⟨isRolledOnce_addResult hfaces hnear, hsame, rfl, rfl⟩

/-! ## Growing in step -/

/-- Dice of which one follows the other explode by the same rolls. -/
theorem agree_explodeDie {off : List Int} {die die' : Die} (h : Die.Follows least off die die') :
    Roll.Agree (fun made made' => Die.Follows least off made.1 made'.1 ∧
      List.Forall₂ (Die.Follows least [-1]) made.2 made'.2)
      (table.explodeDie false condition die) (table.explodeDie true condition die') := by
  obtain ⟨greatest, hfaces⟩ := h.rolled.faces
  obtain ⟨roll, hroll, -⟩ := h.rolled.rolls
  have hrolls : die'.rolls = roll :: off := by rw [h.rolls_eq, hroll]; rfl
  have hthreshold : die'.threshold = die.threshold := by
    unfold Die.threshold Die.threshold?
    rw [h.faces_eq]
  have hhits : ∀ threshold, explodingRolls true condition threshold die' =
      explodingRolls false condition threshold die := by
    intro threshold
    simp [explodingRolls, hrolls, hroll]
  unfold explodeDie
  rw [hthreshold, h.discarded_eq, h.rolled.live]
  refine (Roll.agree_eq _).bind ?_
  rintro threshold _ rfl
  simp only [hhits, Bool.false_eq_true, if_false]
  have hspawn : ∀ hit hit' : Int, hit = hit' → Roll.Agree (Die.Follows least [-1])
      (table.spawnLike false die) (table.spawnLike true die') :=
    fun _ _ _ => agree_spawnLike hfaces h.faces_eq
  refine (Roll.Agree.mapM hspawn (List.forall₂_same.mpr fun _ _ => rfl)).bind ?_
  rintro joined joined' ⟨-, hjoined⟩
  exact agree_pure ⟨⟨⟨h.rolled.faces, rfl, h.rolled.rolls⟩, h.faces_eq, rfl, h.rolls_eq⟩, hjoined⟩

section Pools

variable {off : List Int} {pool pool' : List Die}
  (hpool : List.Forall₂ (Die.Follows least off) pool pool')
include hpool

/-- One generation of penetrating dice follows that of regular ones, each new die with one taken
off. -/
theorem agree_generation :
    Roll.Agree (fun made made' => made.1.length = pool.length ∧
      List.Forall₂ (Die.Follows least off) made.1 made'.1 ∧
      List.Forall₂ (Die.Follows least [-1]) made.2 made'.2)
      (generation (table.explodeDie false condition) pool)
      (generation (table.explodeDie true condition) pool') := by
  have hdie : ∀ die die', Die.Follows least off die die' → Roll.Agree
      (fun made made' => Die.Follows least off made.1 made'.1 ∧
        List.Forall₂ (Die.Follows least [-1]) made.2 made'.2)
      (table.explodeDie false condition die) (table.explodeDie true condition die') :=
    fun _ _ => agree_explodeDie
  unfold generation
  refine (Roll.Agree.mapM hdie hpool).bind ?_
  rintro seen seen' ⟨hlength, hseen⟩
  refine agree_pure ⟨by simpa using hlength, ?_, List.rel_flatMap hseen fun _ _ h => h.2⟩
  exact List.forall₂_map_left_iff.mpr (List.forall₂_map_right_iff.mpr (hseen.imp fun _ _ h => h.1))

/-- Regular and penetrating pools grow in step. -/
theorem agree_cascade (fuel : Nat) :
    Roll.Agree (Die.GrownAlike least off pool.length)
      (cascade (table.explodeDie false condition) fuel pool)
      (cascade (table.explodeDie true condition) fuel pool') := by
  -- Nothing was taken off the dice of the first round, one off those of each later round.
  induction fuel generalizing off pool pool' with
  | zero => exact agree_throw _
  | succ fuel ih =>
      unfold cascade
      refine (agree_generation hpool).bind ?_
      rintro ⟨kept, joined⟩ ⟨kept', joined'⟩ ⟨hlength, hkept, hjoined⟩
      dsimp only at hlength hkept hjoined ⊢
      have hempty : joined'.isEmpty = joined.isEmpty := by
        cases hjoined <;> rfl
      rw [hempty]
      split
      · exact agree_pure ⟨kept, kept', [], [], by simp, by simp, hlength, hkept, .nil⟩
      · refine (ih hjoined).bind ?_
        rintro _ _ ⟨first, first', more, more', rfl, rfl, -, hfirst, hmore⟩
        exact agree_pure ⟨kept, kept', first ++ more, first' ++ more', rfl, rfl, hlength, hkept,
          List.rel_append hfirst hmore⟩

end Pools

/-! ## Compounding -/

/-- What an explosion makes of a die that was rolled once. -/
theorem explodeDie_rolledOnce {die : Die} {roll threshold : Int} (hlive : die.discarded = false)
    (hroll : die.rolls = [roll]) (hthreshold : die.threshold = .ok threshold) :
    table.explodeDie false condition die =
      if explodes condition threshold roll then do
        let new ← table.addAnnounced die.fresh
        return ({ die with exploded := true }, [new])
      else pure (die, []) := by
  have hlift : (Roll.lift (.ok threshold) : Roll Int) = pure threshold := rfl
  unfold explodeDie
  rw [hthreshold, hlift, pure_bind, spawnLike_eq]
  obtain ⟨faces, rolls, discarded, exploded⟩ := die
  subst hlive hroll
  by_cases hexplodes : explodes condition threshold roll = true
  · simp [explodingRolls, hexplodes, -bind_pure_comp]
  · simp [explodingRolls, hexplodes]

/-- Rounds that begin with a die that was rolled once. -/
theorem cascade_rolledOnce {die : Die} {roll threshold : Int} (hlive : die.discarded = false)
    (hroll : die.rolls = [roll]) (hthreshold : die.threshold = .ok threshold) (fuel : Nat) :
    cascade (table.explodeDie false condition) (fuel + 1) [die] =
      if explodes condition threshold roll then do
        let new ← table.addAnnounced die.fresh
        let later ← cascade (table.explodeDie false condition) fuel [new]
        return { die with exploded := true } :: later
      else pure [die] := by
  have hgeneration : generation (table.explodeDie false condition) [die] =
      table.explodeDie false condition die >>= fun made => pure ([made.1], made.2) := by
    simp [generation]
  rw [cascade, hgeneration, explodeDie_rolledOnce hlive hroll hthreshold]
  split
  · simp [-bind_pure_comp]
  · simp

/-- A compounding die rolls what the dice of a regular explosion do. -/
theorem agree_compoundDie {die grown : Die} {earlier : List Int} {threshold : Int}
    (hdie : die.IsRolledOnce least) (hthreshold : die.threshold = .ok threshold)
    (hfaces : grown.faces = die.faces) (hlive : grown.discarded = false)
    (hrolls : grown.rolls = earlier ++ die.rolls) (fuel : Nat) :
    Roll.Agree (Die.GrownBy least earlier)
      (cascade (table.explodeDie false condition) fuel [die])
      (table.compoundDie condition threshold fuel grown) := by
  -- The pool is a chain: each round looks at one die, of which the only roll is the last that the
  -- compounding die shows.  What that one rolled before is carried along in `earlier`.
  induction fuel generalizing die grown earlier with
  | zero => exact agree_throw _
  | succ fuel ih =>
      obtain ⟨greatest, hrange⟩ := hdie.faces
      obtain ⟨roll, hroll, hnear⟩ := hdie.rolls
      have hlast : grown.rolls.getLast? = some roll := by simp [hrolls, hroll]
      rw [compoundDie_succ, hlast, cascade_rolledOnce hdie.live hroll hthreshold]
      by_cases hexplodes : explodes condition threshold roll = true
      · simp only [hexplodes, if_true, Bool.not_true, Bool.false_eq_true, if_false]
        have hfresh : die.fresh.faces = .range least greatest := hrange
        have hstarted : ({ grown with exploded := true } : Die).faces = die.fresh.faces := hfaces
        refine (agree_addAnnounced hfresh hstarted).bind ?_
        rintro _ _ ⟨face, hface, rfl, rfl⟩
        let new := die.fresh.addResult face
        let next := ({ grown with exploded := true } : Die).addResult face
        have hnew : new.IsRolledOnce least := isRolledOnce_addResult hrange hface
        have hnextFaces : next.faces = new.faces := hfaces
        have hnextLive : next.discarded = false := hlive
        have hnextRolls : next.rolls = (earlier ++ die.rolls) ++ new.rolls := by
          change grown.rolls ++ [face] = _
          rw [hrolls]
          rfl
        have hrest := (ih hnew hthreshold hnextFaces hnextLive hnextRolls).bind
          (S := Die.GrownBy least earlier)
          (f := fun later => pure ({ die with exploded := true } :: later)) (g := pure) ?_
        · rwa [bind_pure] at hrest
        · rintro later last ⟨-, hrolled, hlast, hmore⟩
          refine agree_pure ⟨List.cons_ne_nil _ _, ?_, hlast, by simpa using hmore⟩
          exact List.forall_mem_cons.mpr ⟨⟨hdie.faces, hdie.live, hdie.rolls⟩, hrolled⟩
      · rw [if_neg hexplodes]
        simp only [hexplodes, Bool.not_false, if_true]
        exact agree_pure ⟨List.cons_ne_nil _ _, by simpa using hdie, hlive, by simpa using hrolls⟩

/-! ## Explosions -/

/-- Regular and penetrating explosions of the same dice. -/
theorem agree_explode_penetrating {pool : List Die} (hpool : ∀ die ∈ pool, die.IsRolledOnce least) :
    Roll.Agree (Die.GrownAlike least [] pool.length) (table.explode .regular condition pool)
      (table.explode .penetrating condition pool) := by
  have hsame : List.Forall₂ (Die.Follows least []) pool pool :=
    List.forall₂_same.mpr fun die hdie => ⟨hpool die hdie, rfl, rfl, (List.append_nil _).symm⟩
  unfold explode
  refine (Roll.agree_eq _).bind ?_
  rintro rounds _ rfl
  exact agree_cascade hsame rounds

/-- A compounding explosion of a single die in play. -/
theorem explode_compounding_singleton {die : Die} (hfaces : die.faces = .range least greatest)
    (hlive : die.discarded = false) :
    table.explode .compounding condition [die] = table.rounds >>= fun rounds =>
      table.compoundDie condition greatest rounds die >>= fun grown => pure [grown] := by
  have hthreshold : die.threshold = .ok greatest := by
    rw [Die.threshold, Die.threshold?, hfaces]
  have hlift : (Roll.lift (.ok greatest) : Roll Int) = pure greatest := rfl
  simp [explode, compound, hthreshold, hlift, hlive]

/-- Regular and compounding explosions of the same die. -/
theorem agree_explode_compounding {die : Die} (hdie : die.IsRolledOnce least) :
    Roll.Agree (fun dice dice' => ∃ grown, dice' = [grown] ∧ Die.GrownBy least [] dice grown)
      (table.explode .regular condition [die]) (table.explode .compounding condition [die]) := by
  obtain ⟨greatest, hfaces⟩ := hdie.faces
  have hthreshold : die.threshold = .ok greatest := by
    rw [Die.threshold, Die.threshold?, hfaces]
  rw [explode_compounding_singleton hfaces hdie.live, explode]
  refine (Roll.agree_eq _).bind ?_
  rintro rounds _ rfl
  have hnone : die.rolls = [] ++ die.rolls := rfl
  have hgrow : Roll.Agree (Die.GrownBy least [])
      (cascade (table.explodeDie false condition) rounds [die])
      (table.compoundDie condition greatest rounds die) :=
    agree_compoundDie hdie hthreshold rfl hdie.live hnone rounds
  rw [← bind_pure (cascade (table.explodeDie false condition) rounds [die])]
  exact hgrow.bind fun dice grown h => agree_pure ⟨grown, rfl, h⟩

/-- Dice that are rolled together are rolled once. -/
theorem yields_rollDice (table : Table) (least greatest : Int) (count : Nat) (tally : Tally) :
    Yields (table.rollDice (.range least greatest) count) tally fun dice _ =>
      dice.length = count ∧ ∀ die ∈ dice, die.IsRolledOnce least := by
  induction count generalizing tally with
  | zero => exact ends_pure.mpr ⟨rfl, by simp⟩
  | succ count ih =>
      have hfirst : Yields (table.addRoll { faces := .range least greatest }) tally
          fun die _ => die.IsRolledOnce least := by
        unfold addRoll
        refine (yields_drawFace table least greatest tally).bind ?_
        intro face later hnear
        exact ends_pure.mpr ⟨⟨greatest, rfl⟩, rfl, face, rfl, hnear⟩
      unfold rollDice
      refine hfirst.bind fun die later hdie => (ih later).bind ?_
      rintro others last ⟨hlength, hothers⟩
      exact ends_pure.mpr ⟨by simp [hlength], List.forall_mem_cons.mpr ⟨hdie, hothers⟩⟩

end Table
end DiceNotation

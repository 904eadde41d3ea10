import DiceNotation.Proofs.Dice.Growth

/-!
# Marks on dice

Modifiers take no die away and no roll.  They mark dice as exploded or discarded, and only a
compounding explosion rolls a die again that is there already.  A die that is discarded is out of
the game: nothing is done to it any more.

Main definitions:

- `Die.unmarked`: a die without its marks.
- `Die.Remains`: what may have happened to a die.

Main results:

- `Die.unmarked_of_remains`: dice that at most were marked are the same without their marks.
- `Table.remains_compound`: a compounding explosion marks dice and rolls them again.
-/

namespace DiceNotation

/-! ## Dice that are marked -/

namespace Die

/-- A die without its marks. -/
def unmarked (die : Die) : Die := { faces := die.faces, rolls := die.rolls }

/-- What may have happened to a die: it was marked, and where dice grow, rolled again.  A die that
was discarded is as it was before. -/
structure Remains (grows : Bool) (before after : Die) : Prop where
  faces_eq : after.faces = before.faces
  rolls_extend : before.rolls <+: after.rolls
  rolls_eq : grows = false → after.rolls = before.rolls
  exploded : before.exploded = true → after.exploded = true
  settled : before.discarded = true → after = before

variable {grows : Bool} {die : Die}

/-- A die remains what it is. -/
theorem remains_self (grows : Bool) (die : Die) : die.Remains grows die :=
  ⟨rfl, List.prefix_rfl, fun _ => rfl, id, fun _ => rfl⟩

/-- A die in play may be marked. -/
theorem remains_marked (hlive : die.discarded = false) {discarded exploded : Bool}
    (hexploded : die.exploded = true → exploded = true) :
    die.Remains grows { die with discarded, exploded } :=
  ⟨rfl, List.prefix_rfl, fun _ => rfl, hexploded, fun h => by rw [hlive] at h; contradiction⟩

/-- A die in play may explode and, where dice grow, be rolled again. -/
theorem remains_grown (hlive : die.discarded = false) (face : Int) :
    die.Remains true ({ die with exploded := true }.addResult face) :=
  ⟨rfl, List.prefix_append _ _, nofun, fun _ => rfl,
    fun h => by rw [hlive] at h; contradiction⟩

/-- What remains, remains with more marks and rolls. -/
theorem Remains.trans {between after : Die} (h : die.Remains grows between)
    (h' : between.Remains grows after) : die.Remains grows after where
  faces_eq := h'.faces_eq.trans h.faces_eq
  rolls_extend := h.rolls_extend.trans h'.rolls_extend
  rolls_eq := fun hgrows => (h'.rolls_eq hgrows).trans (h.rolls_eq hgrows)
  exploded := fun hexploded => h'.exploded (h.exploded hexploded)
  settled := by
    intro hdiscarded
    have hsame := h.settled hdiscarded
    rw [← hsame] at hdiscarded
    rw [h'.settled hdiscarded, hsame]

/-- Without its marks a die that only gets marks is the same. -/
theorem Remains.unmarked_eq {after : Die} (h : die.Remains false after) :
    after.unmarked = die.unmarked := by
  rw [unmarked, unmarked, h.faces_eq, h.rolls_eq rfl]

/-- Dice that at most were marked are the same without their marks. -/
theorem unmarked_of_remains {pool dice : List Die} (h : List.Forall₂ (Remains false) pool dice) :
    dice.map unmarked = pool.map unmarked := by
  induction h with
  | nil => rfl
  | cons hdie _ ih => rw [List.map_cons, List.map_cons, hdie.unmarked_eq, ih]

end Die

/-! ## Dice that grow -/

namespace Table

variable {table : Table}

/-- A die that is rolled again has one more result. -/
theorem yields_addAnnounced (die : Die) (tally : Tally) :
    Yields (table.addAnnounced die) tally fun rolled _ => ∃ face, rolled = die.addResult face := by
  unfold addAnnounced addRoll
  refine (yields_true (table.announce 1) tally).bind fun _ announced _ => ?_
  refine (yields_true (table.drawFace die.faces) announced).bind fun face _ _ => ?_
  exact ends_pure.mpr ⟨face, rfl⟩

/-- A die that compounds remains, and grows. -/
theorem remains_compoundDie (condition : Option Condition) (threshold : Int) (rounds : Nat)
    {die : Die} (hlive : die.discarded = false) (tally : Tally) :
    Yields (table.compoundDie condition threshold rounds die) tally fun grown _ =>
      die.Remains true grown := by
  induction rounds generalizing die tally with
  | zero => trivial
  | succ rounds ih =>
      rw [compoundDie_succ]
      cases die.rolls.getLast? with
      | none => trivial
      | some last =>
          dsimp only
          split
          · exact ends_pure.mpr (die.remains_self true)
          · refine (yields_addAnnounced _ tally).bind ?_
            rintro _ later ⟨face, rfl⟩
            have hrolled : (({ die with exploded := true } : Die).addResult face).discarded =
                false := hlive
            refine (ih hrolled later).imp ?_ fun _ _ h => h
            exact fun grown _ hgrown => (Die.remains_grown hlive face).trans hgrown

/-- A compounding explosion marks a die and rolls it again, unless it is discarded. -/
theorem remains_compound (condition : Option Condition) (die : Die) (tally : Tally) :
    Yields (table.compound condition die) tally fun grown _ => die.Remains true grown := by
  unfold compound
  refine (yields_true (Roll.lift die.threshold) tally).bind fun threshold before _ => ?_
  split
  · exact ends_pure.mpr (die.remains_self true)
  · next hlive =>
      refine (keeps_rounds table before).bind fun rounds later _ => ?_
      exact remains_compoundDie condition threshold rounds (by simpa using hlive) later

end Table
end DiceNotation

import DiceNotation.Proofs.Evaluation.Cascades

/-!
# What compounding explosions do

A compounding explosion adds no dice.  It goes through the pool die by die, and rolls each die that
is in play again for as long as its last roll explodes, so that of the rolls from there on the last
is the only one that does not.  The rolls of one die are drawn before those of the next.

Main definitions:

- `Die.Exhausts`: rolls of which the last is the first that does not explode.
- `Die.extended`, `Die.apart`: a die with further rolls, and these rolls as dice of their own.
- `Die.CompoundsBy`: what a compounding explosion rolls further with a die.

Main results:

- `Table.exhausts_compoundDie`: a die that grows is rolled until a roll does not explode.
- `Table.compoundsBy_explode`: so are all dice of a pool that are in play, in turn.
- `Expression.compounded_of_evaluate`: and those of every expression with a compounding explosion.
-/

namespace DiceNotation

namespace Die

/-! ## Further rolls -/

/-- Whether of these rolls all but the last explode, and the last does not. -/
def Exhausts (explodes : Int → Bool) (rolls : List Int) : Prop :=
  ∃ front last, rolls = front ++ [last] ∧ (∀ roll ∈ front, explodes roll = true) ∧
    explodes last = false

/-- A die with further rolls: it is marked if there are any. -/
def extended (die : Die) (further : List Int) : Die :=
  { die with rolls := die.rolls ++ further, exploded := die.exploded || !further.isEmpty }

/-- Rolls of a die, each of them as a die of its own. -/
def apart (die : Die) (rolls : List Int) : List Die := rolls.map die.fresh.addResult

/-- What a compounding explosion rolls further with a die: nothing if the die is discarded, and
otherwise so much that of the rolls from the last of the die on all explode but the last. -/
structure CompoundsBy (condition : Option Condition) (die : Die) (further : List Int) : Prop where
  settled : die.discarded = true → further = []
  exhausts : die.discarded = false → ∃ earlier last, die.rolls = earlier ++ [last] ∧
    Exhausts (die.qualifies condition) (last :: further)

/-- One roll that does not explode ends a die. -/
theorem exhausts_singleton {explodes : Int → Bool} {roll : Int} (h : explodes roll = false) :
    Exhausts explodes [roll] :=
  ⟨[], roll, rfl, by simp, h⟩

/-- A roll that explodes goes on to the next. -/
theorem Exhausts.cons {explodes : Int → Bool} {roll : Int} {rolls : List Int}
    (hroll : explodes roll = true) (h : Exhausts explodes rolls) :
    Exhausts explodes (roll :: rolls) := by
  obtain ⟨front, last, rfl, hfront, hlast⟩ := h
  exact ⟨roll :: front, last, rfl, List.forall_mem_cons.mpr ⟨hroll, hfront⟩, hlast⟩

/-- Without further rolls a die is what it was. -/
@[simp]
theorem extended_nil (die : Die) : die.extended [] = die := by
  simp [extended]

/-- A die that explodes and is rolled again has this roll before those that follow. -/
theorem extended_addResult (die : Die) (face : Int) (further : List Int) :
    (({ die with exploded := true } : Die).addResult face).extended further =
      die.extended (face :: further) := by
  simp [extended, addResult]

end Die

namespace Table

variable {table : Table}

/-! ## Dice that grow -/

/-- A die that grows is rolled again until a roll does not explode. -/
theorem exhausts_compoundDie (condition : Option Condition) (threshold : Int) (rounds : Nat)
    (die : Die) (tally : Tally) :
    Yields (table.compoundDie condition threshold rounds die) tally fun grown later =>
      ∃ earlier last further, die.rolls = earlier ++ [last] ∧
        Die.Exhausts (explodes condition threshold) (last :: further) ∧
        grown = die.extended further ∧ tally.InTurn table.source (die.apart further) later := by
  induction rounds generalizing die tally with
  | zero => trivial
  | succ rounds ih =>
      rw [compoundDie_succ]
      cases hlast : die.rolls.getLast? with
      | none => trivial
      | some last =>
          obtain ⟨earlier, hrolls⟩ := List.getLast?_eq_some_iff.mp hlast
          dsimp only
          cases hexplodes : explodes condition threshold last with
          | false =>
              refine ends_pure.mpr ⟨earlier, last, [], hrolls, ?_, die.extended_nil.symm, ?_⟩
              · exact Die.exhausts_singleton hexplodes
              · exact .nil _ tally
          | true =>
              rw [if_neg (by simp)]
              refine (further_addAnnounced { die with exploded := true } tally).bind ?_
              rintro _ middle ⟨face, rfl, hface⟩
              refine (ih _ middle).imp ?_ fun _ _ h => h
              -- The roll that is added is the last one of the die that grows on.
              rintro _ later ⟨before, next, further, hnext, hexhausts, rfl, hfurther⟩
              obtain ⟨-, heq⟩ := List.append_inj' hnext rfl
              obtain rfl : face = next := by simpa using heq
              exact ⟨earlier, last, face :: further, hrolls, hexhausts.cons hexplodes,
                Die.extended_addResult .., hface.append hfurther⟩

/-- A compounding explosion rolls a die further as it should. -/
theorem compoundsBy_compound (condition : Option Condition) (die : Die) (tally : Tally) :
    Yields (table.compound condition die) tally fun grown later =>
      ∃ further, die.CompoundsBy condition further ∧ grown = die.extended further ∧
        tally.InTurn table.source (die.apart further) later := by
  unfold compound Yields
  rw [ends_bind, Roll.lift, ends_ofExcept]
  cases hthreshold : die.threshold with
  | error fault => trivial
  | ok threshold =>
      obtain ⟨least, hfaces⟩ := Die.threshold_eq_ok_iff.mp hthreshold
      dsimp only [Gives]
      split
      · next hdiscarded =>
          have hsettled : die.CompoundsBy condition [] :=
            ⟨fun _ => rfl, fun hlive => by simp [hlive] at hdiscarded⟩
          exact ends_pure.mpr ⟨[], hsettled, die.extended_nil.symm, .nil _ tally⟩
      · next hlive =>
          refine (keeps_rounds table tally).bind ?_
          rintro rounds _ rfl
          refine (exhausts_compoundDie condition threshold rounds die _).imp ?_ fun _ _ h => h
          rintro _ later ⟨earlier, last, further, hrolls, hexhausts, rfl, hturn⟩
          rw [Die.explodes_eq_qualifies hfaces] at hexhausts
          have hcompounds : die.CompoundsBy condition further :=
            ⟨fun hdiscarded => absurd hdiscarded hlive, fun _ => ⟨earlier, last, hrolls, hexhausts⟩⟩
          exact ⟨further, hcompounds, rfl, hturn⟩

/-! ## Pools that grow -/

/-- A compounding explosion goes through the dice of a pool in turn. -/
theorem compoundsBy_explode (condition : Option Condition) (pool : List Die) (tally : Tally) :
    Yields (table.explode .compounding condition pool) tally fun dice later =>
      ∃ further, List.Forall₂ (Die.CompoundsBy condition) pool further ∧
        dice = List.zipWith Die.extended pool further ∧
        tally.InTurn table.source (List.zipWith Die.apart pool further).flatten later := by
  unfold explode
  refine Ends.mapM (P := fun read made later =>
    ∃ further, List.Forall₂ (Die.CompoundsBy condition) read further ∧
      made = List.zipWith Die.extended read further ∧
      tally.InTurn table.source (List.zipWith Die.apart read further).flatten later)
    ⟨[], .nil, rfl, .nil _ tally⟩ ?_
  rintro read _ middle die - ⟨further, hread, rfl, hturn⟩
  refine (compoundsBy_compound condition die middle).imp ?_ fun _ _ h => h
  rintro _ later ⟨more, hdie, rfl, hmore⟩
  have hlength := hread.length_eq
  refine ⟨further ++ [more], List.rel_append hread (.cons hdie .nil), ?_, ?_⟩
  · rw [List.zipWith_append hlength]
    rfl
  · rw [List.zipWith_append hlength, List.flatten_append]
    simpa using hturn.append hmore

end Table

namespace Expression

variable {table : Table} {markup : Markup}

/-- What an expression with a compounding explosion yields is the pool that its operand yields, with
the same dice in the same order.  Those in play have been rolled further until a roll does not
explode, one die after the other, and those that were discarded are as they were. -/
theorem compounded_of_evaluate {condition : Option Condition} {operand : Expression}
    {tally later : Tally} {after : Value}
    (h : (evaluate table markup (.modified (.explode .compounding condition) operand)).run tally =
      .ok after later) :
    ∃ pool middle further,
      (evaluate table markup operand).run tally = .ok (.pool pool) middle ∧
      List.Forall₂ (Die.CompoundsBy condition) pool further ∧
      after = .pool (List.zipWith Die.extended pool further) ∧
      middle.InTurn table.source (List.zipWith Die.apart pool further).flatten later := by
  obtain ⟨pool, middle, dice, hoperand, hexplode, rfl⟩ := exists_run_explode h
  obtain ⟨further, hcompounds, rfl, hturn⟩ :=
    yields_iff.mp (Table.compoundsBy_explode condition pool middle) _ _ hexplode
  exact ⟨pool, middle, further, hoperand, hcompounds, rfl, hturn⟩

/-- A die that starts from the one that its penetrating explosion took off is rolled on, and the
other, which rests on a six, is not. -/
theorem compounded_of_evaluate_penetrated :
    ∃ after later,
      (evaluate { source := highFirst, limit := some 3 } .plain
        (.modified (.explode .compounding (some ⟨.less, 0⟩)) penetrated)).run {} = .ok after later ∧
      after = .pool [{ faces := .range 1 6, rolls := [6], exploded := true },
        { faces := .range 1 6, rolls := [4, -1, 4], exploded := true }] ∧
      ∃ pool middle further,
        (evaluate { source := highFirst, limit := some 3 } .plain penetrated).run {} =
          .ok (.pool pool) middle ∧
        List.Forall₂ (Die.CompoundsBy (some ⟨.less, 0⟩)) pool further ∧
        after = .pool (List.zipWith Die.extended pool further) ∧
        middle.InTurn highFirst (List.zipWith Die.apart pool further).flatten later := by
  have h : (evaluate { source := highFirst, limit := some 3 } .plain
      (.modified (.explode .compounding (some ⟨.less, 0⟩)) penetrated)).run {} =
      .ok (.pool [{ faces := .range 1 6, rolls := [6], exploded := true },
        { faces := .range 1 6, rolls := [4, -1, 4], exploded := true }])
        { announced := 3, drawn := 3 } := by
    decide +kernel
  exact ⟨_, _, h, rfl, compounded_of_evaluate h⟩

end Expression
end DiceNotation

import DiceNotation.Proofs.Dice.Growth
import DiceNotation.Proofs.Evaluation.Reckoning

/-!
# Shapes of values

The shape of an expression says, before anything is rolled, whether it yields a pool of dice, a
list of numbers or one number.  What it yields has that shape, for every expression there is,
so that an operand that was accepted for its shape can be used as a pool or list without
another look.

Main definitions:

- `Value.shape`: the shape of a value.
- `Value.Fits`: a value of a shape whose dice have been rolled.
- `Table.Evaluates`: what evaluating on a table may come to.

Main results:

- `Table.Evaluates.evaluate`: an expression yields a value of its shape, or comes to such a fault.
- `Expression.shape_of_evaluate`: an expression yields a value of its shape.
-/

namespace DiceNotation

/-! ## Values -/

namespace Value

/-- The shape of a value. -/
def shape : Value → Shape
  | .single _ => .number
  | .pool _ => .pool
  | .list _ => .list

/-- Whether a value has a shape, and its dice have been rolled. -/
structure Fits (value : Value) (shape : Shape) : Prop where
  shape_eq : value.shape = shape
  rolled : ∀ die ∈ value.dice, die.rolls ≠ []

/-- Only a pool has the shape of one. -/
theorem exists_pool {value : Value} (h : value.shape = .pool) : ∃ pool, value = .pool pool := by
  cases value with
  | pool pool => exact ⟨pool, rfl⟩
  | single | list => simp [shape] at h

/-- A single outcome fits a number. -/
theorem fits_single (outcome : Outcome) : (single outcome).Fits .number :=
  ⟨rfl, by simp [dice]⟩

/-- Outcomes fit a list. -/
theorem fits_list (outcomes : List Outcome) : (list outcomes).Fits .list := ⟨rfl, by simp [dice]⟩

/-- Rolled dice fit a pool. -/
theorem fits_pool {dice : List Die} (h : ∀ die ∈ dice, die.rolls ≠ []) : (pool dice).Fits .pool :=
  ⟨rfl, h⟩

/-- Brackets change at most the text of a number. -/
theorem Fits.bracketed {value : Value} {shape : Shape} (h : value.Fits shape) :
    value.bracketed.Fits shape := by
  cases value with
  | single outcome =>
      rw [Value.bracketed]
      split
      · exact h
      · exact ⟨h.shape_eq, by simp [dice]⟩
  | pool dice => exact h
  | list outcomes => exact h

/-- A selection marks entries, and takes away neither entries nor rolls. -/
theorem Fits.select {value : Value} {shape : Shape} (h : value.Fits shape) (keep : Bool)
    (selector : Selector) (markup : Markup) : (value.select keep selector markup).Fits shape := by
  refine ⟨?_, forall_dice_select (fun _ h => h) h.rolled keep selector markup⟩
  cases value <;> exact h.shape_eq

end Value

namespace Expression

/-! ## Demands -/

/-- An operand that meets the demand of its owner is accepted, before anything is rolled. -/
theorem yields_demand (owner operand : Expression) (tally : Tally) :
    Yields (Roll.lift (demand owner operand)) tally
      fun _ later => owner.accepts operand.shape = true ∧ later = tally := by
  unfold demand
  split
  · next haccepts => exact ⟨haccepts, rfl⟩
  · trivial

/-- A selection that accepts its operand keeps its shape. -/
theorem shape_select {keep : Bool} {selector : Selector} {operand : Expression}
    (h : operand.shape ≠ .number) :
    (modified (.select keep selector) operand).shape = operand.shape := by
  cases hshape : operand.shape with
  | number => exact absurd hshape h
  | pool | list => simp [shape, hshape]

/-- Operators but the sum of two pools make one number. -/
theorem shape_binary {op : BinaryOp} {left right : Expression} :
    (binary op left right).shape = .pool ∨ (binary op left right).shape = .number := by
  cases op with
  | add =>
      rw [shape_add]
      split
      · exact .inl rfl
      · exact .inr rfl
  | _ => exact .inr rfl

end Expression

/-! ## Evaluation -/

/-- What evaluating on a table may come to: the faults of rolling on it, and those that reckoning
comes to, have `E`. -/
structure Table.Evaluates (table : Table) (E : Fault → Prop) : Prop where
  rolls : table.Rolls (fun _ => True) E
  reckons : ∀ fault : Fault, ¬ fault.IsOfRolling → E fault

/-- Whatever is evaluated comes to something. -/
theorem Table.evaluates_any (table : Table) : table.Evaluates fun _ => True :=
  ⟨table.rolls_any, fun _ _ => trivial⟩

namespace Table.Evaluates

open Expression Fault

variable {table : Table} {E : Fault → Prop} (h : table.Evaluates E) {markup : Markup}
include h

/-- What is reckoned leaves the tally alone. -/
theorem reckon {α : Type} {x : Except Fault α} (hx : Unrolled x) (tally : Tally) :
    Ends (Roll.lift x) tally (fun a later => x = .ok a ∧ later = tally)
      fun fault _ => E fault := by
  rw [Roll.lift, ends_ofExcept]
  exact hx.imp (fun a ha _ => ⟨ha, rfl⟩) h.reckons

/-- A modifier makes a value of its shape of a value that it accepts. -/
theorem modify {modifier : Modifier} {operand : Expression}
    (haccepts : (modified modifier operand).accepts operand.shape = true) {value : Value}
    (hvalue : value.Fits operand.shape) (tally : Tally) :
    Ends (Expression.modify table markup modifier value) tally
      (fun made _ => made.Fits (modified modifier operand).shape) fun fault _ => E fault := by
  have hrolled : ∀ die ∈ value.dice, die.IsRolledOn fun _ => True :=
    fun die hdie => ⟨trivial, hvalue.rolled die hdie⟩
  cases modifier with
  | explode explosion condition =>
      unfold Expression.modify
      refine (h.rolls.explode explosion condition hrolled tally).bind ?_
      intro dice _ hdice
      refine ends_pure.mpr ?_
      rw [shape]
      exact Value.fits_pool fun die hdie => (hdice die hdie).rolls
  | reroll conditions once =>
      unfold Expression.modify
      refine (h.rolls.reroll conditions once hrolled tally).bind ?_
      intro dice _ hdice
      refine ends_pure.mpr ?_
      rw [shape]
      exact Value.fits_pool fun die hdie => (hdice die hdie).rolls
  | select keep selector =>
      refine ends_pure.mpr ?_
      rw [shape_select (by simpa [accepts] using haccepts)]
      exact hvalue.select keep selector markup

/-- Rolling yields a pool. -/
theorem rollAnnounced (count : Int) (faces : Faces) (tally : Tally) :
    Ends (Expression.rollAnnounced table count faces) tally (fun value _ => value.Fits .pool)
      fun fault _ => E fault := by
  unfold Expression.rollAnnounced
  refine (h.rolls.announce count tally).bind ?_
  intro _ announced _
  refine (h.rolls.rollDice trivial count.toNat announced).bind ?_
  intro dice _ hdice
  exact ends_pure.mpr (Value.fits_pool fun die hdie => (hdice die hdie).rolls)

/-- A score is one number. -/
theorem scoreOf (score : Score) (isDie : Bool) (value : Value) (tally : Tally) :
    Ends (Expression.scoreOf markup score isDie value) tally (fun made _ => made.Fits .number)
      fun fault _ => E fault := by
  unfold Expression.scoreOf
  refine (h.reckon (value.unrolled_entries markup) tally).bind ?_
  intro entries later _
  refine (h.reckon (score.unrolled_apply markup isDie entries) later).bind ?_
  intro outcome _ _
  exact ends_pure.mpr (Value.fits_single outcome)

mutual

/-- An expression yields a value that fits its shape, or comes to a fault with `E`. -/
theorem evaluate (e : Expression) (tally : Tally) :
    Ends (Expression.evaluate table markup e) tally (fun value _ => value.Fits e.shape)
      fun fault _ => E fault := by
  cases e with
  | dice count least greatest =>
      unfold Expression.evaluate
      exact h.rollAnnounced count _ tally
  | customDice count faces =>
      unfold Expression.evaluate
      exact h.rollAnnounced count _ tally
  | number value text =>
      unfold Expression.evaluate
      dsimp only
      split
      · refine (h.reckon value.unrolled_text tally).bind ?_
        exact fun shown _ _ => ends_pure.mpr (Value.fits_single _)
      · exact ends_pure.mpr (Value.fits_single _)
  | modified modifier operand =>
      unfold Expression.evaluate
      refine ((h.reckon (unrolled_demand _ operand) tally).and (yields_demand _ operand tally)).bind
        ?_
      rintro _ later ⟨-, haccepts, -⟩
      refine (evaluate operand later).bind ?_
      exact fun value last hvalue => h.modify haccepts hvalue last
  | scored score operand =>
      unfold Expression.evaluate
      refine (h.reckon (unrolled_demand _ operand) tally).bind ?_
      intro _ later _
      refine (evaluate operand later).bind ?_
      exact fun value last _ => h.scoreOf score _ value last
  | bracket content =>
      unfold Expression.evaluate
      refine (evaluate content tally).bind ?_
      intro value _ hvalue
      rw [shape_bracket]
      exact ends_pure.mpr hvalue.bracketed
  | list entries =>
      unfold Expression.evaluate
      refine (evaluateEntries entries tally).bind ?_
      exact fun outcomes _ _ => ends_pure.mpr (Value.fits_list outcomes)
  | unary op operand =>
      unfold Expression.evaluate
      refine (evaluate operand tally).bind ?_
      intro value later _
      refine (h.reckon (value.unrolled_collapse markup) later).bind ?_
      intro outcome last _
      refine (h.reckon (op.unrolled_outcome outcome) last).bind ?_
      exact fun result _ _ => ends_pure.mpr (Value.fits_single result)
  | binary op left right =>
      unfold Expression.evaluate
      split
      · next hpool =>
          rw [hpool]
          refine (evaluate left tally).bind ?_
          intro first later hfirst
          refine (evaluate right later).bind ?_
          intro second _ hsecond
          exact ends_pure.mpr
            (Value.fits_pool (List.forall_mem_append.mpr ⟨hfirst.rolled, hsecond.rolled⟩))
      · next hpool =>
          rw [shape_binary.resolve_left hpool]
          refine (evaluate left tally).bind ?_
          intro first later _
          refine (h.reckon (first.unrolled_collapse markup) later).bind ?_
          intro leftOutcome later _
          refine (evaluate right later).bind ?_
          intro second later _
          refine (h.reckon (second.unrolled_collapse markup) later).bind ?_
          intro rightOutcome later _
          refine (h.reckon (op.unrolled_outcome markup leftOutcome rightOutcome) later).bind ?_
          exact fun result _ _ => ends_pure.mpr (Value.fits_single result)

/-- Entries are evaluated to outcomes. -/
theorem evaluateEntries (entries : List Expression) (tally : Tally) :
    Ends (Expression.evaluateEntries table markup entries) tally (fun _ _ => True)
      fun fault _ => E fault := by
  cases entries with
  | nil =>
      unfold Expression.evaluateEntries
      exact ends_pure.mpr trivial
  | cons entry rest =>
      unfold Expression.evaluateEntries
      refine (evaluate entry tally).bind ?_
      intro value later _
      refine (h.reckon (value.unrolled_collapse markup) later).bind ?_
      intro outcome later _
      refine (evaluateEntries rest later).bind ?_
      exact fun others _ _ => ends_pure.mpr trivial

end

end Table.Evaluates

namespace Expression

variable {table : Table} {markup : Markup}

/-- What an expression yields fits its shape. -/
theorem fits_evaluate (e : Expression) (tally : Tally) :
    Yields (evaluate table markup e) tally fun value _ => value.Fits e.shape :=
  table.evaluates_any.evaluate e tally

/-- What an expression yields fits its shape. -/
theorem fits_of_run {e : Expression} {tally later : Tally} {value : Value}
    (h : (evaluate table markup e).run tally = .ok value later) : value.Fits e.shape :=
  yields_iff.mp (fits_evaluate e tally) value later h

/-- What has the shape of a pool yields a pool. -/
theorem exists_pool_of_run {e : Expression} (hshape : e.shape = .pool) {tally later : Tally}
    {value : Value} (h : (evaluate table markup e).run tally = .ok value later) :
    ∃ dice, value = .pool dice :=
  Value.exists_pool ((fits_of_run h).shape_eq.trans hshape)

/-- An expression that can be evaluated yields a value of its shape: a pool, a list or one
number.  Every die of a pool has a roll. -/
theorem shape_of_evaluate {e : Expression} {tally later : Tally} {value : Value}
    (h : (evaluate table markup e).run tally = .ok value later) :
    value.shape = e.shape ∧ ∀ die ∈ value.dice, die.rolls ≠ [] := by
  have hfits := fits_of_run h
  exact ⟨hfits.shape_eq, hfits.rolled⟩

/-- The higher of a die that is rerolled and a die with listed faces, brought together in a
bracket. -/
def higherOfTwo : Expression :=
  .modified (.select true (.extreme true 1))
    (.bracket (.binary .add (.modified (.reroll [⟨.equal, 4⟩] true) (.dice 1 1 6))
      (.customDice 1 [7, 9])))

/-- The selection yields a pool of three dice, all of them rolled. -/
theorem shape_of_evaluate_higherOfTwo :
    ∃ dice later,
      (evaluate { source := fun _ => some Number.half, limit := some 3 } .plain higherOfTwo).run {} =
        .ok (.pool dice) later ∧
      dice.length = 3 ∧ (Value.pool dice).shape = higherOfTwo.shape ∧
      ∀ die ∈ (Value.pool dice).dice, die.rolls ≠ [] := by
  have h : (evaluate { source := fun _ => some Number.half, limit := some 3 } .plain
      higherOfTwo).run {} =
      .ok (.pool [{ faces := .range 1 6, rolls := [4], discarded := true },
        { faces := .range 1 6, rolls := [4], discarded := true },
        { faces := .listed [7, 9], rolls := [9] }]) { announced := 3, drawn := 3 } := by
    decide +kernel
  exact ⟨_, _, h, rfl, shape_of_evaluate h⟩

end Expression
end DiceNotation

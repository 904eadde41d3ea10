import DiceNotation.Proofs.Dice.Rolls
import DiceNotation.Proofs.Expression.Parsing

/-!
# Safety of evaluation

An evaluation rolls, and works with the numbers that were rolled.  So the evaluation of a
well-formed expression ends in a value, in a fault that rolling on the table comes to, or in one of
numbers.  On a table with a limit and a source that never runs dry, these are the user's faults and
numbers out of range.

Main definitions:

- `Value.IsRolled`: a value whose dice have been rolled.
- `Table.Plays`: what playing on a table may come to.

Main results:

- `Table.plays_within`: what playing comes to on a table with a limit.
- `Expression.ends_evaluate`: how the evaluation of a well-formed expression ends.
- `Expression.ends_resolve`: how the resolution of a text ends.
-/

namespace DiceNotation

/-! ## Arithmetic -/

/-- A sum fails only if an integer is too large to be rounded. -/
theorem Number.gives_add (a b : Number) :
    Gives (a.add b) (fun _ => True) (· = .tooLarge) := by
  have hround : ∀ n : Number, Gives n.toBinary64 (fun _ => True) (· = .tooLarge) := by
    intro n
    cases n with
    | int n => exact (Binary64.gives_ofInt n).imp (fun _ _ _ => trivial) fun _ h => h
    | real x => trivial
  have hrounded : Gives (rounded (· + ·) a b) (fun _ => True) (· = .tooLarge) := by
    unfold rounded
    refine (hround a).bind ?_
    intro x _ _
    exact (hround b).bind fun _ _ _ => trivial
  unfold add
  split
  · trivial
  · exact hrounded

/-- So does a total. -/
theorem Number.gives_total (numbers : List Number) :
    Gives (ArithmeticFault.unguarded (total numbers)) (fun _ => True) Fault.IsOfNumbers := by
  have htotal : Gives (total numbers) (fun _ => True) (· = .tooLarge) :=
    Gives.foldlM trivial fun sum n _ _ => gives_add sum n
  unfold ArithmeticFault.unguarded
  cases hsum : total numbers with
  | ok sum => trivial
  | error cause =>
      rw [hsum] at htotal
      obtain rfl : cause = .tooLarge := htotal
      trivial

/-- Arithmetic that an expression asks for fails in a way that is the user's. -/
theorem ArithmeticFault.gives_guarded {α : Type} (x : Except ArithmeticFault α) :
    Gives (guarded x) (fun _ => True) Fault.IsOfNumbers := by
  cases x <;> trivial

/-- An operator with a meaning fails with a fault of numbers only. -/
theorem BinaryOp.gives_apply {op : BinaryOp} (hop : op ≠ .undefined) (a b : Number) :
    Gives (op.apply a b) (fun _ => True) Fault.IsOfNumbers := by
  cases op with
  | undefined => exact absurd rfl hop
  | _ => exact ArithmeticFault.gives_guarded _

/-- So does a function with a meaning. -/
theorem UnaryOp.gives_apply {op : UnaryOp} (hop : op ≠ .undefined) (a : Number) :
    Gives (op.apply a) (fun _ => True) Fault.IsOfNumbers := by
  cases op with
  | undefined => exact absurd rfl hop
  | magnitude => trivial
  | _ => exact ArithmeticFault.gives_guarded _

/-! ## Values -/

/-- The rolls of a die can be shown. -/
theorem Die.gives_outcome {die : Die} (h : die.IsRolled) (markup : Markup) :
    Gives (die.outcome markup) (fun _ => True) Fault.IsOfNumbers := by
  have hroll : ∀ roll, Gives (rollText roll) (fun _ => True) Fault.IsOfNumbers := by
    intro roll
    unfold rollText
    exact (Numeral.gives_write roll).bind fun _ _ _ => trivial
  have hsum : Gives die.sumText (fun _ => True) Fault.IsOfNumbers := by
    unfold sumText
    exact (Numeral.gives_write _).bind fun _ _ _ => trivial
  have hbare : Gives die.bareText (fun _ => True) Fault.IsOfNumbers := by
    unfold bareText
    cases hrolls : die.rolls with
    | nil => exact absurd hrolls h.rolls
    | cons first rest =>
        dsimp only
        refine (Numeral.gives_write first).bind ?_
        intro head _ _
        refine (Gives.mapM (P := fun _ _ => True) trivial fun _ _ roll _ _ => hroll roll).bind ?_
        intro tail _ _
        split
        · trivial
        · exact hsum.bind fun _ _ _ => trivial
  unfold outcome text
  rw [gives_bind, gives_bind]
  refine hbare.imp (fun _ _ _ => trivial) fun _ h => h

namespace Value

/-- Whether the dice of a value have been rolled. -/
def IsRolled (value : Value) : Prop := ∀ die ∈ value.dice, die.IsRolled

/-- The entries of a value can be shown. -/
theorem gives_entries {value : Value} (h : value.IsRolled) (markup : Markup) :
    Gives (value.entries markup) (fun _ => True) Fault.IsOfNumbers := by
  cases value with
  | single outcome => trivial
  | list outcomes => trivial
  | pool dice =>
      unfold entries Outcome.ofPool
      exact Gives.mapM (P := fun _ _ => True) trivial fun _ _ die hdie _ =>
        Die.gives_outcome (h die hdie) markup

/-- A value collapses, unless it is empty or a number is out of range. -/
theorem gives_collapse {value : Value} (h : value.IsRolled) (markup : Markup) :
    Gives (value.collapse markup) (fun _ => True) Fault.IsOfNumbers := by
  have htotal : Gives (do
      let outcomes ← value.entries markup
      if outcomes.isEmpty then throw (.impossible .totalOfNothing)
      total outcomes) (fun _ => True) Fault.IsOfNumbers := by
    refine (gives_entries h markup).bind ?_
    intro outcomes _ _
    dsimp only
    split
    · trivial
    · unfold total
      exact (Number.gives_total _).bind fun _ _ _ => trivial
  cases value with
  | single outcome => trivial
  | pool dice => exact htotal
  | list outcomes => exact htotal

/-- A single outcome has no dice. -/
theorem isRolled_single (outcome : Outcome) : (single outcome).IsRolled := by
  simp [IsRolled, dice]

/-- Brackets change no dice. -/
theorem isRolled_bracketed {value : Value} (h : value.IsRolled) : value.bracketed.IsRolled := by
  cases value with
  | single outcome =>
      rw [bracketed]
      split <;> exact isRolled_single _
  | pool dice => exact h
  | list outcomes => exact h

/-- A list has no dice. -/
theorem isRolled_list (outcomes : List Outcome) : (list outcomes).IsRolled := by
  simp [IsRolled, dice]

end Value

/-- A score fails only if it has nothing to score, or a total is out of range. -/
theorem Score.gives_apply (score : Score) (markup : Markup) (isDie : Bool)
    (entries : List Outcome) :
    Gives (score.apply markup isDie entries) (fun _ => True) Fault.IsOfNumbers := by
  cases score with
  | groups counted =>
      unfold apply matching
      dsimp only
      split
      · trivial
      · split
        · trivial
        · exact (Number.gives_total _).bind fun _ _ _ => trivial
  | successes success failure =>
      unfold apply counting
      dsimp only
      split <;> trivial

/-! ## Expressions -/

/-- The fault of a text that cannot be read is foreseen. -/
theorem Fault.IsUnreadable.isForeseen {fault : Fault} (h : fault.IsUnreadable) :
    fault.IsForeseen := by
  cases fault with
  | malformed | numeralTooLong => trivial
  | _ => exact h.elim

/-- What playing on a table may come to: dice that have been rolled stay so, and the faults of
rolling, like those of numbers, have `E`. -/
structure Table.Plays (table : Table) (E : Fault → Prop) : Prop where
  roll : ∀ count least greatest tally,
    Ends (Expression.rollAnnounced table count (.range least greatest)) tally
      (fun value _ => value.IsRolled) fun fault _ => E fault
  explode : ∀ explosion condition pool, (∀ die ∈ pool, Die.IsRolled die) → ∀ tally,
    Ends (table.explode explosion condition pool) tally
      (fun dice _ => ∀ die ∈ dice, die.IsRolled) fun fault _ => E fault
  reroll : ∀ conditions once pool, (∀ die ∈ pool, Die.IsRolled die) → ∀ tally,
    Ends (table.reroll conditions once pool) tally
      (fun dice _ => ∀ die ∈ dice, die.IsRolled) fun fault _ => E fault
  numbers : ∀ fault : Fault, fault.IsOfNumbers → E fault

/-- What can be rolled can be played with. -/
theorem Table.Rolls.plays {table : Table} {E : Fault → Prop} (h : table.Rolls Faces.IsRange E)
    (hnumbers : ∀ fault : Fault, fault.IsOfNumbers → E fault) : table.Plays E where
  roll := by
    intro count least greatest tally
    unfold Expression.rollAnnounced
    refine (h.announce count tally).bind ?_
    intro _ announced _
    refine (h.rollDice ⟨least, greatest, rfl⟩ count.toNat announced).bind ?_
    exact fun dice _ hdice => ends_pure.mpr fun die hdie =>
      ⟨(hdice die hdie).faces, (hdice die hdie).rolls⟩
  explode := by
    intro explosion condition pool hpool tally
    refine (h.explode explosion condition (fun die hdie => ?_) tally).imp ?_ fun _ _ h => h
    · exact ⟨(hpool die hdie).faces, (hpool die hdie).rolls⟩
    · exact fun dice _ hdice die hdie => ⟨(hdice die hdie).faces, (hdice die hdie).rolls⟩
  reroll := by
    intro conditions once pool hpool tally
    refine (h.reroll conditions once (fun die hdie => ?_) tally).imp ?_ fun _ _ h => h
    · exact ⟨(hpool die hdie).faces, (hpool die hdie).rolls⟩
    · exact fun dice _ hdice die hdie => ⟨(hdice die hdie).faces, (hdice die hdie).rolls⟩
  numbers := hnumbers

/-- On a table with a limit and a source that never runs dry, playing comes to foreseen faults. -/
theorem Table.plays_within {table : Table} {limit : Int} (hsource : table.source.IsUnit)
    (hlimit : table.limit = some limit) : table.Plays Fault.IsForeseen :=
  (rolls_within hsource hlimit).plays fun _ h => h.isForeseen

namespace Expression

/-- An operand that its owner accepts meets its demand. -/
theorem ends_demand {owner operand : Expression} (haccepts : owner.accepts operand.shape = true)
    (tally : Tally) {E : Fault → Prop} :
    Ends (Roll.lift (demand owner operand)) tally (fun _ _ => True) fun fault _ => E fault := by
  unfold demand
  rw [if_pos haccepts]
  trivial

section Plays

variable {table : Table} {E : Fault → Prop} (hplays : table.Plays E) (markup : Markup)
include hplays

/-- What comes to faults of numbers can be played. -/
theorem ends_numbers {α : Type} {x : Except Fault α}
    (h : Gives x (fun _ => True) Fault.IsOfNumbers) (tally : Tally) :
    Ends (Roll.lift x) tally (fun _ _ => True) fun fault _ => E fault := by
  rw [Roll.lift, ends_ofExcept]
  exact h.imp (fun _ _ h => h) hplays.numbers

/-- A modifier of rolled dice can be played, and leaves none unrolled. -/
theorem ends_modify (modifier : Modifier) {value : Value} (h : value.IsRolled) (tally : Tally) :
    Ends (modify table markup modifier value) tally (fun value _ => value.IsRolled)
      fun fault _ => E fault := by
  cases modifier with
  | explode explosion condition =>
      unfold modify
      refine (hplays.explode explosion condition _ h tally).bind ?_
      exact fun dice _ hdice => ends_pure.mpr hdice
  | reroll conditions once =>
      unfold modify
      refine (hplays.reroll conditions once _ h tally).bind ?_
      exact fun dice _ hdice => ends_pure.mpr hdice
  | select keep selector =>
      exact ends_pure.mpr (Value.forall_dice_select (fun _ h => ⟨h.faces, h.rolls⟩) h keep selector markup)

/-- The total of rolled dice can be played. -/
theorem ends_collapse {value : Value} (h : value.IsRolled) (tally : Tally) :
    Ends (Roll.lift (value.collapse markup)) tally (fun _ _ => True) fun fault _ => E fault :=
  ends_numbers hplays (Value.gives_collapse h markup) tally

/-- A score of rolled dice can be played, and leaves no dice. -/
theorem ends_scoreOf (score : Score) (isDie : Bool) {value : Value} (h : value.IsRolled)
    (tally : Tally) :
    Ends (scoreOf markup score isDie value) tally (fun value _ => value.IsRolled)
      fun fault _ => E fault := by
  unfold scoreOf
  refine (ends_numbers hplays (Value.gives_entries h markup) tally).bind ?_
  intro entries later _
  refine (ends_numbers hplays (score.gives_apply markup isDie entries) later).bind ?_
  exact fun outcome _ _ => ends_pure.mpr (Value.isRolled_single outcome)

mutual

/-- The evaluation of a well-formed expression ends in a value with rolled dice, in a fault of
rolling, or in one of numbers. -/
theorem ends_evaluate {e : Expression} (h : e.WellFormed) (tally : Tally) :
    Ends (evaluate table markup e) tally (fun value _ => value.IsRolled)
      fun fault _ => E fault := by
  cases e with
  | dice count least greatest =>
      unfold evaluate
      exact hplays.roll count least greatest tally
  | customDice count faces => exact absurd h (by simp [WellFormed])
  | number value text =>
      have hshow : Gives value.text (fun _ => True) Fault.IsOfNumbers := by
        cases value with
        | int n => exact Numeral.gives_write n
        | real x => trivial
      unfold evaluate
      dsimp only
      split
      · refine (ends_numbers hplays hshow tally).bind ?_
        exact fun shown _ _ => ends_pure.mpr (Value.isRolled_single _)
      · exact ends_pure.mpr (Value.isRolled_single _)
  | modified modifier operand =>
      rw [WellFormed] at h
      unfold evaluate
      refine (ends_demand h.2.1 tally).bind ?_
      intro _ tally _
      refine (ends_evaluate h.2.2 tally).bind ?_
      exact fun value later hvalue => ends_modify hplays markup modifier hvalue later
  | scored score operand =>
      rw [WellFormed] at h
      unfold evaluate
      refine (ends_demand h.1 tally).bind ?_
      intro _ tally _
      refine (ends_evaluate h.2 tally).bind ?_
      exact fun value later hvalue => ends_scoreOf hplays markup score _ hvalue later
  | bracket content =>
      rw [WellFormed] at h
      unfold evaluate
      refine (ends_evaluate h tally).bind ?_
      exact fun value later hvalue => ends_pure.mpr (Value.isRolled_bracketed hvalue)
  | list entries =>
      rw [WellFormed] at h
      unfold evaluate
      refine (ends_evaluateEntries h tally).bind ?_
      exact fun outcomes _ _ => ends_pure.mpr (Value.isRolled_list outcomes)
  | unary op operand =>
      rw [WellFormed] at h
      unfold evaluate
      refine (ends_evaluate h.2 tally).bind ?_
      intro value later hvalue
      refine (ends_collapse hplays markup hvalue later).bind ?_
      intro outcome later _
      have hresult : Gives (op.outcome outcome) (fun _ => True) Fault.IsOfNumbers :=
        (UnaryOp.gives_apply h.1 outcome.value).bind fun _ _ _ => trivial
      refine (ends_numbers hplays hresult later).bind ?_
      exact fun _ _ _ => ends_pure.mpr (Value.isRolled_single _)
  | binary op left right =>
      rw [WellFormed] at h
      obtain ⟨hop, hleft, hright⟩ := h
      unfold evaluate
      split
      · refine (ends_evaluate hleft tally).bind ?_
        intro first later hfirst
        refine (ends_evaluate hright later).bind ?_
        exact fun second _ hsecond => ends_pure.mpr (List.forall_mem_append.mpr ⟨hfirst, hsecond⟩)
      · refine (ends_evaluate hleft tally).bind ?_
        intro first later hfirst
        refine (ends_collapse hplays markup hfirst later).bind ?_
        intro leftOutcome later _
        refine (ends_evaluate hright later).bind ?_
        intro second later hsecond
        refine (ends_collapse hplays markup hsecond later).bind ?_
        intro rightOutcome later _
        have hresult : Gives (op.outcome markup leftOutcome rightOutcome) (fun _ => True)
            Fault.IsOfNumbers :=
          (BinaryOp.gives_apply hop leftOutcome.value rightOutcome.value).bind fun _ _ _ => trivial
        refine (ends_numbers hplays hresult later).bind ?_
        exact fun _ _ _ => ends_pure.mpr (Value.isRolled_single _)

/-- The entries of a list are evaluated, or fail in the same ways. -/
theorem ends_evaluateEntries {entries : List Expression} (h : AllWellFormed entries)
    (tally : Tally) :
    Ends (evaluateEntries table markup entries) tally (fun _ _ => True)
      fun fault _ => E fault := by
  cases entries with
  | nil => exact ends_pure.mpr trivial
  | cons entry rest =>
      rw [AllWellFormed] at h
      unfold evaluateEntries
      refine (ends_evaluate h.1 tally).bind ?_
      intro value later hvalue
      refine (ends_collapse hplays markup hvalue later).bind ?_
      intro outcome later _
      refine (ends_evaluateEntries h.2 later).bind ?_
      exact fun others _ _ => ends_pure.mpr trivial

end

/-- So does its resolution. -/
theorem ends_outcomeOf {e : Expression} (h : e.WellFormed) (tally : Tally) :
    Ends (outcomeOf table markup e) tally (fun _ _ => True) fun fault _ => E fault := by
  unfold outcomeOf
  refine (ends_evaluate hplays markup h tally).bind ?_
  exact fun value later hvalue => ends_collapse hplays markup hvalue later

end Plays

/-- The resolution of a text ends in an outcome, in a fault of the user's, or in a number out
of range. -/
theorem ends_resolve {table : Table} {limit : Int} (markup : Markup)
    (hsource : table.source.IsUnit) (hlimit : table.limit = some limit) (text : Text)
    (tally : Tally) :
    Ends (resolve table markup text) tally (fun _ _ => True) fun fault _ => fault.IsForeseen := by
  unfold resolve
  rw [ends_bind, Roll.lift, ends_ofExcept]
  refine (gives_parse text).imp ?_ fun _ h => h.isUnreadable.isForeseen
  intro e? _ he
  cases e? with
  | none => exact ends_pure.mpr trivial
  | some e => exact ends_outcomeOf (Table.plays_within hsource hlimit) markup (he e rfl) tally

end Expression
end DiceNotation

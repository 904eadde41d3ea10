import DiceNotation.Proofs.Dice.Growth
import DiceNotation.Proofs.Evaluation.Safety
import DiceNotation.Proofs.Evaluation.Shapes

/-!
# Expressions that fit together

What a text is read as fits together: every modifier and score stands over an operand that it
accepts, every die has a range of faces, and every operation has a meaning.  Rolled dice keep
their ranges and have rolls to show.  So however an evaluation ends, on whatever table, it is not
by an operand that does not fit, nor by a place that does not exist.

Main definitions:

- `Fault.IsMisfit`: the faults of expressions that do not fit together.

Main results:

- `Table.rolls_range`: dice with a range of faces can be rolled on every table.
- `Expression.resolve_fits`: what is read as an expression never ends in a misfit.
-/

namespace DiceNotation

/-- Whether a fault is that of an expression that does not fit together: an operand of the wrong
shape, faces that cannot explode, a place that does not exist, or an operation without a meaning. -/
def Fault.IsMisfit : Fault → Prop
  | .impossible (.unsupportedOperand ..) => True
  | .impossible .explodingCustomDie => True
  | .noSuchPlace => True
  | .undefinedOperation => True
  | _ => False

/-- A fault of numbers is no misfit. -/
theorem Fault.IsOfNumbers.not_isMisfit {fault : Fault} (h : fault.IsOfNumbers) :
    ¬ fault.IsMisfit := by
  cases fault with
  | impossible cause =>
      cases cause with
      | unsupportedOperand | explodingCustomDie => exact h.elim
      | _ => exact fun h => h
  | noSuchPlace | undefinedOperation => exact h.elim
  | _ => exact fun h => h

namespace Table

/-- Dice with a range of faces can be rolled on every table, whatever is drawn. -/
theorem rolls_range (table : Table) :
    table.Rolls Faces.IsRange fun fault => ¬ fault.IsMisfit where
  announce := ends_announce fun limit => by
    rw [excess_eq]
    split <;> exact fun h => h
  drawFace := by
    rintro _ ⟨least, greatest, rfl⟩ tally
    refine ends_draw (fun _ h => h) ?_
    intro x _
    cases place x least greatest with
    | ok face => trivial
    | error cause => exact fun h => h
  threshold := fun _ hfaces => Die.gives_threshold hfaces
  unsettled := fun _ h => h

/-- So nothing misfits on any table. -/
theorem plays_fitting (table : Table) : table.Plays fun fault => ¬ fault.IsMisfit :=
  table.rolls_range.plays fun _ h => h.not_isMisfit

end Table

namespace Expression

/-- A well-formed expression is evaluated without a misfit, on every table. -/
theorem not_isMisfit_of_evaluate {e : Expression} (h : e.WellFormed) {table : Table}
    {markup : Markup} {tally later : Tally} {fault : Fault}
    (hrun : (evaluate table markup e).run tally = .error fault later) : ¬ fault.IsMisfit :=
  (ends_evaluate table.plays_fitting markup h tally).of_error hrun

/-- So is its outcome found. -/
theorem not_isMisfit_of_outcomeOf {e : Expression} (h : e.WellFormed) {table : Table}
    {markup : Markup} {tally later : Tally} {fault : Fault}
    (hrun : (outcomeOf table markup e).run tally = .error fault later) : ¬ fault.IsMisfit :=
  (ends_outcomeOf table.plays_fitting markup h tally).of_error hrun

/-- A text that is read as an expression is read as one that fits together: its dice are of a
number from zero on, with faces from one on or the fudge faces, its selections take a number from
zero on, and no list of conditions is empty.  On no table does its evaluation or its resolution end
in a misfit, and a value that it has is of the shape of the expression. -/
theorem resolve_fits {text : Text} {e? : Option Expression} (h : parse text = .ok e?) :
    (∀ e ∈ e?, e.WellFormed) ∧
    ∀ (table : Table) (markup : Markup) (tally : Tally),
      (∀ fault later, (resolve table markup text).run tally = .error fault later →
        ¬ fault.IsMisfit) ∧
      ∀ e ∈ e?,
        (∀ fault later, (evaluate table markup e).run tally = .error fault later →
          ¬ fault.IsMisfit) ∧
        ∀ value later, (evaluate table markup e).run tally = .ok value later →
          value.Fits e.shape := by
  have hread := gives_parse text
  rw [h] at hread
  have hwell : ∀ e ∈ e?, e.WellFormed := hread
  refine ⟨hwell, fun table markup tally => ⟨?_, fun e he => ⟨?_, ?_⟩⟩⟩
  · intro fault later hrun
    unfold resolve at hrun
    rw [h] at hrun
    cases e? with
    | none => contradiction
    | some e => exact not_isMisfit_of_outcomeOf (hwell e rfl) hrun
  · exact fun fault later hrun => not_isMisfit_of_evaluate (hwell e he) hrun
  · exact fun value later hrun => fits_of_run hrun

/-- Dice that explode and are rerolled, of which three are kept, are read as a pool that fits
together. -/
theorem resolve_fits_keptThree :
    ∃ e, parse "4d6!r<3kh3".toList = .ok (some e) ∧ e.shape = .pool ∧ e.WellFormed ∧
      ∀ (table : Table) (markup : Markup) (tally : Tally) (fault : Fault) (later : Tally),
        (resolve table markup "4d6!r<3kh3".toList).run tally = .error fault later →
          ¬ fault.IsMisfit := by
  have hread : (parse "4d6!r<3kh3".toList).toOption.bind (Option.map shape) = some .pool := by
    decide +kernel
  obtain ⟨e, hparse, hshape⟩ := exists_ok_some hread
  obtain ⟨hwell, hfits⟩ := resolve_fits hparse
  exact ⟨e, hparse, hshape, hwell e rfl, fun table markup tally => (hfits table markup tally).1⟩

end Expression
end DiceNotation

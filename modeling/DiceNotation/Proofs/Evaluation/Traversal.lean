import DiceNotation.Proofs.Dice.Congruence
import DiceNotation.Proofs.Evaluation.Reckoning
import DiceNotation.Proofs.Expression.Parsing

/-!
# Evaluations on two tables

An evaluation rolls, and works on what was rolled without a look at the table.  So a relation
between computations that chains inherit from their steps, and that holds of what is rolled on
two tables, holds of evaluations on them.

Main definitions:

- `Expression.Rollable`: expressions without a negative number of dice.

Main results:

- `Table.Alike.evaluate`, `Table.Alike.resolve`: what expressions and texts yield is related.
-/

namespace DiceNotation

/-- A text that cannot be read passes no limit. -/
theorem Fault.IsUnreadable.not_isOverBudget {fault : Fault} (h : fault.IsUnreadable) :
    ¬ fault.IsOverBudget := by
  cases fault with
  | malformed | numeralTooLong => exact fun h => h
  | _ => exact h.elim

namespace Expression

/-! ## Expressions -/

mutual

/-- Whether an expression has no dice of a negative number. -/
def Rollable : Expression → Prop
  | .dice count .. => 0 ≤ count
  | .customDice count _ => 0 ≤ count
  | .number .. => True
  | .modified _ operand => operand.Rollable
  | .scored _ operand => operand.Rollable
  | .bracket content => content.Rollable
  | .list entries => AllRollable entries
  | .unary _ operand => operand.Rollable
  | .binary _ left right => left.Rollable ∧ right.Rollable

/-- Whether no entry of a list has dice of a negative number. -/
def AllRollable : List Expression → Prop
  | [] => True
  | entry :: rest => entry.Rollable ∧ AllRollable rest

end

mutual

/-- Texts are read as expressions without a negative number of dice. -/
theorem WellFormed.rollable {e : Expression} (h : e.WellFormed) : e.Rollable := by
  cases e with
  | dice count least greatest =>
      rw [WellFormed] at h
      rw [Rollable]
      exact h.1
  | customDice count faces => exact absurd h (by simp [WellFormed])
  | number value text => rw [Rollable]; trivial
  | modified modifier operand =>
      rw [WellFormed] at h
      rw [Rollable]
      exact h.2.2.rollable
  | scored score operand =>
      rw [WellFormed] at h
      rw [Rollable]
      exact h.2.rollable
  | bracket content =>
      rw [WellFormed] at h
      rw [Rollable]
      exact h.rollable
  | list entries =>
      rw [WellFormed] at h
      rw [Rollable]
      exact AllWellFormed.allRollable h
  | unary op operand =>
      rw [WellFormed] at h
      rw [Rollable]
      exact h.2.rollable
  | binary op left right =>
      rw [WellFormed] at h
      rw [Rollable]
      exact ⟨h.2.1.rollable, h.2.2.rollable⟩

/-- Well-formed entries can be rolled. -/
theorem AllWellFormed.allRollable {entries : List Expression} (h : AllWellFormed entries) :
    AllRollable entries := by
  cases entries with
  | nil => rw [AllRollable]; trivial
  | cons entry rest =>
      rw [AllWellFormed] at h
      rw [AllRollable]
      exact ⟨h.1.rollable, AllWellFormed.allRollable h.2⟩

end

end Expression

/-! ## Evaluation -/

namespace Table.Alike

open Expression

variable {R : ∀ {α : Type}, Roll α → Roll α → Prop} {limit : Int} {table table' : Table}

/-- Dice are rolled alike. -/
theorem rollAnnounced (hR : Alike R limit table table') {count : Int} (hcount : 0 ≤ count)
    (faces : Faces) :
    R (rollAnnounced table count faces) (rollAnnounced table' count faces) := by
  obtain ⟨n, rfl⟩ := Int.eq_ofNat_of_zero_le hcount
  have hroll : ∀ table, Expression.rollAnnounced table n faces =
      (table.announce n >>= fun _ => table.rollDice faces n) >>= fun dice => pure (.pool dice) :=
    fun table => (bind_assoc ..).symm
  rw [hroll, hroll]
  exact hR.bind (hR.roll n faces) fun dice => hR.pure _

/-- Modifiers act alike. -/
theorem modify (hR : Alike R limit table table') (markup : Markup) (modifier : Modifier)
    (value : Value) :
    R (modify table markup modifier value) (modify table' markup modifier value) := by
  cases modifier with
  | explode explosion condition =>
      exact hR.bind (hR.explode explosion condition _) fun dice => hR.pure _
  | reroll conditions once => exact hR.bind (hR.reroll conditions once _) fun dice => hR.pure _
  | select keep selector => exact hR.pure _

mutual

/-- What an expression yields on two tables is related. -/
theorem evaluate (hR : Alike R limit table table') (markup : Markup) {e : Expression}
    (h : e.Rollable) :
    R (evaluate table markup e) (evaluate table' markup e) := by
  have hcollapse := fun value : Value => hR.lift (value.unrolled_collapse markup).unlimited
  cases e with
  | dice count least greatest =>
      rw [Rollable] at h
      unfold Expression.evaluate
      exact hR.rollAnnounced h _
  | customDice count faces =>
      rw [Rollable] at h
      unfold Expression.evaluate
      exact hR.rollAnnounced h _
  | number value text =>
      unfold Expression.evaluate
      dsimp only
      split
      · exact hR.bind (hR.lift value.unrolled_text.unlimited) fun text => hR.pure _
      · exact hR.pure _
  | modified modifier operand =>
      rw [Rollable] at h
      unfold Expression.evaluate
      refine hR.bind (hR.lift (unrolled_demand _ operand).unlimited) fun _ => ?_
      exact hR.bind (hR.evaluate markup h) fun value => hR.modify markup modifier value
  | scored score operand =>
      rw [Rollable] at h
      unfold Expression.evaluate scoreOf
      refine hR.bind (hR.lift (unrolled_demand _ operand).unlimited) fun _ => ?_
      refine hR.bind (hR.evaluate markup h) fun value => ?_
      refine hR.bind (hR.lift (value.unrolled_entries markup).unlimited) fun entries => ?_
      refine hR.bind (hR.lift (score.unrolled_apply markup _ entries).unlimited) fun outcome => ?_
      exact hR.pure _
  | bracket content =>
      rw [Rollable] at h
      unfold Expression.evaluate
      exact hR.bind (hR.evaluate markup h) fun value => hR.pure _
  | list entries =>
      rw [Rollable] at h
      unfold Expression.evaluate
      exact hR.bind (hR.evaluateEntries markup h) fun outcomes => hR.pure _
  | unary op operand =>
      rw [Rollable] at h
      unfold Expression.evaluate
      refine hR.bind (hR.evaluate markup h) fun value => ?_
      refine hR.bind (hcollapse value) fun outcome => ?_
      exact hR.bind (hR.lift (op.unrolled_outcome outcome).unlimited) fun result => hR.pure _
  | binary op left right =>
      rw [Rollable] at h
      unfold Expression.evaluate
      split
      · refine hR.bind (hR.evaluate markup h.1) fun first => ?_
        exact hR.bind (hR.evaluate markup h.2) fun second => hR.pure _
      · refine hR.bind (hR.evaluate markup h.1) fun first => ?_
        refine hR.bind (hcollapse first) fun leftOutcome => ?_
        refine hR.bind (hR.evaluate markup h.2) fun second => ?_
        refine hR.bind (hcollapse second) fun rightOutcome => ?_
        exact hR.bind (hR.lift (op.unrolled_outcome markup leftOutcome rightOutcome).unlimited)
          fun result => hR.pure _

/-- Entries are evaluated alike. -/
theorem evaluateEntries (hR : Alike R limit table table') (markup : Markup)
    {entries : List Expression} (h : AllRollable entries) :
    R (evaluateEntries table markup entries) (evaluateEntries table' markup entries) := by
  cases entries with
  | nil => exact hR.pure _
  | cons entry rest =>
      rw [AllRollable] at h
      unfold Expression.evaluateEntries
      refine hR.bind (hR.evaluate markup h.1) fun value => ?_
      refine hR.bind (hR.lift (value.unrolled_collapse markup).unlimited) fun outcome => ?_
      exact hR.bind (hR.evaluateEntries markup h.2) fun others => hR.pure _

end

/-- So is what a text yields. -/
theorem resolve (hR : Alike R limit table table') (markup : Markup) (text : Text) :
    R (resolve table markup text) (resolve table' markup text) := by
  have hgives := gives_parse text
  unfold Expression.resolve
  cases hparse : parse text with
  | error fault =>
      rw [hparse] at hgives
      have hfault : ¬ fault.IsOverBudget := (Leaf.Blames.isUnreadable hgives).not_isOverBudget
      exact hR.throw hfault
  | ok e? =>
      rw [hparse] at hgives
      cases e? with
      | none => exact hR.pure _
      | some e =>
          have hvalue := hR.evaluate markup (hgives e rfl).rollable
          change R (outcomeOf table markup e) (outcomeOf table' markup e)
          exact hR.bind hvalue fun value => hR.lift (value.unrolled_collapse markup).unlimited

end Table.Alike
end DiceNotation

import DiceNotation.Dice.Table
import DiceNotation.Proofs.Steps
import Mathlib.Data.List.Forall2

/-!
# Rolls that agree

Two computations agree if they end alike wherever they begin: both succeed, with results that
are related, or both fail, with one fault, and either way after the same dice and the same
draws.  Chains of steps agree if their steps do.

Main definitions:

- `Agree`: two results that agree.
- `Roll.Agree`: two computations that agree.

Main results:

- `Agree.bind`, `Agree.mapM`: chains of steps agree, and runs through lists.
- `Roll.Agree.bind`, `Roll.Agree.mapM`: so do chains of steps that roll, and runs through lists.
-/

namespace DiceNotation

/-- Whether two results agree: both are there and related, or both have failed with one
fault. -/
def Agree {ε α β : Type} (R : α → β → Prop) : Except ε α → Except ε β → Prop
  | .ok a, .ok b => R a b
  | .error e, .error e' => e = e'
  | _, _ => False

section Results

variable {ε α β α' β' : Type} {R : α → β → Prop} {S : α' → β' → Prop}

@[simp]
theorem agree_ok {a : α} {b : β} : Agree R (.ok a : Except ε α) (.ok b) ↔ R a b := Iff.rfl

@[simp]
theorem agree_error {e e' : ε} : Agree R (.error e) (.error e') ↔ e = e' := Iff.rfl

/-- A result agrees with itself. -/
theorem agree_eq (x : Except ε α) : Agree Eq x x := by
  cases x <;> rfl

/-- Of results that agree, both are there or none. -/
theorem Agree.cases {x : Except ε α} {y : Except ε β} (h : Agree R x y) :
    (∃ a b, x = .ok a ∧ y = .ok b ∧ R a b) ∨ ∃ e, x = .error e ∧ y = .error e := by
  cases x <;> cases y
  · obtain rfl := agree_error.mp h
    exact .inr ⟨_, rfl, rfl⟩
  · exact h.elim
  · exact h.elim
  · exact .inl ⟨_, _, rfl, rfl, h⟩

/-- Chains of two steps agree if both steps do. -/
theorem Agree.bind {x : Except ε α} {y : Except ε β} {f : α → Except ε α'} {g : β → Except ε β'}
    (h : Agree R x y) (hf : ∀ a b, R a b → Agree S (f a) (g b)) :
    Agree S (x >>= f) (y >>= g) := by
  cases x <;> cases y
  · exact h
  · exact h.elim
  · exact h.elim
  · exact hf _ _ h

/-- Runs through lists that are related agree if their steps do. -/
theorem Agree.mapM {f : α → Except ε α'} {g : β → Except ε β'}
    (hf : ∀ a b, R a b → Agree S (f a) (g b)) {items : List α} {items' : List β}
    (h : List.Forall₂ R items items') :
    Agree (List.Forall₂ S) (items.mapM f) (items'.mapM g) := by
  induction h with
  | nil => exact .nil
  | cons hfirst _ ih =>
      rw [List.mapM_cons, List.mapM_cons]
      exact (hf _ _ hfirst).bind fun _ _ hmade => ih.bind fun _ _ hmore => .cons hmade hmore

end Results

namespace Roll

/-- Whether two computations agree wherever they begin: both succeed with results that are
related, or both fail with one fault, after the same dice and draws. -/
def Agree {α β : Type} (R : α → β → Prop) (x : Roll α) (y : Roll β) : Prop :=
  ∀ tally, match x.run tally, y.run tally with
    | .ok a later, .ok b later' => R a b ∧ later = later'
    | .error fault later, .error fault' later' => fault = fault' ∧ later = later'
    | _, _ => False

variable {α β α' β' : Type} {R : α → β → Prop} {S : α' → β' → Prop}

theorem agree_pure {a : α} {b : β} (h : R a b) : Agree R (pure a) (pure b) := fun _ => ⟨h, rfl⟩

/-- What does not roll agrees as its results do. -/
theorem agree_lift {x : Except Fault α} {y : Except Fault β} (h : DiceNotation.Agree R x y) :
    Agree R (lift x) (lift y) := by
  intro tally
  cases x <;> cases y
  · exact ⟨h, rfl⟩
  · exact h.elim
  · exact h.elim
  · exact ⟨h, rfl⟩

/-- A computation agrees with itself. -/
theorem agree_eq (x : Roll α) : Agree Eq x x := by
  intro tally
  cases x.run tally <;> exact ⟨rfl, rfl⟩

/-- A computation agrees with itself in what holds of its results. -/
theorem agree_of_yields {P : α → Prop} {x : Roll α}
    (h : ∀ tally, Yields x tally fun a _ => P a) : Agree (fun a b => b = a ∧ P a) x x := by
  intro tally
  have hrun := h tally
  unfold Yields Ends at hrun
  cases hresult : x.run tally with
  | ok a later =>
      rw [hresult] at hrun
      exact ⟨⟨rfl, hrun⟩, rfl⟩
  | error fault later => exact ⟨rfl, rfl⟩

theorem agree_throw (fault : Fault) : Agree R (throw fault) (throw fault) := fun _ => ⟨rfl, rfl⟩

theorem Agree.imp {x : Roll α} {y : Roll β} {R' : α → β → Prop} (h : Agree R x y)
    (hR : ∀ a b, R a b → R' a b) : Agree R' x y := by
  intro tally
  have hrun := h tally
  revert hrun
  cases x.run tally <;> cases y.run tally
  · exact fun hrun => ⟨hR _ _ hrun.1, hrun.2⟩
  all_goals exact id

/-- Chains of two steps agree if both steps do. -/
theorem Agree.bind {x : Roll α} {y : Roll β} {f : α → Roll α'} {g : β → Roll β'}
    (h : Agree R x y) (hf : ∀ a b, R a b → Agree S (f a) (g b)) :
    Agree S (x >>= f) (y >>= g) := by
  intro tally
  have hrun := h tally
  rw [EStateM.run_bind, EStateM.run_bind]
  revert hrun
  cases x.run tally <;> cases y.run tally
  · rintro ⟨hresult, rfl⟩
    exact hf _ _ hresult _
  · exact False.elim
  · exact False.elim
  · exact id

/-- Runs through lists that are related agree if their steps do, with one result for each item. -/
theorem Agree.mapM {f : α → Roll α'} {g : β → Roll β'} (hf : ∀ a b, R a b → Agree S (f a) (g b))
    {items : List α} {items' : List β} (h : List.Forall₂ R items items') :
    Agree (fun made made' => made.length = items.length ∧ List.Forall₂ S made made')
      (items.mapM f) (items'.mapM g) := by
  induction h with
  | nil => exact agree_pure ⟨rfl, .nil⟩
  | cons hfirst _ ih =>
      rw [List.mapM_cons, List.mapM_cons]
      refine (hf _ _ hfirst).bind fun _ _ hmade => ih.bind ?_
      rintro more more' ⟨hlength, hmore⟩
      exact agree_pure ⟨by simp [hlength], .cons hmade hmore⟩

end Roll
end DiceNotation

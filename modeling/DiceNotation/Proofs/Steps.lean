import DiceNotation.Fault
import Mathlib.Data.List.Forall2

/-!
# Steps that may fail

Reading and rolling are chains of steps, each of which may fail.  A chain succeeds exactly
if every step of it does.

Main definitions:

- `Gives`, `Ends`: what holds of a chain's result, whether it succeeds or fails.
- `Yields`: what holds of it if it succeeds.

Main results:

- `bind_eq_ok_iff`, `run_bind_eq_ok_iff`: what a chain that succeeded went through.
- `mapM_eq_ok_iff`: a run through a list makes of each item what it makes of it alone.
- `exists_mapM_eq_ok_iff`: it succeeds exactly if it does for each item.
- `foldlM_induction`: what every step of a run keeps holds at the end of the run.
- `Gives.bind`, `Ends.bind`: a chain is followed step by step.
- `Gives.mapM`, `Ends.mapM`: so is a run through a list.
-/

namespace DiceNotation

/-! ## Results -/

section Results

variable {ε α β : Type}

/-- Results and failures can be compared. -/
instance decidableEqExcept [DecidableEq ε] [DecidableEq α] : DecidableEq (Except ε α)
  | .ok a, .ok b => decidable_of_iff (a = b) (by simp)
  | .error e, .error e' => decidable_of_iff (e = e') (by simp)
  | .ok _, .error _ => .isFalse (by simp)
  | .error _, .ok _ => .isFalse (by simp)

@[simp]
theorem ok_bind (a : α) (f : α → Except ε β) : (Except.ok a >>= f) = f a := rfl

@[simp]
theorem error_bind (e : ε) (f : α → Except ε β) : (Except.error e >>= f) = .error e := rfl

@[simp]
theorem pure_eq_ok (a : α) : (pure a : Except ε α) = .ok a := rfl

@[simp]
theorem throw_eq_error (e : ε) : (throw e : Except ε α) = .error e := rfl

/-- A chain of two steps succeeds exactly if both do. -/
theorem bind_eq_ok_iff {x : Except ε α} {f : α → Except ε β} {b : β} :
    (x >>= f) = .ok b ↔ ∃ a, x = .ok a ∧ f a = .ok b := by
  cases x with
  | ok a => simp
  | error e => simp

/-- A run through items makes of each of them what it makes of it alone. -/
theorem mapM_eq_ok_iff {f : α → Except ε β} {items : List α} {made : List β} :
    items.mapM f = .ok made ↔ List.Forall₂ (fun item b => f item = .ok b) items made := by
  induction items generalizing made with
  | nil => simp [eq_comm]
  | cons item rest ih =>
      simp only [List.mapM_cons, bind_eq_ok_iff, List.forall₂_cons_left_iff, ih]
      constructor
      · rintro ⟨b, hb, others, hothers, heq⟩
        cases heq
        exact ⟨b, others, hb, hothers, rfl⟩
      · rintro ⟨b, others, hb, hothers, rfl⟩
        exact ⟨b, hb, others, hothers, rfl⟩

/-- A run through items succeeds exactly if it does so for each of them. -/
theorem exists_mapM_eq_ok_iff {f : α → Except ε β} {items : List α} :
    (∃ made, items.mapM f = .ok made) ↔ ∀ item ∈ items, ∃ b, f item = .ok b := by
  induction items with
  | nil => simp
  | cons item rest ih =>
      rw [List.forall_mem_cons, ← ih]
      simp only [List.mapM_cons, bind_eq_ok_iff]
      constructor
      · rintro ⟨_, b, hb, others, hothers, -⟩
        exact ⟨⟨b, hb⟩, others, hothers⟩
      · rintro ⟨⟨b, hb⟩, others, hothers⟩
        exact ⟨b :: others, b, hb, others, hothers, rfl⟩

/-- What can be seen of an optional result says that there is one. -/
theorem exists_ok_some {x : Except ε (Option α)} {f : α → β} {b : β}
    (h : x.toOption.bind (Option.map f) = some b) : ∃ a, x = .ok (some a) ∧ f a = b := by
  rcases x with e | _ | a
  · simp [Except.toOption] at h
  · simp [Except.toOption] at h
  · exact ⟨a, rfl, by simpa [Except.toOption] using h⟩

/-- What holds at the start of a run, and is kept by every step that succeeds, holds at the
end; it may speak of the items read so far. -/
theorem foldlM_induction {P : List α → β → Prop} {f : β → α → Except ε β}
    (step : ∀ read state item state', P read state → f state item = .ok state' →
      P (read ++ [item]) state')
    {items : List α} {start final : β} (h0 : P [] start)
    (h : items.foldlM f start = .ok final) : P items final := by
  suffices hrun : ∀ (rest read : List α) (state : β), P read state →
      rest.foldlM f state = .ok final → P (read ++ rest) final by
    simpa using hrun items [] start h0 h
  intro rest
  induction rest with
  | nil =>
      intro read state hstate hfinal
      cases hfinal
      simpa using hstate
  | cons item rest ih =>
      intro read state hstate hfinal
      rw [List.foldlM_cons, bind_eq_ok_iff] at hfinal
      obtain ⟨next, hnext, hrest⟩ := hfinal
      simpa using ih (read ++ [item]) next (step read state item next hstate hnext) hrest

/-- Whether a result has `Q`, or a failure has `E`. -/
def Gives (x : Except ε α) (Q : α → Prop) (E : ε → Prop) : Prop :=
  match x with
  | .ok a => Q a
  | .error e => E e

section Gives

variable {Q : α → Prop} {E : ε → Prop}

@[simp]
theorem gives_ok {a : α} : Gives (.ok a : Except ε α) Q E ↔ Q a := Iff.rfl

/-- A sequence gives what its second part does of what the first gives. -/
@[simp]
theorem gives_bind {x : Except ε α} {f : α → Except ε β} {Q : β → Prop} :
    Gives (x >>= f) Q E ↔ Gives x (fun a => Gives (f a) Q E) E := by
  cases x <;> rfl

/-- What is given may be weakened, for results that come about and for failures. -/
theorem Gives.imp {x : Except ε α} {Q' : α → Prop} {E' : ε → Prop} (h : Gives x Q E)
    (hQ : ∀ a, x = .ok a → Q a → Q' a) (hE : ∀ e, E e → E' e) : Gives x Q' E' := by
  cases x with
  | ok a => exact hQ a rfl h
  | error e => exact hE e h

/-- What holds of the errors of a result may depend on what the result is. -/
theorem Gives.imp_error {x : Except ε α} {E' : ε → Prop} (h : Gives x Q E)
    (hE : ∀ e, x = .error e → E e → E' e) : Gives x Q E' := by
  cases x with
  | ok a => exact h
  | error e => exact hE e rfl h

/-- What a chain gives follows from what its first step gives. -/
theorem Gives.bind {x : Except ε α} {f : α → Except ε β} {R : β → Prop} (h : Gives x Q E)
    (hf : ∀ a, x = .ok a → Q a → Gives (f a) R E) : Gives (x >>= f) R E :=
  gives_bind.mpr (h.imp hf fun _ h => h)

/-- A run through a list whose steps all keep what holds of the results so far. -/
theorem Gives.mapM {P : List α → List β → Prop} {f : α → Except ε β} {items : List α}
    (h0 : P [] [])
    (step : ∀ read made item, item ∈ items → P read made →
      Gives (f item) (fun b => P (read ++ [item]) (made ++ [b])) E) :
    Gives (items.mapM f) (P items) E := by
  suffices hrun : ∀ (rest read : List α) (made : List β), (∀ item ∈ rest, item ∈ items) →
      P read made → Gives (rest.mapM f) (fun more => P (read ++ rest) (made ++ more)) E by
    simpa using hrun items [] [] (fun _ h => h) h0
  intro rest
  induction rest with
  | nil =>
      intro read made _ hmade
      simpa using hmade
  | cons item rest ih =>
      intro read made hrest hmade
      rw [List.mapM_cons]
      refine (step read made item (hrest item (List.mem_cons_self ..)) hmade).bind ?_
      intro b _ hb
      have hmore := ih _ _ (fun other h => hrest other (List.mem_cons_of_mem _ h)) hb
      refine hmore.bind ?_
      intro more _ hall
      simpa using hall

/-- A fold whose steps all keep what holds. -/
theorem Gives.foldlM {P : β → Prop} {f : β → α → Except ε β} {items : List α} {start : β}
    (h0 : P start) (step : ∀ state item, item ∈ items → P state → Gives (f state item) P E) :
    Gives (items.foldlM f start) P E := by
  induction items generalizing start with
  | nil => exact h0
  | cons item rest ih =>
      rw [List.foldlM_cons]
      refine (step start item (List.mem_cons_self ..) h0).bind ?_
      intro next _ hnext
      exact ih hnext fun state other h => step state other (List.mem_cons_of_mem _ h)

/-- A run whose steps, each from where the run has come to, all end well or with `E`. -/
theorem Gives.foldlM_reached {f : β → α → Except ε β} {items : List α} {start : β}
    (step : ∀ read state item rest, items = read ++ item :: rest →
      read.foldlM f start = .ok state → Gives (f state item) (fun _ => True) E) :
    Gives (items.foldlM f start) (fun _ => True) E := by
  suffices hrun : ∀ (rest read : List α) (state : β), items = read ++ rest →
      read.foldlM f start = .ok state → Gives (rest.foldlM f state) (fun _ => True) E from
    hrun items [] start rfl rfl
  intro rest
  induction rest with
  | nil => exact fun _ _ _ _ => trivial
  | cons item rest ih =>
      intro read state hitems hread
      rw [List.foldlM_cons]
      refine (step read state item rest hitems hread).bind ?_
      intro next hnext _
      refine ih (read ++ [item]) next (by simpa using hitems) ?_
      rw [List.foldlM_append, hread, ok_bind, List.foldlM_cons, hnext]
      rfl

end Gives

end Results

/-! ## Results with a state -/

section States

variable {ε σ α β : Type}

/-- Runs can be compared with their states. -/
instance decidableEqResult [DecidableEq ε] [DecidableEq σ] [DecidableEq α] :
    DecidableEq (EStateM.Result ε σ α)
  | .ok a s, .ok b s' => decidable_of_iff (a = b ∧ s = s') (by simp)
  | .error e s, .error e' s' => decidable_of_iff (e = e' ∧ s = s') (by simp)
  | .ok .., .error .. => .isFalse (by simp)
  | .error .., .ok .. => .isFalse (by simp)

/-- A chain of two steps succeeds exactly if both do, the second from where the first
ended. -/
theorem run_bind_eq_ok_iff {x : EStateM ε σ α} {f : α → EStateM ε σ β} {s s' : σ} {b : β} :
    (x >>= f).run s = .ok b s' ↔ ∃ a s₁, x.run s = .ok a s₁ ∧ (f a).run s₁ = .ok b s' := by
  rw [EStateM.run_bind]
  cases x.run s with
  | ok a s₁ =>
      constructor
      · exact fun h => ⟨a, s₁, rfl, h⟩
      · rintro ⟨_, _, ⟨rfl, rfl⟩, h⟩
        exact h
  | error e s₁ => simp

/-- A run through a list succeeds exactly if its first step does, and the run through the rest
from where that ended. -/
theorem run_mapM_cons_eq_ok_iff {f : α → EStateM ε σ β} {item : α} {rest : List α} {s s' : σ}
    {made : List β} :
    ((item :: rest).mapM f).run s = .ok made s' ↔
      ∃ b s₁ others, (f item).run s = .ok b s₁ ∧ (rest.mapM f).run s₁ = .ok others s' ∧
        made = b :: others := by
  simp only [List.mapM_cons, run_bind_eq_ok_iff, EStateM.run_pure, EStateM.Result.ok.injEq]
  constructor
  · rintro ⟨b, s₁, hfirst, others, _, hrest, rfl, rfl⟩
    exact ⟨b, s₁, others, hfirst, hrest, rfl⟩
  · rintro ⟨b, s₁, others, hfirst, hrest, rfl⟩
    exact ⟨b, s₁, hfirst, others, s', hrest, rfl, rfl⟩

/-- Whether a run from `s` ends in a result and a state with `Q`, or in a failure and a state
with `E`. -/
def Ends (x : EStateM ε σ α) (s : σ) (Q : α → σ → Prop) (E : ε → σ → Prop) : Prop :=
  match x.run s with
  | .ok a s' => Q a s'
  | .error e s' => E e s'

section Ends

variable {s : σ} {Q : α → σ → Prop} {E : ε → σ → Prop}

@[simp]
theorem ends_pure {a : α} : Ends (pure a : EStateM ε σ α) s Q E ↔ Q a s := Iff.rfl

@[simp]
theorem ends_get {Q : σ → σ → Prop} : Ends (get : EStateM ε σ σ) s Q E ↔ Q s s := Iff.rfl

@[simp]
theorem ends_modify {f : σ → σ} {Q : PUnit → σ → Prop} :
    Ends (modify f : EStateM ε σ PUnit) s Q E ↔ Q ⟨⟩ (f s) := Iff.rfl

/-- A sequence ends as its second part does from where the first ends. -/
@[simp]
theorem ends_bind {x : EStateM ε σ α} {f : α → EStateM ε σ β} {Q : β → σ → Prop} :
    Ends (x >>= f) s Q E ↔ Ends x s (fun a s' => Ends (f a) s' Q E) E := by
  unfold Ends
  rw [EStateM.run_bind]
  cases x.run s <;> rfl

/-- What has no state ends in the one it began with. -/
theorem ends_ofExcept {x : Except ε α} :
    Ends (MonadExcept.ofExcept x : EStateM ε σ α) s Q E ↔
      Gives x (fun a => Q a s) fun e => E e s := by
  cases x <;> rfl

/-- What a run ends in may be weakened. -/
theorem Ends.imp {x : EStateM ε σ α} {Q' : α → σ → Prop} {E' : ε → σ → Prop} (h : Ends x s Q E)
    (hQ : ∀ a s', Q a s' → Q' a s') (hE : ∀ e s', E e s' → E' e s') : Ends x s Q' E' := by
  unfold Ends at h ⊢
  cases hrun : x.run s with
  | ok a s' =>
      rw [hrun] at h
      exact hQ a s' h
  | error e s' =>
      rw [hrun] at h
      exact hE e s' h

/-- A failure has what a run ends with. -/
theorem Ends.of_error {x : EStateM ε σ α} (h : Ends x s Q E) {e : ε} {s' : σ}
    (hrun : x.run s = .error e s') : E e s' := by
  unfold Ends at h
  rwa [hrun] at h

/-- How a chain ends follows from how its first step ends. -/
theorem Ends.bind {x : EStateM ε σ α} {f : α → EStateM ε σ β} {R : β → σ → Prop}
    (h : Ends x s Q E) (hf : ∀ a s', Q a s' → Ends (f a) s' R E) : Ends (x >>= f) s R E :=
  ends_bind.mpr (h.imp hf fun _ _ h => h)

/-- A run through a list whose steps all keep what holds of the results so far. -/
theorem Ends.mapM {P : List α → List β → σ → Prop} {f : α → EStateM ε σ β} {items : List α}
    (h0 : P [] [] s)
    (step : ∀ read made s item, item ∈ items → P read made s →
      Ends (f item) s (fun b s' => P (read ++ [item]) (made ++ [b]) s') E) :
    Ends (items.mapM f) s (P items) E := by
  suffices hrun : ∀ (rest read : List α) (made : List β) (s : σ), (∀ item ∈ rest, item ∈ items) →
      P read made s → Ends (rest.mapM f) s (fun more s' => P (read ++ rest) (made ++ more) s') E by
    simpa using hrun items [] [] s (fun _ h => h) h0
  intro rest
  induction rest with
  | nil =>
      intro read made s _ hmade
      simpa using hmade
  | cons item rest ih =>
      intro read made s hrest hmade
      rw [List.mapM_cons]
      refine (step read made s item (hrest item (List.mem_cons_self ..)) hmade).bind ?_
      intro b s' hb
      have hmore := ih _ _ s' (fun other h => hrest other (List.mem_cons_of_mem _ h)) hb
      refine hmore.bind ?_
      intro more s'' hall
      simpa using hall

/-- A run through a list whose steps all end in what goes with their items. -/
theorem Ends.forall₂_mapM {R : α → β → Prop} {f : α → EStateM ε σ β} {items : List α}
    (step : ∀ item ∈ items, ∀ s, Ends (f item) s (fun b _ => R item b) E) :
    Ends (items.mapM f) s (fun made _ => List.Forall₂ R items made) E := by
  refine Ends.mapM (P := fun read made _ => List.Forall₂ R read made) .nil ?_
  intro read made s item hitem hmade
  refine (step item hitem s).imp ?_ fun _ _ h => h
  exact fun b _ hb => List.rel_append hmade (.cons hb .nil)

end Ends

/-- Whether a run from `s`, if it succeeds, ends in a result and a state with `Q`. -/
abbrev Yields (x : EStateM ε σ α) (s : σ) (Q : α → σ → Prop) : Prop := Ends x s Q fun _ _ => True

/-- A run yields what holds of each of its successes. -/
theorem yields_iff {x : EStateM ε σ α} {s : σ} {Q : α → σ → Prop} :
    Yields x s Q ↔ ∀ a s', x.run s = .ok a s' → Q a s' := by
  unfold Yields Ends
  cases x.run s with
  | ok a s' => simp
  | error e s' => simp

/-- Nothing is claimed of a run by what always holds. -/
theorem yields_true (x : EStateM ε σ α) (s : σ) : Yields x s fun _ _ => True :=
  yields_iff.mpr fun _ _ _ => trivial

/-- What holds of success holds besides. -/
theorem Ends.and {x : EStateM ε σ α} {s : σ} {Q Q' : α → σ → Prop} {E : ε → σ → Prop}
    (h : Ends x s Q E) (h' : Yields x s Q') : Ends x s (fun a s' => Q a s' ∧ Q' a s') E := by
  unfold Yields Ends at *
  cases hrun : x.run s with
  | ok a s' =>
      rw [hrun] at h h'
      exact ⟨h, h'⟩
  | error e s' =>
      rw [hrun] at h
      exact h

end States
end DiceNotation

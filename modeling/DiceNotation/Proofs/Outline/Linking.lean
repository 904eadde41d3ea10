import DiceNotation.Outline.Slots
import DiceNotation.Proofs.Steps

/-!
# Linking

Of two neighbours that are linked, one takes the other into an empty slot; neighbours of
which neither is an operator stay apart.

Main definitions:

- `Outline.Fills`: an operand is put into an empty slot of an outline.
- `Outline.Takes`: one of two neighbours takes the other.

Main results:

- `Outline.Takes.fills`: taking a neighbour fills a slot, on whichever side it is.
- `Outline.linkNext_cons_eq_ok_iff`: the three ways to link one more element.
- `Outline.link_induction`: what each taking keeps holds of the one outline that is left.
- `Outline.kept_link`: so what elements have it has, if operators have what their sides have.
- `Outline.link_solid`: linking makes no empty slot of elements that are none.
-/

namespace DiceNotation
namespace Outline

variable {operand outline filled : Outline}

/-- What is no empty slot is not empty. -/
theorem isEmpty_eq_false (h : outline = .empty → False) : outline.isEmpty = false := by
  cases outline with
  | empty => exact (h rfl).elim
  | leaf | math | group => rfl

/-! ## Filled slots -/

/-- An outline before and after an operand was put into one of its empty slots. -/
inductive Fills (operand : Outline) : Outline → Outline → Prop
  | left (symbol : Text) (right : Outline) :
    Fills operand (.math symbol .empty right) (.math symbol operand right)
  | right (symbol : Text) (left : Outline) :
    Fills operand (.math symbol left .empty) (.math symbol left operand)
  | withinLeft (symbol : Text) (right : Outline) {left taken : Outline} :
    Fills operand left taken → Fills operand (.math symbol left right) (.math symbol taken right)
  | withinRight (symbol : Text) (left : Outline) {right taken : Outline} :
    Fills operand right taken → Fills operand (.math symbol left right) (.math symbol left taken)

/-- A slot filled on the left is filled. -/
theorem fills_of_fillLeft? (h : fillLeft? operand outline = some filled) :
    Fills operand outline filled := by
  induction outline using fillLeft?.induct operand generalizing filled with
  | case1 symbol right =>
      cases h
      exact .left symbol right
  | case2 symbol left right hleft taken htaken ih =>
      rw [fillLeft?.eq_2 _ _ _ _ hleft, htaken] at h
      cases h
      exact .withinLeft symbol right (ih htaken)
  | case3 symbol left right hleft hnone ihleft ihright =>
      rw [fillLeft?.eq_2 _ _ _ _ hleft, hnone] at h
      simp only [Option.map_eq_some_iff] at h
      rcases h with ⟨taken, htaken, rfl⟩
      exact .withinRight symbol left (ihright htaken)
  | case4 outline hempty hmath =>
      rw [fillLeft?.eq_3 _ _ hempty hmath] at h
      simp at h

/-- So is a slot filled on the right. -/
theorem fills_of_fillRight? (h : fillRight? operand outline = some filled) :
    Fills operand outline filled := by
  induction outline using fillRight?.induct operand generalizing filled with
  | case1 symbol left =>
      cases h
      exact .right symbol left
  | case2 symbol left right hright taken htaken ih =>
      rw [fillRight?.eq_2 _ _ _ _ hright, htaken] at h
      cases h
      exact .withinRight symbol left (ih htaken)
  | case3 symbol left right hright hnone ihright ihleft =>
      rw [fillRight?.eq_2 _ _ _ _ hright, hnone] at h
      simp only [Option.map_eq_some_iff] at h
      rcases h with ⟨taken, htaken, rfl⟩
      exact .withinLeft symbol right (ihleft htaken)
  | case4 outline hempty hmath =>
      rw [fillRight?.eq_3 _ _ hempty hmath] at h
      simp at h

/-- Only an operator takes an operand. -/
theorem Fills.isMath (h : Fills operand outline filled) :
    outline.isMath = true ∧ filled.isMath = true := by
  cases h <;> exact ⟨rfl, rfl⟩

/-- Arithmetic is no empty slot. -/
theorem isEmpty_of_isMath (h : outline.isMath = true) : outline.isEmpty = false := by
  cases outline with
  | math => rfl
  | empty | leaf | group => simp [isMath] at h

/-! ## One more element -/

/-- One more element stands apart from the one before it, or is taken by it, or takes it. -/
theorem linkNext_cons_eq_ok_iff {previous element : Outline} {earlier linked : List Outline} :
    linkNext (previous :: earlier) element = .ok linked ↔
      (previous.isMath = false ∧ element.isMath = false ∧
        linked = element :: previous :: earlier) ∨
      (∃ filled, fillRight? element previous = some filled ∧
        fillLeft? previous element = none ∧ linked = filled :: earlier) ∨
      (∃ filled, fillRight? element previous = none ∧
        fillLeft? previous element = some filled ∧ linked = filled :: earlier) := by
  have hright : ∀ filled, fillRight? element previous = some filled → previous.isMath = true :=
    fun filled h => (fills_of_fillRight? h).isMath.1
  have hleft : ∀ filled, fillLeft? previous element = some filled → element.isMath = true :=
    fun filled h => (fills_of_fillLeft? h).isMath.1
  unfold linkNext
  cases hr : fillRight? element previous <;> cases hl : fillLeft? previous element <;>
    cases hp : previous.isMath <;> cases he : element.isMath <;>
    simp_all <;> exact eq_comm

/-! ## One outline -/

/-- One of two neighbours takes the other into an empty slot, while the other cannot. -/
def Takes (previous element filled : Outline) : Prop :=
  (fillRight? element previous = some filled ∧ fillLeft? previous element = none) ∨
    (fillRight? element previous = none ∧ fillLeft? previous element = some filled)

/-- Of two neighbours that take each other one fills a slot of the other. -/
theorem Takes.fills {previous element : Outline} (h : Takes previous element filled) :
    Fills element previous filled ∨ Fills previous element filled := by
  rcases h with ⟨hright, -⟩ | ⟨-, hleft⟩
  · exact .inl (fills_of_fillRight? hright)
  · exact .inr (fills_of_fillLeft? hleft)

/-- Where linking leaves no two outlines apart, each element was taken or has taken all
those before it. -/
theorem link_induction {P : List Outline → Outline → Prop} (first : ∀ element, P [element] element)
    (next : ∀ read previous element filled, P read previous → Takes previous element filled →
      P (read ++ [element]) filled)
    {elements linked : List Outline} (h : link elements = .ok linked) (hone : linked.length ≤ 1) :
    (elements = [] ∧ linked = []) ∨ ∃ outline, linked = [outline] ∧ P elements outline := by
  unfold link at h
  rw [bind_eq_ok_iff] at h
  rcases h with ⟨reversed, hreversed, heq⟩
  cases heq
  have hrun := foldlM_induction
    (P := fun read linked => linked.length ≤ 1 →
      (read = [] ∧ linked = []) ∨ ∃ outline, linked = [outline] ∧ P read outline)
    (fun read linked element linked' hlinked hstep hlength => by
      right
      cases linked with
      | nil =>
          cases hstep
          rcases hlinked (by simp) with ⟨rfl, -⟩ | ⟨_, heq, -⟩
          · exact ⟨element, rfl, first element⟩
          · simp at heq
      | cons previous earlier =>
          have htaken : ∃ filled, linked' = filled :: earlier ∧ Takes previous element filled := by
            rcases linkNext_cons_eq_ok_iff.mp hstep with
              ⟨-, -, rfl⟩ | ⟨filled, hright, hleft, rfl⟩ | ⟨filled, hright, hleft, rfl⟩
            · simp at hlength
            · exact ⟨filled, rfl, .inl ⟨hright, hleft⟩⟩
            · exact ⟨filled, rfl, .inr ⟨hright, hleft⟩⟩
          rcases htaken with ⟨filled, rfl, htakes⟩
          have hearlier : earlier = [] := by simpa using hlength
          rcases hlinked (by simp [hearlier]) with ⟨-, heq⟩ | ⟨outline, heq, hP⟩
          · simp at heq
          · cases heq
            exact ⟨filled, rfl, next read previous element filled hP htakes⟩)
    (by simp) hreversed
  rcases hrun (by simpa using hone) with ⟨rfl, rfl⟩ | ⟨outline, rfl, hP⟩
  · exact .inl ⟨rfl, rfl⟩
  · exact .inr ⟨outline, rfl, hP⟩

/-! ## What linking keeps -/

section Kept

variable {P : Outline → Prop} {Q : Text → Prop}
  (hmath : ∀ symbol left right, P (.math symbol left right) ↔ Q symbol ∧ P left ∧ P right)
include hmath

/-- What an operator has just if both its sides have it is kept where an operand is taken. -/
theorem Fills.kept (h : Fills operand outline filled) (hoperand : P operand)
    (houtline : P outline) : P filled := by
  induction h with
  | left symbol right =>
      rw [hmath] at houtline ⊢
      exact ⟨houtline.1, hoperand, houtline.2.2⟩
  | right symbol left =>
      rw [hmath] at houtline ⊢
      exact ⟨houtline.1, houtline.2.1, hoperand⟩
  | withinLeft symbol right _ ih =>
      rw [hmath] at houtline ⊢
      exact ⟨houtline.1, ih houtline.2.1, houtline.2.2⟩
  | withinRight symbol left _ ih =>
      rw [hmath] at houtline ⊢
      exact ⟨houtline.1, houtline.2.1, ih houtline.2.2⟩

/-- So what all elements have, the one outline has that is left of them. -/
theorem kept_link {elements linked : List Outline} (h : link elements = .ok linked)
    (hone : linked.length ≤ 1) (hkept : ∀ element ∈ elements, P element) :
    ∀ outline ∈ linked, P outline := by
  have hlink := link_induction
    (P := fun elements outline => (∀ element ∈ elements, P element) → P outline)
    (fun element hkept => hkept element (by simp))
    (fun read previous element filled hprevious htakes hkept => by
      have hread := hprevious fun other hmem => hkept other (by simp [hmem])
      have helement := hkept element (by simp)
      rcases htakes.fills with hfills | hfills
      · exact hfills.kept hmath helement hread
      · exact hfills.kept hmath hread helement)
    h hone
  rcases hlink with ⟨-, rfl⟩ | ⟨outline, rfl, houtline⟩
  · simp
  · simpa using houtline hkept

end Kept

/-! ## Empty slots -/

/-- Linking makes no empty slot of elements that are none, and leaves an element. -/
theorem linkNext_solid {linked linked' : List Outline} {element : Outline}
    (h : linkNext linked element = .ok linked')
    (hsolid : ∀ other ∈ linked, other.isEmpty = false) (helement : element.isEmpty = false) :
    linked' ≠ [] ∧ ∀ other ∈ linked', other.isEmpty = false := by
  cases linked with
  | nil =>
      obtain rfl : [element] = linked' := by simpa [linkNext] using h
      simpa using helement
  | cons previous earlier =>
      rw [linkNext_cons_eq_ok_iff] at h
      simp only [List.mem_cons, forall_eq_or_imp] at hsolid
      rcases h with ⟨-, -, rfl⟩ | ⟨filled, hfilled, -, rfl⟩ | ⟨filled, -, hfilled, rfl⟩
      · simpa using ⟨helement, hsolid⟩
      · simpa using ⟨isEmpty_of_isMath (fills_of_fillRight? hfilled).isMath.2, hsolid.2⟩
      · simpa using ⟨isEmpty_of_isMath (fills_of_fillLeft? hfilled).isMath.2, hsolid.2⟩

/-- Linked elements leave something, and nothing empty. -/
theorem link_solid {elements linked : List Outline} (h : link elements = .ok linked)
    (hsolid : ∀ element ∈ elements, element.isEmpty = false) (hne : elements ≠ []) :
    linked ≠ [] ∧ ∀ element ∈ linked, element.isEmpty = false := by
  unfold link at h
  rw [bind_eq_ok_iff] at h
  obtain ⟨reversed, hreversed, heq⟩ := h
  cases heq
  have hrun := foldlM_induction
    (P := fun read linked => (∀ element ∈ read, element.isEmpty = false) →
      (read ≠ [] → linked ≠ []) ∧ ∀ element ∈ linked, element.isEmpty = false)
    (fun read linked element linked' hlinked hstep hread => by
      simp only [List.mem_append, List.mem_singleton] at hread
      have hnext := linkNext_solid hstep (hlinked fun other hmem => hread other (.inl hmem)).2
        (hread element (.inr rfl))
      exact ⟨fun _ => hnext.1, hnext.2⟩)
    (by simp) hreversed
  simpa using ⟨(hrun hsolid).1 hne, (hrun hsolid).2⟩

end Outline
end DiceNotation

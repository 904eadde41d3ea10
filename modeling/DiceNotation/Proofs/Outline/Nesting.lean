import DiceNotation.Proofs.Outline.Linking
import DiceNotation.Proofs.Outline.Written

/-!
# Nesting

A text that is accepted on its own is read in just the same way inside a bracket: the walk
through it never looks at what stands around it.

Main definitions:

- `Surroundings.within`, `Walk.within`: a walk that goes on inside further surroundings.
- `Outline.Reads`: a text that is accepted, with the elements found in it.
- `Outline.Walk.Solid`: a walk that has found no empty slot as an element.

Main results:

- `Outline.walk_within`: the walk through a text is the same inside further surroundings.
- `Outline.Reads.bracketed`: a bracketed text becomes one element of what stands around it.
- `Outline.ofText_eq_ok_iff`: the outline of a text is the one element found in it.
- `Outline.Reads.exists_element`: there is one, and it is no empty slot, unless there is no
  text.
-/

namespace DiceNotation
namespace Outline

/-! ## Walks inside further surroundings -/

/-- What is open, inside further surroundings. -/
def Surroundings.within (base : Surroundings) : Surroundings → Surroundings
  | .top => base
  | .bracket function outer before => .bracket function (within base outer) before
  | .list entries outer before => .list entries (within base outer) before

/-- A walk inside further surroundings, which began `shift` places into the text. -/
def Walk.within (base : Surroundings) (shift : Nat) (walk : Walk) : Walk :=
  { walk with
    place := walk.place + shift
    surroundings := base.within walk.surroundings }

section Within

variable {base : Surroundings} {shift : Nat} {walk walk' : Walk} {c : Char}

@[simp]
theorem content_within : (walk.within base shift).content = walk.content := rfl

/-- A list inside other surroundings is settled as outside them. -/
@[simp]
theorem settle_within : (walk.within base shift).settle = walk.settle.within base shift := by
  obtain ⟨place, surroundings, elements, buffer, closed⟩ := walk
  cases closed <;> rfl

/-- No way to move on looks at what stands around. -/
theorem move_within (h : walk.Move c walk') :
    (walk.within base shift).Move c (walk'.within base shift) := by
  cases h with
  | openBracket hbefore =>
      have hmove : (walk.within base shift).Move '(' _ := .openBracket hbefore
      simpa [Walk.within, Surroundings.within, Walk.function, Nat.add_right_comm] using hmove
  | openList hfunction hbefore =>
      have hmove : (walk.within base shift).Move '\x7b' _ := .openList hfunction hbefore
      simpa [Walk.within, Surroundings.within, Nat.add_right_comm] using hmove
  | @closeBracket function outer before _ hopen hcontent =>
      have hwithin : (walk.within base shift).surroundings =
          .bracket function (base.within outer) before := by
        rw [Walk.within, hopen, Surroundings.within]
      have hmove := Walk.Move.closeBracket hwithin hcontent
      simpa [Walk.within, Nat.add_right_comm] using hmove
  | @endEntry entries before _ outer hopen hcontent =>
      have hwithin : (walk.within base shift).surroundings =
          .list entries (base.within outer) before := by
        rw [Walk.within, hopen, Surroundings.within]
      have hmove := Walk.Move.endEntry hwithin hcontent
      simpa [Walk.within, Surroundings.within, Nat.add_right_comm] using hmove
  | @closeList entries before _ outer hopen hcontent =>
      have hwithin : (walk.within base shift).surroundings =
          .list entries (base.within outer) before := by
        rw [Walk.within, hopen, Surroundings.within]
      have hmove := Walk.Move.closeList hwithin hcontent
      simpa [Walk.within, Nat.add_right_comm] using hmove
  | take hc =>
      have hmove : (walk.within base shift).Move c _ := .take hc
      simpa [Walk.within, Nat.add_right_comm] using hmove

/-- A step that succeeds does not look at what stands around. -/
theorem step_within (h : walk.step c = .ok walk') :
    (walk.within base shift).step c = .ok (walk'.within base shift) := by
  rw [Walk.step_eq_ok_iff] at h ⊢
  rcases h with ⟨list, hclosed, hc, rfl⟩ | ⟨hends, hmove⟩
  · left
    exact ⟨list, hclosed, hc, by simp [Walk.within, Nat.add_right_comm]⟩
  · right
    rw [settle_within]
    exact ⟨hends, move_within hmove⟩

/-- The walk through a text that is accepted does not look at what stands around it. -/
theorem walk_within {text : Text} (h : text.foldlM Walk.step walk = .ok walk') :
    text.foldlM Walk.step (walk.within base shift) = .ok (walk'.within base shift) := by
  induction text generalizing walk with
  | nil =>
      cases h
      rfl
  | cons c rest ih =>
      rw [List.foldlM_cons, bind_eq_ok_iff] at h ⊢
      obtain ⟨next, hstep, hrest⟩ := h
      exact ⟨_, step_within hstep, ih hrest⟩

end Within

/-- A walk moves one place for each character. -/
theorem place_of_walk {text : Text} {walk : Walk}
    (h : text.foldlM Walk.step {} = .ok walk) : walk.place = text.length := by
  refine foldlM_induction (P := fun read walk => walk.place = read.length) ?_ rfl h
  intro read walk c walk' hplace hstep
  rw [Walk.step_eq_ok_iff] at hstep
  rcases hstep with ⟨list, -, -, rfl⟩ | ⟨-, hmove⟩
  · simp [hplace]
  · cases hmove <;> simp [hplace]

/-! ## Texts that are accepted -/

/-- A text that is accepted on its own, with the elements found in it once they have been
linked. -/
def Reads (text : Text) (content : List Outline) : Prop :=
  ∃ walk : Walk, text.foldlM Walk.step {} = .ok walk ∧
    walk.surroundings = .top ∧ walk.settle.content = .ok content

/-- The outline of a text is the element found in it, if there is one. -/
theorem ofText_eq_ok_iff {text : Text} {outline : Outline} :
    ofText text = .ok outline ↔
      ∃ content, Reads text content ∧ outline = content.head?.getD .empty := by
  unfold ofText
  rw [bind_eq_ok_iff]
  constructor
  · rintro ⟨walk, hwalk, hfinish⟩
    unfold Walk.finish at hfinish
    simp only [Walk.settle_surroundings] at hfinish
    split at hfinish
    · next htop =>
        rw [bind_eq_ok_iff] at hfinish
        obtain ⟨content, hcontent, heq⟩ := hfinish
        cases heq
        exact ⟨content, ⟨walk, hwalk, htop, hcontent⟩, rfl⟩
    · simp at hfinish
  · rintro ⟨content, ⟨walk, hwalk, htop, hcontent⟩, rfl⟩
    refine ⟨walk, hwalk, ?_⟩
    simp [Walk.finish, htop, hcontent]

/-- The outline of a text in brackets. -/
def bracketed (function : Text) (content : Outline) : Outline :=
  .group { function, terminator := some [')'] } [content]

/-- A bracket ends any suffix. -/
theorem continuesSuffix_of_isBracket {c : Char} (hc : isBracket c = true) (last : Option Char) :
    continuesSuffix last c = false := by
  simp only [isBracket, Bool.or_eq_true, beq_iff_eq] at hc
  rcases hc with (((rfl | rfl) | rfl) | rfl) | rfl <;> rfl

/-- A text in brackets becomes one element of what stands around it; the name of a function
before it belongs to it. -/
theorem Reads.bracketed {text : Text} {content : List Outline} (h : Reads text content)
    (walk : Walk) (before : List Outline) (hclosed : walk.closed = none)
    (hbefore : elementsWith walk.elements (walk.buffer.drop walk.function.length) = .ok before) :
    ('(' :: text ++ [')']).foldlM Walk.step walk = .ok
      { place := walk.place + text.length + 2
        surroundings := walk.surroundings
        elements := before ++
          [.group { function := walk.function, terminator := some [')'] } content] } := by
  obtain ⟨inner, hinner, htop, hcontent⟩ := h
  let base := Surroundings.bracket walk.function walk.surroundings before
  have hopen : walk.step '(' = .ok (Walk.within base (walk.place + 1) {}) := by
    rw [Walk.step_of_ends (continuesSuffix_of_isBracket rfl),
      Walk.settle_of_closed_eq_none hclosed, Walk.pass_eq_ok_iff]
    simpa [Walk.within, base, Surroundings.within] using Walk.Move.openBracket hbefore
  have hclose : (inner.within base (walk.place + 1)).step ')' = .ok
      { place := walk.place + text.length + 2
        surroundings := walk.surroundings
        elements := before ++
          [.group { function := walk.function, terminator := some [')'] } content] } := by
    rw [Walk.step_of_ends (continuesSuffix_of_isBracket rfl), Walk.pass_eq_ok_iff]
    have hbase : (inner.within base (walk.place + 1)).settle.surroundings = base := by
      simp [Walk.within, htop, Surroundings.within]
    have hmove := Walk.Move.closeBracket hbase (by simpa using hcontent)
    have hplace : inner.place + (walk.place + 1) + 1 = walk.place + text.length + 2 := by
      rw [place_of_walk hinner]
      omega
    simpa [Walk.within, hplace] using hmove
  rw [List.cons_append, List.foldlM_cons, hopen, ok_bind, List.foldlM_append,
    walk_within hinner, ok_bind, List.foldlM_cons, hclose, ok_bind, List.foldlM_nil, pure_eq_ok]

/-! ## What is found in a text -/

/-- No element that stands before what is open is an empty slot. -/
def Surroundings.Solid : Surroundings → Prop
  | .top => True
  | .bracket _ outer before => (∀ element ∈ before, element.isEmpty = false) ∧ outer.Solid
  | .list _ outer before => (∀ element ∈ before, element.isEmpty = false) ∧ outer.Solid

/-- No element found in a walk is an empty slot. -/
structure Walk.Solid (walk : Walk) : Prop where
  elements : ∀ element ∈ walk.elements, element.isEmpty = false
  surroundings : walk.surroundings.Solid

/-- Elements are not empty with the text behind them. -/
theorem elementsWith_solid {elements all : List Outline} {buffer : Text}
    (h : elementsWith elements buffer = .ok all)
    (hsolid : ∀ element ∈ elements, element.isEmpty = false) :
    ∀ element ∈ all, element.isEmpty = false :=
  forall_elementsWith h hsolid fun last hne hlast => isEmpty_ofMath hlast (by simpa using hne)

/-- Text in the buffer becomes an element. -/
theorem elementsWith_ne_nil {elements all : List Outline} {buffer : Text}
    (h : elementsWith elements buffer = .ok all) (hne : elements ≠ [] ∨ buffer ≠ []) :
    all ≠ [] := by
  rcases elementsWith_eq_ok_iff.mp h with ⟨hbuffer, rfl⟩ | ⟨-, last, -, rfl⟩
  · exact hne.resolve_right (not_not_intro hbuffer)
  · simp

section Solid

variable {walk walk' : Walk} {c : Char}

/-- Settling a list leaves nothing empty. -/
theorem Walk.Solid.settle (h : walk.Solid) : walk.settle.Solid := by
  refine ⟨?_, by simpa using h.surroundings⟩
  unfold Walk.settle
  cases walk.closed with
  | none => exact h.elements
  | some list =>
      intro element hmem
      rcases List.mem_append.mp hmem with hmem | hmem
      · exact h.elements element hmem
      · rw [List.mem_singleton.mp hmem]
        rfl

/-- Nor does a move. -/
theorem Walk.Solid.move (h : walk.Solid) (hmove : walk.Move c walk') : walk'.Solid := by
  cases hmove with
  | openBracket hbefore =>
      exact ⟨by simp, elementsWith_solid hbefore h.elements, h.surroundings⟩
  | openList hfunction hbefore =>
      exact ⟨by simp, elementsWith_solid hbefore h.elements, h.surroundings⟩
  | closeBracket hopen hcontent =>
      have hsurroundings := h.surroundings
      rw [hopen] at hsurroundings
      refine ⟨?_, hsurroundings.2⟩
      intro element hmem
      rcases List.mem_append.mp hmem with hmem | hmem
      · exact hsurroundings.1 element hmem
      · rw [List.mem_singleton.mp hmem]
        rfl
  | endEntry hopen hcontent =>
      have hsurroundings := h.surroundings
      rw [hopen] at hsurroundings
      exact ⟨by simp, hsurroundings⟩
  | closeList hopen hcontent =>
      have hsurroundings := h.surroundings
      rw [hopen] at hsurroundings
      exact ⟨hsurroundings.1, hsurroundings.2⟩
  | take hc => exact ⟨h.elements, h.surroundings⟩

/-- Nor does any step. -/
theorem Walk.Solid.step (h : walk.Solid) (hstep : walk.step c = .ok walk') : walk'.Solid := by
  rw [Walk.step_eq_ok_iff] at hstep
  rcases hstep with ⟨list, -, -, rfl⟩ | ⟨-, hmove⟩
  · exact ⟨h.elements, h.surroundings⟩
  · exact h.settle.move hmove

/-- No walk finds an empty slot as an element. -/
theorem solid_of_walk {text : Text} (h : text.foldlM Walk.step {} = .ok walk) : walk.Solid :=
  foldlM_induction (P := fun _ walk => walk.Solid)
    (fun _ _ _ _ hsolid hstep => hsolid.step hstep) ⟨by simp, trivial⟩ h

/-- After a step there is something in the walk, unless something is still open. -/
theorem occupied_of_step (hstep : walk.step c = .ok walk') (htop : walk'.surroundings = .top) :
    walk'.settle.elements ≠ [] ∨ walk'.settle.buffer ≠ [] := by
  rw [Walk.step_eq_ok_iff] at hstep
  rcases hstep with ⟨list, -, -, rfl⟩ | ⟨-, hmove⟩
  · simp [Walk.settle]
  · cases hmove with
    | openBracket | openList | endEntry => simp at htop
    | closeBracket | closeList => simp [Walk.settle]
    | take => simp

end Solid

/-- In a text that is not empty there is one element, and it is no empty slot. -/
theorem Reads.exists_element {text : Text} {content : List Outline} (h : Reads text content)
    (htext : text ≠ []) : ∃ element, content = [element] ∧ element.isEmpty = false := by
  obtain ⟨walk, hwalk, htop, hcontent⟩ := h
  have hsolid := (solid_of_walk hwalk).settle
  have hoccupied : walk.settle.elements ≠ [] ∨ walk.settle.buffer ≠ [] := by
    rw [← List.dropLast_concat_getLast htext, List.foldlM_append, bind_eq_ok_iff] at hwalk
    obtain ⟨last, -, hlast⟩ := hwalk
    rw [List.foldlM_cons, bind_eq_ok_iff] at hlast
    obtain ⟨final, hstep, heq⟩ := hlast
    cases heq
    exact occupied_of_step hstep htop
  obtain ⟨all, hall, hlinked, hlength⟩ := Walk.content_eq_ok_iff.mp hcontent
  have hlink := link_solid hlinked (elementsWith_solid hall hsolid.elements)
    (elementsWith_ne_nil hall hoccupied)
  match content, hlink with
  | [element], hlink => exact ⟨element, rfl, hlink.2 element (List.mem_singleton.mpr rfl)⟩
  | [], hlink => exact absurd rfl hlink.1
  | _ :: _ :: _, _ => simp at hlength

end Outline
end DiceNotation

import DiceNotation.Outline.Brackets
import DiceNotation.Proofs.Steps

/-!
# Moves of a walk

A walk through a text moves in one of seven ways: it opens a bracket or a list, closes a
bracket, ends an entry, closes a list, reads a character of the suffix of a list that has
closed, or takes any other character into its buffer.

Main definitions:

- `Outline.isBracket`: the characters that are not taken into a buffer.
- `Walk.Move`: the ways to move on that are open to a walk whose suffix has ended.

Main results:

- `elementsWith_eq_ok_iff`: the elements that are found where characters end.
- `Walk.content_eq_ok_iff`: how the content of a bracket or an entry comes about.
- `Walk.pass_eq_ok_iff`, `Walk.step_eq_ok_iff`: a walk moves on exactly in these ways.
-/

namespace DiceNotation
namespace Outline

/-- The characters that open, close or divide a bracket or a list. -/
def isBracket (c : Char) : Bool :=
  c == '(' || c == ')' || c == '\x7b' || c == '\x7d' || c == ','

/-! ## Elements -/

section Elements

variable {elements all : List Outline} {buffer : Text}

/-- The characters since the last element are one more element, if there are any. -/
theorem elementsWith_eq_ok_iff :
    elementsWith elements buffer = .ok all ↔
      (buffer = [] ∧ all = elements) ∨
      (buffer ≠ [] ∧ ∃ last, ofMath buffer.reverse (!elements.isEmpty) = .ok last ∧
        all = elements ++ [last]) := by
  unfold elementsWith
  cases buffer with
  | nil => simp [eq_comm]
  | cons c buffer =>
      rw [if_neg (by simp), bind_eq_ok_iff]
      simp [eq_comm]

/-- So what the elements found have, and that of the last characters has, all elements have. -/
theorem forall_elementsWith {P : Outline → Prop} (h : elementsWith elements buffer = .ok all)
    (helements : ∀ element ∈ elements, P element)
    (hlast : ∀ last, buffer ≠ [] → ofMath buffer.reverse (!elements.isEmpty) = .ok last → P last) :
    ∀ element ∈ all, P element := by
  rcases elementsWith_eq_ok_iff.mp h with ⟨-, rfl⟩ | ⟨hbuffer, last, hmath, rfl⟩
  · exact helements
  · exact List.forall_mem_append.mpr
      ⟨helements, List.forall_mem_singleton.mpr (hlast last hbuffer hmath)⟩

end Elements

namespace Walk

/-- The name of a function at the end of the buffer. -/
def function (walk : Walk) : Text := functionSuffix walk.buffer.reverse

/-- The ways to move on that are open to a walk whose suffix has ended. -/
inductive Move (walk : Walk) : Char → Walk → Prop where
  | openBracket {before : List Outline}
      (hbefore : elementsWith walk.elements (walk.buffer.drop walk.function.length) = .ok before) :
      Move walk '('
        { place := walk.place + 1
          surroundings := .bracket walk.function walk.surroundings before }
  | openList {before : List Outline} (hfunction : walk.function = [])
      (hbefore : elementsWith walk.elements walk.buffer = .ok before) :
      Move walk '\x7b'
        { place := walk.place + 1, surroundings := .list [] walk.surroundings before }
  | closeBracket {function : Text} {outer : Surroundings} {before content : List Outline}
      (hopen : walk.surroundings = .bracket function outer before)
      (hcontent : walk.content = .ok content) :
      Move walk ')'
        { place := walk.place + 1
          surroundings := outer
          elements := before ++ [.group { function, terminator := some [')'] } content] }
  | endEntry {entries before content : List Outline} {outer : Surroundings}
      (hopen : walk.surroundings = .list entries outer before)
      (hcontent : walk.content = .ok content) :
      Move walk ','
        { place := walk.place + 1
          surroundings := .list
            (if content.isEmpty then entries
              else entries ++ [.group { terminator := some [','] } content]) outer before }
  | closeList {entries before content : List Outline} {outer : Surroundings}
      (hopen : walk.surroundings = .list entries outer before)
      (hcontent : walk.content = .ok content) :
      Move walk '\x7d'
        { place := walk.place + 1
          surroundings := outer
          elements := before
          closed := some
            { entries := if content.isEmpty then entries
                else entries ++ [.group { terminator := some ['\x7d'] } content] } }
  | take {c : Char} (hc : isBracket c = false) :
      Move walk c { walk with place := walk.place + 1, buffer := c :: walk.buffer }

section Steps

variable {walk walk' : Walk} {c : Char}

/-! ## Suffixes that end -/

/-- Where no list has just closed, there is nothing to settle. -/
theorem settle_of_closed_eq_none (h : walk.closed = none) : walk.settle = walk := by
  simp [settle, h]

/-- Settling a list stays in its place. -/
@[simp]
theorem settle_surroundings : walk.settle.surroundings = walk.surroundings := by
  unfold settle
  split <;> rfl

@[simp]
theorem settle_buffer : walk.settle.buffer = walk.buffer := by
  unfold settle
  split <;> rfl

@[simp]
theorem settle_place : walk.settle.place = walk.place := by
  unfold settle
  split <;> rfl

@[simp]
theorem settle_closed : walk.settle.closed = none := by
  unfold settle
  split <;> simp_all

/-- What a bracket or an entry holds is what is left of its elements, one at most. -/
theorem content_eq_ok_iff {content : List Outline} :
    walk.content = .ok content ↔
      ∃ elements, elementsWith walk.elements walk.buffer = .ok elements ∧
        link elements = .ok content ∧ content.length ≤ 1 := by
  unfold Walk.content
  simp only [bind_eq_ok_iff]
  constructor
  · rintro ⟨elements, helements, linked, hlinked, hcount⟩
    split at hcount
    · simp at hcount
    · next hlength =>
        cases hcount
        exact ⟨elements, helements, hlinked, by omega⟩
  · rintro ⟨elements, helements, hlinked, hlength⟩
    exact ⟨elements, helements, content, hlinked, if_neg (by omega)⟩

/-! ## Ways to move on -/

/-- Opening a bracket is a move. -/
theorem move_of_openBracket (h : walk.openBracket = .ok walk') : walk.Move '(' walk' := by
  rw [openBracket, bind_eq_ok_iff] at h
  obtain ⟨before, hbefore, heq⟩ := h
  cases heq
  exact .openBracket hbefore

/-- Opening a list is a move. -/
theorem move_of_openList (h : walk.openList = .ok walk') : walk.Move '\x7b' walk' := by
  unfold openList at h
  simp only at h
  split at h
  · simp at h
  · next hfunction =>
      rw [bind_eq_ok_iff] at h
      obtain ⟨before, hbefore, heq⟩ := h
      cases heq
      exact .openList (by simpa [function] using hfunction) hbefore

/-- Ending a bracket, an entry or a list is a move. -/
theorem move_of_close (h : walk.close c = .ok walk') (hc : c = ')' ∨ c = '\x7d' ∨ c = ',') :
    walk.Move c walk' := by
  unfold close at h
  split at h
  · simp at h
  · next hopen =>
      split at h
      · simp at h
      · next hterminator =>
          rw [bind_eq_ok_iff] at h
          obtain ⟨content, hcontent, heq⟩ := h
          obtain rfl : c = ')' := by simpa using hterminator
          cases heq
          exact .closeBracket hopen hcontent
  · next hopen =>
      split at h
      · simp at h
      · next hterminator =>
          rw [bind_eq_ok_iff] at h
          obtain ⟨content, hcontent, heq⟩ := h
          rcases hc with rfl | rfl | rfl
          · exact absurd rfl hterminator
          · cases heq
            exact .closeList hopen hcontent
          · cases heq
            exact .endEntry hopen hcontent

/-- A step outside a suffix is a move. -/
theorem move_of_pass (h : walk.pass c = .ok walk') : walk.Move c walk' := by
  unfold pass at h
  split at h
  · next hc => subst hc; exact move_of_openBracket h
  · next hround =>
      split at h
      · next hc => subst hc; exact move_of_openList h
      · next hcurly =>
          split at h
          · next hc => exact move_of_close h hc
          · next hclose =>
              cases h
              exact .take (by simp_all [isBracket])

/-- A move is the step at its character. -/
theorem pass_of_move (h : walk.Move c walk') : walk.pass c = .ok walk' := by
  cases h with
  | openBracket hbefore =>
      simp only [function] at hbefore
      simp [pass, Walk.openBracket, hbefore, function]
  | openList hfunction hbefore =>
      simp only [function] at hfunction
      simp [pass, Walk.openList, hbefore, hfunction]
  | closeBracket hopen hcontent => simp [pass, close, hopen, hcontent]
  | endEntry hopen hcontent => simp [pass, close, hopen, hcontent]
  | closeList hopen hcontent => simp [pass, close, hopen, hcontent]
  | take hc =>
      simp only [isBracket, Bool.or_eq_false_iff, beq_eq_false_iff_ne] at hc
      simp [pass, hc]

/-- Past a character that belongs to no suffix, a walk moves on exactly in these ways. -/
theorem pass_eq_ok_iff : walk.pass c = .ok walk' ↔ walk.Move c walk' :=
  ⟨move_of_pass, pass_of_move⟩

/-- A walk moves on by a further character of a suffix, or once its suffix has ended. -/
theorem step_eq_ok_iff :
    walk.step c = .ok walk' ↔
      (∃ list, walk.closed = some list ∧ continuesSuffix list.suffix.head? c = true ∧
        walk' = { walk with
          place := walk.place + 1
          closed := some { list with suffix := c :: list.suffix } }) ∨
      ((∀ list, walk.closed = some list → continuesSuffix list.suffix.head? c = false) ∧
        walk.settle.Move c walk') := by
  unfold step
  cases hclosed : walk.closed with
  | none =>
      rw [settle_of_closed_eq_none hclosed]
      simp [pass_eq_ok_iff]
  | some list =>
      by_cases hc : continuesSuffix list.suffix.head? c = true
      · have hcomm : ∀ next : Walk, next = walk' ↔ walk' = next := fun _ => eq_comm
        simp [hc, hcomm]
      · simp [hc, pass_eq_ok_iff]

/-- A bracket, and an operator other than `-`, ends any suffix. -/
theorem step_of_ends (hc : ∀ last, continuesSuffix last c = false) :
    walk.step c = walk.settle.pass c := by
  unfold step
  cases hclosed : walk.closed with
  | none => rw [settle_of_closed_eq_none hclosed]
  | some list => simp [hc]

end Steps
end Walk
end Outline
end DiceNotation

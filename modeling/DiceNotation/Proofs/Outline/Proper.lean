import DiceNotation.Proofs.Outline.Linking
import DiceNotation.Proofs.Outline.Written
import DiceNotation.Proofs.Text.Divergence

/-!
# Proper outlines

What a walk finds is made in a certain way: the operators are operators of arithmetic, a
bracket names one of the functions or nothing, and brackets and entries hold one outline at
most.

Main definitions:

- `Outline.Proper`, `Outline.Plain`: an outline made in this way, with and without brackets.
- `Outline.Walk.Proper`: a walk that has found such outlines only.

Main results:

- `Outline.plain_ofMath`, `Outline.proper_link`: text and linked elements have such outlines.
- `Outline.proper_of_walk`: so has all that a walk finds.
-/

namespace DiceNotation
namespace Outline

open Text (isOperator)

mutual

/-- Whether an outline is made as a walk makes them. -/
def Proper : Outline → Prop
  | .empty => True
  | .leaf _ => True
  | .math symbol left right =>
    (∃ c, isOperator c = true ∧ symbol = [c]) ∧ left.Proper ∧ right.Proper
  | .group enclosure elements =>
    (enclosure.function = [] ∨ enclosure.function ∈ functionNames) ∧
      if enclosure.isList then EntriesProper elements else ContentProper elements

/-- Whether what a bracket or an entry holds is made so. -/
def ContentProper : List Outline → Prop
  | [] => True
  | [element] => element.Proper
  | _ :: _ :: _ => False

/-- Whether the entries of a list are made so. -/
def EntriesProper : List Outline → Prop
  | [] => True
  | .group _ content :: rest => ContentProper content ∧ EntriesProper rest
  | _ :: _ => False

end

/-- Whether an outline is made as that of text without brackets. -/
def Plain : Outline → Prop
  | .empty => True
  | .leaf _ => True
  | .math symbol left right =>
    (∃ c, isOperator c = true ∧ symbol = [c]) ∧ left.Plain ∧ right.Plain
  | .group .. => False

/-- Text without brackets has a proper outline. -/
theorem Plain.proper {outline : Outline} (h : outline.Plain) : outline.Proper := by
  induction outline using Plain.induct with
  | case1 => trivial
  | case2 => trivial
  | case3 symbol left right ihleft ihright => exact ⟨h.1, ihleft h.2.1, ihright h.2.2⟩
  | case4 => exact h.elim

/-! ## Text -/

section Text

variable {operators : Text} {operand : Text → Except Fault Outline}

/-- A level of operators makes a plain outline of plain operands. -/
theorem plain_level (hoperators : ∀ c ∈ operators, isOperator c = true)
    (hoperand : ∀ text outline, operand text = .ok outline → outline.Plain)
    {pieces : List Piece} {outline : Outline} (h : level operators operand pieces = .ok outline) :
    outline.Plain :=
  level_induction (P := fun outline _ => outline.Plain) trivial
    (fun symbol hsymbol _ _ _ _ hleft hright =>
      ⟨⟨symbol, hoperators symbol hsymbol, rfl⟩, hleft, hright⟩)
    hoperand h

/-- A character in front of a plain outline keeps it plain. -/
theorem plain_pushLeft (c : Char) {outline : Outline} (h : outline.Plain) :
    (pushLeft c outline).Plain := by
  induction outline using pushLeft.induct with
  | case1 => trivial
  | case2 symbol left right ih => exact ⟨h.1, ih h.2.1, h.2.2⟩
  | case3 outline hleaf hmath =>
      rw [pushLeft]
      · trivial
      · exact hleaf
      · exact hmath

/-- Powers have a plain outline. -/
theorem plain_powers (text : Text) : (powers text).Plain := by
  induction text with
  | nil => trivial
  | cons c rest ih =>
      rw [powers]
      split
      · exact ⟨⟨'^', rfl, rfl⟩, trivial, ih⟩
      · exact plain_pushLeft c ih

/-- Products have a plain outline. -/
theorem plain_products {text : Text} {outline : Outline} (h : products text = .ok outline) :
    outline.Plain := by
  refine plain_level (by simp [isOperator]) ?_ h
  intro text outline h
  cases h
  exact plain_powers text

/-- Arithmetic has a plain outline. -/
theorem plain_ofMath {text : Text} {afterGroup : Bool} {outline : Outline}
    (h : ofMath text afterGroup = .ok outline) : outline.Plain :=
  plain_level (by simp [isOperator]) (fun _ _ => plain_products) h

end Text

/-! ## Linked elements -/

section Linked

/-- What is left of proper elements, once they are linked, is proper content. -/
theorem proper_link {elements linked : List Outline} (h : link elements = .ok linked)
    (hone : linked.length ≤ 1) (hproper : ∀ element ∈ elements, element.Proper) :
    ContentProper linked := by
  have hlinked := kept_link (P := Proper) (fun _ _ _ => Iff.rfl) h hone hproper
  match linked, hlinked with
  | [], _ => trivial
  | [outline], hlinked => exact hlinked outline (List.mem_singleton.mpr rfl)
  | _ :: _ :: _, _ => simp at hone

end Linked

/-! ## Walks -/

/-- Whether all that was found around a place is proper. -/
def Surroundings.Proper : Surroundings → Prop
  | .top => True
  | .bracket function outer before =>
    (function = [] ∨ function ∈ functionNames) ∧ (∀ element ∈ before, element.Proper) ∧
      outer.Proper
  | .list entries outer before =>
    EntriesProper entries ∧ (∀ element ∈ before, element.Proper) ∧ outer.Proper

/-- Whether all that a walk has found is proper. -/
structure Walk.Proper (walk : Walk) : Prop where
  elements : ∀ element ∈ walk.elements, element.Proper
  closed : ∀ list ∈ walk.closed, EntriesProper list.entries
  surroundings : walk.surroundings.Proper

/-- What stands before a bracket ends in the name of a function, or in none. -/
theorem functionSuffix_eq_nil_or_mem (text : Text) :
    functionSuffix text = [] ∨ functionSuffix text ∈ functionNames := by
  unfold functionSuffix
  cases hfind : functionNames.find? fun name => name.isSuffixOf text with
  | none => exact .inl rfl
  | some name => exact .inr (List.mem_of_find?_eq_some hfind)

/-- A proper entry may follow others. -/
theorem entriesProper_append {entries content : List Outline} {terminator : Option Text}
    (h : EntriesProper entries) (hcontent : ContentProper content) :
    EntriesProper (entries ++ [.group { terminator } content]) := by
  induction entries with
  | nil => exact ⟨hcontent, trivial⟩
  | cons entry rest ih =>
      cases entry with
      | group enclosure elements => exact ⟨h.1, ih h.2⟩
      | empty | leaf | math => exact h.elim

/-- Elements stay proper with the text behind them. -/
theorem elementsWith_proper {elements all : List Outline} {buffer : Text}
    (h : elementsWith elements buffer = .ok all) (hproper : ∀ element ∈ elements, element.Proper) :
    ∀ element ∈ all, element.Proper :=
  forall_elementsWith h hproper fun _ _ hlast => (plain_ofMath hlast).proper

section Walk

variable {walk walk' : Walk} {c : Char}

/-- What a proper walk finds in a bracket or an entry is proper. -/
theorem Walk.Proper.content {linked : List Outline} (h : walk.Proper)
    (hcontent : walk.content = .ok linked) : ContentProper linked := by
  rcases Walk.content_eq_ok_iff.mp hcontent with ⟨elements, helements, hlinked, hlength⟩
  exact proper_link hlinked hlength (elementsWith_proper helements h.elements)

/-- A proper walk may settle its list. -/
theorem Walk.Proper.settle (h : walk.Proper) : walk.settle.Proper := by
  unfold Walk.settle
  split
  · exact h
  · next list hclosed =>
      refine ⟨?_, by simp, h.surroundings⟩
      intro element hmem
      rcases List.mem_append.mp hmem with hmem | hmem
      · exact h.elements element hmem
      · rw [List.mem_singleton.mp hmem]
        exact ⟨.inl rfl, h.closed list hclosed⟩

/-- A move at a bracket keeps a walk proper. -/
theorem Walk.Proper.move (h : walk.Proper) (hmove : walk.Move c walk') : walk'.Proper := by
  cases hmove with
  | openBracket hbefore =>
      exact ⟨by simp, by simp, functionSuffix_eq_nil_or_mem _,
        elementsWith_proper hbefore h.elements, h.surroundings⟩
  | openList hfunction hbefore =>
      exact ⟨by simp, by simp, trivial, elementsWith_proper hbefore h.elements, h.surroundings⟩
  | closeBracket hopen hcontent =>
      have hsurroundings := h.surroundings
      rw [hopen] at hsurroundings
      refine ⟨?_, by simp, hsurroundings.2.2⟩
      intro element hmem
      rcases List.mem_append.mp hmem with hmem | hmem
      · exact hsurroundings.2.1 element hmem
      · rw [List.mem_singleton.mp hmem]
        exact ⟨hsurroundings.1, h.content hcontent⟩
  | endEntry hopen hcontent =>
      have hsurroundings := h.surroundings
      rw [hopen] at hsurroundings
      refine ⟨by simp, by simp, ?_, hsurroundings.2⟩
      split
      · exact hsurroundings.1
      · exact entriesProper_append hsurroundings.1 (h.content hcontent)
  | closeList hopen hcontent =>
      have hsurroundings := h.surroundings
      rw [hopen] at hsurroundings
      refine ⟨hsurroundings.2.1, ?_, hsurroundings.2.2⟩
      simp only [Option.mem_def, Option.some.injEq, forall_eq']
      split
      · exact hsurroundings.1
      · exact entriesProper_append hsurroundings.1 (h.content hcontent)
  | take hc => exact ⟨h.elements, h.closed, h.surroundings⟩

/-- So does any step. -/
theorem Walk.Proper.step (h : walk.Proper) (hstep : walk.step c = .ok walk') : walk'.Proper := by
  rw [Walk.step_eq_ok_iff] at hstep
  rcases hstep with ⟨list, hclosed, -, rfl⟩ | ⟨-, hmove⟩
  · refine ⟨h.elements, ?_, h.surroundings⟩
    have hlist := h.closed list hclosed
    simpa using hlist
  · exact h.settle.move hmove

/-- All that a walk finds is proper. -/
theorem proper_of_walk {text : Text} (h : text.foldlM Walk.step {} = .ok walk) : walk.Proper :=
  foldlM_induction (P := fun _ walk => walk.Proper)
    (fun _ _ _ _ hproper hstep => hproper.step hstep) ⟨by simp, by simp, trivial⟩ h

end Walk
end Outline
end DiceNotation

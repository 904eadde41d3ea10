import DiceNotation.Proofs.Outline.Spelling

/-!
# Parts of a text

A walk copies what it reads.  Wherever its brackets end up and whatever its operators take, every
leaf of an outline and every suffix of a list stands in the text as it is, in one piece.  So a
place in a leaf is no further from its front than the text is long.

Main definitions:

- `Outline.PartOf`: an outline whose leaves and suffixes stand in a text.
- `Outline.HasPart`: a leaf or suffix of an outline.
- `Outline.Walk.PartOf`: a walk that has found such outlines only.

Main results:

- `Outline.partOf_ofMath`: text without brackets falls into its own parts.
- `Outline.Walk.PartOf.step`: what a walk adds stands at the end of what it has read.
- `Outline.partOf_ofText`: the leaves and suffixes of a text stand in it.
-/

namespace DiceNotation
namespace Outline

mutual

/-- Whether all leaves of an outline and all suffixes of its lists stand in a text. -/
def PartOf (text : Text) : Outline → Prop
  | .empty => True
  | .leaf part => part <:+: text
  | .math _ left right => left.PartOf text ∧ right.PartOf text
  | .group enclosure elements => enclosure.suffix <:+: text ∧ AllPartOf text elements

/-- Whether those of several outlines do. -/
def AllPartOf (text : Text) : List Outline → Prop
  | [] => True
  | element :: rest => element.PartOf text ∧ AllPartOf text rest

end

mutual

/-- Whether a text is a leaf of an outline, or the suffix of one of its lists. -/
def HasPart (part : Text) : Outline → Prop
  | .empty => False
  | .leaf text => text = part
  | .math _ left right => left.HasPart part ∨ right.HasPart part
  | .group enclosure elements => enclosure.suffix = part ∨ AnyHasPart part elements

/-- Whether it is one of several outlines. -/
def AnyHasPart (part : Text) : List Outline → Prop
  | [] => False
  | element :: rest => element.HasPart part ∨ AnyHasPart part rest

end

section PartOf

variable {text whole : Text} {outline : Outline} {elements : List Outline}

/-- All elements are part of a text if each is. -/
theorem allPartOf_iff : AllPartOf text elements ↔ ∀ element ∈ elements, element.PartOf text := by
  induction elements with
  | nil => simp [AllPartOf]
  | cons element rest ih => simp [AllPartOf, ih]

mutual

/-- What stands in a part of a text stands in the text. -/
theorem PartOf.mono {outline : Outline} (h : outline.PartOf text) (hpart : text <:+: whole) :
    outline.PartOf whole := by
  cases outline with
  | empty => trivial
  | leaf part => exact List.IsInfix.trans h hpart
  | math symbol left right => exact ⟨h.1.mono hpart, h.2.mono hpart⟩
  | group enclosure elements => exact ⟨h.1.trans hpart, AllPartOf.mono h.2 hpart⟩

/-- What is part of a text is part of a longer one. -/
theorem AllPartOf.mono {elements : List Outline} (h : AllPartOf text elements)
    (hpart : text <:+: whole) : AllPartOf whole elements := by
  cases elements with
  | nil => trivial
  | cons element rest => exact ⟨h.1.mono hpart, AllPartOf.mono h.2 hpart⟩

end

mutual

/-- The leaves and suffixes of an outline stand in a text if the outline does. -/
theorem HasPart.isInfix {part : Text} {outline : Outline} (h : outline.HasPart part)
    (hpart : outline.PartOf text) : part <:+: text := by
  cases outline with
  | empty => exact h.elim
  | leaf leaf =>
      obtain rfl : leaf = part := h
      exact hpart
  | math symbol left right => exact h.elim (·.isInfix hpart.1) (·.isInfix hpart.2)
  | group enclosure elements =>
      rcases h with rfl | h
      · exact hpart.1
      · exact AnyHasPart.isInfix h hpart.2

/-- A part of an element stands in the text of the elements. -/
theorem AnyHasPart.isInfix {part : Text} {elements : List Outline} (h : AnyHasPart part elements)
    (hpart : AllPartOf text elements) : part <:+: text := by
  cases elements with
  | nil => exact h.elim
  | cons element rest => exact h.elim (·.isInfix hpart.1) (AnyHasPart.isInfix · hpart.2)

end

/-! ## Elements -/

/-- Without brackets, an outline falls into parts of what it stands for. -/
theorem Plain.partOf (h : outline.Plain) : outline.PartOf outline.written := by
  induction outline using Plain.induct with
  | case1 => trivial
  | case2 text =>
      rw [written_leaf]
      exact List.infix_rfl
  | case3 symbol left right ihleft ihright =>
      rw [written_math]
      refine ⟨(ihleft h.2.1).mono ?_, (ihright h.2.2).mono ?_⟩
      · rw [List.append_assoc]
        exact (List.prefix_append ..).isInfix
      · exact (List.suffix_append ..).isInfix
  | case4 => exact h.elim

/-- The outline of arithmetic is part of its text. -/
theorem partOf_ofMath {afterGroup : Bool} (h : ofMath text afterGroup = .ok outline) :
    outline.PartOf text := by
  have hpart := (plain_ofMath h).partOf
  rwa [written_ofMath h] at hpart

/-- Elements stay part of a text with the text behind them. -/
theorem elementsWith_partOf {all : List Outline} {buffer : Text}
    (h : elementsWith elements buffer = .ok all)
    (helements : ∀ element ∈ elements, element.PartOf text) (hbuffer : buffer.reverse <:+: text) :
    ∀ element ∈ all, element.PartOf text :=
  forall_elementsWith h helements fun _ _ hlast => (partOf_ofMath hlast).mono hbuffer

/-- What elements are linked to is part of their text. -/
theorem partOf_link {linked : List Outline} (h : link elements = .ok linked)
    (hone : linked.length ≤ 1) (helements : ∀ element ∈ elements, element.PartOf text) :
    ∀ outline ∈ linked, outline.PartOf text :=
  kept_link (Q := fun _ => True) (fun _ _ _ => by simp [PartOf]) h hone helements

end PartOf

/-! ## Walks -/

/-- Whether the leaves and suffixes found around a place stand in a text. -/
def Surroundings.PartOf (text : Text) : Surroundings → Prop
  | .top => True
  | .bracket _ outer before => (∀ element ∈ before, element.PartOf text) ∧ outer.PartOf text
  | .list entries outer before =>
    (∀ entry ∈ entries, entry.PartOf text) ∧ (∀ element ∈ before, element.PartOf text) ∧
      outer.PartOf text

/-- What was found around a place is part of a longer text. -/
theorem Surroundings.PartOf.mono {text whole : Text} {surroundings : Surroundings}
    (h : surroundings.PartOf text) (hpart : text <:+: whole) : surroundings.PartOf whole := by
  induction surroundings with
  | top => trivial
  | bracket function outer before ih =>
      exact ⟨fun element hmem => (h.1 element hmem).mono hpart, ih h.2⟩
  | list entries outer before ih =>
      exact ⟨fun entry hmem => (h.1 entry hmem).mono hpart,
        fun element hmem => (h.2.1 element hmem).mono hpart, ih h.2.2⟩

/-- Whether the leaves and suffixes that a walk has found stand in what it has read.  The characters
that it has not made an element of, or the suffix that it is reading, are the last it has read. -/
structure Walk.PartOf (read : Text) (walk : Walk) : Prop where
  elements : ∀ element ∈ walk.elements, element.PartOf read
  buffer : walk.buffer.reverse <:+ read
  closed : ∀ list ∈ walk.closed, walk.buffer = [] ∧ list.suffix.reverse <:+ read ∧
    ∀ entry ∈ list.entries, entry.PartOf read
  surroundings : walk.surroundings.PartOf read

section Walk

variable {walk walk' : Walk} {read : Text} {c : Char}

/-- Settling a list adds no text. -/
theorem Walk.PartOf.settle (h : walk.PartOf read) : walk.settle.PartOf read := by
  unfold Walk.settle
  split
  · exact h
  · next list hclosed =>
      obtain ⟨-, hsuffix, hentries⟩ := h.closed list hclosed
      refine ⟨?_, h.buffer, by simp, h.surroundings⟩
      intro element hmem
      rcases List.mem_append.mp hmem with hmem | hmem
      · exact h.elements element hmem
      · rw [List.mem_singleton.mp hmem]
        exact ⟨hsuffix.isInfix, allPartOf_iff.mpr hentries⟩

/-- What a bracket or an entry holds stands in what has been read. -/
theorem Walk.PartOf.content {content : List Outline} (h : walk.PartOf read)
    (hcontent : walk.content = .ok content) : ∀ element ∈ content, element.PartOf read := by
  obtain ⟨elements, helements, hlinked, hlength⟩ := Walk.content_eq_ok_iff.mp hcontent
  exact partOf_link hlinked hlength (elementsWith_partOf helements h.elements h.buffer.isInfix)

/-- An entry that ends joins its list, unless it is empty. -/
theorem Walk.PartOf.entries {entries content : List Outline} (h : walk.PartOf read)
    (hcontent : walk.content = .ok content) (hentries : ∀ entry ∈ entries, entry.PartOf read)
    (terminator : Option Text) :
    ∀ entry ∈ (if content.isEmpty then entries else entries ++ [.group { terminator } content]),
      entry.PartOf read := by
  split
  · exact hentries
  · intro entry hmem
    rcases List.mem_append.mp hmem with hmem | hmem
    · exact hentries entry hmem
    · rw [List.mem_singleton.mp hmem]
      exact ⟨List.nil_infix, allPartOf_iff.mpr (h.content hcontent)⟩

/-- A move adds the text of its character. -/
theorem Walk.PartOf.move (h : walk.PartOf read) (hclosed : walk.closed = none)
    (hmove : walk.Move c walk') : walk'.PartOf (read ++ [c]) := by
  have hread : read <:+: read ++ [c] := (List.prefix_append ..).isInfix
  cases hmove with
  | openBracket hbefore =>
      have hfront : (walk.buffer.drop walk.function.length).reverse <:+: read := by
        have hbuffer := reverse_drop_append (functionSuffix_isSuffix walk.buffer.reverse)
        refine List.IsInfix.trans ?_ h.buffer.isInfix
        rw [← hbuffer]
        exact (List.prefix_append ..).isInfix
      have hall := elementsWith_partOf hbefore h.elements hfront
      refine ⟨by simp, by simp, by simp, ?_, h.surroundings.mono hread⟩
      exact fun element hmem => (hall element hmem).mono hread
  | openList hfunction hbefore =>
      have hall := elementsWith_partOf hbefore h.elements h.buffer.isInfix
      refine ⟨by simp, by simp, by simp, by simp, ?_, h.surroundings.mono hread⟩
      exact fun element hmem => (hall element hmem).mono hread
  | closeBracket hopen hcontent =>
      have hsurroundings := h.surroundings
      rw [hopen] at hsurroundings
      refine ⟨?_, by simp, by simp, hsurroundings.2.mono hread⟩
      intro element hmem
      rcases List.mem_append.mp hmem with hmem | hmem
      · exact (hsurroundings.1 element hmem).mono hread
      · rw [List.mem_singleton.mp hmem]
        exact ⟨List.nil_infix, (allPartOf_iff.mpr (h.content hcontent)).mono hread⟩
  | endEntry hopen hcontent =>
      have hsurroundings := h.surroundings
      rw [hopen] at hsurroundings
      have hentries := h.entries hcontent hsurroundings.1 (some [','])
      refine ⟨by simp, by simp, by simp, fun entry hmem => (hentries entry hmem).mono hread, ?_⟩
      exact ⟨fun element hmem => (hsurroundings.2.1 element hmem).mono hread,
        hsurroundings.2.2.mono hread⟩
  | closeList hopen hcontent =>
      have hsurroundings := h.surroundings
      rw [hopen] at hsurroundings
      have hentries := h.entries hcontent hsurroundings.1 (some ['\x7d'])
      refine ⟨fun element hmem => (hsurroundings.2.1 element hmem).mono hread, by simp, ?_,
        hsurroundings.2.2.mono hread⟩
      rintro _ ⟨rfl⟩
      exact ⟨rfl, by simp, fun entry hmem => (hentries entry hmem).mono hread⟩
  | take hc =>
      obtain ⟨front, hfront⟩ := h.buffer
      exact ⟨fun element hmem => (h.elements element hmem).mono hread, ⟨front, by simp [← hfront]⟩,
        by simp [hclosed], h.surroundings.mono hread⟩

/-- What a walk adds stands at the end of what it has read. -/
theorem Walk.PartOf.step (h : walk.PartOf read) (hstep : walk.step c = .ok walk') :
    walk'.PartOf (read ++ [c]) := by
  have hread : read <:+: read ++ [c] := (List.prefix_append ..).isInfix
  rw [Walk.step_eq_ok_iff] at hstep
  rcases hstep with ⟨list, hclosed, -, rfl⟩ | ⟨-, hmove⟩
  · obtain ⟨hbuffer, ⟨front, hfront⟩, hentries⟩ := h.closed list hclosed
    refine ⟨fun element hmem => (h.elements element hmem).mono hread, by simp [hbuffer], ?_,
      h.surroundings.mono hread⟩
    rintro _ ⟨rfl⟩
    exact ⟨hbuffer, ⟨front, by simp [← hfront]⟩, fun entry hmem => (hentries entry hmem).mono hread⟩
  · exact h.settle.move Walk.settle_closed hmove

/-- What a walk has found is part of what it has read. -/
theorem partOf_of_walk (h : read.foldlM Walk.step {} = .ok walk) : walk.PartOf read :=
  foldlM_induction (P := fun read walk => walk.PartOf read)
    (fun _ _ _ _ hpart hstep => hpart.step hstep) ⟨by simp, by simp, by simp, trivial⟩ h

end Walk

/-- The leaves and suffixes of a text stand in it. -/
theorem partOf_ofText {text : Text} {outline : Outline} (h : ofText text = .ok outline) :
    outline.PartOf text := by
  obtain ⟨content, ⟨walk, hwalk, -, hcontent⟩, rfl⟩ := ofText_eq_ok_iff.mp h
  have hall := (partOf_of_walk hwalk).settle.content hcontent
  cases content with
  | nil => trivial
  | cons element rest => exact hall element (List.mem_cons_self ..)

end Outline
end DiceNotation

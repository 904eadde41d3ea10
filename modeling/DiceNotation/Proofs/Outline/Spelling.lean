import DiceNotation.Proofs.Outline.Nesting
import DiceNotation.Proofs.Outline.Seams
import Mathlib.Data.List.Induction

/-!
# Spelling

What a walk has found is written again.  As long as it only gathers elements, that is the
text it has read; it may come to be another text only where elements are linked.

Main definitions:

- `Outline.Walk.written`: the text a walk has found.
- `Outline.Walk.gathered`: the elements that are linked if a bracket or an entry ends.
- `Outline.EntriesFilled`: texts with no empty entry in a list.

Main results:

- `Outline.written_step`: one step adds its character, and links what is gathered if it
  ends something.
-/

namespace DiceNotation
namespace Outline

/-! ## The text of a walk -/

/-- The text found around a place. -/
def Surroundings.written : Surroundings → Text
  | .top => []
  | .bracket function outer before =>
    outer.written ++ elementsWritten before ++ function ++ ['(']
  | .list entries outer before =>
    outer.written ++ elementsWritten before ++ ['\x7b'] ++
      (entriesWritten entries).flatMap (· ++ [','])

/-- The text a walk has found. -/
def Walk.written (walk : Walk) : Text :=
  walk.surroundings.written ++ elementsWritten walk.settle.elements ++ walk.buffer.reverse

/-- The elements that are linked if a bracket, an entry or the text ends here. -/
def Walk.gathered (walk : Walk) : Except Fault (List Outline) :=
  elementsWith walk.settle.elements walk.settle.buffer

/-- The characters that end a bracket, an entry or a list. -/
def isCloser (c : Char) : Bool := c == ')' || c == '\x7d' || c == ','

/-- Characters that close are brackets, or a comma. -/
theorem isBracket_of_isCloser {c : Char} (hc : isCloser c = true) : isBracket c = true := by
  simp only [isCloser, Bool.or_eq_true] at hc
  rcases hc with (hc | hc) | hc <;> simp [isBracket, hc]

/-! ## Entries -/

/-- Whether nothing stands between two characters where an entry should be. -/
def leavesEmpty (previous c : Char) : Bool :=
  (previous == '\x7b' && c == ',') || (previous == ',' && (c == ',' || c == '\x7d'))

/-- Whether no entry of a list in a text is empty; a list without entries is none. -/
def EntriesFilled (text : Text) : Prop :=
  text.IsChain fun previous c => leavesEmpty previous c = false

instance (text : Text) : Decidable (EntriesFilled text) :=
  inferInstanceAs (Decidable (text.IsChain fun previous c => leavesEmpty previous c = false))

/-- The text of entries is that of each. -/
theorem entriesWritten_append (entries content : List Outline) (terminator : Option Text) :
    entriesWritten (entries ++ [.group { terminator } content]) =
      entriesWritten entries ++ [elementsWritten content] := by
  induction entries with
  | nil => simp [entriesWritten]
  | cons entry rest ih => cases entry <;> simp [entriesWritten, ih]

/-- Joined entries have a comma behind all but the last. -/
theorem joinedBy_append (entries : List Text) (entry : Text) :
    Text.joinedBy [','] (entries ++ [entry]) = entries.flatMap (· ++ [',']) ++ entry := by
  induction entries with
  | nil => simp
  | cons first rest ih =>
      cases rest with
      | nil => simp [Text.joinedBy]
      | cons second rest =>
          rw [List.cons_append, List.cons_append, Text.joinedBy, ← List.cons_append, ih]
          simp

/-! ## Elements -/

/-- Elements with a leaf at their end are written with its text. -/
theorem written_elementsWith {elements all : List Outline} {buffer : Text}
    (h : elementsWith elements buffer = .ok all) :
    elementsWritten all = elementsWritten elements ++ buffer.reverse := by
  rcases elementsWith_eq_ok_iff.mp h with ⟨rfl, rfl⟩ | ⟨-, last, hlast, rfl⟩
  · simp
  · simp [written_ofMath hlast]

/-- A name of a function stands at the end of its text. -/
theorem functionSuffix_isSuffix (text : Text) : functionSuffix text <:+ text := by
  unfold functionSuffix
  cases hfind : functionNames.find? fun name => name.isSuffixOf text with
  | none => exact List.nil_suffix
  | some name => simpa using List.find?_some hfind

/-- What is left of a buffer before a name, and then the name. -/
theorem reverse_drop_append {name buffer : Text} (h : name <:+ buffer.reverse) :
    (buffer.drop name.length).reverse ++ name = buffer.reverse := by
  rcases h with ⟨front, hfront⟩
  obtain rfl : buffer = name.reverse ++ front.reverse := by
    rw [← List.reverse_append, hfront, List.reverse_reverse]
  have hlength : name.reverse.length = name.length := List.length_reverse
  rw [List.drop_left' hlength]
  simp

/-! ## Steps -/

/-- Whether a suffix is read only where nothing else has been read since the list closed, and
a place without elements in an entry is one where the entry starts. -/
structure Walk.Placed (read : Text) (walk : Walk) : Prop where
  closed : walk.closed ≠ none → walk.buffer = []
  entry : ∀ entries outer before, walk.surroundings = .list entries outer before →
    walk.settle.elements = [] → walk.buffer = [] →
      (∃ last ∈ read.getLast?, last = ',') ∨ (∃ last ∈ read.getLast?, last = '\x7b') ∧ entries = []

section Steps

variable {walk walk' : Walk} {read : Text} {c : Char}

/-- A step keeps the places of suffixes and entries. -/
theorem Walk.Placed.step (h : walk.Placed read) (hstep : walk.step c = .ok walk') :
    walk'.Placed (read ++ [c]) := by
  rw [Walk.step_eq_ok_iff] at hstep
  rcases hstep with ⟨list, hclosed, -, rfl⟩ | ⟨-, hmove⟩
  · exact ⟨fun _ => h.closed (by simp [hclosed]), by simp [Walk.settle]⟩
  · cases hmove with
    | openBracket hbefore => exact ⟨by simp, by simp⟩
    | openList hfunction hbefore => exact ⟨by simp, by simp⟩
    | closeBracket hopen hcontent => exact ⟨by simp, by simp [Walk.settle]⟩
    | endEntry hopen hcontent => exact ⟨by simp, by simp⟩
    | closeList hopen hcontent => exact ⟨by simp, by simp [Walk.settle]⟩
    | take hc => exact ⟨by simp, by simp⟩

/-- Every walk keeps them. -/
theorem placed_of_walk (h : read.foldlM Walk.step {} = .ok walk) : walk.Placed read :=
  foldlM_induction (P := fun read walk => walk.Placed read)
    (fun _ _ _ _ hplaced hstep => hplaced.step hstep) ⟨by simp, by simp⟩ h

/-- A list is settled once. -/
theorem settle_settle : walk.settle.settle = walk.settle :=
  Walk.settle_of_closed_eq_none Walk.settle_closed

/-- Where no list has just closed, the text is that of the places around and of what stands here. -/
theorem written_of_closed_eq_none (h : walk.closed = none) :
    walk.written =
      walk.surroundings.written ++ elementsWritten walk.elements ++ walk.buffer.reverse := by
  rw [Walk.written, Walk.settle_of_closed_eq_none h]

/-- Settling a list changes nothing about the text. -/
@[simp]
theorem written_settle : walk.settle.written = walk.written := by
  simp [Walk.written, settle_settle]

/-- Settling a list changes nothing about where things stand. -/
theorem Walk.Placed.settle (h : walk.Placed read) : walk.settle.Placed read :=
  ⟨by simp, by simpa [settle_settle] using h.entry⟩

/-- An end of a suffix aside, nothing is left only of no elements. -/
theorem gathered_eq_nil {elements : List Outline} (hsolid : walk.Solid)
    (hgathered : elementsWith walk.elements walk.buffer = .ok elements)
    (hlinked : link elements = .ok []) : walk.elements = [] ∧ walk.buffer = [] := by
  have helements : elements = [] := by
    by_contra hne
    have hall := elementsWith_solid hgathered hsolid.elements
    exact (link_solid hlinked hall hne).1 rfl
  subst helements
  have hnone : ¬(walk.elements ≠ [] ∨ walk.buffer ≠ []) := fun hne =>
    elementsWith_ne_nil hgathered hne rfl
  rwa [not_or, not_not, not_not] at hnone

section Entries

variable {entries before content elements : List Outline} {outer : Surroundings}

/-- A place without elements in a list is where an entry starts. -/
theorem Walk.Placed.entry_of_nil (h : walk.Placed read) (hclosed : walk.closed = none)
    (hsolid : walk.Solid) (hopen : walk.surroundings = .list entries outer before)
    (hgathered : elementsWith walk.elements walk.buffer = .ok elements)
    (hlinked : link elements = .ok []) :
    (∃ last ∈ read.getLast?, last = ',') ∨
      (∃ last ∈ read.getLast?, last = '\x7b') ∧ entries = [] := by
  have hnone := gathered_eq_nil hsolid hgathered hlinked
  have hsettle := Walk.settle_of_closed_eq_none hclosed
  exact h.entry entries outer before hopen (by rw [hsettle]; exact hnone.1) hnone.2

/-- An entry that ends with a comma has content. -/
theorem Walk.Placed.content_ne_nil (h : walk.Placed read) (hclosed : walk.closed = none)
    (hsolid : walk.Solid) (hopen : walk.surroundings = .list entries outer before)
    (hgathered : elementsWith walk.elements walk.buffer = .ok elements)
    (hlinked : link elements = .ok content)
    (hfilled : ∀ last ∈ read.getLast?, leavesEmpty last ',' = false) : content ≠ [] := by
  rintro rfl
  rcases h.entry_of_nil hclosed hsolid hopen hgathered hlinked with
    ⟨_, hlast, rfl⟩ | ⟨⟨_, hlast, rfl⟩, -⟩
  · exact absurd (hfilled _ hlast) (by decide)
  · exact absurd (hfilled _ hlast) (by decide)

/-- The last entry of a list has content, unless it is the only one. -/
theorem Walk.Placed.entries_eq_nil (h : walk.Placed read) (hclosed : walk.closed = none)
    (hsolid : walk.Solid) (hopen : walk.surroundings = .list entries outer before)
    (hgathered : elementsWith walk.elements walk.buffer = .ok elements)
    (hlinked : link elements = .ok content)
    (hfilled : ∀ last ∈ read.getLast?, leavesEmpty last '\x7d' = false) :
    content = [] → entries = [] := by
  rintro rfl
  rcases h.entry_of_nil hclosed hsolid hopen hgathered hlinked with
    ⟨_, hlast, rfl⟩ | ⟨-, hentries⟩
  · exact absurd (hfilled _ hlast) (by decide)
  · exact hentries

end Entries

/-- An entry is followed by its mark. -/
theorem written_entry {entries content : List Outline} {terminator : Option Text}
    (hcontent : content ≠ []) (outer : Surroundings) (before : List Outline) :
    Surroundings.written (.list
      (if content.isEmpty then entries else entries ++ [.group { terminator } content])
      outer before) =
      Surroundings.written (.list entries outer before) ++ elementsWritten content ++ [','] := by
  have hempty : content.isEmpty = false := by simpa using hcontent
  simp [Surroundings.written, hempty, entriesWritten_append]

/-- The last entry is followed by the end of its list, also where it is the only one and has
no content. -/
theorem written_list {entries content : List Outline} {terminator : Option Text}
    (hcontent : content = [] → entries = []) :
    Outline.written (ClosedList.outline
      { entries := if content.isEmpty then entries
          else entries ++ [.group { terminator } content] }) =
      ['\x7b'] ++ (entriesWritten entries).flatMap (· ++ [',']) ++ elementsWritten content ++
        ['\x7d'] := by
  rw [ClosedList.outline, Outline.written, if_pos rfl]
  by_cases hempty : content = []
  · simp [hempty, hcontent hempty, entriesWritten, Text.joinedBy]
  · simp [hempty, entriesWritten_append, joinedBy_append]

/-- Past the end of a suffix, a walk adds the character it reads, and links what it has
gathered if the character ends something. -/
theorem written_move (hclosed : walk.closed = none) (hplaced : walk.Placed read)
    (hsolid : walk.Solid) (hfilled : ∀ last ∈ read.getLast?, leavesEmpty last c = false)
    (hmove : walk.Move c walk') :
    (isCloser c = false ∧ walk'.written = walk.written ++ [c]) ∨
      (isCloser c = true ∧ ∃ elements content,
        elementsWith walk.elements walk.buffer = .ok elements ∧
        link elements = .ok content ∧ content.length ≤ 1 ∧
        walk'.written = walk.surroundings.written ++ elementsWritten content ++ [c]) := by
  cases hmove with
  | openBracket hbefore =>
      left
      have hname := reverse_drop_append (functionSuffix_isSuffix walk.buffer.reverse)
      rw [written_of_closed_eq_none rfl, written_of_closed_eq_none hclosed, ← hname]
      exact ⟨rfl, by simp [Surroundings.written, written_elementsWith hbefore, Walk.function]⟩
  | openList hfunction hbefore =>
      left
      rw [written_of_closed_eq_none rfl, written_of_closed_eq_none hclosed]
      exact ⟨rfl, by simp [Surroundings.written, written_elementsWith hbefore, entriesWritten]⟩
  | closeBracket hopen hcontent =>
      right
      rcases Walk.content_eq_ok_iff.mp hcontent with ⟨elements, helements, hlinked, hlength⟩
      refine ⟨rfl, elements, _, helements, hlinked, hlength, ?_⟩
      rw [written_of_closed_eq_none rfl, hopen]
      simp [Surroundings.written, Outline.written]
  | @endEntry entries before content outer hopen hcontent =>
      right
      rcases Walk.content_eq_ok_iff.mp hcontent with ⟨elements, helements, hlinked, hlength⟩
      refine ⟨rfl, elements, content, helements, hlinked, hlength, ?_⟩
      have hne := hplaced.content_ne_nil hclosed hsolid hopen helements hlinked hfilled
      rw [written_of_closed_eq_none rfl, hopen, written_entry hne]
      simp
  | @closeList entries before content outer hopen hcontent =>
      right
      rcases Walk.content_eq_ok_iff.mp hcontent with ⟨elements, helements, hlinked, hlength⟩
      refine ⟨rfl, elements, content, helements, hlinked, hlength, ?_⟩
      have hnone := hplaced.entries_eq_nil hclosed hsolid hopen helements hlinked hfilled
      rw [Walk.written, Walk.settle, hopen]
      change outer.written ++ elementsWritten (before ++ [ClosedList.outline _]) ++ [] = _
      rw [elementsWritten_append, elementsWritten_cons, written_list hnone]
      simp [Surroundings.written]
  | take hc =>
      left
      simp only [isBracket, Bool.or_eq_false_iff] at hc
      have hnext : ({ walk with place := walk.place + 1, buffer := c :: walk.buffer } : Walk).closed =
          none := hclosed
      rw [written_of_closed_eq_none hclosed, written_of_closed_eq_none hnext]
      exact ⟨by simp [isCloser, hc], by simp⟩

/-- A walk adds the character it reads, and links what it has gathered if the character ends
something. -/
theorem written_step (hplaced : walk.Placed read) (hsolid : walk.Solid)
    (hfilled : ∀ last ∈ read.getLast?, leavesEmpty last c = false)
    (hstep : walk.step c = .ok walk') :
    (isCloser c = false ∧ walk'.written = walk.written ++ [c]) ∨
      (isCloser c = true ∧ ∃ elements content, walk.gathered = .ok elements ∧
        link elements = .ok content ∧ content.length ≤ 1 ∧
        walk'.written = walk.surroundings.written ++ elementsWritten content ++ [c]) := by
  rw [Walk.step_eq_ok_iff] at hstep
  rcases hstep with ⟨list, hclosed, hc, rfl⟩ | ⟨-, hmove⟩
  · left
    constructor
    · by_contra hcloser
      have hbracket := isBracket_of_isCloser (by simpa using hcloser)
      rw [continuesSuffix_of_isBracket hbracket] at hc
      exact Bool.false_ne_true hc
    · have hbuffer := hplaced.closed (by simp [hclosed])
      simp [Walk.written, Walk.settle, hclosed, hbuffer, ClosedList.outline, Outline.written]
  · have hmoved := written_move Walk.settle_closed hplaced.settle hsolid.settle hfilled hmove
    simpa [Walk.gathered] using hmoved

/-- What is gathered is written as it was found. -/
theorem written_of_gathered {elements : List Outline} (h : walk.gathered = .ok elements) :
    walk.written = walk.surroundings.written ++ elementsWritten elements := by
  rw [Walk.written, written_elementsWith h, Walk.settle_buffer, List.append_assoc]

end Steps

/-! ## Runs -/

/-- The elements that are linked where a bracket or an entry ends, somewhere in a text. -/
def LinkedInside (text : Text) (elements : List Outline) : Prop :=
  ∃ read c rest walk, text = read ++ c :: rest ∧ isCloser c = true ∧
    read.foldlM Walk.step {} = .ok walk ∧ walk.gathered = .ok elements

/-- The elements that are linked with each other somewhere in a text: those of a bracket, of an
entry, or of the text itself. -/
def Linked (text : Text) (elements : List Outline) : Prop :=
  LinkedInside text elements ∨
    ∃ walk, text.foldlM Walk.step {} = .ok walk ∧ walk.gathered = .ok elements

/-- Whether all neighbours meet at an empty slot, wherever elements are linked in a text. -/
def NeighboursMeet (text : Text) : Prop :=
  ∀ elements, Linked text elements → elements.IsChain Meets

/-- Whether there is no gap behind an element, wherever elements are linked in a text. -/
def GapFree (text : Text) : Prop :=
  ∀ elements, Linked text elements → ∀ element ∈ elements.tail, element.isGap = false

section Runs

variable {walk walk' : Walk} {read text : Text} {c : Char} {elements content : List Outline}

/-- What each step keeps, from what has been read before it, holds of every walk. -/
theorem walk_induction {P : Text → Walk → Prop} (start : P [] {})
    (step : ∀ read walk c walk', read.foldlM Walk.step {} = .ok walk → P read walk →
      walk.step c = .ok walk' → P (read ++ [c]) walk')
    (h : read.foldlM Walk.step {} = .ok walk) : P read walk := by
  have hrun := foldlM_induction
    (P := fun read walk => read.foldlM Walk.step {} = .ok walk ∧ P read walk)
    (fun read walk c walk' hread hstep => by
      refine ⟨?_, step read walk c walk' hread.1 hread.2 hstep⟩
      rw [List.foldlM_append, hread.1, ok_bind, List.foldlM_cons, hstep]
      rfl)
    ⟨rfl, start⟩ h
  exact hrun.2

/-- One character leaves no entry empty unless the one before it does with it. -/
theorem entriesFilled_append_singleton :
    EntriesFilled (read ++ [c]) ↔
      EntriesFilled read ∧ ∀ last ∈ read.getLast?, leavesEmpty last c = false := by
  simp [EntriesFilled, List.isChain_append]

/-- One character links elements if it closes what holds them. -/
theorem linkedInside_append_singleton (hwalk : read.foldlM Walk.step {} = .ok walk) :
    LinkedInside (read ++ [c]) elements ↔
      LinkedInside read elements ∨ (isCloser c = true ∧ walk.gathered = .ok elements) := by
  constructor
  · rintro ⟨front, d, rest, walk₁, heq, hd, hfront, hgathered⟩
    cases rest using List.reverseRecOn with
    | nil =>
        rcases List.append_inj' heq rfl with ⟨rfl, hsingle⟩
        cases hsingle
        rw [hwalk] at hfront
        cases hfront
        exact .inr ⟨hd, hgathered⟩
    | append_singleton rest last _ =>
        rw [← List.cons_append, ← List.append_assoc] at heq
        rcases List.append_inj' heq rfl with ⟨rfl, -⟩
        exact .inl ⟨front, d, rest, walk₁, rfl, hd, hfront, hgathered⟩
  · rintro (⟨front, d, rest, walk₁, rfl, hd, hfront, hgathered⟩ | ⟨hc, hgathered⟩)
    · exact ⟨front, d, rest ++ [c], walk₁, by simp, hd, hfront, hgathered⟩
    · exact ⟨read, c, [], walk, rfl, hc, hwalk, hgathered⟩

/-- Linking keeps the text of elements that meet; the text of others diverges, unless there
are gaps. -/
theorem written_link (hproper : walk.Proper) (hsolid : walk.Solid)
    (hgathered : walk.gathered = .ok elements) (hlinked : link elements = .ok content)
    (hlength : content.length ≤ 1) :
    (elements.IsChain Meets → elementsWritten content = elementsWritten elements) ∧
      ((∀ element ∈ elements.tail, element.isGap = false) → ¬elements.IsChain Meets →
        Text.Diverges (elementsWritten elements) (elementsWritten content)) := by
  have hjoins := joins_link hlinked hlength (elementsWith_proper hgathered hproper.settle.elements)
    (elementsWith_solid hgathered hsolid.settle.elements)
  rcases hjoins with ⟨rfl, rfl⟩ | ⟨outline, rfl, houtline⟩
  · exact ⟨fun _ => rfl, fun _ hchain => absurd List.isChain_nil hchain⟩
  · constructor
    · intro hchain
      simp [(houtline.meets hchain).1]
    · intro hgaps hchain
      simpa using houtline.diverges hgaps hchain

/-- What a walk has found in `read`, written again. -/
structure Walk.Spells (read : Text) (walk : Walk) : Prop where
  meets : (∀ elements, LinkedInside read elements → elements.IsChain Meets) →
    walk.written = read
  diverges : (∀ elements, LinkedInside read elements →
      ∀ element ∈ elements.tail, element.isGap = false) →
    ¬(∀ elements, LinkedInside read elements → elements.IsChain Meets) →
      Text.Diverges read walk.written

/-- What has been found is written again with the elements linked that stand at its end. -/
theorem Walk.Spells.link (h : walk.Spells read) (hwalk : read.foldlM Walk.step {} = .ok walk)
    (hgathered : walk.gathered = .ok elements) (hlinked : link elements = .ok content)
    (hlength : content.length ≤ 1) :
    ((∀ other, LinkedInside read other ∨ other = elements → other.IsChain Meets) →
      walk.surroundings.written ++ elementsWritten content = read) ∧
    ((∀ other, LinkedInside read other ∨ other = elements →
        ∀ element ∈ other.tail, element.isGap = false) →
      ¬(∀ other, LinkedInside read other ∨ other = elements → other.IsChain Meets) →
        Text.Diverges read (walk.surroundings.written ++ elementsWritten content)) := by
  have hold := written_of_gathered hgathered
  have hlink := written_link (proper_of_walk hwalk) (solid_of_walk hwalk) hgathered hlinked hlength
  constructor
  · intro hmeets
    rw [hlink.1 (hmeets elements (.inr rfl)), ← hold]
    exact h.meets fun other hother => hmeets other (.inl hother)
  · intro hgaps hmeets
    have hnew := hlink.2 (hgaps elements (.inr rfl))
    by_cases hbefore : ∀ other, LinkedInside read other → other.IsChain Meets
    · -- All met so far, so the elements that are linked here do not.
      have hchain : ¬elements.IsChain Meets := by
        intro hchain
        apply hmeets
        rintro other (hother | rfl)
        · exact hbefore other hother
        · exact hchain
      have hmoved := (hnew hchain).prepend walk.surroundings.written
      rwa [← hold, h.meets hbefore] at hmoved
    · have hread := h.diverges (fun other hother => hgaps other (.inl hother)) hbefore
      rw [hold] at hread
      by_cases hchain : elements.IsChain Meets
      · rwa [hlink.1 hchain]
      · exact hread.trans ((hnew hchain).prepend _)

/-- What a walk has found is found one character on. -/
theorem Walk.Spells.step (h : walk.Spells read) (hwalk : read.foldlM Walk.step {} = .ok walk)
    (hfilled : ∀ last ∈ read.getLast?, leavesEmpty last c = false)
    (hstep : walk.step c = .ok walk') : walk'.Spells (read ++ [c]) := by
  have hinside := fun elements => @linkedInside_append_singleton walk read c elements hwalk
  rcases written_step (placed_of_walk hwalk) (solid_of_walk hwalk) hfilled hstep with
    ⟨hc, hwritten⟩ | ⟨hc, elements, content, hgathered, hlinked, hlength, hwritten⟩
  · simp only [hc, Bool.false_eq_true, false_and, or_false] at hinside
    constructor
    · intro hmeets
      simp only [hinside] at hmeets
      rw [hwritten, h.meets hmeets]
    · intro hgaps hmeets
      simp only [hinside] at hgaps hmeets
      rw [hwritten]
      exact (h.diverges hgaps hmeets).append _ _
  · have hlink := h.link hwalk hgathered hlinked hlength
    simp only [hc, hgathered, true_and, Except.ok.injEq, eq_comm (a := elements)] at hinside
    constructor
    · intro hmeets
      simp only [hinside] at hmeets
      rw [hwritten, hlink.1 hmeets]
    · intro hgaps hmeets
      simp only [hinside] at hgaps hmeets
      rw [hwritten]
      exact (hlink.2 hgaps hmeets).append _ _

/-- What any walk has found is its text, if no entry is empty. -/
theorem spells_of_walk (hfilled : EntriesFilled read)
    (hwalk : read.foldlM Walk.step {} = .ok walk) : walk.Spells read := by
  refine walk_induction (P := fun read walk => EntriesFilled read → walk.Spells read) ?_ ?_
    hwalk hfilled
  · refine fun _ => ⟨fun _ => rfl, fun _ hmeets => (hmeets ?_).elim⟩
    rintro elements ⟨front, c, rest, _, heq, -⟩
    simp at heq
  · intro read walk c walk' hwalk ih hstep hfilled
    rcases entriesFilled_append_singleton.mp hfilled with ⟨hread, hlast⟩
    exact (ih hread).step hwalk hlast hstep

/-- The outline of a text is written as the content it was found in. -/
theorem written_head? (hlength : content.length ≤ 1) :
    (content.head?.getD .empty).written = elementsWritten content := by
  match content, hlength with
  | [], _ => simp
  | [outline], _ => simp
  | _ :: _ :: _, hlength => simp at hlength

/-- The outline of a text stands for the text if all neighbours meet.  If some do not, its text
diverges, unless there are gaps. -/
theorem written_ofText {outline : Outline} (h : ofText text = .ok outline)
    (hfilled : EntriesFilled text) :
    (NeighboursMeet text → outline.written = text) ∧
      (GapFree text → ¬NeighboursMeet text → Text.Diverges text outline.written) := by
  rcases ofText_eq_ok_iff.mp h with ⟨content, ⟨walk, hwalk, htop, hcontent⟩, rfl⟩
  rcases Walk.content_eq_ok_iff.mp hcontent with ⟨elements, hgathered, hlinked, hlength⟩
  have hlink := (spells_of_walk hfilled hwalk).link hwalk hgathered hlinked hlength
  rw [htop, Surroundings.written, List.nil_append] at hlink
  have hall : ∀ other, Linked text other ↔ LinkedInside text other ∨ other = elements := by
    have hgathered : walk.gathered = .ok elements := hgathered
    intro other
    simp [Linked, hwalk, hgathered, eq_comm]
  simpa only [NeighboursMeet, GapFree, hall, written_head? hlength] using hlink

end Runs
end Outline
end DiceNotation

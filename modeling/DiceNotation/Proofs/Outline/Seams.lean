import DiceNotation.Proofs.Outline.Proper
import Mathlib.Data.List.Chain
import Mathlib.Tactic.Tauto

/-!
# Seams

Two neighbours meet well where the first ends, or the second starts, with the empty slot of
an operator.  Linking fills the slot at the seam if there is one.  If there is none it looks
further, and what it then fills is a slot in the middle of an outline, which moves text to
the front of an operator.

Main definitions:

- `Outline.startsOpen`, `Outline.endsOpen`: outlines with an empty slot at an end.
- `Outline.Meets`: neighbours with an empty slot at their seam.
- `Outline.isGap`: text that may take a bracket before it into its middle.
- `Outline.Joins`: what has become of elements that were linked.

Main results:

- `Outline.joins_link`: where all neighbours meet, linking keeps the text; where some do
  not, the text diverges, unless there are gaps.
-/

namespace DiceNotation
namespace Outline

open Text (isOperator Diverges)

/-- Whether an outline starts with an empty slot. -/
def startsOpen : Outline → Bool
  | .empty => true
  | .math _ left _ => left.startsOpen
  | _ => false

/-- Whether an outline ends with an empty slot. -/
def endsOpen : Outline → Bool
  | .empty => true
  | .math _ _ right => right.endsOpen
  | _ => false

/-- Whether two neighbours meet at the empty slot of an operator. -/
def Meets (previous element : Outline) : Prop :=
  previous.endsOpen = true ∨ element.startsOpen = true

section Fill

variable {operand outline filled : Outline}

/-! ## Slots at a seam -/

/-- An outline that ends with an empty slot, and is not one, is arithmetic. -/
theorem isMath_of_endsOpen (h : outline.endsOpen = true) (hempty : outline.isEmpty = false) :
    outline.isMath = true := by
  cases outline with
  | math => rfl
  | empty => simp [isEmpty] at hempty
  | leaf | group => simp [endsOpen] at h

/-- So is one that starts with an empty slot. -/
theorem isMath_of_startsOpen (h : outline.startsOpen = true) (hempty : outline.isEmpty = false) :
    outline.isMath = true := by
  cases outline with
  | math => rfl
  | empty => simp [isEmpty] at hempty
  | leaf | group => simp [startsOpen] at h

/-- An outline that ends with an empty slot takes an operand there. -/
theorem fillRight?_of_endsOpen (hmath : outline.isMath = true) (hopen : outline.endsOpen = true) :
    ∃ filled, fillRight? operand outline = some filled ∧
      filled.written = outline.written ++ operand.written ∧
      filled.endsOpen = operand.endsOpen := by
  induction outline using fillRight?.induct operand with
  | case1 symbol left =>
      exact ⟨_, fillRight?.eq_1 _ _ _, by simp, rfl⟩
  | case2 symbol left right hright taken htaken ih =>
      rw [fillRight?.eq_2 _ _ _ _ hright, htaken]
      rcases ih (fills_of_fillRight? htaken).isMath.1 hopen with ⟨filled, hfilled, hwritten, hends⟩
      rw [htaken] at hfilled
      cases hfilled
      exact ⟨_, rfl, by simp [hwritten], hends⟩
  | case3 symbol left right hright hnone ihright ihleft =>
      have hmath : right.isMath = true := isMath_of_endsOpen hopen (isEmpty_eq_false hright)
      rcases ihright hmath hopen with ⟨filled, hfilled, -⟩
      rw [hnone] at hfilled
      simp at hfilled
  | case4 outline hempty hother =>
      cases outline with
      | math symbol left right => exact (hother symbol left right rfl).elim
      | empty | leaf | group => simp [isMath] at hmath

/-- An outline that starts with an empty slot takes an operand there. -/
theorem fillLeft?_of_startsOpen (hmath : outline.isMath = true)
    (hopen : outline.startsOpen = true) :
    ∃ filled, fillLeft? operand outline = some filled ∧
      filled.written = operand.written ++ outline.written ∧
      filled.endsOpen = outline.endsOpen := by
  induction outline using fillLeft?.induct operand with
  | case1 symbol right =>
      exact ⟨_, fillLeft?.eq_1 _ _ _, by simp, rfl⟩
  | case2 symbol left right hleft taken htaken ih =>
      rw [fillLeft?.eq_2 _ _ _ _ hleft, htaken]
      rcases ih (fills_of_fillLeft? htaken).isMath.1 hopen with ⟨filled, hfilled, hwritten, -⟩
      rw [htaken] at hfilled
      cases hfilled
      exact ⟨_, rfl, by simp [hwritten], rfl⟩
  | case3 symbol left right hleft hnone ihleft ihright =>
      have hmath : left.isMath = true := isMath_of_startsOpen hopen (isEmpty_eq_false hleft)
      rcases ihleft hmath hopen with ⟨filled, hfilled, -⟩
      rw [hnone] at hfilled
      simp at hfilled
  | case4 outline hempty hother =>
      cases outline with
      | math symbol left right => exact (hother symbol left right rfl).elim
      | empty | leaf | group => simp [isMath] at hmath

/-! ## Slots elsewhere -/

/-- A slot that is not at the end stands before an operator. -/
theorem written_fillRight? (hproper : outline.Proper) (hopen : outline.endsOpen = false)
    (h : fillRight? operand outline = some filled) :
    ∃ front operator back, isOperator operator = true ∧
      outline.written = front ++ operator :: back ∧
      filled.written = front ++ operand.written ++ operator :: back := by
  induction outline using fillRight?.induct operand generalizing filled with
  | case1 symbol left => simp [endsOpen] at hopen
  | case2 symbol left right hright taken htaken ih =>
      rw [fillRight?.eq_2 _ _ _ _ hright, htaken] at h
      cases h
      rcases ih hproper.2.2 hopen htaken with ⟨front, operator, back, hoperator, hold, hnew⟩
      exact ⟨left.written ++ symbol ++ front, operator, back, hoperator, by simp [hold],
        by simp [hnew]⟩
  | case3 symbol left right hright hnone ihright ihleft =>
      rw [fillRight?.eq_2 _ _ _ _ hright, hnone] at h
      simp only [Option.map_eq_some_iff] at h
      rcases h with ⟨taken, htaken, rfl⟩
      by_cases hleft : left.endsOpen = true
      · have hmath := (fills_of_fillRight? htaken).isMath.1
        rcases fillRight?_of_endsOpen hmath hleft with ⟨filled, hfilled, hwritten, -⟩
        rw [htaken] at hfilled
        cases hfilled
        rcases hproper.1 with ⟨operator, hoperator, rfl⟩
        exact ⟨left.written, operator, right.written, hoperator, by simp, by simp [hwritten]⟩
      · rcases ihleft hproper.2.1 (by simpa using hleft) htaken with
          ⟨front, operator, back, hoperator, hold, hnew⟩
        exact ⟨front, operator, back ++ symbol ++ right.written, hoperator, by simp [hold],
          by simp [hnew]⟩
  | case4 outline hempty hmath =>
      rw [fillRight?.eq_3 _ _ hempty hmath] at h
      simp at h

/-- No bracket and no list starts with an operator. -/
theorem exists_written_group {enclosure : Enclosure} {elements : List Outline}
    (h : (Outline.group enclosure elements).Proper) :
    ∃ c rest, isOperator c = false ∧ written (.group enclosure elements) = c :: rest := by
  rw [written]
  split
  · exact ⟨'\x7b', _, rfl, rfl⟩
  · rcases h.1 with hfunction | hfunction
    · exact ⟨'(', _, rfl, by rw [hfunction]; rfl⟩
    · have hname : ∃ c rest, isOperator c = false ∧ enclosure.function = c :: rest := by
        simp only [functionNames, List.mem_cons, List.not_mem_nil, or_false] at hfunction
        rcases hfunction with hname | hname | hname | hname <;>
          exact ⟨_, _, by decide, hname⟩
      rcases hname with ⟨c, rest, hc, hname⟩
      exact ⟨c, _, hc, by rw [hname]; rfl⟩

end Fill

/-! ## Gaps -/

/-- Whether an element is text that does not start with an operator.  Behind a bracket, such
text may take the bracket into a slot in its middle. -/
def isGap : Outline → Bool
  | .group .. => false
  | outline => !outline.startsOpen

/-! ## Text behind a bracket -/

section Text

variable {operators : Text} {operand : Text → Except Fault Outline}

/-- A chain starts as its first operand does. -/
theorem startsOpen_chain {pieces : List Piece} {before outline : Outline}
    (h : chain operators operand before pieces = .ok outline) :
    outline.startsOpen = before.startsOpen := by
  fun_induction chain operators operand before pieces with
  | case1 before =>
      cases h
      rfl
  | case2 => simp at h
  | case3 before piece symbol hsymbol =>
      cases h
      rfl
  | case4 before piece symbol next rest hsymbol ih =>
      rw [bind_eq_ok_iff] at h
      rcases h with ⟨right, -, hrest⟩
      rw [ih right hrest]
      rfl

/-- A level starts with an empty slot if its first operand does, or if it starts with an
operator. -/
theorem startsOpen_level {piece : Piece} {rest : List Piece} {outline : Outline}
    (h : level operators operand (piece :: rest) = .ok outline)
    (hpiece : piece.symbol? operators = none →
      ∀ first, operand piece.text = .ok first → first.startsOpen = true) :
    outline.startsOpen = true := by
  rw [level] at h
  split at h
  · rw [startsOpen_chain h]
    rfl
  · next hsymbol =>
      rw [bind_eq_ok_iff] at h
      rcases h with ⟨first, hfirst, hrest⟩
      rw [startsOpen_chain hrest]
      exact hpiece (by simpa using hsymbol) first hfirst

/-- A character is glued to the first operand, or is the first. -/
theorem exists_glue (c : Char) (pieces : List Piece) :
    ∃ text rest, Piece.glue c pieces = .operand (c :: text) :: rest := by
  unfold Piece.glue
  split
  · exact ⟨_, _, rfl⟩
  · exact ⟨[], _, rfl⟩

/-- The first piece of a text is the operator it starts with, or an operand that starts with
the same character. -/
theorem exists_pieces (operators : Text) (sign : Option Char → Bool) (previous : Option Char)
    (c : Char) (text : Text) :
    ∃ piece rest, pieces operators sign previous (c :: text) = piece :: rest ∧
      (piece = .operator c ∧ c ∈ operators ∨
        (c ∉ operators ∨ sign previous = true) ∧ ∃ more, piece = .operand (c :: more)) := by
  rw [pieces]
  split
  · next hcut =>
      simp only [Bool.and_eq_true, List.contains_iff_mem] at hcut
      exact ⟨_, _, rfl, .inl ⟨rfl, hcut.1⟩⟩
  · next hcut =>
      rcases exists_glue c (pieces operators sign (some c) text) with ⟨more, rest, hglue⟩
      refine ⟨_, rest, hglue, .inr ⟨?_, more, rfl⟩⟩
      by_cases hc : c ∈ operators
      · right
        simp_all
      · exact .inl hc

/-- An operator of a level that is cut off starts that level with an empty slot. -/
theorem startsOpen_pieces {sign : Option Char → Bool} {previous : Option Char} {c : Char}
    {text : Text} {outline : Outline} (hsign : sign previous = false)
    (h : level operators operand (pieces operators sign previous (c :: text)) = .ok outline)
    (hoperand : c ∉ operators → ∀ more first, operand (c :: more) = .ok first →
      first.startsOpen = true) : outline.startsOpen = true := by
  rcases exists_pieces operators sign previous c text with
    ⟨piece, rest, hpieces, ⟨rfl, hc⟩ | ⟨hc, more, rfl⟩⟩
  · rw [hpieces] at h
    refine startsOpen_level h fun hnone => ?_
    simp [Piece.symbol?, Piece.text, hc] at hnone
  · rw [hpieces] at h
    have hother : c ∉ operators := hc.resolve_right (by simp [hsign])
    exact startsOpen_level h fun _ first => hoperand hother more first

/-- Text that starts with an operator of products or powers starts with an empty slot. -/
theorem startsOpen_products {c : Char} {text : Text} {outline : Outline}
    (hc : c = '^' ∨ c ∈ ['*', '/', '%']) (h : products (c :: text) = .ok outline) :
    outline.startsOpen = true := by
  refine startsOpen_pieces rfl h fun hother more first hfirst => ?_
  obtain rfl := hc.resolve_right hother
  cases hfirst
  rfl

/-- Text behind a bracket that starts with an operator starts with an empty slot. -/
theorem startsOpen_ofMath {c : Char} {text : Text} {outline : Outline}
    (hc : isOperator c = true) (h : ofMath (c :: text) true = .ok outline) :
    outline.startsOpen = true := by
  refine startsOpen_pieces rfl h fun hother more first hfirst => ?_
  refine startsOpen_products ?_ hfirst
  simp only [isOperator, Bool.or_eq_true, beq_iff_eq] at hc
  simp only [List.mem_cons, List.not_mem_nil, or_false] at hother ⊢
  tauto

end Text

/-! ## One more element -/

section Takes

variable {previous element filled : Outline}

/-- What has taken a neighbour is not empty. -/
theorem Takes.isEmpty_eq_false (h : Takes previous element filled) : filled.isEmpty = false := by
  rcases h.fills with hfills | hfills
  · exact isEmpty_of_isMath hfills.isMath.2
  · exact isEmpty_of_isMath hfills.isMath.2

/-- A proper outline that takes a proper neighbour is proper. -/
theorem Takes.proper (h : Takes previous element filled) (hprevious : previous.Proper)
    (helement : element.Proper) : filled.Proper := by
  rcases h.fills with hfills | hfills
  · exact hfills.kept (fun _ _ _ => Iff.rfl) helement hprevious
  · exact hfills.kept (fun _ _ _ => Iff.rfl) hprevious helement

/-- Neighbours that meet are joined at their seam. -/
theorem Takes.written_of_meets (h : Takes previous element filled)
    (hprevious : previous.isEmpty = false) (helement : element.isEmpty = false)
    (hmeets : Meets previous element) :
    filled.written = previous.written ++ element.written ∧
      filled.endsOpen = element.endsOpen := by
  rcases hmeets with hopen | hopen
  · have hmath := isMath_of_endsOpen hopen hprevious
    rcases @fillRight?_of_endsOpen element _ hmath hopen with ⟨joined, hjoined, hwritten⟩
    rcases h with ⟨hright, -⟩ | ⟨hright, -⟩
    · rw [hjoined] at hright
      cases hright
      exact hwritten
    · rw [hjoined] at hright
      simp at hright
  · have hmath := isMath_of_startsOpen hopen helement
    rcases @fillLeft?_of_startsOpen previous _ hmath hopen with ⟨joined, hjoined, hwritten⟩
    rcases h with ⟨-, hleft⟩ | ⟨-, hleft⟩
    · rw [hjoined] at hleft
      simp at hleft
    · rw [hjoined] at hleft
      cases hleft
      exact hwritten

/-- A bracket that does not meet what stands before it moves to the front of an operator. -/
theorem Takes.diverges_of_group (h : Takes previous element filled)
    (hprevious : previous.Proper) (helement : element.Proper)
    (hgroup : ∃ enclosure elements, element = .group enclosure elements)
    (hopen : previous.endsOpen = false) :
    Diverges (previous.written ++ element.written) filled.written := by
  rcases hgroup with ⟨enclosure, elements, rfl⟩
  rcases h with ⟨hright, -⟩ | ⟨-, hleft⟩
  · rcases written_fillRight? hprevious hopen hright with
      ⟨front, operator, back, hoperator, hold, hnew⟩
    rcases exists_written_group helement with ⟨c, rest, hc, hgroup⟩
    rw [hgroup] at hnew
    exact ⟨front, operator, _, c, _, hoperator, hc, by rw [hold, List.append_assoc]; rfl,
      by rw [hnew, List.append_assoc]; rfl⟩
  · have hmath := (fills_of_fillLeft? hleft).isMath.1
    simp [isMath] at hmath

/-- An element that is no gap is a bracket, or starts with an empty slot. -/
theorem group_or_startsOpen (h : element.isGap = false) :
    (∃ enclosure elements, element = .group enclosure elements) ∨ element.startsOpen = true := by
  cases element with
  | group enclosure elements => exact .inl ⟨enclosure, elements, rfl⟩
  | empty | leaf | math => exact .inr (by simpa [isGap] using h)

/-- An element that is no gap is joined to those before it, or moves to the front of an
operator. -/
theorem Takes.written_or_diverges (h : Takes previous element filled)
    (hprevious : previous.Proper) (helement : element.Proper)
    (hsolid : previous.isEmpty = false) (hempty : element.isEmpty = false)
    (hgap : element.isGap = false) :
    filled.written = previous.written ++ element.written ∨
      Diverges (previous.written ++ element.written) filled.written := by
  by_cases hmeets : Meets previous element
  · exact .inl (h.written_of_meets hsolid hempty hmeets).1
  · have hseam : ¬previous.endsOpen = true ∧ ¬element.startsOpen = true := not_or.mp hmeets
    have hgroup := (group_or_startsOpen hgap).resolve_right hseam.2
    exact .inr (h.diverges_of_group hprevious helement hgroup (by simpa using hseam.1))

end Takes

/-! ## All elements -/

@[simp]
theorem elementsWritten_nil : elementsWritten [] = [] := by rw [elementsWritten]

@[simp]
theorem elementsWritten_cons (element : Outline) (rest : List Outline) :
    elementsWritten (element :: rest) = element.written ++ elementsWritten rest := by
  rw [elementsWritten]

/-- The text of elements is that of each. -/
@[simp]
theorem elementsWritten_append (elements more : List Outline) :
    elementsWritten (elements ++ more) = elementsWritten elements ++ elementsWritten more := by
  induction elements with
  | nil => simp
  | cons element rest ih => simp [ih]

/-- What has become of elements that were linked: as long as all of them met, the outline
stands for their text and ends as the last of them does. -/
structure Joins (elements : List Outline) (outline : Outline) : Prop where
  proper : outline.Proper
  solid : outline.isEmpty = false
  meets : elements.IsChain Meets → outline.written = elementsWritten elements ∧
    ∃ last ∈ elements.getLast?, outline.endsOpen = last.endsOpen
  diverges : (∀ element ∈ elements.tail, element.isGap = false) → ¬elements.IsChain Meets →
    Diverges (elementsWritten elements) outline.written

/-- One element stands for its own text. -/
theorem joins_singleton {element : Outline} (hproper : element.Proper)
    (hsolid : element.isEmpty = false) : Joins [element] element where
  proper := hproper
  solid := hsolid
  meets := fun _ => ⟨by simp, element, rfl, rfl⟩
  diverges := fun _ hchain => absurd (List.isChain_singleton element) hchain

/-- What stands for the elements so far takes the next one where they meet. -/
theorem Joins.next {elements : List Outline} {previous element filled : Outline}
    (h : Joins elements previous) (htakes : Takes previous element filled)
    (hproper : element.Proper) (hsolid : element.isEmpty = false) (hne : elements ≠ []) :
    Joins (elements ++ [element]) filled where
  proper := htakes.proper h.proper hproper
  solid := htakes.isEmpty_eq_false
  meets := by
    intro hchain
    rcases List.isChain_append.mp hchain with ⟨hbefore, -, hseam⟩
    rcases h.meets hbefore with ⟨hwritten, last, hlast, hends⟩
    have hmeets : Meets previous element := by
      have hlastMeets := hseam last hlast element (by simp)
      rwa [Meets, ← hends] at hlastMeets
    rcases htakes.written_of_meets h.solid hsolid hmeets with ⟨hfilled, hfilledEnds⟩
    exact ⟨by simp [hfilled, hwritten], element, by simp, hfilledEnds⟩
  diverges := by
    intro hgaps hchain
    rw [List.tail_append_of_ne_nil hne] at hgaps
    simp only [List.mem_append, List.mem_singleton] at hgaps
    have hgap := hgaps element (.inr rfl)
    have hstep := htakes.written_or_diverges h.proper hproper h.solid hsolid hgap
    by_cases hbefore : elements.IsChain Meets
    · -- The seam that fails is the new one.
      rcases h.meets hbefore with ⟨hwritten, last, hlast, hends⟩
      have hseam : ¬Meets previous element := by
        intro hmeets
        apply hchain
        rw [Meets, hends] at hmeets
        refine List.isChain_append.mpr ⟨hbefore, List.isChain_singleton element, ?_⟩
        intro other hother next hnext
        rw [Option.mem_unique hother hlast, ← Option.some.inj hnext]
        exact hmeets
      have hopen : ¬previous.endsOpen = true ∧ ¬element.startsOpen = true := not_or.mp hseam
      have hgroup := (group_or_startsOpen hgap).resolve_right hopen.2
      have hmoved := htakes.diverges_of_group h.proper hproper hgroup (by simpa using hopen.1)
      simpa [hwritten] using hmoved
    · have hold := h.diverges (fun other hmem => hgaps other (.inl hmem)) hbefore
      have hboth := hold.append element.written element.written
      rw [elementsWritten_append, elementsWritten_cons, elementsWritten_nil, List.append_nil]
      rcases hstep with hfilled | hmoved
      · rwa [hfilled]
      · exact hboth.trans hmoved

/-- What is left of the elements that stand in one place, once they are linked. -/
theorem joins_link {elements linked : List Outline} (h : link elements = .ok linked)
    (hone : linked.length ≤ 1) (hproper : ∀ element ∈ elements, element.Proper)
    (hsolid : ∀ element ∈ elements, element.isEmpty = false) :
    (elements = [] ∧ linked = []) ∨ ∃ outline, linked = [outline] ∧ Joins elements outline := by
  have hlink := link_induction
    (P := fun elements outline => (∀ element ∈ elements, element.Proper) →
      (∀ element ∈ elements, element.isEmpty = false) → elements ≠ [] ∧ Joins elements outline)
    (fun element hproper hsolid =>
      ⟨by simp, joins_singleton (hproper element (by simp)) (hsolid element (by simp))⟩)
    (fun read previous element filled hprevious htakes hproper hsolid => by
      have hread := hprevious (fun other hmem => hproper other (by simp [hmem]))
        (fun other hmem => hsolid other (by simp [hmem]))
      have hnext := hread.2.next htakes (hproper element (by simp)) (hsolid element (by simp))
        hread.1
      exact ⟨by simp, hnext⟩)
    h hone
  rcases hlink with hnone | ⟨outline, rfl, houtline⟩
  · exact .inl hnone
  · exact .inr ⟨outline, rfl, (houtline hproper hsolid).2⟩

end Outline
end DiceNotation

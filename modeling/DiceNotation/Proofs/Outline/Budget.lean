import DiceNotation.Proofs.Outline.Operands

/-!
# A budget of operands

A walk has found at least as many operands as a reader counts in the text it has read, and one
more for each gap: behind a bracket, a reader does not count the operand that text starts with.
So where there is a gap, the outline of a text holds more operands than the text shows, and its
own text is another one.

Main definitions:

- `Outline.gaps`: the gaps among elements.
- `Outline.Walk.Budget`: the bound that each step of a walk keeps.

Main results:

- `Outline.Walk.Budget.step`: an end of a bracket or an entry loses its gaps for good.
- `Outline.written_ne_of_gap`: the outline of a text with a gap does not stand for the text.
-/

namespace DiceNotation
namespace Outline

open Text (isOperator)

/-- The gaps behind the first of some elements. -/
def gaps (elements : List Outline) : Nat := elements.tail.countP isGap

/-- The gaps found around a place. -/
def Surroundings.gaps : Surroundings → Nat
  | .top => 0
  | .bracket _ outer before => outer.gaps + Outline.gaps before
  | .list _ outer before => outer.gaps + Outline.gaps before

/-- What there is to count around a place, the brackets and lists that are open included. -/
def Surroundings.operands : Surroundings → Nat
  | .top => 0
  | .bracket _ outer before => outer.operands + elementsOperands before + 1
  | .list entries outer before =>
    outer.operands + elementsOperands before + 1 + entriesOperands entries

/-- Where a reader stands behind some elements. -/
def scanAfter (elements : List Outline) : Scan :=
  if elements.isEmpty then .before else .behind

section Elements

variable {elements all : List Outline} {buffer : Text}

/-- Behind elements a reader stands in no suffix. -/
theorem outside_scanAfter : (scanAfter elements).Outside := by
  unfold scanAfter
  split <;> trivial

/-- A bracket or a list is no gap. -/
theorem gaps_append_group (enclosure : Enclosure) (content : List Outline) :
    gaps (elements ++ [.group enclosure content]) = gaps elements := by
  cases elements with
  | nil => rfl
  | cons element rest => simp [gaps, isGap]

/-- What starts with an empty slot is no gap. -/
theorem isGap_of_startsOpen {outline : Outline} (h : outline.startsOpen = true) :
    outline.isGap = false := by
  cases outline with
  | group => rfl
  | empty | leaf | math => simp [isGap, h]

/-- At a gap, the operand that the text starts with is not counted behind a bracket. -/
theorem count_behind_of_isGap {text : Text} {outline : Outline}
    (h : ofMath text true = .ok outline) (hne : text ≠ [])
    (hplain : ∀ c ∈ text, isBracket c = false) (hgap : outline.isGap = true) :
    Scan.behind.count text + 1 = Scan.before.count text := by
  cases text with
  | nil => exact absurd rfl hne
  | cons c rest =>
      have hc : isOperator c = false := by
        by_contra hoperator
        have hopen := startsOpen_ofMath (by simpa using hoperator) h
        rw [isGap_of_startsOpen hopen] at hgap
        exact Bool.false_ne_true hgap
      exact Scan.count_behind_cons hc (hplain c (List.mem_cons_self ..))

/-- Text that becomes an element holds the operands counted in it, and one more if it is a
gap. -/
theorem gaps_elementsWith (h : elementsWith elements buffer = .ok all)
    (hplain : ∀ c ∈ buffer, isBracket c = false) :
    gaps all + elementsOperands elements + (scanAfter elements).count buffer.reverse ≤
      gaps elements + elementsOperands all := by
  rcases elementsWith_eq_ok_iff.mp h with ⟨rfl, rfl⟩ | ⟨hbuffer, last, hlast, rfl⟩
  · simp
  · have htext : ∀ c ∈ buffer.reverse, isBracket c = false := fun c hmem =>
      hplain c (List.mem_reverse.mp hmem)
    have hcurly : '\x7d' ∉ last.written := by
      rw [written_ofMath hlast]
      intro hmem
      exact absurd (htext _ hmem) (by decide)
    have hcount := (plain_ofMath hlast).count_written hcurly
    rw [written_ofMath hlast] at hcount
    rw [elementsOperands_append, elementsOperands_cons, elementsOperands_nil, ← hcount]
    cases elements with
    | nil => simp [gaps, scanAfter]
    | cons element rest =>
        have hgaps : gaps (element :: rest ++ [last]) =
            gaps (element :: rest) + if last.isGap then 1 else 0 := by
          simp [gaps, List.countP_append, List.countP_singleton]
        have hscan : scanAfter (element :: rest) = .behind := rfl
        rw [hgaps, hscan]
        by_cases hgap : last.isGap = true
        · have hbehind := count_behind_of_isGap hlast (by simpa using hbuffer) htext hgap
          rw [if_pos hgap]
          omega
        · have hbehind := (Scan.count_behind_le buffer.reverse).1
          rw [if_neg hgap]
          omega

/-- What opens behind text, perhaps behind the name of a function, counts once at most. -/
theorem gaps_open {front name : Text} (hname : buffer.reverse = front ++ name)
    (h : elementsWith elements front.reverse = .ok all)
    (hplain : ∀ c ∈ buffer, isBracket c = false) {c : Char}
    (hcount : Scan.before.count (name ++ [c]) = 1) :
    gaps all + elementsOperands elements + (scanAfter elements).count (buffer.reverse ++ [c]) ≤
      gaps elements + elementsOperands all + 1 := by
  have hfront : ∀ c ∈ front.reverse, isBracket c = false := by
    intro c hmem
    apply hplain
    rw [← List.mem_reverse, hname]
    exact List.mem_append_left _ (List.mem_reverse.mp hmem)
  have hcurly : '\x7d' ∉ front := fun hmem =>
    absurd (hfront _ (List.mem_reverse.mpr hmem)) (by decide)
  have hscan : ((scanAfter elements).run front).Outside :=
    Scan.outside_run outside_scanAfter hcurly
  have hopen := @Scan.count_le_before _ (name ++ [c]) hscan
  have hgaps := gaps_elementsWith h hfront
  rw [List.reverse_reverse] at hgaps
  rw [hname, List.append_assoc, Scan.count_append]
  omega

end Elements

/-! ## Walks -/

/-- What a walk keeps: a reader of `read` counts no more operands than it has found, less its
gaps and those that were lost before. -/
structure Walk.Budget (lost : Nat) (read : Text) (walk : Walk) : Prop where
  plain : ∀ c ∈ walk.buffer, isBracket c = false
  closed : ∀ list, walk.closed = some list → walk.buffer = [] ∧
    Scan.before.run read = .suffix list.suffix.head? ∧
      Scan.run (.suffix none) list.suffix.reverse = .suffix list.suffix.head?
  scan : walk.closed = none →
    Scan.before.run read = (scanAfter walk.elements).run walk.buffer.reverse
  bound : lost + Scan.before.count read + walk.surroundings.gaps + gaps walk.settle.elements ≤
    walk.surroundings.operands + elementsOperands walk.settle.elements +
      (scanAfter walk.settle.elements).count walk.buffer.reverse

section Walk

variable {walk walk' : Walk} {lost : Nat} {read : Text} {c : Char}

/-- A character of a list suffix is counted with its list. -/
theorem Walk.Budget.suffix {list : ClosedList} (h : walk.Budget lost read)
    (hclosed : walk.closed = some list) (hc : continuesSuffix list.suffix.head? c = true) :
    Walk.Budget lost (read ++ [c])
      { walk with
        place := walk.place + 1
        closed := some { list with suffix := c :: list.suffix } } := by
  rcases h.closed list hclosed with ⟨hbuffer, hscan, hsuffix⟩
  constructor
  · exact h.plain
  · intro list' hlist'
    cases hlist'
    refine ⟨hbuffer, ?_, ?_⟩
    · simp [Scan.run_append, hscan, hc]
    · simp [Scan.run_append, hsuffix, hc]
  · intro hnone
    simp at hnone
  · have hbound := h.bound
    simp only [Walk.settle, hclosed, elementsOperands_append, elementsOperands_cons,
      elementsOperands_nil, ClosedList.outline, gaps_append_group, operands, if_true, hbuffer,
      List.reverse_nil, Scan.count_nil] at hbound ⊢
    simp only [List.reverse_cons, Scan.count_append, hscan, hsuffix, Scan.count_cons,
      Scan.count_nil, Scan.counted, hc, if_true]
    omega

/-- A walk about to move past the last character `c` of `read`, which belongs to no suffix. -/
structure Walk.Pending (lost : Nat) (read : Text) (c : Char) (walk : Walk) : Prop where
  closed : walk.closed = none
  plain : ∀ c ∈ walk.buffer, isBracket c = false
  scan : Scan.before.run read = (scanAfter walk.elements).run (walk.buffer.reverse ++ [c])
  bound : lost + Scan.before.count read + walk.surroundings.gaps + gaps walk.elements ≤
    walk.surroundings.operands + elementsOperands walk.elements +
      (scanAfter walk.elements).count (walk.buffer.reverse ++ [c])

/-- A character past the end of a suffix is counted as if there had been no suffix. -/
theorem Walk.Budget.pending (h : walk.Budget lost read)
    (hends : ∀ list, walk.closed = some list → continuesSuffix list.suffix.head? c = false) :
    walk.settle.Pending lost (read ++ [c]) c := by
  have hsettled : (Scan.before.run read).counted c =
        ((scanAfter walk.settle.elements).run walk.buffer.reverse).counted c ∧
      (Scan.before.run read).next c =
        ((scanAfter walk.settle.elements).run walk.buffer.reverse).next c := by
    cases hclosed : walk.closed with
    | none =>
        rw [h.scan hclosed, settle_of_closed_eq_none hclosed]
        exact ⟨rfl, rfl⟩
    | some list =>
        rcases h.closed list hclosed with ⟨hbuffer, hscan, -⟩
        have hbehind : scanAfter walk.settle.elements = .behind := by
          simp [scanAfter, Walk.settle, hclosed]
        rw [hscan, hbuffer, hbehind]
        simp [Scan.counted, hends list hclosed]
  have hbound := h.bound
  constructor
  · exact Walk.settle_closed
  · simpa using h.plain
  · simpa [Scan.run_append] using hsettled.2
  · simp only [Walk.settle_surroundings, Walk.settle_buffer, Scan.count_append, Scan.count_cons,
      Scan.count_nil, hsettled.1]
    omega

/-- At a place where nothing has been read since the last element, there is no more to keep
than the bound. -/
theorem Walk.Budget.of_fresh (hclosed : walk.closed = none) (hbuffer : walk.buffer = [])
    (hscan : Scan.before.run read = scanAfter walk.elements)
    (hbound : lost + Scan.before.count read + walk.surroundings.gaps + gaps walk.elements ≤
      walk.surroundings.operands + elementsOperands walk.elements) : walk.Budget lost read where
  plain := by simp [hbuffer]
  closed := by simp [hclosed]
  scan := fun _ => by rw [hscan, hbuffer]; rfl
  bound := by
    rw [Walk.settle_of_closed_eq_none hclosed, hbuffer]
    exact hbound

namespace Walk.Pending

/-- Behind a bracket a reader stands where the bracket says. -/
theorem scan_eq (h : walk.Pending lost read c) (hc : isBracket c = true) :
    Scan.before.run read = Scan.behindChar c := by
  rw [h.scan, Scan.run_append, Scan.run_cons, Scan.next_of_isBracket hc, Scan.run_nil]

/-- A bracket that opens counts once. -/
theorem openBracket {before : List Outline} (h : walk.Pending lost read '(')
    (hbefore : elementsWith walk.elements (walk.buffer.drop walk.function.length) = .ok before) :
    Walk.Budget lost read
      { place := walk.place + 1
        surroundings := .bracket walk.function walk.surroundings before } := by
  refine .of_fresh rfl rfl (h.scan_eq rfl) ?_
  have hname := reverse_drop_append (functionSuffix_isSuffix walk.buffer.reverse)
  have hcount := (count_function (functionSuffix_eq_nil_or_mem walk.buffer.reverse)).1
  have hgaps := gaps_open hname.symm (by simpa [Walk.function] using hbefore) h.plain hcount
  have hbound := h.bound
  have hnone : gaps [] = 0 := rfl
  simp only [Surroundings.gaps, Surroundings.operands, elementsOperands_nil, hnone]
  omega

/-- So does a list that opens. -/
theorem openList {before : List Outline} (h : walk.Pending lost read '\x7b')
    (hbefore : elementsWith walk.elements walk.buffer = .ok before) :
    Walk.Budget lost read
      { place := walk.place + 1, surroundings := .list [] walk.surroundings before } := by
  refine .of_fresh rfl rfl (h.scan_eq rfl) ?_
  have hcount : Scan.before.count ([] ++ ['\x7b']) = 1 := rfl
  have hgaps := gaps_open (List.append_nil _).symm (by simpa using hbefore) h.plain hcount
  have hbound := h.bound
  have hnone : gaps [] = 0 := rfl
  simp only [Surroundings.gaps, Surroundings.operands, elementsOperands_nil, entriesOperands, hnone]
  omega

/-- What is linked keeps its operands, and loses its gaps. -/
theorem content {content : List Outline} (h : walk.Pending lost read c) (hc : isCloser c = true)
    (hcontent : walk.content = .ok content) :
    ∃ elements, elementsWith walk.elements walk.buffer = .ok elements ∧
      lost + gaps elements + Scan.before.count read + walk.surroundings.gaps ≤
        walk.surroundings.operands + elementsOperands content := by
  rcases Walk.content_eq_ok_iff.mp hcontent with ⟨elements, helements, hlinked, hlength⟩
  have hgaps := gaps_elementsWith helements h.plain
  have hbound := h.bound
  rw [Scan.count_append, Scan.count_cons, Scan.count_nil, Scan.counted_of_isCloser hc] at hbound
  rw [operands_link hlinked hlength]
  exact ⟨elements, helements, by omega⟩

/-- A bracket that closes leaves no gap behind but those inside. -/
theorem closeBracket {function : Text} {outer : Surroundings} {before content : List Outline}
    (h : walk.Pending lost read ')') (hopen : walk.surroundings = .bracket function outer before)
    {elements : List Outline} (hbound : lost + gaps elements + Scan.before.count read +
      walk.surroundings.gaps ≤ walk.surroundings.operands + elementsOperands content) :
    Walk.Budget (lost + gaps elements) read
      { place := walk.place + 1
        surroundings := outer
        elements := before ++ [.group { function, terminator := some [')'] } content] } := by
  refine .of_fresh rfl rfl ?_ ?_
  · rw [h.scan_eq rfl]
    simp [scanAfter, Scan.behindChar, isOperator]
  · rw [hopen] at hbound
    simp only [Surroundings.gaps, Surroundings.operands] at hbound
    simp only [gaps_append_group, elementsOperands_append, elementsOperands_cons,
      elementsOperands_nil, operands, Bool.false_eq_true, if_false]
    omega

/-- An entry without elements adds nothing. -/
theorem entriesOperands_entry (entries content : List Outline) (terminator : Option Text) :
    entriesOperands
        (if content.isEmpty then entries else entries ++ [.group { terminator } content]) =
      entriesOperands entries + elementsOperands content := by
  cases content with
  | nil => simp
  | cons element rest => simp [entriesOperands_append]

/-- An entry that ends leaves no gap behind but those inside. -/
theorem endEntry {entries before content : List Outline} {outer : Surroundings}
    (h : walk.Pending lost read ',') (hopen : walk.surroundings = .list entries outer before)
    {elements : List Outline} (hbound : lost + gaps elements + Scan.before.count read +
      walk.surroundings.gaps ≤ walk.surroundings.operands + elementsOperands content) :
    Walk.Budget (lost + gaps elements) read
      { place := walk.place + 1
        surroundings := .list
          (if content.isEmpty then entries
            else entries ++ [.group { terminator := some [','] } content]) outer before } := by
  refine .of_fresh rfl rfl (h.scan_eq rfl) ?_
  rw [hopen] at hbound
  have hnone : Outline.gaps [] = 0 := rfl
  simp only [Surroundings.gaps, Surroundings.operands] at hbound
  simp only [Surroundings.gaps, Surroundings.operands, entriesOperands_entry, hnone,
    elementsOperands_nil]
  omega

/-- So does a list that closes. -/
theorem closeList {entries before content : List Outline} {outer : Surroundings}
    (h : walk.Pending lost read '\x7d') (hopen : walk.surroundings = .list entries outer before)
    {elements : List Outline} (hbound : lost + gaps elements + Scan.before.count read +
      walk.surroundings.gaps ≤ walk.surroundings.operands + elementsOperands content) :
    Walk.Budget (lost + gaps elements) read
      { place := walk.place + 1
        surroundings := outer
        elements := before
        closed := some
          { entries := if content.isEmpty then entries
              else entries ++ [.group { terminator := some ['\x7d'] } content] } } := by
  constructor
  · simp
  · intro list hlist
    cases hlist
    exact ⟨rfl, h.scan_eq rfl, rfl⟩
  · intro hnone
    simp at hnone
  · rw [hopen] at hbound
    simp only [Surroundings.gaps, Surroundings.operands] at hbound
    simp only [Walk.settle, ClosedList.outline, gaps_append_group, elementsOperands_append,
      elementsOperands_cons, elementsOperands_nil, operands, if_true, List.reverse_nil,
      Scan.count_nil, entriesOperands_entry]
    omega

/-- Any other character is counted as the operand it starts. -/
theorem take (h : walk.Pending lost read c) (hc : isBracket c = false) :
    Walk.Budget lost read
      { walk with place := walk.place + 1, buffer := c :: walk.buffer } := by
  constructor
  · simpa [hc] using h.plain
  · simp [h.closed]
  · intro _
    simpa using h.scan
  · rw [Walk.settle_of_closed_eq_none (by exact h.closed)]
    simpa using h.bound

/-- A walk keeps its budget past a character, and loses the gaps of what it links there. -/
theorem move (h : walk.Pending lost read c) (hmove : walk.Move c walk') :
    ∃ lost', lost ≤ lost' ∧ walk'.Budget lost' read ∧ (isCloser c = true →
      ∀ elements, elementsWith walk.elements walk.buffer = .ok elements →
        gaps elements ≤ lost') := by
  have hlinked : ∀ {content}, isCloser c = true → walk.content = .ok content →
      ∃ elements, (∀ other, elementsWith walk.elements walk.buffer = .ok other →
        gaps other ≤ lost + gaps elements) ∧
        lost + gaps elements + Scan.before.count read + walk.surroundings.gaps ≤
          walk.surroundings.operands + elementsOperands content := by
    intro content hc hcontent
    rcases h.content hc hcontent with ⟨elements, helements, hbound⟩
    refine ⟨elements, ?_, hbound⟩
    intro other hother
    rw [helements] at hother
    cases hother
    exact Nat.le_add_left _ _
  cases hmove with
  | openBracket hbefore => exact ⟨lost, Nat.le_refl _, h.openBracket hbefore, by simp [isCloser]⟩
  | openList hfunction hbefore =>
      exact ⟨lost, Nat.le_refl _, h.openList hbefore, by simp [isCloser]⟩
  | closeBracket hopen hcontent =>
      rcases hlinked rfl hcontent with ⟨elements, hgaps, hbound⟩
      exact ⟨_, Nat.le_add_right _ _, h.closeBracket hopen hbound, fun _ => hgaps⟩
  | endEntry hopen hcontent =>
      rcases hlinked rfl hcontent with ⟨elements, hgaps, hbound⟩
      exact ⟨_, Nat.le_add_right _ _, h.endEntry hopen hbound, fun _ => hgaps⟩
  | closeList hopen hcontent =>
      rcases hlinked rfl hcontent with ⟨elements, hgaps, hbound⟩
      exact ⟨_, Nat.le_add_right _ _, h.closeList hopen hbound, fun _ => hgaps⟩
  | take hc =>
      refine ⟨lost, Nat.le_refl _, h.take hc, fun hcloser => ?_⟩
      rw [isBracket_of_isCloser hcloser] at hc
      simp at hc

end Walk.Pending

/-- Each step keeps the budget, and an end of a bracket or an entry loses its gaps for good. -/
theorem Walk.Budget.step (h : walk.Budget lost read) (hstep : walk.step c = .ok walk') :
    ∃ lost', lost ≤ lost' ∧ walk'.Budget lost' (read ++ [c]) ∧ (isCloser c = true →
      ∀ elements, walk.gathered = .ok elements → gaps elements ≤ lost') := by
  rw [Walk.step_eq_ok_iff] at hstep
  rcases hstep with ⟨list, hclosed, hc, rfl⟩ | ⟨hends, hmove⟩
  · refine ⟨lost, Nat.le_refl _, h.suffix hclosed hc, fun hcloser => ?_⟩
    rw [continuesSuffix_of_isBracket (isBracket_of_isCloser hcloser)] at hc
    exact absurd hc Bool.false_ne_true
  · exact (h.pending hends).move hmove

/-- A walk through `read` has lost all gaps of brackets and entries that have ended in it. -/
theorem budget_of_walk (hwalk : read.foldlM Walk.step {} = .ok walk) :
    ∃ lost, walk.Budget lost read ∧
      ∀ elements, LinkedInside read elements → gaps elements ≤ lost := by
  refine walk_induction (P := fun read walk => ∃ lost, walk.Budget lost read ∧
    ∀ elements, LinkedInside read elements → gaps elements ≤ lost) ?_ ?_ hwalk
  · refine ⟨0, .of_fresh rfl rfl rfl (Nat.le_refl _), ?_⟩
    rintro elements ⟨front, c, rest, _, heq, -⟩
    simp at heq
  · rintro read walk c walk' hwalk ⟨lost, hbudget, hlost⟩ hstep
    rcases hbudget.step hstep with ⟨lost', hle, hnext, hcloser⟩
    refine ⟨lost', hnext, fun elements hlinked => ?_⟩
    rcases (linkedInside_append_singleton hwalk).mp hlinked with hinside | ⟨hc, hgathered⟩
    · exact Nat.le_trans (hlost elements hinside) hle
    · exact hcloser hc elements hgathered

/-- Where a text has a gap, its outline stands for another text. -/
theorem written_ne_of_gap {text : Text} {outline : Outline} (h : ofText text = .ok outline)
    (hgap : ¬GapFree text) : outline.written ≠ text := by
  rcases ofText_eq_ok_iff.mp h with ⟨content, ⟨walk, hwalk, htop, hcontent⟩, rfl⟩
  rcases Walk.content_eq_ok_iff.mp hcontent with ⟨elements, hgathered, hlinked, hlength⟩
  rcases budget_of_walk hwalk with ⟨lost, hbudget, hlost⟩
  have hbound := hbudget.bound
  have hgaps := gaps_elementsWith hgathered (by simpa using hbudget.plain)
  have hcontentProper := (proper_of_walk hwalk).settle.content hcontent
  have hcount := elementsOperands_le_count content hcontentProper
  rw [operands_link hlinked hlength] at hcount
  rw [htop] at hbound
  simp only [Surroundings.gaps, Surroundings.operands] at hbound
  rw [Walk.settle_buffer] at hgaps
  -- Some gap was lost on the way, or is among the elements linked last.
  have hpos : 0 < lost + gaps elements := by
    simp only [GapFree, not_forall, Bool.not_eq_false] at hgap
    rcases hgap with ⟨other, hother, element, hmem, helement⟩
    have hsome : 0 < gaps other := List.countP_pos_iff.mpr ⟨element, hmem, helement⟩
    rcases hother with hinside | ⟨walk₁, hwalk₁, hgathered₁⟩
    · have hle := hlost other hinside
      omega
    · rw [hwalk] at hwalk₁
      cases hwalk₁
      rw [Walk.gathered, hgathered] at hgathered₁
      cases hgathered₁
      omega
  rw [written_head? hlength]
  intro hwritten
  rw [hwritten] at hcount
  omega

end Walk
end Outline
end DiceNotation

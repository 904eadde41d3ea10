import DiceNotation.Proofs.Expression.Compound
import Mathlib.Data.List.Forall2

/-!
# Lists of texts

Texts with commas between them in curly brackets are the entries of a list.  A comma or the
closing bracket ends an entry only where nothing inside the entry is open, so each text is
read as it is on its own, whatever brackets and lists it holds.

Main definitions:

- `Text.listOf`: texts as the entries of a list.
- `Outline.entriesOf`: the entries of a list, each with the character that ends it.

Main results:

- `Outline.walk_listOf`: a walk through a list of texts closes a list of what they hold.
- `Expression.parse_listOf`: a list of texts is the list of their expressions in brackets.
-/

namespace DiceNotation

/-- Texts as the entries of a list. -/
def Text.listOf (texts : List Text) : Text := '\x7b' :: joinedBy [','] texts ++ ['\x7d']

/-! ## Standard forms -/

namespace Text

/-- The standard form of joined texts is that of each. -/
theorem standardize_joinedBy_comma (texts : List Text) :
    standardize (joinedBy [','] texts) = joinedBy [','] (texts.map standardize) := by
  induction texts with
  | nil => rfl
  | cons text rest ih =>
      cases rest with
      | nil => rfl
      | cons next rest =>
          simp only [joinedBy, List.map_cons, List.append_assoc, List.singleton_append] at ih ⊢
          rw [standardize_append_bracket (by simp), ih]

/-- The entries of a list are brought into standard form one by one. -/
theorem standardize_listOf (texts : List Text) :
    standardize (listOf texts) = listOf (texts.map standardize) := by
  have hparts : listOf texts = [] ++ '\x7b' :: (joinedBy [','] texts ++ '\x7d' :: []) := rfl
  rw [hparts, standardize_append_bracket (by simp), standardize_append_bracket (by simp),
    standardize_joinedBy_comma]
  rfl

end Text

/-! ## Outlines -/

namespace Outline

/-- An entry of a list, with the character that ends it. -/
def entryOf (terminator : Char) (content : Outline) : Outline :=
  .group { terminator := some [terminator] } [content]

/-- The entries of a list: a comma ends each but the last. -/
def entriesOf : List Outline → List Outline
  | [] => []
  | [content] => [entryOf '\x7d' content]
  | content :: next :: rest => entryOf ',' content :: entriesOf (next :: rest)

section Walks

variable {text : Text} {content : Outline} {place : Nat} {entries before : List Outline}
  {outer : Surroundings}

/-- Where an entry begins, a text is walked through as on its own. -/
theorem Reads.walk_entry (h : Reads text [content]) :
    ∃ walk : Walk, text.foldlM Walk.step
        { place, surroundings := .list entries outer before } = .ok walk ∧
      walk.place = place + text.length ∧
      walk.settle.surroundings = .list entries outer before ∧
      walk.settle.content = .ok [content] := by
  obtain ⟨inner, hinner, htop, hcontent⟩ := h
  have hstart : ({ place, surroundings := .list entries outer before } : Walk) =
      Walk.within (.list entries outer before) place {} := by
    simp [Walk.within, Surroundings.within]
  refine ⟨_, by rw [hstart, walk_within hinner], ?_, ?_, by simpa using hcontent⟩
  · simp [Walk.within, place_of_walk hinner, Nat.add_comm]
  · simp [Walk.within, htop, Surroundings.within]

/-- A comma behind a text ends an entry. -/
theorem Reads.walk_comma (h : Reads text [content]) :
    (text ++ [',']).foldlM Walk.step { place, surroundings := .list entries outer before } = .ok
      { place := place + text.length + 1
        surroundings := .list (entries ++ [entryOf ',' content]) outer before } := by
  obtain ⟨walk, hwalk, hplace, hopen, hcontent⟩ := h.walk_entry
  have hends : walk.step ',' = .ok
      { place := place + text.length + 1
        surroundings := .list (entries ++ [entryOf ',' content]) outer before } := by
    rw [Walk.step_of_ends (continuesSuffix_of_isBracket rfl), Walk.pass_eq_ok_iff]
    simpa [entryOf, hplace] using Walk.Move.endEntry hopen hcontent
  rw [List.foldlM_append, hwalk, ok_bind, List.foldlM_cons, hends]
  rfl

/-- A curly bracket behind a text ends an entry and closes the list. -/
theorem Reads.walk_close (h : Reads text [content]) :
    (text ++ ['\x7d']).foldlM Walk.step { place, surroundings := .list entries outer before } = .ok
      { place := place + text.length + 1
        surroundings := outer
        elements := before
        closed := some { entries := entries ++ [entryOf '\x7d' content] } } := by
  obtain ⟨walk, hwalk, hplace, hopen, hcontent⟩ := h.walk_entry
  have hends : walk.step '\x7d' = .ok
      { place := place + text.length + 1
        surroundings := outer
        elements := before
        closed := some { entries := entries ++ [entryOf '\x7d' content] } } := by
    rw [Walk.step_of_ends (continuesSuffix_of_isBracket rfl), Walk.pass_eq_ok_iff]
    simpa [entryOf, hplace] using Walk.Move.closeList hopen hcontent
  rw [List.foldlM_append, hwalk, ok_bind, List.foldlM_cons, hends]
  rfl

/-- The entries that are left of a list are read one by one, and the list closes. -/
theorem walk_entries {texts : List Text} {contents : List Outline} (hne : texts ≠ [])
    (h : List.Forall₂ (fun text content => Reads text [content]) texts contents)
    (place : Nat) (entries : List Outline) :
    (Text.joinedBy [','] texts ++ ['\x7d']).foldlM Walk.step
        { place, surroundings := .list entries outer before } = .ok
      { place := place + (Text.joinedBy [','] texts).length + 1
        surroundings := outer
        elements := before
        closed := some { entries := entries ++ entriesOf contents } } := by
  induction h generalizing place entries with
  | nil => exact absurd rfl hne
  | @cons text content texts contents hfirst hrest ih =>
      cases hrest with
      | nil => exact hfirst.walk_close
      | cons hnext hlater =>
          have hwalk := ih (List.cons_ne_nil _ _) (place + text.length + 1)
            (entries ++ [entryOf ',' content])
          rw [Text.joinedBy, List.append_assoc, List.foldlM_append, hfirst.walk_comma, ok_bind,
            hwalk]
          simp only [entriesOf, List.append_assoc, List.singleton_append, List.length_append,
            List.length_cons, Except.ok.injEq, Walk.mk.injEq, and_true]
          omega

/-- A walk through a list of texts closes a list of what they hold. -/
theorem walk_listOf {texts : List Text} {contents : List Outline} (hne : texts ≠ [])
    (h : List.Forall₂ (fun text content => Reads text [content]) texts contents) :
    (Text.listOf texts).foldlM Walk.step {} = .ok
      { place := (Text.listOf texts).length
        closed := some { entries := entriesOf contents } } := by
  have hopen : Walk.step {} '\x7b' = .ok { place := 1, surroundings := .list [] .top [] } := rfl
  rw [Text.listOf, List.cons_append, List.foldlM_cons, hopen, ok_bind, walk_entries hne h]
  simp [Nat.add_comm]

/-- A text is all suffix if its first character continues one and the rest is all suffix. -/
theorem suffixAfter_cons_eq_iff {last : Option Char} {c : Char} {rest : Text} :
    suffixAfter last (c :: rest) = c :: rest ↔
      continuesSuffix last c = true ∧ suffixAfter (some c) rest = rest := by
  rw [suffixAfter]
  split
  · next hc => simp [hc]
  · next hc => simp [hc]

/-- A suffix behind a list is taken to its last character. -/
theorem walk_suffix {suffix : Text} {walk : Walk} {list : ClosedList}
    (hclosed : walk.closed = some list) (h : suffixAfter list.suffix.head? suffix = suffix) :
    suffix.foldlM Walk.step walk = .ok
      { walk with
        place := walk.place + suffix.length
        closed := some { list with suffix := suffix.reverse ++ list.suffix } } := by
  induction suffix generalizing walk list with
  | nil => rw [List.reverse_nil, List.nil_append, ← hclosed]; rfl
  | cons c rest ih =>
      obtain ⟨hc, hrest⟩ := suffixAfter_cons_eq_iff.mp h
      have hstep : walk.step c = .ok
          { walk with
            place := walk.place + 1
            closed := some { list with suffix := c :: list.suffix } } := by
        rw [Walk.step, hclosed]
        exact if_pos hc
      have hnext : { list with suffix := c :: list.suffix }.suffix.head? = some c := rfl
      rw [List.foldlM_cons, hstep, ok_bind, ih rfl (hnext ▸ hrest)]
      simp [Nat.add_assoc, Nat.add_comm 1]

/-- The outline of a list of texts with a suffix behind it. -/
theorem ofText_listOf_suffix {texts : List Text} {contents : List Outline} (hne : texts ≠ [])
    (h : List.Forall₂ (fun text content => Reads text [content]) texts contents) {suffix : Text}
    (hsuffix : leadingSuffix suffix = suffix) :
    ofText (Text.listOf texts ++ suffix) =
      .ok (.group { isList := true, suffix } (entriesOf contents)) := by
  have hwalk := walk_listOf hne h
  have hlast : (ClosedList.mk (entriesOf contents) []).suffix.head? = none := rfl
  rw [ofText, List.foldlM_append, hwalk, ok_bind, walk_suffix rfl (hlast ▸ hsuffix)]
  simp [Walk.finish, Walk.settle, Walk.content, ClosedList.outline, elementsWith, link, linkNext]

/-- The outline of a list of texts. -/
theorem ofText_listOf {texts : List Text} {contents : List Outline} (hne : texts ≠ [])
    (h : List.Forall₂ (fun text content => Reads text [content]) texts contents) :
    ofText (Text.listOf texts) = .ok (.group { isList := true } (entriesOf contents)) := by
  have hnil : leadingSuffix [] = [] := rfl
  simpa using ofText_listOf_suffix hne h hnil

end Walks
end Outline

/-! ## Expressions -/

namespace Expression

/-- An entry is read as what it holds in brackets. -/
theorem ofOutline_entryOf {terminator : Char} {content : Outline} {e : Expression}
    (h : ofOutline content = .ok e) :
    ofOutline (.entryOf terminator content) = .ok (.bracket e) := by
  simp [Outline.entryOf, ofOutline, ofOutlines, ofGroup, enclosed, h]

/-- Entries are read as what they hold, in brackets. -/
theorem ofOutlines_entriesOf {contents : List Outline} {es : List Expression}
    (h : List.Forall₂ (fun content e => ofOutline content = .ok e) contents es) :
    ofOutlines (Outline.entriesOf contents) = .ok (es.map .bracket) := by
  induction h with
  | nil => simp [Outline.entriesOf, ofOutlines]
  | cons hfirst hrest ih =>
      cases hrest with
      | nil => simp [Outline.entriesOf, ofOutlines, ofOutline_entryOf hfirst]
      | cons hnext hlater =>
          rw [Outline.entriesOf, ofOutlines, ofOutline_entryOf hfirst, ok_bind, ih]
          rfl

/-- A list of texts that are read on their own is the list of their expressions in brackets. -/
theorem parse_listOf {texts : List Text} {es : List Expression} (hne : texts ≠ [])
    (htexts : ∀ text ∈ texts, text.standardize ≠ [])
    (h : List.Forall₂ (fun text e => parse text = .ok (some e)) texts es) :
    parse (Text.listOf texts) = (listed (es.map .bracket) []).map some := by
  have hparts : ∃ contents : List Outline,
      List.Forall₂ (fun text content => Outline.Reads text [content])
        (texts.map Text.standardize) contents ∧
      List.Forall₂ (fun content e => ofOutline content = .ok e) contents es := by
    clear hne
    induction h with
    | nil => exact ⟨[], .nil, .nil⟩
    | cons hfirst hrest ih =>
        obtain ⟨htext, htexts⟩ := List.forall_mem_cons.mp htexts
        obtain ⟨content, _, hreads, he, ⟨⟩⟩ := parse_eq_ok htext hfirst
        obtain ⟨contents, hcontents, hes⟩ := ih htexts
        exact ⟨content :: contents, .cons hreads hcontents, .cons he hes⟩
  obtain ⟨contents, hreads, hes⟩ := hparts
  rw [parse, Text.standardize_listOf, parseStandard,
    Outline.ofText_listOf (by simpa using hne) hreads]
  simp only [ok_bind, ofOutline, ofOutlines_entriesOf hes, ofGroup, if_true]
  cases listed (es.map .bracket) [] <;> rfl

end Expression
end DiceNotation

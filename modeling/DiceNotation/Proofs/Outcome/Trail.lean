import DiceNotation.Evaluation.Basic
import DiceNotation.Proofs.Dice.Agreement
import DiceNotation.Proofs.Text.Removal

/-!
# Audit trails

Plain markup and Markdown show one audit trail.  A Markdown text less its marks, which are the
tildes, the underscores and the stars that no backslash escapes, and then less the backslashes,
is the plain text less its tildes.

Texts are put together in many places, and a star may come to stand behind a backslash of another
part.  So what is followed through an evaluation is a relation that says for each character where
it comes from, which concatenation keeps.

Main definitions:

- `Markup.unmarked`: a Markdown text less its marks and backslashes.
- `Markup.Shown`, `Markup.Renders`: a plain text and the Markdown text of one trail.
- `Outcome.Renders`, `Value.Renders`: outcomes and values that differ in their texts only.

Main results:

- `Markup.Shown.unmarked_eq`: what is left of the two texts is the same.
- `Markup.Renders.discarded`, `Markup.Renders.aroundDie`: every mark keeps the trail.
- `Value.Renders.collapse`: so do totals.
-/

namespace DiceNotation
namespace Markup

/-! ## Marks -/

/-- The characters that marks are made of. -/
def isMark (c : Char) : Bool := c == '~' || c == '_' || c == '*'

/-- The characters that are no marks and escape none. -/
def isOrdinary (c : Char) : Bool := !isMark c && c != '\\'

/-- A text less its marks: every `~`, every `_`, and every `*` that does not stand directly behind
a backslash.  With it goes the character before the text. -/
def withoutMarks : Option Char → Text → Text
  | _, [] => []
  | previous, c :: rest =>
    if c = '~' ∨ c = '_' ∨ (c = '*' ∧ previous ≠ some '\\') then withoutMarks (some c) rest
    else c :: withoutMarks (some c) rest

/-- A text less its marks, and then less every backslash. -/
def unmarked (text : Text) : Text := (withoutMarks none text).filter (· ≠ '\\')

/-- A plain text less the marks of what was discarded. -/
def unstruck (text : Text) : Text := text.filter (· ≠ '~')

/-! ## One trail -/

/-- A plain text and a Markdown text of one trail, character by character. -/
inductive Shown : Text → Text → Prop where
  | nil : Shown [] []
  | char {c : Char} {plain marked : Text} (hc : isOrdinary c = true) (h : Shown plain marked) :
      Shown (c :: plain) (c :: marked)
  | star {plain marked : Text} (h : Shown plain marked) :
      Shown ('*' :: plain) ('\\' :: '*' :: marked)
  | mark {c : Char} {plain marked : Text} (hc : isMark c = true) (h : Shown plain marked) :
      Shown plain (c :: marked)
  | tilde {plain marked : Text} (h : Shown plain marked) : Shown ('~' :: plain) marked

namespace Shown

variable {plain marked plain' marked' : Text}

/-- What is left of the two texts of a trail is the same. -/
theorem filter_withoutMarks (h : Shown plain marked) (previous : Option Char)
    (hprevious : previous ≠ some '\\') :
    (withoutMarks previous marked).filter (· ≠ '\\') = unstruck plain := by
  induction h generalizing previous with
  | nil => rfl
  | @char c plain marked hc h ih =>
      simp only [isOrdinary, isMark, Bool.and_eq_true, Bool.not_eq_true', Bool.or_eq_false_iff,
        beq_eq_false_iff_ne, bne_iff_ne] at hc
      obtain ⟨⟨⟨htilde, hscore⟩, hstar⟩, hslash⟩ := hc
      have hrest := ih (some c) (by simpa using hslash)
      simpa [withoutMarks, unstruck, htilde, hscore, hstar, hslash] using hrest
  | star h ih =>
      have hrest := ih (some '*') (by decide)
      simpa [withoutMarks, unstruck] using hrest
  | @mark c plain marked hc h ih =>
      simp only [isMark, Bool.or_eq_true, beq_iff_eq] at hc
      have hslash : c ≠ '\\' := by
        rintro rfl
        simp at hc
      have hrest := ih (some c) (by simpa using hslash)
      have hdropped : c = '~' ∨ c = '_' ∨ (c = '*' ∧ previous ≠ some '\\') := by
        rcases hc with (htilde | hscore) | hstar
        · exact .inl htilde
        · exact .inr (.inl hscore)
        · exact .inr (.inr ⟨hstar, hprevious⟩)
      rw [withoutMarks, if_pos hdropped, hrest]
  | tilde h ih => simpa [unstruck] using ih previous hprevious

/-- Less their marks, the two texts of a trail are the same. -/
theorem unmarked_eq (h : Shown plain marked) : unmarked marked = unstruck plain :=
  h.filter_withoutMarks none (by simp)

/-- A text of ordinary characters shows itself. -/
theorem self {text : Text} (h : ∀ c ∈ text, isOrdinary c = true) : Shown text text := by
  induction text with
  | nil => exact .nil
  | cons c rest ih =>
      obtain ⟨hc, hrest⟩ := List.forall_mem_cons.mp h
      exact .char hc (ih hrest)

/-- Trails may follow each other. -/
theorem append (h : Shown plain marked) (h' : Shown plain' marked') :
    Shown (plain ++ plain') (marked ++ marked') := by
  induction h with
  | nil => exact h'
  | char hc _ ih => exact .char hc ih
  | star _ ih => exact .star ih
  | mark hc _ ih => exact .mark hc ih
  | tilde _ ih => exact .tilde ih

/-- Marks may stand before a Markdown text. -/
theorem marks {mark : Text} (hmark : ∀ c ∈ mark, isMark c = true) (h : Shown plain marked) :
    Shown plain (mark ++ marked) := by
  induction mark with
  | nil => exact h
  | cons c rest ih =>
      obtain ⟨hc, hrest⟩ := List.forall_mem_cons.mp hmark
      exact .mark hc (ih hrest)

/-- Tildes may be taken out of a plain text. -/
theorem without_plain (h : Shown plain marked) : Shown (plain.without ['~']) marked := by
  induction h with
  | nil => exact .nil
  | @char c plain marked hc h ih =>
      rw [Text.without_cons_of_ne (by rintro rfl; exact absurd hc (by decide))]
      exact .char hc ih
  | star h ih =>
      rw [Text.without_cons_of_ne (by decide)]
      exact .star ih
  | mark hc h ih => exact .mark hc ih
  | @tilde plain marked h ih =>
      have hdropped : Text.without ('~' :: plain) ['~'] = Text.without plain ['~'] :=
        Text.without_append (List.cons_ne_nil _ _) plain
      rw [hdropped]
      exact ih

/-- Pairs of tildes may be taken out of a Markdown text; the second of a pair may be at its
front. -/
theorem without_marked (h : Shown plain marked) :
    Shown plain (marked.without ['~', '~']) ∧
      ∀ rest, marked = '~' :: rest → Shown plain (Text.without rest ['~', '~']) := by
  induction h with
  | nil => exact ⟨.nil, by simp⟩
  | @char c plain marked hc h ih =>
      have htilde : '~' ≠ c := by
        rintro rfl
        exact absurd hc (by decide)
      rw [Text.without_cons_of_ne htilde]
      exact ⟨.char hc ih.1, fun rest heq => absurd (List.cons.inj heq).1.symm htilde⟩
  | star h ih =>
      rw [Text.without_cons_of_ne (by decide), Text.without_cons_of_ne (by decide)]
      exact ⟨.star ih.1, by simp⟩
  | @mark c plain marked hc h ih =>
      constructor
      · by_cases hpair : ['~', '~'] <+: c :: marked
        · obtain ⟨rest, heq⟩ := hpair
          obtain ⟨rfl, rfl⟩ : '~' = c ∧ '~' :: rest = marked := by simpa using heq
          rw [← heq, Text.without_append (List.cons_ne_nil _ _)]
          exact ih.2 rest rfl
        · rw [Text.without_cons hpair]
          exact .mark hc ih.1
      · rintro rest heq
        obtain ⟨-, rfl⟩ := List.cons.inj heq
        exact ih.1
  | tilde h ih => exact ⟨.tilde ih.1, fun rest heq => .tilde (ih.2 rest heq)⟩

/-- Tildes may stand behind a plain text, and marks behind a Markdown text. -/
theorem tildes_marks {mark : Text} (hmark : ∀ c ∈ mark, isMark c = true) :
    Shown ['~'] mark := by
  simpa using (Shown.tilde .nil).marks hmark

/-- Trails may be joined by ordinary characters. -/
theorem joinedBy {separator : Text} (hseparator : ∀ c ∈ separator, isOrdinary c = true)
    {plains markeds : List Text} (h : List.Forall₂ Shown plains markeds) :
    Shown (Text.joinedBy separator plains) (Text.joinedBy separator markeds) := by
  induction h with
  | nil => exact .nil
  | cons hfirst hrest ih =>
      cases hrest with
      | nil => exact hfirst
      | cons hnext hlater =>
          rw [Text.joinedBy, Text.joinedBy]
          exact (hfirst.append (.self hseparator)).append ih

end Shown

/-- A plain text and a Markdown text of one trail, either both empty or neither. -/
structure Renders (plain marked : Text) : Prop where
  shown : Shown plain marked
  nil_iff : plain = [] ↔ marked = []

namespace Renders

variable {plain marked plain' marked' : Text}

theorem self {text : Text} (h : ∀ c ∈ text, isOrdinary c = true) : Renders text text :=
  ⟨.self h, Iff.rfl⟩

theorem append (h : Renders plain marked) (h' : Renders plain' marked') :
    Renders (plain ++ plain') (marked ++ marked') :=
  ⟨h.shown.append h'.shown, by simp [h.nil_iff, h'.nil_iff]⟩

/-- Of the two texts of a trail both are empty or neither is. -/
theorem isEmpty_eq (h : Renders plain marked) : plain.isEmpty = marked.isEmpty := by
  rw [Bool.eq_iff_iff, List.isEmpty_iff, List.isEmpty_iff, h.nil_iff]

/-- What is discarded is struck out in both. -/
theorem discarded (h : Renders plain marked) :
    Renders (Markup.plain.discarded plain) (markdown.discarded marked) := by
  have hstrike : ∀ c ∈ ['~', '~'], isMark c = true := List.all_eq_true.mp rfl
  simp only [Markup.plain, markdown, struck, ← h.isEmpty_eq]
  split
  · exact ⟨.nil, Iff.rfl⟩
  · have hwithout : Shown (plain.without ['~']) (marked.without ['~', '~']) :=
      h.shown.without_plain.without_marked.1
    refine ⟨?_, by simp⟩
    exact ((Shown.tildes_marks hstrike).append hwithout).append (Shown.tildes_marks hstrike)

/-- Only Markdown shows further marks. -/
theorem aroundDie (h : Renders plain marked) {mark : Text} (hmark : ∀ c ∈ mark, isMark c = true)
    (isDie : Bool) :
    Renders plain (Markup.aroundDie mark marked isDie) := by
  simp only [Markup.aroundDie, between]
  cases isDie with
  | false => exact h
  | true =>
      by_cases hempty : marked = []
      · rw [hempty, h.nil_iff.mpr hempty]
        exact ⟨.nil, Iff.rfl⟩
      · have hplain : plain ≠ [] := fun hnil => hempty (h.nil_iff.mp hnil)
        have hmarked := (h.shown.marks hmark).append (Shown.nil.marks hmark)
        rw [if_pos rfl, if_neg (by simpa using hempty)]
        exact ⟨by simpa using hmarked, by simp [hplain, hempty]⟩

/-- The star of a product is escaped in Markdown. -/
theorem operator (symbol : Text) (h : symbol = ['*'] ∨ ∀ c ∈ symbol, isOrdinary c = true) :
    Renders (Markup.plain.operator symbol) (markdown.operator symbol) := by
  simp only [Markup.plain, markdown]
  split
  · next hstar =>
      rw [hstar]
      exact ⟨.star .nil, by simp⟩
  · next hstar => exact self (h.resolve_left hstar)

end Renders
end Markup

/-! ## Outcomes -/

open Markup

/-- Two outcomes that differ in their texts only, and show one trail. -/
structure Outcome.Renders (plain marked : Outcome) : Prop where
  value : plain.value = marked.value
  kind : plain.kind = marked.kind
  discarded : plain.discarded = marked.discarded
  text : Markup.Renders plain.text marked.text

namespace Outcome

variable {plain marked : Outcome} {plains markeds : List Outcome}

/-- Outcomes of one trail add the same to a total. -/
theorem Renders.share (h : plain.Renders marked) : plain.share = marked.share := by
  rw [Outcome.share, Outcome.share, h.value, h.discarded]

/-- Outcomes of one trail may be discarded, each in its markup. -/
theorem Renders.discard (h : plain.Renders marked) :
    (plain.discard .plain).Renders (marked.discard .markdown) :=
  ⟨h.value, h.kind, rfl, h.text.discarded⟩

/-- What is the same of outcomes is the same of lists of them. -/
theorem map_eq_of_renders {α : Type} {f : Outcome → α}
    (hf : ∀ plain marked : Outcome, plain.Renders marked → f plain = f marked)
    (h : List.Forall₂ Renders plains markeds) : plains.map f = markeds.map f := by
  induction h with
  | nil => rfl
  | cons hfirst _ ih => rw [List.map_cons, List.map_cons, hf _ _ hfirst, ih]

/-- Marking entries, each by a flag, keeps the trail if marking one does. -/
theorem zipWith_renders {α : Type} {f g : Outcome → α → Outcome}
    (hf : ∀ flag, ∀ plain marked : Outcome, plain.Renders marked →
      (f plain flag).Renders (g marked flag))
    (h : List.Forall₂ Renders plains markeds) (flags : List α) :
    List.Forall₂ Renders (List.zipWith f plains flags) (List.zipWith g markeds flags) := by
  induction h generalizing flags with
  | nil => exact .nil
  | cons hfirst _ ih =>
      cases flags with
      | nil => exact .nil
      | cons flag flags => exact .cons (hf flag _ _ hfirst) (ih flags)

/-- The texts of lists show one trail if those of their entries do. -/
theorem listText_renders (h : List.Forall₂ Renders plains markeds) :
    Markup.Renders (listText plains plus) (listText markeds plus) := by
  have hopen : ∀ c ∈ ['('], isOrdinary c = true := List.all_eq_true.mp rfl
  have hclose : ∀ c ∈ [')'], isOrdinary c = true := List.all_eq_true.mp rfl
  have hplus : ∀ c ∈ plus, isOrdinary c = true := List.all_eq_true.mp rfl
  cases h with
  | nil => exact ⟨.nil, Iff.rfl⟩
  | cons hfirst hrest =>
      cases hrest with
      | nil => exact hfirst.text
      | cons hnext hlater =>
          have hall := List.Forall₂.cons hfirst (.cons hnext hlater)
          have htexts := List.forall₂_map_left_iff.mpr
            (List.forall₂_map_right_iff.mpr (hall.imp fun _ _ h => h.text.shown))
          refine ⟨?_, by simp [listText]⟩
          exact ((Shown.self hopen).append (Shown.joinedBy hplus htexts)).append (.self hclose)

end Outcome

/-! ## Dice -/

/-- Digits are no marks. -/
theorem Markup.ordinary_of_isDigit {c : Char} (h : c.isDigit = true) : isOrdinary c = true := by
  have hne : ∀ d : Char, d.isDigit = false → c ≠ d := by
    rintro d hd rfl
    simp [hd] at h
  simp [isOrdinary, isMark, hne '~' rfl, hne '_' rfl, hne '*' rfl, hne '\\' rfl]

/-- Numerals are not empty, and have no marks. -/
theorem Numeral.ordinary_write (n : Int) :
    Gives (Numeral.write n) (fun text => text ≠ [] ∧ ∀ c ∈ text, isOrdinary c = true)
      fun _ => True := by
  have hdigits : ∀ c ∈ Nat.toDigits 10 n.natAbs, isOrdinary c = true := fun c hc =>
    ordinary_of_isDigit (Nat.isDigit_of_mem_toDigits (by decide) (by decide) hc)
  unfold write
  split
  · trivial
  · rw [gives_ok, ofInt]
    split
    · exact ⟨by simp, List.forall_mem_cons.mpr ⟨by decide, hdigits⟩⟩
    · exact ⟨Nat.toDigits_ne_nil, hdigits⟩

namespace Die

/-- A roll is written in ordinary characters. -/
theorem ordinary_rollText (roll : Int) :
    Gives (rollText roll) (fun text => ∀ c ∈ text, isOrdinary c = true) fun _ => True := by
  unfold rollText
  refine (Numeral.ordinary_write roll).bind ?_
  intro numeral _ hnumeral
  rw [pure_eq_ok, gives_ok]
  split
  · exact hnumeral.2
  · exact List.forall_mem_cons.mpr ⟨by decide, hnumeral.2⟩

/-- So is the sum of the rolls of a die. -/
theorem ordinary_sumText (die : Die) :
    Gives die.sumText (fun text => ∀ c ∈ text, isOrdinary c = true) fun _ => True := by
  unfold sumText
  refine (Numeral.ordinary_write die.value).bind ?_
  intro numeral _ hnumeral
  exact gives_ok.mpr (List.forall_mem_cons.mpr ⟨by decide, hnumeral.2⟩)

/-- The rolls of a die have no marks. -/
theorem ordinary_bareText (die : Die) :
    Gives die.bareText (fun text => ∀ c ∈ text, isOrdinary c = true) fun _ => True := by
  unfold bareText
  split
  · trivial
  · next first rest hrolls =>
      have htail : Gives (rest.mapM rollText)
          (fun texts => ∀ text ∈ texts, ∀ c ∈ text, isOrdinary c = true) fun _ => True := by
        refine Gives.mapM (P := fun _ texts => ∀ text ∈ texts, ∀ c ∈ text, isOrdinary c = true)
          (by simp) ?_
        intro _ made roll _ hmade
        refine (ordinary_rollText roll).imp ?_ fun _ h => h
        exact fun text _ htext => List.forall_mem_append.mpr ⟨hmade, by simpa using htext⟩
      refine (Numeral.ordinary_write first).bind fun head _ hhead => ?_
      refine htail.bind fun tail _ htails => ?_
      have hflat : ∀ c ∈ tail.flatten, isOrdinary c = true := by
        intro c hc
        obtain ⟨text, htext, hmem⟩ := List.mem_flatten.mp hc
        exact htails text htext c hmem
      have hall : ∀ sum : Text, (∀ c ∈ sum, isOrdinary c = true) →
          ∀ c ∈ ['['] ++ head ++ tail.flatten ++ sum ++ [']'], isOrdinary c = true := by
        intro sum hsum
        simp only [List.forall_mem_append]
        exact ⟨⟨⟨⟨List.all_eq_true.mp rfl, hhead.2⟩, hflat⟩, hsum⟩, List.all_eq_true.mp rfl⟩
      dsimp only
      split
      · exact gives_ok.mpr (hall [] (by simp))
      · exact die.ordinary_sumText.bind fun sum _ hsum => gives_ok.mpr (hall sum hsum)

/-- The outcome of a die shows one trail. -/
theorem agree_outcome (die : Die) :
    Agree Outcome.Renders (die.outcome .plain) (die.outcome .markdown) := by
  have hbare := die.ordinary_bareText
  unfold Die.outcome Die.text
  cases htext : die.bareText with
  | error fault => exact agree_error.mpr rfl
  | ok bare =>
      rw [htext, gives_ok] at hbare
      have hstruck : Markup.Renders (if die.discarded then Markup.plain.discarded bare else bare)
          (if die.discarded then markdown.discarded bare else bare) := by
        split
        · exact (Markup.Renders.self hbare).discarded
        · exact .self hbare
      have hstars : ∀ c ∈ ['*', '*'], isMark c = true := List.all_eq_true.mp rfl
      refine ⟨rfl, rfl, rfl, ?_⟩
      dsimp only
      split
      · exact hstruck.aroundDie hstars true
      · exact hstruck

end Die

/-! ## Values -/

/-- Two values that differ in the texts of outcomes only, and show one trail. -/
inductive Value.Renders : Value → Value → Prop where
  | single {plain marked : Outcome} (h : plain.Renders marked) :
      Renders (.single plain) (.single marked)
  | pool (dice : List Die) : Renders (.pool dice) (.pool dice)
  | list {plains markeds : List Outcome} (h : List.Forall₂ Outcome.Renders plains markeds) :
      Renders (.list plains) (.list markeds)

namespace Value.Renders

variable {plain marked : Value}

/-- Values of one trail have the same dice. -/
theorem dice_eq (h : plain.Renders marked) : plain.dice = marked.dice := by
  cases h <;> rfl

/-- Values of one trail may stand in brackets. -/
theorem bracketed (h : plain.Renders marked) : plain.bracketed.Renders marked.bracketed := by
  have hopen : ∀ c ∈ ['('], isOrdinary c = true := List.all_eq_true.mp rfl
  have hclose : ∀ c ∈ [')'], isOrdinary c = true := List.all_eq_true.mp rfl
  cases h with
  | single h =>
      rw [Value.bracketed, Value.bracketed, h.text.isEmpty_eq]
      split
      · exact .single h
      · have htext := ((Markup.Renders.self hopen).append h.text).append (.self hclose)
        exact .single ⟨h.value, h.kind, h.discarded, htext⟩
  | pool dice => exact .pool dice
  | list h => exact .list h

/-- The entries of values show one trail. -/
theorem entries (h : plain.Renders marked) :
    Agree (List.Forall₂ Outcome.Renders) (plain.entries .plain) (marked.entries .markdown) := by
  cases h with
  | single h => exact .cons h .nil
  | pool dice =>
      refine Agree.mapM (R := Eq) ?_ (List.forall₂_refl dice)
      rintro die _ rfl
      exact die.agree_outcome
  | list h => exact h

end Value.Renders

/-- Totals of entries show one trail. -/
theorem Value.agree_total {plains markeds : List Outcome}
    (h : List.Forall₂ Outcome.Renders plains markeds) :
    Agree Outcome.Renders (total plains) (total markeds) := by
  have hshares := Outcome.map_eq_of_renders (fun _ _ h => h.share) h
  rw [total, total, hshares]
  refine (agree_eq _).bind ?_
  rintro value _ rfl
  exact ⟨rfl, rfl, rfl, Outcome.listText_renders h⟩

/-- The totals of values show one trail. -/
theorem Value.Renders.collapse {plain marked : Value} (h : plain.Renders marked) :
    Agree Outcome.Renders (plain.collapse .plain) (marked.collapse .markdown) := by
  have htotal : Agree Outcome.Renders
      (do let outcomes ← plain.entries .plain
          if outcomes.isEmpty then throw (.impossible .totalOfNothing)
          total outcomes)
      (do let outcomes ← marked.entries .markdown
          if outcomes.isEmpty then throw (.impossible .totalOfNothing)
          total outcomes) := by
    refine h.entries.bind ?_
    intro plains markeds hall
    cases hall with
    | nil => exact agree_error.mpr rfl
    | cons hfirst hrest => exact agree_total (.cons hfirst hrest)
  cases h with
  | single h => exact h
  | pool dice => exact htotal
  | list h => exact htotal

end DiceNotation

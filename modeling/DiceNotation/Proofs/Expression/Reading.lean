import DiceNotation.Evaluation.Basic
import DiceNotation.Proofs.Expression.Loops
import DiceNotation.Proofs.Steps

/-!
# Reading leaves

What is read from a text is well formed, and where nothing can be read the fault lies in
the text: at a place of it, or in a numeral of it that is too long.

Main definitions:

- `Expression.WellFormed`: the expressions that texts are read as.
- `Leaf.Blames`: the faults that reading finds in a text.
- `Leaf.Points`: faults that give the place of a character that was not expected.
- `Leaf.Meets`: what holds of a reader, wherever in a text it begins.
- `Leaf.Advances`, `Leaf.Tries`: the same of readers that take a character at least, always or
  where they find an item.

Main results:

- `Leaf.Repeats.meets`: what holds of the items that a step finds holds of all that its loop takes.
- `Expression.gives_ofLeaf`, `Expression.gives_withSuffix`: what leaves and suffixes are
  read as.
-/

namespace DiceNotation

/-! ## Well-formed expressions -/

/-- A selector has a condition, or a number that is not negative. -/
def Selector.WellFormed : Selector → Prop
  | .meeting conditions => conditions ≠ []
  | .extreme _ count => 0 ≤ count

/-- A modifier has its conditions. -/
def Modifier.WellFormed : Modifier → Prop
  | .explode .. => True
  | .reroll conditions _ => conditions ≠ []
  | .select _ selector => selector.WellFormed

namespace Expression

mutual

/-- Whether an expression is one that a text may be read as: its dice can be rolled, its
operators have a meaning, and modifiers and scores accept what they act on. -/
def WellFormed : Expression → Prop
  | .dice count least greatest =>
    0 ≤ count ∧ (least = 1 ∧ 1 ≤ greatest ∨ least = -1 ∧ greatest = 1)
  | .customDice .. => False
  | .number .. => True
  | .modified modifier operand =>
    modifier.WellFormed ∧ (Expression.modified modifier operand).accepts operand.shape = true ∧
      operand.WellFormed
  | .scored score operand =>
    (Expression.scored score operand).accepts operand.shape = true ∧ operand.WellFormed
  | .bracket content => content.WellFormed
  | .list entries => AllWellFormed entries
  | .unary op operand => op ≠ .undefined ∧ operand.WellFormed
  | .binary op left right => op ≠ .undefined ∧ left.WellFormed ∧ right.WellFormed

/-- Whether all entries of a list are well formed. -/
def AllWellFormed : List Expression → Prop
  | [] => True
  | entry :: rest => entry.WellFormed ∧ AllWellFormed rest

end

/-- Modifiers keep a pool a pool. -/
theorem wellFormed_withModifiers {modifiers : List Modifier}
    (hmodifiers : ∀ modifier ∈ modifiers, modifier.WellFormed) {operand : Expression}
    (h : operand.WellFormed) (hshape : operand.shape = .pool) :
    (operand.withModifiers modifiers).WellFormed ∧
      (operand.withModifiers modifiers).shape = .pool := by
  induction modifiers generalizing operand with
  | nil => exact ⟨h, hshape⟩
  | cons modifier rest ih =>
      obtain ⟨hmodifier, hrest⟩ := List.forall_mem_cons.mp hmodifiers
      rw [withModifiers_cons]
      refine ih hrest ?_ ?_
      · rw [WellFormed]
        refine ⟨hmodifier, ?_, h⟩
        cases modifier <;> simp [accepts, hshape]
      · cases modifier <;> simp [shape, hshape]

/-- A score is well formed on a pool or a list. -/
theorem wellFormed_withScore {operand : Expression} (h : operand.WellFormed)
    (hshape : operand.shape ≠ .number) (score : Option Score) :
    (operand.withScore score).WellFormed := by
  cases score with
  | none => exact h
  | some score =>
      rw [withScore, WellFormed]
      exact ⟨by simpa [accepts] using hshape, h⟩

end Expression

/-! ## Cursors in a text -/

/-- A step on brings the second character ahead to the front. -/
theorem Cursor.head?_next (cursor : Cursor) : cursor.next.head? = cursor.second? := by
  obtain ⟨behind, ahead, past⟩ := cursor
  cases ahead <;> rfl

/-- A cursor in a text, at a place or behind it, and not past the end. -/
structure Cursor.In (text : Text) (start : Int) (cursor : Cursor) : Prop where
  text_eq : cursor.text = text
  past : cursor.past = 0
  le_index : start ≤ cursor.index

namespace Cursor.In

variable {text : Text} {start : Int} {cursor : Cursor}

/-- A walk begins in its text, one place before its first character. -/
theorem ofText (text : Text) : (Cursor.ofText text).In text (-1) :=
  ⟨rfl, rfl, Int.le_refl _⟩

/-- Inside a text, the place and what lies ahead make up its length. -/
theorem index_lt (h : cursor.In text start) :
    cursor.index + 1 + cursor.ahead.length = text.length := by
  obtain ⟨rfl, hpast, -⟩ := h
  simp only [index, Cursor.text, hpast, List.length_append, List.length_reverse]
  omega

/-- A cursor at a place or behind it is behind an earlier one, too. -/
theorem weaken (h : cursor.In text start) {earlier : Int} (hle : earlier ≤ start) :
    cursor.In text earlier :=
  ⟨h.text_eq, h.past, by have := h.le_index; omega⟩

/-- A step on, if there is a character to step over. -/
theorem next (h : cursor.In text start) (hne : cursor.ahead ≠ []) :
    cursor.next.In text (cursor.index + 1) := by
  refine ⟨by rw [text_next, h.text_eq], ?_, Int.le_of_eq (index_next cursor).symm⟩
  cases hahead : cursor.ahead with
  | nil => exact absurd hahead hne
  | cons c rest => simpa [Cursor.next, hahead] using h.past

/-- A step over a character stays in the text and gets behind its place. -/
theorem next_of_head? (h : cursor.In text start) {c : Char} (hhead : cursor.head? = some c) :
    cursor.next.In text (cursor.index + 1) :=
  h.next fun hnil => by simp [head?, hnil] at hhead

/-- Skipping characters stays in the text and does not go back. -/
theorem skipWhile (h : cursor.In text start) (inClass : Char → Bool) :
    (cursor.skipWhile inClass).In text start := by
  refine ⟨by rw [text_skipWhile, h.text_eq], h.past, ?_⟩
  have hindex := h.le_index
  simp only [index, Cursor.skipWhile, List.length_append, List.length_reverse] at hindex ⊢
  omega

end Cursor.In

/-! ## Faults in a text -/

/-- Whether a malformation is that of a character that was not expected. -/
def Malformation.IsStray : Malformation → Prop
  | .unexpectedCharacter _ => True
  | _ => False

/-- Whether a fault is that of a character that was not expected. -/
def Fault.IsStray : Fault → Prop
  | .malformed cause _ => cause.IsStray
  | _ => False

namespace Leaf

/-- Whether a text has more digits in a row than are read. -/
def HasLongNumeral (text : Text) : Prop :=
  ∃ before digits after, text = before ++ digits ++ after ∧
    (∀ c ∈ digits, c.isDigit = true) ∧ Numeral.digitLimit < digits.length

/-- Whether a fault lies in a text: at a place of it, or in a numeral of it that is too long. -/
def Blames (text : Text) : Fault → Prop
  | .malformed _ none => True
  | .malformed _ (some place) => 0 ≤ place ∧ place ≤ text.length
  | .numeralTooLong => HasLongNumeral text
  | _ => False

/-- Whether a fault gives the place of the character, if it is that of a character that was not
expected. -/
def Points (text : Text) : Fault → Prop
  | .malformed (.unexpectedCharacter c) place? =>
    ∃ before after, text = before ++ c :: after ∧ place? = some (before.length : Int)
  | _ => True

/-- What is found wrong in a text. -/
structure Finds (text : Text) (fault : Fault) : Prop where
  blames : Blames text fault
  points : Points text fault

/-- A fault that is not about a stray character gives no place to be wrong about. -/
theorem points_of_not_isStray {text : Text} {fault : Fault} (h : ¬ fault.IsStray) :
    Points text fault := by
  unfold Points
  split
  · exact absurd trivial h
  · trivial

/-- What holds of a reader wherever in a text it begins, at place `low` or behind and with
`left` characters ahead at least: where it ends, what it has read, and what its faults are. -/
def Meets {α : Type} (text : Text) (low : Int) (left : Nat) (reader : Reader α) (Q : α → Prop) :
    Prop :=
  ∀ start cursor, cursor.In text start → low ≤ start → left ≤ cursor.ahead.length →
    Ends reader cursor (fun a later => later.In text start ∧ Q a) fun fault _ => Finds text fault

/-- What holds of a reader that takes a character at least. -/
def Advances {α : Type} (text : Text) (reader : Reader α) (Q : α → Prop) : Prop :=
  ∀ start cursor, cursor.In text start → -1 ≤ start →
    Ends reader cursor (fun a later => later.In text (cursor.index + 1) ∧ Q a)
      fun fault _ => Finds text fault

/-- What holds of a reader that takes a character at least if it finds an item. -/
def Tries {α : Type} (text : Text) (reader : Reader (Option α)) (Q : α → Prop) : Prop :=
  ∀ start cursor, cursor.In text start → -1 ≤ start →
    Ends reader cursor
      (fun item? later => later.In text start ∧
        ∀ item ∈ item?, later.In text (cursor.index + 1) ∧ Q item)
      fun fault _ => Finds text fault

/-- Whether a reader fails, at whatever place of a text. -/
def Fails {α : Type} (text : Text) (reader : Reader α) : Prop :=
  ∀ cursor : Cursor, 0 ≤ cursor.index → cursor.index ≤ text.length →
    Ends reader cursor (fun _ _ => False) fun fault _ => Finds text fault

section Steps

variable {cursor : Cursor} {E : Fault → Cursor → Prop}

theorem ends_peek {Q : Option Char → Cursor → Prop} :
    Ends peek cursor Q E ↔ Q cursor.head? cursor := Iff.rfl

theorem ends_peekSecond {Q : Option Char → Cursor → Prop} :
    Ends peekSecond cursor Q E ↔ Q cursor.second? cursor := Iff.rfl

theorem ends_skip {Q : Unit → Cursor → Prop} : Ends skip cursor Q E ↔ Q () cursor.next := Iff.rfl

/-- Taking digits ends behind them, with the digits. -/
theorem ends_takeDigits {Q : Text → Cursor → Prop} :
    Ends takeDigits cursor Q E ↔
      Q (cursor.ahead.takeWhile Char.isDigit) (cursor.skipWhile Char.isDigit) := Iff.rfl

/-- A failure at the next character blames the place behind the cursor. -/
theorem ends_failNext {α : Type} {cause : Malformation} {Q : α → Cursor → Prop} :
    Ends (failNext cause) cursor Q E ↔
      E (.malformed cause (some (cursor.index + 1))) cursor := Iff.rfl

end Steps

section Meets

variable {α β : Type} {text : Text} {low : Int} {left : Nat} {Q : α → Prop} {R : β → Prop}

/-- A reader that reads nothing meets whatever its result does. -/
theorem Meets.pure {a : α} (h : Q a) : Meets text low left (Pure.pure a) Q :=
  fun _ _ hcursor _ _ => ⟨hcursor, h⟩

/-- Readers one after the other meet what the last does, if it needs nothing ahead. -/
theorem Meets.bind {reader : Reader α} {f : α → Reader β} (h : Meets text low left reader Q)
    (hf : ∀ a, Q a → Meets text low 0 (f a) R) : Meets text low left (reader >>= f) R := by
  intro start cursor hcursor hstart hleft
  refine (h start cursor hcursor hstart hleft).bind ?_
  rintro a later ⟨hlater, ha⟩
  exact hf a ha start later hlater hstart (Nat.zero_le _)

/-- What a reader makes may be weakened. -/
theorem Meets.imp {reader : Reader α} {Q' : α → Prop} (h : Meets text low left reader Q)
    (hQ : ∀ a, Q a → Q' a) : Meets text low left reader Q' := by
  intro start cursor hcursor hstart hleft
  refine (h start cursor hcursor hstart hleft).imp ?_ fun _ _ h => h
  exact fun a later hlater => ⟨hlater.1, hQ a hlater.2⟩

/-- What follows on a failure does not matter. -/
theorem Fails.bind {reader : Reader α} (h : Fails text reader) (f : α → Reader β) :
    Fails text (reader >>= f) := by
  intro cursor hindex hlength
  rw [ends_bind]
  exact (h cursor hindex hlength).imp (fun _ _ h => h.elim) fun _ _ h => h

/-- A fault that is not about a stray character is a failure wherever it is raised. -/
theorem fails_failHere {cause : Malformation} (h : ¬ cause.IsStray) :
    Fails text (failHere cause : Reader α) :=
  fun _ hindex hlength => ⟨⟨hindex, hlength⟩, points_of_not_isStray h⟩

/-- A failure at a place of the text ends in a fault of the text. -/
theorem Fails.ends {reader : Reader α} (h : Fails text reader) {cursor : Cursor}
    (hindex : 0 ≤ cursor.index) (hlength : cursor.index ≤ text.length) {P : α → Cursor → Prop} :
    Ends reader cursor P fun fault _ => Finds text fault :=
  (h cursor hindex hlength).imp (fun _ _ h => h.elim) fun _ _ h => h

/-- A reader that fails meets any condition on what it reads. -/
theorem Fails.meets {reader : Reader α} (h : Fails text reader) (hlow : 0 ≤ low) :
    Meets text low left reader Q := by
  intro start cursor hcursor hstart _
  have hindex := hcursor.index_lt
  have hle := hcursor.le_index
  exact h.ends (by omega) (by omega)

/-- A fault at the next character meets any condition, if it is not about a stray one. -/
theorem meets_failNext {cause : Malformation} (h : ¬ cause.IsStray) (hlow : -1 ≤ low) :
    Meets text low left (failNext cause) Q := by
  intro start cursor hcursor hstart _
  have hindex := hcursor.index_lt
  have hle := hcursor.le_index
  exact ⟨⟨by omega, by omega⟩, points_of_not_isStray h⟩

/-- A character that is seen ahead stands at the next place. -/
theorem finds_stray {start : Int} {cursor : Cursor} (hcursor : cursor.In text start) {c : Char}
    (hhead : cursor.head? = some c) :
    Finds text (.malformed (.unexpectedCharacter c) (some (cursor.index + 1))) := by
  obtain ⟨behind, ahead, past⟩ := cursor
  obtain ⟨rfl, hpast, -⟩ := hcursor
  obtain rfl : past = 0 := hpast
  cases ahead with
  | nil => simp [Cursor.head?] at hhead
  | cons d rest =>
      obtain rfl : d = c := Option.some.inj hhead
      have hplace : (Cursor.mk behind (d :: rest) 0).index + 1 = behind.reverse.length := by
        simp [Cursor.index]
      refine ⟨⟨by omega, ?_⟩, ⟨behind.reverse, rest, rfl, congrArg some hplace⟩⟩
      simp only [hplace, Cursor.text, List.length_append]
      omega

/-- Requiring the end finds nothing wrong but a stray character. -/
theorem meets_requireEnd : Meets text low left requireEnd fun _ => True := by
  intro start cursor hcursor _ _
  unfold requireEnd Cursor.requireEnd
  rw [ends_bind, ends_get]
  split
  · next hhead => exact finds_stray hcursor hhead
  · exact ⟨hcursor, trivial⟩

/-- Counting what is ahead moves nowhere. -/
theorem meets_remaining : Meets text low left remaining fun _ => True :=
  fun _ _ hcursor _ _ => ⟨hcursor, trivial⟩

/-- What is seen ahead stays ahead. -/
theorem Meets.peek {f : Option Char → Reader β} (hnone : Meets text low 0 (f none) R)
    (hsome : ∀ c, Meets text low 1 (f (some c)) R) :
    Meets text low left (Leaf.peek >>= f) R := by
  intro start cursor hcursor hstart _
  rw [ends_bind]
  change Ends (f cursor.head?) cursor _ _
  cases hhead : cursor.head? with
  | none => exact hnone start cursor hcursor hstart (Nat.zero_le _)
  | some c =>
      refine hsome c start cursor hcursor hstart ?_
      rw [Cursor.head?] at hhead
      exact List.length_pos_iff.mpr fun hnil => by simp [hnil] at hhead

/-- A step over a character that is ahead. -/
theorem Meets.skip {f : Unit → Reader β} (hlow : -1 ≤ low)
    (h : Meets text 0 left (f ()) R) : Meets text low (left + 1) (Leaf.skip >>= f) R := by
  intro start cursor hcursor hstart hleft
  have hle := hcursor.le_index
  rw [ends_bind]
  change Ends (f ()) cursor.next _ _
  have hne : cursor.ahead ≠ [] := by
    intro hnil
    simp [hnil] at hleft
  have hlength : left ≤ cursor.next.ahead.length := by
    cases hahead : cursor.ahead with
    | nil => exact absurd hahead hne
    | cons c rest =>
        simp only [hahead, List.length_cons] at hleft
        simp only [Cursor.next, hahead]
        omega
  refine (h _ _ (hcursor.next hne) (by omega) hlength).imp ?_ fun _ _ h => h
  rintro a later ⟨hlater, ha⟩
  exact ⟨hlater.weaken (by omega), ha⟩

/-- A reader that takes a character meets what it makes. -/
theorem Advances.meets {reader : Reader α} (h : Advances text reader Q) (hlow : -1 ≤ low) :
    Meets text low left reader Q := by
  intro start cursor hcursor hstart _
  have hle := hcursor.le_index
  refine (h start cursor hcursor (by omega)).imp ?_ fun _ _ h => h
  exact fun a later hlater => ⟨hlater.1.weaken (by omega), hlater.2⟩

/-- What a reader that takes a character makes may be weakened. -/
theorem Advances.imp {reader : Reader α} {Q' : α → Prop} (h : Advances text reader Q)
    (hQ : ∀ a, Q a → Q' a) : Advances text reader Q' := by
  intro start cursor hcursor hstart
  refine (h start cursor hcursor hstart).imp ?_ fun _ _ h => h
  exact fun a later hlater => ⟨hlater.1, hQ a hlater.2⟩

/-- A reader that takes a character does so whatever comes after it. -/
theorem Advances.bind {reader : Reader α} {f : α → Reader β} (h : Advances text reader Q)
    (hf : ∀ a, Q a → Meets text 0 0 (f a) R) : Advances text (reader >>= f) R := by
  intro start cursor hcursor hstart
  have hle := hcursor.le_index
  refine (h start cursor hcursor hstart).bind ?_
  rintro a later ⟨hlater, ha⟩
  exact hf a ha _ later hlater (by omega) (Nat.zero_le _)

/-- What is seen ahead, if it does not matter what it is. -/
theorem Advances.look {f : Option Char → Reader β} (h : ∀ next, Advances text (f next) R) :
    Advances text (Leaf.peek >>= f) R := by
  intro start cursor hcursor hstart
  rw [ends_bind, ends_peek]
  exact h cursor.head? start cursor hcursor hstart

/-- A character that is taken; at the end of the text there is none. -/
theorem Advances.take {f : Option Char → Reader β} (hnone : Fails text (f none))
    (hsome : ∀ c, Meets text 0 0 (f (some c)) R) : Advances text (Leaf.take >>= f) R := by
  intro start cursor hcursor hstart
  have hindex := hcursor.index_lt
  have hle := hcursor.le_index
  rw [ends_bind]
  change Ends (f cursor.head?) cursor.next _ _
  cases hahead : cursor.ahead with
  | nil =>
      rw [hahead, List.length_nil] at hindex
      have hnext := Cursor.index_next cursor
      rw [Cursor.head?, hahead]
      exact (hnone _ (by omega) (by omega)).imp (fun _ _ h => h.elim) fun _ _ h => h
  | cons c rest =>
      rw [Cursor.head?, hahead]
      exact hsome c _ _ (hcursor.next (by simp [hahead])) (by omega) (Nat.zero_le _)

end Meets

/-! ## Loops -/

section Loops

variable {α β : Type} {text : Text} {low : Int} {left : Nat} {Q : α → Prop}

/-- Finding no item takes nothing. -/
theorem tries_none : Tries text (pure none) Q :=
  fun _ _ hcursor _ => ⟨hcursor, by simp⟩

/-- A reader that takes a character may be one of those tried. -/
theorem Advances.tries {reader : Reader α} (h : Advances text reader Q) :
    Tries text (do return some (← reader)) Q := by
  intro start cursor hcursor hstart
  have hle := hcursor.le_index
  refine (h start cursor hcursor hstart).bind ?_
  rintro a later ⟨hlater, ha⟩
  exact ends_pure.mpr ⟨hlater.weaken (by omega), by simpa using ⟨hlater, ha⟩⟩

/-- An item that is found from a later place on takes a character from an earlier one on. -/
theorem Tries.later {reader : Reader (Option α)} (h : Tries text reader Q) {start : Int}
    {cursor next : Cursor} (hcursor : cursor.In text start) (hstart : -1 ≤ start)
    (hnext : next.In text (cursor.index + 1)) :
    Ends reader next
      (fun item? later => later.In text start ∧
        ∀ item ∈ item?, later.In text (cursor.index + 1) ∧ Q item)
      fun fault _ => Finds text fault := by
  have hle := hcursor.le_index
  refine (h _ next hnext (by omega)).imp ?_ fun _ _ h => h
  rintro item? later ⟨hlater, hitem⟩
  exact ⟨hlater.weaken (by omega), fun item hmem => ⟨hlater, (hitem item hmem).2⟩⟩

/-- A reader that is tried meets what it makes, if it makes anything. -/
theorem Tries.meets {reader : Reader (Option α)} (h : Tries text reader Q) (hlow : -1 ≤ low) :
    Meets text low left reader fun item? => ∀ item ∈ item?, Q item := by
  intro start cursor hcursor hstart _
  refine (h start cursor hcursor (by omega)).imp ?_ fun _ _ h => h
  exact fun item? later hlater => ⟨hlater.1, fun item hmem => (hlater.2 item hmem).2⟩

/-- What holds of the items that a step finds holds of all that its loop takes. -/
theorem Repeats.meets {loop : Nat → Reader (List α)} {step : Reader (Option α)}
    (h : Repeats loop step) (hstep : Tries text step Q) (hlow : -1 ≤ low) (fuel : Nat) :
    Meets text low left (loop fuel) fun items => ∀ item ∈ items, Q item := by
  induction fuel generalizing left with
  | zero =>
      rw [h.zero]
      exact .pure (by simp)
  | succ fuel ih =>
      rw [h.succ]
      refine (hstep.meets hlow).bind ?_
      intro item? hitem
      cases item? with
      | none => exact .pure (by simp)
      | some item =>
          refine ih.bind fun items hitems => .pure ?_
          exact List.forall_mem_cons.mpr ⟨hitem item rfl, hitems⟩

end Loops

/-! ## Integers and conditions -/

/-- Whether the digits of a numeral stand in a text. -/
def Shows (text numeral : Text) : Prop :=
  (∃ before after, text = before ++ Numeral.digits numeral ++ after) ∧
    ∀ c ∈ Numeral.digits numeral, c.isDigit = true

section Integers

variable {α β : Type} {text : Text} {low : Int} {left : Nat} {Q : α → Prop} {R : β → Prop}

/-- A run of digits behind a sign or a digit. -/
theorem shows_cons {behind rest : Text} {c : Char} (hc : isIntegerCharacter c = true) :
    Shows (behind ++ c :: rest) (c :: rest.takeWhile Char.isDigit) := by
  have hall : ∀ d ∈ rest.takeWhile Char.isDigit, d.isDigit = true :=
    fun d hd => List.all_eq_true.mp List.all_takeWhile d hd
  have hsplit := List.takeWhile_append_dropWhile (p := Char.isDigit) (l := rest)
  by_cases hsign : c = '-'
  · subst hsign
    refine ⟨⟨behind ++ ['-'], rest.dropWhile Char.isDigit, ?_⟩, hall⟩
    simp [Numeral.digits, hsplit]
  · have hdigits : Numeral.digits (c :: rest.takeWhile Char.isDigit) =
        c :: rest.takeWhile Char.isDigit := by
      rw [Numeral.digits]
      rintro _ heq
      exact hsign (List.cons.inj heq).1
    have hdigit : c.isDigit = true := by simpa [isIntegerCharacter, hsign] using hc
    refine ⟨⟨behind, rest.dropWhile Char.isDigit, ?_⟩, ?_⟩
    · simp [hdigits, hsplit]
    · rw [hdigits]
      exact List.forall_mem_cons.mpr ⟨hdigit, hall⟩

/-- A numeral stands in the text that it is read from. -/
theorem advances_readNumeral : Advances text readNumeral (Shows text) := by
  intro start cursor hcursor hstart
  have hindex := hcursor.index_lt
  have hle := hcursor.le_index
  unfold readNumeral
  rw [ends_bind, ends_peek]
  cases hahead : cursor.ahead with
  | nil =>
      rw [show cursor.head? = none by simp [Cursor.head?, hahead]]
      exact ⟨⟨by omega, by omega⟩, trivial⟩
  | cons c rest =>
      have hnext := hcursor.next (by simp [hahead])
      have hdigits := hnext.skipWhile Char.isDigit
      have hplace := hdigits.index_lt
      have hbehind := hdigits.le_index
      have hrest : cursor.next.ahead = rest := by simp [Cursor.next, hahead]
      rw [show cursor.head? = some c by simp [Cursor.head?, hahead]]
      dsimp only
      split
      · rw [ends_bind, ends_failNext]
        exact ⟨⟨by omega, by omega⟩, trivial⟩
      · next hc =>
          have hshows : Shows text (c :: rest.takeWhile Char.isDigit) := by
            rw [← hcursor.text_eq, Cursor.text, hahead]
            exact shows_cons (by simpa using hc)
          rw [ends_bind, ends_skip, ends_bind, ends_takeDigits, hrest, ends_bind, ends_peek]
          by_cases hminus : (cursor.next.skipWhile Char.isDigit).head? = some '-'
          · rw [if_pos hminus, ends_bind, ends_skip]
            have hlater := Cursor.index_next (cursor.next.skipWhile Char.isDigit)
            have hlength : 0 < (cursor.next.skipWhile Char.isDigit).ahead.length :=
              List.length_pos_iff.mpr fun hnil => by simp [Cursor.head?, hnil] at hminus
            exact ((fails_failHere id).bind _).ends (by omega) (by omega)
          · rw [if_neg hminus]
            split
            · exact ((fails_failHere id).bind _).ends (by omega) (by omega)
            · exact ⟨hdigits, hshows⟩

/-- A computation without text meets what it gives, if its faults are those of the text. -/
theorem Meets.lift {x : Except Fault α} (h : Gives x Q (Finds text)) :
    Meets text low left (Leaf.lift x) Q := by
  intro start cursor hcursor _ _
  rw [Leaf.lift, ends_ofExcept]
  exact h.imp (fun _ _ ha => ⟨hcursor, ha⟩) fun _ h => h

/-- What is seen ahead, if it does not matter what it is. -/
theorem Meets.look {f : Option Char → Reader β} (h : ∀ next, Meets text low 0 (f next) R) :
    Meets text low left (Leaf.peek >>= f) R := by
  intro start cursor hcursor hstart _
  rw [ends_bind, ends_peek]
  exact h cursor.head? start cursor hcursor hstart (Nat.zero_le _)

/-- A numeral of a text is too long only if the text has one that is. -/
theorem gives_read {numeral : Text} (h : Shows text numeral) :
    Gives (Numeral.read numeral) (fun value => Numeral.read numeral = .ok value)
      (Finds text) := by
  obtain ⟨⟨before, after, rfl⟩, hdigits⟩ := h
  unfold Numeral.read
  split
  · next hlong => exact ⟨⟨before, _, after, rfl, hdigits, hlong⟩, trivial⟩
  · exact rfl

/-- An integer takes a character at least. -/
theorem advances_readInteger : Advances text readInteger fun _ => True := by
  unfold readInteger
  refine advances_readNumeral.bind ?_
  intro numeral hnumeral
  exact Meets.lift ((gives_read hnumeral).imp (fun _ _ _ => trivial) fun _ h => h)

/-- A condition takes its mark. -/
theorem advances_readCondition : Advances text readCondition fun _ => True := by
  unfold readCondition
  refine Advances.look ?_
  intro next
  split
  · exact advances_readInteger.bind fun _ _ => .pure trivial
  · refine Advances.take (fails_failHere id) ?_
    intro c
    dsimp only
    split
    · exact (fails_failHere id).meets (by omega)
    · exact (advances_readInteger.meets (by omega)).bind fun _ _ => .pure trivial

/-- A condition may be missing, and then nothing is taken. -/
theorem meets_readCondition? (hlow : -1 ≤ low) :
    Meets text low left readCondition? fun _ => True := by
  unfold readCondition?
  refine Meets.look ?_
  intro next
  split
  · exact (advances_readCondition.meets hlow).bind fun _ _ => .pure trivial
  · exact .pure trivial

end Integers

/-! ## Modifiers -/

section Modifiers

variable {text : Text} {low : Int} {left : Nat}

/-- An explosion takes its mark, and is well formed. -/
theorem advances_readExplosion : Advances text readExplosion Modifier.WellFormed := by
  unfold readExplosion
  refine Advances.take ?_ ?_
  · exact fun _ hindex hlength => ⟨⟨hindex, hlength⟩, trivial⟩
  · intro c
    dsimp only
    split
    · exact Fails.meets (fun _ hindex hlength => ⟨⟨hindex, hlength⟩, trivial⟩) (by omega)
    · have hread : ∀ {left} explosion, Meets text 0 left (do
          let condition ← readCondition?
          return Modifier.explode explosion condition) Modifier.WellFormed :=
        fun explosion => (meets_readCondition? (by omega)).bind fun _ _ => .pure trivial
      refine Meets.peek (hread .regular) ?_
      intro mark
      generalize (if some mark = some '!' then Explosion.compounding
        else if some mark = some 'p' then Explosion.penetrating else Explosion.regular) = explosion
      split
      · exact Meets.skip (by omega) (hread _)
      · exact hread _

/-- One more condition of a reroll takes its mark. -/
theorem tries_readRerollCondition? (once : Bool) :
    Tries text (readRerollCondition? once) fun _ => True := by
  intro start cursor hcursor hstart
  have hread : Tries text (do return some (← readCondition)) fun _ => True :=
    advances_readCondition.tries
  unfold readRerollCondition?
  rw [ends_bind, ends_peek]
  split
  · exact tries_none start cursor hcursor hstart
  · next hmark =>
      have hnext := hcursor.next_of_head? (Decidable.not_not.mp hmark)
      rw [ends_bind, ends_peekSecond]
      split
      · exact tries_none start cursor hcursor hstart
      · next hsecond =>
          rw [ends_bind, ends_skip]
          cases once with
          | false => exact hread.later hcursor hstart hnext
          | true =>
              have ho : cursor.next.head? = some 'o' := by
                rw [Cursor.head?_next]
                simpa using hsecond
              have hlast := hnext.next_of_head? ho
              dsimp only
              rw [if_pos rfl, ends_bind, ends_skip]
              refine hread.later hcursor hstart (hlast.weaken ?_)
              rw [Cursor.index_next]
              omega

/-- Conditions of a reroll are read one after the other. -/
theorem meets_readRerollConditions (hlow : -1 ≤ low) (once : Bool) (fuel : Nat) :
    Meets text low left (readRerollConditions once fuel) fun _ => True :=
  ((repeats_readRerollConditions once).meets (tries_readRerollCondition? once) hlow fuel).imp
    fun _ _ => trivial

/-- A reroll takes its mark, and has a condition. -/
theorem advances_readReroll : Advances text readReroll Modifier.WellFormed := by
  unfold readReroll
  refine Advances.take ?_ ?_
  · exact fun _ hindex hlength => ⟨⟨hindex, hlength⟩, trivial⟩
  · intro c
    dsimp only
    split
    · exact Fails.meets (fun _ hindex hlength => ⟨⟨hindex, hlength⟩, trivial⟩) (by omega)
    · have hread : ∀ {left} once, Meets text 0 left (do
          let condition ← readCondition
          let more ← readRerollConditions once (← remaining)
          return Modifier.reroll (condition :: more) once) Modifier.WellFormed := by
        intro left once
        refine (advances_readCondition.meets (by omega)).bind fun condition _ => ?_
        refine meets_remaining.bind fun fuel _ => ?_
        refine (meets_readRerollConditions (by omega) once fuel).bind fun more _ => ?_
        exact .pure (List.cons_ne_nil _ _)
      refine Meets.peek (hread _) ?_
      intro mark
      split
      · exact Meets.skip (by omega) (hread _)
      · exact hread _

/-- One more condition of a selection takes its mark. -/
theorem tries_readSelectCondition? (mark : Char) :
    Tries text (readSelectCondition? mark) fun _ => True := by
  intro start cursor hcursor hstart
  have hread : Tries text (do return some (← readCondition)) fun _ => True :=
    advances_readCondition.tries
  unfold readSelectCondition?
  rw [ends_bind, ends_peek]
  split
  · exact tries_none start cursor hcursor hstart
  · next hmark =>
      rw [ends_bind, ends_peekSecond]
      split
      · exact tries_none start cursor hcursor hstart
      · rw [ends_bind, ends_skip]
        exact hread.later hcursor hstart (hcursor.next_of_head? (Decidable.not_not.mp hmark))

/-- Conditions of a selection are read one after the other. -/
theorem meets_readSelectConditions (hlow : -1 ≤ low) (mark : Char) (fuel : Nat) :
    Meets text low left (readSelectConditions mark fuel) fun _ => True :=
  ((repeats_readSelectConditions mark).meets (tries_readSelectCondition? mark) hlow fuel).imp
    fun _ _ => trivial

/-- A selection takes its mark, and its selector is well formed. -/
theorem advances_readSelection :
    Advances text readSelection fun modifier =>
      ∃ keep selector, modifier = .select keep selector ∧ selector.WellFormed := by
  unfold readSelection
  refine Advances.take ?_ ?_
  · exact fun _ hindex hlength => ⟨⟨hindex, hlength⟩, trivial⟩
  · intro c
    dsimp only
    split
    · exact Fails.meets (fun _ hindex hlength => ⟨⟨hindex, hlength⟩, trivial⟩) (by omega)
    · -- The count of the highest or lowest, and conditions, are both read behind the mark.
      have hextreme : ∀ keep highest, Meets text 0 0 (do
          let count ← if (← Leaf.peek).any isIntegerCharacter then readInteger else pure 1
          if count < 0 then failHere .negativeSelection
          return Modifier.select keep (.extreme highest count)) fun modifier =>
            ∃ keep selector, modifier = .select keep selector ∧ selector.WellFormed := by
        intro keep highest
        have hcount : ∀ count : Int, Meets text 0 0 (do
            if count < 0 then failHere .negativeSelection
            return Modifier.select keep (.extreme highest count)) fun modifier =>
              ∃ keep selector, modifier = .select keep selector ∧ selector.WellFormed := by
          intro count
          dsimp only
          split
          · exact ((fails_failHere id).bind _).meets (by omega)
          · next hcount => exact .pure ⟨keep, _, rfl, Int.not_lt.mp hcount⟩
        refine Meets.look ?_
        intro next
        split
        · exact (advances_readInteger.meets (by omega)).bind fun count _ => hcount count
        · exact hcount 1
      have hmeeting : ∀ {left} keep mark, Meets text 0 left (do
          let condition ← readCondition
          let more ← readSelectConditions mark (← remaining)
          return Modifier.select keep (.meeting (condition :: more))) fun modifier =>
            ∃ keep selector, modifier = .select keep selector ∧ selector.WellFormed := by
        intro left keep mark
        refine (advances_readCondition.meets (by omega)).bind fun condition _ => ?_
        refine meets_remaining.bind fun fuel _ => ?_
        refine (meets_readSelectConditions (by omega) mark fuel).bind fun more _ => ?_
        exact .pure ⟨keep, _, rfl, List.cons_ne_nil _ _⟩
      refine Meets.peek (hmeeting _ _) ?_
      intro side
      split
      · exact Meets.skip (by omega) (hextreme _ _)
      · exact hmeeting _ _

/-- A modifier takes its mark, and is well formed. -/
theorem tries_readModifier? : Tries text readModifier? Modifier.WellFormed := by
  intro start cursor hcursor hstart
  unfold readModifier?
  rw [ends_bind, ends_peek]
  split
  · exact advances_readExplosion.tries start cursor hcursor hstart
  · split
    · exact advances_readReroll.tries start cursor hcursor hstart
    · split
      · refine (advances_readSelection.imp ?_).tries start cursor hcursor hstart
        rintro _ ⟨keep, selector, rfl, hselector⟩
        exact hselector
      · exact tries_none start cursor hcursor hstart

/-- Modifiers are read one after the other, each well formed. -/
theorem meets_readModifiers (hlow : -1 ≤ low) (fuel : Nat) :
    Meets text low left (readModifiers fuel)
      fun modifiers => ∀ modifier ∈ modifiers, modifier.WellFormed :=
  repeats_readModifiers.meets tries_readModifier? hlow fuel

/-- A score may be missing, and then nothing is taken. -/
theorem meets_readScore? (hlow : -1 ≤ low) : Meets text low left readScore? fun _ => True := by
  unfold readScore?
  refine Meets.peek ?_ ?_
  · exact .pure trivial
  · intro mark
    dsimp only
    split
    · refine Meets.skip hlow ?_
      refine Meets.peek ?_ ?_
      · exact .pure trivial
      · intro c
        split
        · exact Meets.skip (by omega) (.pure trivial)
        · exact .pure trivial
    · split
      · refine (advances_readCondition.meets hlow).bind fun success _ => ?_
        refine Meets.peek ?_ ?_
        · exact .pure trivial
        · intro c
          split
          · refine Meets.skip hlow ?_
            exact (advances_readCondition.meets (by omega)).bind fun _ _ => .pure trivial
          · exact .pure trivial
      · exact .pure trivial

end Modifiers

/-! ## Dice and numbers -/

section Leaves

variable {text : Text} {low : Int} {left : Nat}

/-- Behind a count stand dice that can be rolled. -/
theorem meets_readDie (hlow : -1 ≤ low) {count : Int} (hcount : 0 ≤ count) :
    Meets text low left (readDie count) fun e => e.WellFormed ∧ e.shape = .pool := by
  unfold readDie
  refine (Advances.take ((fails_failHere id).bind _) ?_).meets hlow
  intro c
  have hsides : Meets text 0 0 (do
      let sides ← readInteger
      if sides < 1 then failHere .noFaces
      return Expression.dice count 1 sides) fun e => e.WellFormed ∧ e.shape = .pool := by
    refine (advances_readInteger.meets (by omega)).bind fun sides _ => ?_
    dsimp only
    split
    · exact ((fails_failHere id).bind _).meets (by omega)
    · next hsides =>
        refine .pure ⟨?_, by simp [Expression.shape]⟩
        rw [Expression.WellFormed]
        exact ⟨hcount, .inl ⟨rfl, by omega⟩⟩
  dsimp only
  split
  · exact Fails.meets (fun _ hindex hlength => ⟨⟨hindex, hlength⟩, trivial⟩) (by omega)
  · intro start cursor hcursor hstart _
    rw [ends_bind, ends_peek]
    cases hhead : cursor.head? with
    | none => exact meets_failNext id (by omega) start cursor hcursor hstart (Nat.zero_le _)
    | some c =>
        dsimp only
        split
        · exact hsides start cursor hcursor hstart (Nat.zero_le _)
        · split
          · have hfudge : Expression.WellFormed (.dice count (-1) 1) := by
              rw [Expression.WellFormed]
              exact ⟨hcount, .inr ⟨rfl, rfl⟩⟩
            rw [ends_bind, ends_skip]
            refine ⟨(hcursor.next_of_head? hhead).weaken ?_, hfudge, by simp [Expression.shape]⟩
            have hle := hcursor.le_index
            omega
          · exact finds_stray hcursor hhead

/-- Dice, if their count has been read or is not negative. -/
theorem meets_readDice (hlow : -1 ≤ low) {count : Int} (hcount : 0 ≤ low ∨ 0 ≤ count) :
    Meets text low left (readDice count) Expression.WellFormed := by
  unfold readDice
  dsimp only
  split
  · exact ((fails_failHere id).bind _).meets (by omega)
  · next hnegative =>
      refine (meets_readDie hlow (Int.not_lt.mp hnegative)).bind fun dice hdice => ?_
      refine meets_remaining.bind fun fuel _ => ?_
      refine (meets_readModifiers hlow fuel).bind fun modifiers hmodifiers => ?_
      refine (meets_readScore? hlow).bind fun score _ => ?_
      refine meets_requireEnd.bind fun _ _ => .pure ?_
      obtain ⟨hpool, hshape⟩ := Expression.wellFormed_withModifiers hmodifiers hdice.1 hdice.2
      exact Expression.wellFormed_withScore hpool (by simp [hshape]) score

/-- The integer of digits is less than the power of ten with as many zeros. -/
theorem ofDigitChars_lt {digits : Text} (h : ∀ c ∈ digits, c.isDigit = true) (start : Nat) :
    Nat.ofDigitChars 10 digits start < (start + 1) * 10 ^ digits.length := by
  induction digits generalizing start with
  | nil => simp
  | cons c rest ih =>
      obtain ⟨hc, hrest⟩ := List.forall_mem_cons.mp h
      have hdigit : c.toNat - '0'.toNat < 10 := by
        have hle := (Char.isDigit_iff_toNat.mp hc).2
        simp only [Char.reduceToNat] at hle ⊢
        omega
      rw [Nat.ofDigitChars_cons, List.length_cons, Nat.pow_succ]
      have hlater := ih hrest (10 * start + (c.toNat - '0'.toNat))
      have hle : 10 * start + (c.toNat - '0'.toNat) + 1 ≤ (start + 1) * 10 := by omega
      calc _ < _ := hlater
        _ ≤ (start + 1) * 10 * 10 ^ rest.length := Nat.mul_le_mul_right _ hle
        _ = _ := by rw [Nat.mul_assoc, Nat.mul_comm (10 ^ rest.length)]

/-- An integer that has been read can be written. -/
theorem write_of_read {numeral : Text} (hdigits : ∀ c ∈ Numeral.digits numeral, c.isDigit = true)
    {value : Int} (h : Numeral.read numeral = .ok value) :
    ∃ shown, Numeral.write value = .ok shown := by
  unfold Numeral.read at h
  split at h
  · simp at h
  · next hlong =>
      cases h
      have hvalue : (Numeral.value numeral).natAbs =
          Nat.ofDigitChars 10 (Numeral.digits numeral) 0 := by
        unfold Numeral.value
        split <;> simp
      have hlt := ofDigitChars_lt hdigits 0
      have hle : 10 ^ (Numeral.digits numeral).length ≤ 10 ^ Numeral.digitLimit :=
        Nat.pow_le_pow_right (by decide) (Nat.not_lt.mp hlong)
      have hlength : (Nat.toDigits 10 (Numeral.value numeral).natAbs).length ≤
          Numeral.digitLimit := by
        rw [Nat.length_toDigits_le_iff (by decide) (by decide), hvalue]
        omega
      exact ⟨_, if_neg (Nat.not_lt.mpr hlength)⟩

/-- A text that goes on. -/
theorem Meets.requireMore {α : Type} {later : Reader α} {R : α → Prop} (hlow : -1 ≤ low)
    (h : Meets text low 1 later R) :
    Meets text low left (do Leaf.lift (← get).requireMore; later) R := by
  intro start cursor hcursor hstart _
  have hindex := hcursor.index_lt
  have hle := hcursor.le_index
  rw [ends_bind, ends_get, Cursor.requireMore]
  cases hahead : cursor.ahead with
  | nil =>
      rw [show cursor.head? = none by simp [Cursor.head?, hahead]]
      exact ⟨⟨by omega, by omega⟩, trivial⟩
  | cons c rest =>
      rw [show cursor.head? = some c by simp [Cursor.head?, hahead]]
      exact h start cursor hcursor hstart (by simp [hahead])

/-- A number or dice, once the first numeral has been read. -/
theorem meets_readLeaf_rest (hlow : -1 ≤ low) {whole : Text}
    (hwhole : Gives (Numeral.read whole)
      (fun value => (∃ shown, Numeral.write value = .ok shown) ∧ (0 ≤ low ∨ 0 ≤ value))
      (Finds text)) :
    Meets text low left (do
      match ← Leaf.peek with
      | some '.' =>
        skip
        let places ← readNumeral
        if Numeral.isSigned places then failHere .malformedDecimal
        requireEnd
        return .number (.real (decimal whole places)) (whole ++ ['.'] ++ places)
      | some 'd' => readDice (← Leaf.lift (Numeral.read whole))
      | _ =>
        requireEnd
        let value ← Leaf.lift (Numeral.read whole)
        return .number (.int value) (← Leaf.lift (Numeral.write value))) Expression.WellFormed := by
  have hnumber : ∀ value text, (Expression.number value text).WellFormed := by
    intro value text
    rw [Expression.WellFormed]
    trivial
  have hinteger : ∀ {left}, Meets text low left (do
      requireEnd
      let value ← Leaf.lift (Numeral.read whole)
      return .number (.int value) (← Leaf.lift (Numeral.write value))) Expression.WellFormed := by
    refine meets_requireEnd.bind fun _ _ => ?_
    refine (Meets.lift hwhole).bind fun value hvalue => ?_
    obtain ⟨⟨shown, hshown⟩, -⟩ := hvalue
    rw [hshown]
    have hok : Gives (Except.ok shown : Except Fault Text) (fun _ => True) (Finds text) := trivial
    exact (Meets.lift hok).bind fun _ _ => .pure (hnumber _ _)
  refine Meets.peek hinteger ?_
  intro c
  split
  · refine Meets.skip hlow ?_
    refine (advances_readNumeral.meets (by omega)).bind fun places _ => ?_
    dsimp only
    split
    · exact ((fails_failHere id).bind _).meets (by omega)
    · exact meets_requireEnd.bind fun _ _ => .pure (hnumber _ _)
  · exact (Meets.lift hwhole).bind fun count hcount => meets_readDice hlow hcount.2
  · exact hinteger

/-- A leaf is read as a well-formed expression, from the front of its text. -/
theorem meets_readLeaf : Meets text (-1) 0 readLeaf Expression.WellFormed := by
  unfold readLeaf
  refine Meets.requireMore (Int.le_refl (-1)) ?_
  refine Meets.look ?_
  intro next
  split
  · exact meets_readLeaf_rest (by omega) ⟨⟨_, rfl⟩, .inr (by decide)⟩
  · refine (advances_readNumeral.bind fun whole hwhole => ?_).meets (Int.le_refl (-1))
    refine meets_readLeaf_rest (by omega) ((gives_read hwhole).imp ?_ fun _ h => h)
    exact fun value hvalue _ => ⟨write_of_read hwhole.2 hvalue, .inl (by omega)⟩

end Leaves

end Leaf

namespace Expression

/-- What a reader makes of a whole text. -/
theorem gives_on {α : Type} {text : Text} {reader : Reader α} {Q : α → Prop}
    (h : Leaf.Meets text (-1) 0 reader Q) : Gives (reader.on text) Q (Leaf.Finds text) := by
  have hends := h (-1) (Cursor.ofText text) (Cursor.In.ofText text) (Int.le_refl _) (Nat.zero_le _)
  unfold Ends at hends
  unfold Reader.on
  cases hrun : reader.run (Cursor.ofText text) with
  | ok a later =>
      rw [hrun] at hends
      exact hends.2
  | error fault later =>
      rw [hrun] at hends
      exact hends

/-- A leaf is read as a well-formed expression. -/
theorem gives_ofLeaf (text : Text) : Gives (ofLeaf text) WellFormed (Leaf.Finds text) :=
  gives_on Leaf.meets_readLeaf

/-- A suffix of a pool or list gives a well-formed expression. -/
theorem gives_withSuffix {operand : Expression} (h : operand.WellFormed)
    (hshape : operand.shape ≠ .number) (suffix : Text) :
    Gives (operand.withSuffix suffix) WellFormed (Leaf.Finds suffix) := by
  unfold withSuffix
  split
  · exact h
  · refine gives_on ?_
    unfold readSuffix
    refine (Leaf.meets_readScore? (Int.le_refl (-1))).bind fun score? _ => ?_
    cases score? with
    | some score =>
        refine Leaf.meets_requireEnd.bind fun _ _ => .pure ?_
        exact wellFormed_withScore h hshape (some score)
    | none =>
        refine Leaf.Meets.look fun mark => ?_
        split
        · refine (Leaf.advances_readSelection.meets (Int.le_refl (-1))).bind ?_
          rintro _ ⟨keep, selector, rfl, hselector⟩
          refine Leaf.meets_requireEnd.bind fun _ _ => .pure ?_
          rw [WellFormed]
          exact ⟨hselector, by simpa [accepts] using hshape, h⟩
        · exact fun _ _ _ _ _ => ⟨trivial, trivial⟩

end Expression
end DiceNotation

import DiceNotation.Proofs.Expression.Parsing

/-!
# The end of reading

Modifiers, and the further conditions of one, are read as long as another follows.  Each takes a
character at least, so that reading comes to an end, and the bound on how many are read is never
met.  What is read of a text is then an expression, or nothing of no text, or a malformation, at a
place in the text if at any; only a numeral that is too long makes a difference.

Main definitions:

- `Leaf.Shortens`: steps that take a character at least where they find an item.
- `Leaf.ComesToEnd`: loops that no bound cuts short.

Main results:

- `Leaf.Repeats.comesToEnd`: a loop over steps that take a character at least comes to an end.
- `Expression.parse_eq_none_iff`: only no text is read as nothing.
- `Expression.parse_ends`: how reading a text ends.
-/

namespace DiceNotation
namespace Leaf

/-! ## Loops -/

section Loops

variable {α : Type}

/-- Whether a step takes a character at least where it finds an item, and finds none at the end. -/
structure Shortens (step : Reader (Option α)) : Prop where
  stops : ∀ cursor : Cursor, cursor.ahead = [] → step.run cursor = .ok none cursor
  takes : ∀ cursor : Cursor, cursor.past = 0 → Yields step cursor fun item? later =>
    item?.isSome → later.past = 0 ∧ later.ahead.length < cursor.ahead.length

/-- Whether a loop with fuel comes to an end by itself: with as much fuel as there are characters
ahead it does what it does with any more. -/
def ComesToEnd (loop : Nat → Reader (List α)) : Prop :=
  ∀ cursor : Cursor, cursor.past = 0 → ∀ fuel, cursor.ahead.length ≤ fuel →
    (loop fuel).run cursor = (loop cursor.ahead.length).run cursor

variable {loop : Nat → Reader (List α)} {step : Reader (Option α)}

/-- At the end of a text a loop finds nothing, whatever its fuel. -/
theorem Repeats.run_of_ahead_eq_nil (h : Repeats loop step) (hstep : Shortens step)
    {cursor : Cursor} (hahead : cursor.ahead = []) (fuel : Nat) :
    (loop fuel).run cursor = .ok [] cursor := by
  cases fuel with
  | zero =>
      rw [h.zero]
      rfl
  | succ fuel =>
      rw [h.succ, EStateM.run_bind, hstep.stops cursor hahead]
      rfl

/-- A loop that shortens its text does not depend on its fuel, if there is enough. -/
theorem Repeats.run_eq (h : Repeats loop step) (hstep : Shortens step) (bound : Nat)
    {cursor : Cursor} (hpast : cursor.past = 0) (hbound : cursor.ahead.length ≤ bound)
    {fuel fuel' : Nat} (hfuel : cursor.ahead.length ≤ fuel)
    (hfuel' : cursor.ahead.length ≤ fuel') :
    (loop fuel).run cursor = (loop fuel').run cursor := by
  induction bound generalizing cursor fuel fuel' with
  | zero =>
      have hahead : cursor.ahead = [] := List.length_eq_zero_iff.mp (Nat.le_zero.mp hbound)
      rw [h.run_of_ahead_eq_nil hstep hahead, h.run_of_ahead_eq_nil hstep hahead]
  | succ bound ih =>
      by_cases hahead : cursor.ahead = []
      · rw [h.run_of_ahead_eq_nil hstep hahead, h.run_of_ahead_eq_nil hstep hahead]
      · have hlength : 0 < cursor.ahead.length := List.length_pos_iff.mpr hahead
        obtain ⟨rest, rfl⟩ : ∃ rest, fuel = rest + 1 := ⟨fuel - 1, by omega⟩
        obtain ⟨rest', rfl⟩ : ∃ rest', fuel' = rest' + 1 := ⟨fuel' - 1, by omega⟩
        have htakes := yields_iff.mp (hstep.takes cursor hpast)
        rw [h.succ, h.succ, EStateM.run_bind, EStateM.run_bind]
        cases hrun : step.run cursor with
        | error fault later => rfl
        | ok item? later =>
            cases item? with
            | none => rfl
            | some item =>
                -- One character less is ahead, and one unit of fuel is spent.
                obtain ⟨hlater, hshorter⟩ := htakes (some item) later hrun rfl
                have hrest : (loop rest).run later = (loop rest').run later :=
                  ih hlater (by omega) (by omega) (by omega)
                dsimp only
                rw [EStateM.run_bind, EStateM.run_bind, hrest]

/-- A loop over steps that take a character at least comes to an end. -/
theorem Repeats.comesToEnd (h : Repeats loop step) (hstep : Shortens step) : ComesToEnd loop :=
  fun cursor hpast _ hfuel =>
    h.run_eq hstep cursor.ahead.length hpast (Nat.le_refl _) hfuel (Nat.le_refl _)

end Loops

/-! ## Steps -/

/-- A step that takes a character if it finds an item in a text leaves less ahead. -/
theorem Tries.shortens {α : Type} {step : Reader (Option α)} {Q : α → Prop}
    (h : ∀ text, Tries text step Q)
    (hstops : ∀ cursor : Cursor, cursor.ahead = [] → step.run cursor = .ok none cursor) :
    Shortens step where
  stops := hstops
  takes := by
    intro cursor hpast
    have hcursor : cursor.In cursor.text cursor.index := ⟨rfl, hpast, Int.le_refl _⟩
    have hstart : -1 ≤ cursor.index := by
      simp only [Cursor.index]
      omega
    refine (h cursor.text cursor.index cursor hcursor hstart).imp ?_ fun _ _ _ => trivial
    rintro item? later ⟨-, hitem⟩ hfound
    obtain ⟨item, rfl⟩ := Option.isSome_iff_exists.mp hfound
    obtain ⟨hlater, -⟩ := hitem item rfl
    have hindex := hcursor.index_lt
    have hindex' := hlater.index_lt
    have hle := hlater.le_index
    exact ⟨hlater.past, by omega⟩

/-- Reading a modifier shortens the text. -/
theorem shortens_readModifier? : Shortens readModifier? :=
  Tries.shortens (fun _ => tries_readModifier?) fun cursor hahead => by
    simp [readModifier?, Cursor.head?, hahead]

/-- So does reading a condition of a reroll. -/
theorem shortens_readRerollCondition? (once : Bool) : Shortens (readRerollCondition? once) :=
  Tries.shortens (fun _ => tries_readRerollCondition? once) fun cursor hahead => by
    simp [readRerollCondition?, Cursor.head?, hahead]

/-- So does reading a condition of a selection. -/
theorem shortens_readSelectCondition? (mark : Char) : Shortens (readSelectCondition? mark) :=
  Tries.shortens (fun _ => tries_readSelectCondition? mark) fun cursor hahead => by
    simp [readSelectCondition?, Cursor.head?, hahead]

/-- No bound cuts short the modifiers that are read, or the further conditions of one. -/
theorem comesToEnd_readers :
    ComesToEnd readModifiers ∧ (∀ once, ComesToEnd (readRerollConditions once)) ∧
      ∀ mark, ComesToEnd (readSelectConditions mark) :=
  ⟨repeats_readModifiers.comesToEnd shortens_readModifier?,
    fun once => (repeats_readRerollConditions once).comesToEnd (shortens_readRerollCondition? once),
    fun mark => (repeats_readSelectConditions mark).comesToEnd (shortens_readSelectCondition? mark)⟩

/-- A numeral that is too long makes its text longer still. -/
theorem HasLongNumeral.lt_length {text : Text} (h : HasLongNumeral text) :
    Numeral.digitLimit < text.length := by
  obtain ⟨before, digits, after, rfl, -, hlong⟩ := h
  simp only [List.length_append]
  omega

end Leaf

namespace Expression

/-! ## Texts -/

/-- Nothing is read of a text that is blank, and of no other. -/
theorem parse_eq_none_iff {text : Text} : parse text = .ok none ↔ text.standardize = [] := by
  unfold parse parseStandard
  constructor
  · intro h
    rw [bind_eq_ok_iff] at h
    obtain ⟨outline, houtline, hnone⟩ := h
    obtain ⟨content, hreads, rfl⟩ := Outline.ofText_eq_ok_iff.mp houtline
    by_contra htext
    obtain ⟨element, rfl, helement⟩ := hreads.exists_element htext
    cases element with
    | empty => simp [Outline.isEmpty] at helement
    | leaf | math | group =>
        simp only [List.head?_cons, Option.getD_some] at hnone
        rw [bind_eq_ok_iff] at hnone
        obtain ⟨e, -, he⟩ := hnone
        simp at he
  · intro h
    rw [h]
    rfl

/-- A text without a numeral that is too long is read as an expression, or as nothing if it is
blank, or it is malformed, at a place in it if at any; and reading it comes to an end. -/
theorem parse_ends {text : Text} (h : ¬ Leaf.HasLongNumeral text.standardize) :
    ((∃ e, parse text = .ok (some e)) ∨ (parse text = .ok none ∧ text.standardize = []) ∨
      ∃ cause place?, parse text = .error (.malformed cause place?) ∧
        ∀ place ∈ place?, 0 ≤ place ∧ place ≤ text.standardize.length) ∧
    Leaf.ComesToEnd Leaf.readModifiers ∧
    (∀ once, Leaf.ComesToEnd (Leaf.readRerollConditions once)) ∧
    ∀ mark, Leaf.ComesToEnd (Leaf.readSelectConditions mark) := by
  refine ⟨?_, Leaf.comesToEnd_readers⟩
  have hgives := gives_parse text
  match hparse : parse text with
  | .ok (some e) => exact .inl ⟨e, rfl⟩
  | .ok none => exact .inr (.inl ⟨rfl, parse_eq_none_iff.mp hparse⟩)
  | .error fault =>
      rw [hparse] at hgives
      cases fault with
      | malformed cause place? =>
          refine .inr (.inr ⟨cause, place?, rfl, ?_⟩)
          rintro place rfl
          exact hgives
      | numeralTooLong => exact absurd hgives h
      | _ => exact hgives.elim

/-- A bracket that is not closed is malformed, at a place in the text or behind it. -/
theorem parse_ends_unclosed :
    ∃ cause place?, parse "(1+".toList = .error (.malformed cause place?) ∧
      ∀ place ∈ place?, 0 ≤ place ∧ place ≤ 3 := by
  have hlength : (Text.standardize "(1+".toList).length = 3 := by decide +kernel
  have hshort : ¬ Leaf.HasLongNumeral (Text.standardize "(1+".toList) := by
    intro hlong
    have hlt := hlong.lt_length
    rw [hlength] at hlt
    exact absurd hlt (by decide)
  have hfails : (parse "(1+".toList).isOk = false := by decide +kernel
  rcases (parse_ends hshort).1 with ⟨e, he⟩ | ⟨hnone, -⟩ | ⟨cause, place?, hparse, hplace⟩
  · rw [he] at hfails
    cases hfails
  · rw [hnone] at hfails
    cases hfails
  · rw [hlength] at hplace
    exact ⟨cause, place?, hparse, hplace⟩

end Expression
end DiceNotation

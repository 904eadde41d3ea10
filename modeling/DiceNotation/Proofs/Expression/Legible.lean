import DiceNotation.Proofs.Expression.Reading
import DiceNotation.Proofs.Outcome.Trail

/-!
# Legible expressions

The numbers of an expression show the texts that they are read from, and these have digits, a
sign and a point, and no marks.

Main definitions:

- `Expression.Inherited`: what holds of leaves, and of an expression if it holds of its parts.
- `Expression.Legible`: the expressions whose numbers show texts without marks.

Main results:

- `Expression.Inherited.parse`: what is inherited holds of all that is read.
- `Expression.legible_of_parse`: texts are read as legible expressions.
-/

namespace DiceNotation

/-- A reader makes something of a text exactly if its run does. -/
theorem Reader.on_eq_ok_iff {α : Type} {reader : Reader α} {text : Text} {a : α} :
    reader.on text = .ok a ↔ ∃ later, reader.run (Cursor.ofText text) = .ok a later := by
  unfold Reader.on
  cases reader.run (Cursor.ofText text) <;> simp

namespace Expression

/-! ## What is inherited -/

/-- What holds of the expressions of leaves, and of an expression if it holds of its parts. -/
structure Inherited (P : Expression → Prop) : Prop where
  leaf : ∀ {text : Text} {e : Expression}, ofLeaf text = .ok e → P e
  modified : ∀ {modifier : Modifier} {operand : Expression}, P operand →
    P (.modified modifier operand)
  scored : ∀ {score : Score} {operand : Expression}, P operand → P (.scored score operand)
  bracket : ∀ {content : Expression}, P content → P (.bracket content)
  list : ∀ {entries : List Expression}, (∀ entry ∈ entries, P entry) → P (.list entries)
  unary : ∀ {op : UnaryOp} {operand : Expression}, P operand → P (.unary op operand)
  binary : ∀ {op : BinaryOp} {left right : Expression}, P left → P right →
    P (.binary op left right)

namespace Inherited

variable {P : Expression → Prop}

/-- A suffix is a score or a modifier. -/
theorem withSuffix (hP : Inherited P) {operand e : Expression} (hoperand : P operand) {suffix : Text}
    (h : operand.withSuffix suffix = .ok e) : P e := by
  unfold Expression.withSuffix at h
  split at h
  · cases h
    exact hoperand
  · obtain ⟨later, hrun⟩ := Reader.on_eq_ok_iff.mp h
    rw [readSuffix, run_bind_eq_ok_iff] at hrun
    obtain ⟨score?, _, -, hrun⟩ := hrun
    cases score? with
    | some score =>
        rw [run_bind_eq_ok_iff] at hrun
        obtain ⟨_, _, -, heq⟩ := hrun
        cases heq
        exact hP.scored hoperand
    | none =>
        rw [run_bind_eq_ok_iff] at hrun
        obtain ⟨mark, _, -, hrun⟩ := hrun
        split at hrun
        · rw [run_bind_eq_ok_iff] at hrun
          obtain ⟨selection, _, -, hrun⟩ := hrun
          rw [run_bind_eq_ok_iff] at hrun
          obtain ⟨_, _, -, heq⟩ := hrun
          cases heq
          exact hP.modified hoperand
        · cases hrun

/-- A list inherits what holds of its entries. -/
theorem listed (hP : Inherited P) {entries : List Expression}
    (hentries : ∀ entry ∈ entries, P entry) {suffix : Text}
    {e : Expression} (h : listed entries suffix = .ok e) : P e := by
  unfold Expression.listed at h
  split at h
  · next entry =>
      split at h
      · exact hP.withSuffix (hentries entry (by simp)) h
      · exact hP.withSuffix (hP.list hentries) h
  · exact hP.withSuffix (hP.list hentries) h

/-- So does a bracket or a list with its suffix. -/
theorem ofGroup (hP : Inherited P) {enclosure : Enclosure} {entries : List Expression}
    (hentries : ∀ entry ∈ entries, P entry) {e : Expression}
    (h : ofGroup enclosure entries = .ok e) : P e := by
  unfold Expression.ofGroup at h
  split at h
  · exact hP.listed hentries h
  · split at h
    · next content =>
        have hcontent := hentries content (by simp)
        unfold enclosed at h
        split at h
        · cases h
          exact hP.bracket hcontent
        · split at h
          · cases h
            exact hP.unary hcontent
          · simp at h
    · simp at h

mutual

/-- What is inherited holds of what outlines are read as. -/
theorem ofOutline (hP : Inherited P) {outline : Outline} {e : Expression}
    (h : ofOutline outline = .ok e) : P e := by
  cases outline with
  | empty => simp [Expression.ofOutline] at h
  | leaf text =>
      rw [Expression.ofOutline] at h
      split at h
      · simp at h
      · exact hP.leaf h
  | math symbol left right =>
      rw [Expression.ofOutline] at h
      split at h
      · simp at h
      · split at h
        · simp at h
        · rw [bind_eq_ok_iff] at h
          obtain ⟨first, hfirst, h⟩ := h
          rw [bind_eq_ok_iff] at h
          obtain ⟨second, hsecond, heq⟩ := h
          cases heq
          exact hP.binary (hP.ofOutline hfirst) (hP.ofOutline hsecond)
  | group enclosure elements =>
      rw [Expression.ofOutline, bind_eq_ok_iff] at h
      obtain ⟨entries, hentries, h⟩ := h
      exact hP.ofGroup (hP.ofOutlines hentries) h

/-- What is inherited holds of all entries that outlines are read as. -/
theorem ofOutlines (hP : Inherited P) {outlines : List Outline} {entries : List Expression}
    (h : ofOutlines outlines = .ok entries) : ∀ entry ∈ entries, P entry := by
  cases outlines with
  | nil =>
      rw [Expression.ofOutlines] at h
      cases h
      simp
  | cons element rest =>
      rw [Expression.ofOutlines, bind_eq_ok_iff] at h
      obtain ⟨first, hfirst, h⟩ := h
      rw [bind_eq_ok_iff] at h
      obtain ⟨others, hothers, heq⟩ := h
      cases heq
      exact List.forall_mem_cons.mpr ⟨hP.ofOutline hfirst, hP.ofOutlines hothers⟩

end

/-- What is inherited holds of all that is read. -/
theorem parse (hP : Inherited P) {text : Text} {e : Expression}
    (h : parse text = .ok (some e)) : P e := by
  rw [Expression.parse, parseStandard, bind_eq_ok_iff] at h
  obtain ⟨outline, -, h⟩ := h
  split at h
  · simp at h
  · rw [bind_eq_ok_iff] at h
    obtain ⟨_, he, heq⟩ := h
    cases heq
    exact hP.ofOutline he

end Inherited

/-! ## Texts of numbers -/

mutual

/-- Whether every number of an expression shows a text, and one without marks. -/
def Legible : Expression → Prop
  | .number _ text => text ≠ [] ∧ ∀ c ∈ text, Markup.isOrdinary c = true
  | .dice .. => True
  | .customDice .. => True
  | .modified _ operand => operand.Legible
  | .scored _ operand => operand.Legible
  | .bracket content => content.Legible
  | .list entries => AllLegible entries
  | .unary _ operand => operand.Legible
  | .binary _ left right => left.Legible ∧ right.Legible

/-- Whether all entries of a list are legible. -/
def AllLegible : List Expression → Prop
  | [] => True
  | entry :: rest => entry.Legible ∧ AllLegible rest

end

/-- All entries are legible if each is. -/
theorem allLegible_iff {entries : List Expression} :
    AllLegible entries ↔ ∀ entry ∈ entries, entry.Legible := by
  induction entries with
  | nil => simp [AllLegible]
  | cons entry rest ih => simp [AllLegible, ih]

/-- Modifiers keep an expression legible. -/
theorem legible_withModifiers {operand : Expression} (h : operand.Legible)
    (modifiers : List Modifier) : (operand.withModifiers modifiers).Legible := by
  induction modifiers generalizing operand with
  | nil => exact h
  | cons modifier rest ih => exact ih (by rwa [Legible])

/-- So does a score. -/
theorem legible_withScore {operand : Expression} (h : operand.Legible) (score : Option Score) :
    (operand.withScore score).Legible := by
  cases score with
  | none => exact h
  | some score => rwa [withScore, Legible]

end Expression

namespace Leaf

/-- An integer is written in ordinary characters. -/
theorem ordinary_of_isIntegerCharacter {c : Char} (h : isIntegerCharacter c = true) :
    Markup.isOrdinary c = true := by
  simp only [isIntegerCharacter, Bool.or_eq_true, beq_iff_eq] at h
  rcases h with rfl | hdigit
  · decide
  · exact Markup.ordinary_of_isDigit hdigit

/-- A numeral is not empty, and has no marks. -/
theorem legible_readNumeral (cursor : Cursor) :
    Yields readNumeral cursor
      fun numeral _ => numeral ≠ [] ∧ ∀ c ∈ numeral, Markup.isOrdinary c = true := by
  unfold readNumeral
  refine ends_bind.mpr (ends_peek.mpr ?_)
  cases cursor.head? with
  | none => trivial
  | some c =>
      dsimp only
      split
      · trivial
      · next hc =>
          refine ends_bind.mpr (ends_skip.mpr (ends_bind.mpr (ends_takeDigits.mpr ?_)))
          refine ends_bind.mpr (ends_peek.mpr ?_)
          split
          · trivial
          · split
            · trivial
            · refine ends_pure.mpr ⟨by simp, List.forall_mem_cons.mpr ⟨?_, fun d hd => ?_⟩⟩
              · exact ordinary_of_isIntegerCharacter (by simpa using hc)
              · exact Markup.ordinary_of_isDigit (List.all_eq_true.mp List.all_takeWhile d hd)

/-- Dice are legible. -/
theorem legible_readDie (count : Int) (cursor : Cursor) :
    Yields (readDie count) cursor fun e _ => e.Legible := by
  have hdice : ∀ least greatest, (Expression.dice count least greatest).Legible := by
    intro least greatest
    rw [Expression.Legible]
    trivial
  unfold readDie
  refine (yields_true _ _).bind fun c? later _ => ?_
  cases c? with
  | none => trivial
  | some c =>
      dsimp only
      split
      · trivial
      · refine (yields_true _ _).bind fun c? later _ => ?_
        cases c? with
        | none => trivial
        | some c =>
            dsimp only
            split
            · refine (yields_true _ _).bind fun sides later _ => ?_
              split
              · trivial
              · exact ends_pure.mpr (hdice _ _)
            · split
              · exact (yields_true _ _).bind fun _ _ _ => ends_pure.mpr (hdice _ _)
              · trivial

/-- Dice are legible. -/
theorem legible_readDice (count : Int) (cursor : Cursor) :
    Yields (readDice count) cursor fun e _ => e.Legible := by
  unfold readDice
  dsimp only
  split
  · trivial
  · refine (legible_readDie count cursor).bind fun dice later hdice => ?_
    refine (yields_true _ _).bind fun fuel later _ => ?_
    refine (yields_true _ _).bind fun modifiers later _ => ?_
    refine (yields_true _ _).bind fun score later _ => ?_
    refine (yields_true _ _).bind fun _ later _ => ends_pure.mpr ?_
    exact Expression.legible_withScore (Expression.legible_withModifiers hdice _) _

/-- A number or dice are legible if what has been read of them is. -/
theorem legible_readLeaf_rest {whole : Text}
    (hwhole : ∀ c ∈ whole, Markup.isOrdinary c = true) (cursor : Cursor) :
    Yields (do
      match ← Leaf.peek with
      | some '.' =>
        skip
        let places ← readNumeral
        if Numeral.isSigned places then failHere .malformedDecimal
        requireEnd
        return .number (.real (decimal whole places)) (whole ++ ['.'] ++ places)
      | some 'd' => readDice (← Leaf.lift (Numeral.read whole))
      | _ =>
        requireEnd
        let value ← Leaf.lift (Numeral.read whole)
        return .number (.int value) (← Leaf.lift (Numeral.write value))) cursor
      fun e _ => e.Legible := by
  refine (yields_true _ _).bind fun next later _ => ?_
  split
  · refine (yields_true _ _).bind fun _ later _ => ?_
    refine (legible_readNumeral later).bind fun places later hplaces => ?_
    dsimp only
    split
    · trivial
    · refine (yields_true _ _).bind fun _ later _ => ends_pure.mpr ?_
      rw [Expression.Legible]
      refine ⟨by simp, ?_⟩
      simp only [List.forall_mem_append]
      exact ⟨⟨hwhole, List.all_eq_true.mp rfl⟩, hplaces.2⟩
  · exact (yields_true _ _).bind fun count later _ => legible_readDice count later
  · refine (yields_true _ _).bind fun _ later _ => ?_
    refine (yields_true _ _).bind fun value later _ => ?_
    have hshown : Yields (Leaf.lift (Numeral.write value)) later
        fun text _ => text ≠ [] ∧ ∀ c ∈ text, Markup.isOrdinary c = true :=
      ends_ofExcept.mpr ((Numeral.ordinary_write value).imp (fun _ _ h => h) fun _ _ => trivial)
    refine hshown.bind fun text later htext => ends_pure.mpr ?_
    rw [Expression.Legible]
    exact htext

/-- A leaf is legible. -/
theorem legible_readLeaf (cursor : Cursor) : Yields readLeaf cursor fun e _ => e.Legible := by
  unfold readLeaf
  refine (yields_true _ _).bind fun _ later _ => ?_
  refine (yields_true _ _).bind fun _ later _ => ?_
  refine (yields_true _ _).bind fun next later _ => ?_
  split
  · exact legible_readLeaf_rest (List.all_eq_true.mp rfl) later
  · refine (legible_readNumeral later).bind fun whole later hwhole => ?_
    exact legible_readLeaf_rest hwhole.2 later

end Leaf

namespace Expression

/-- What is read from a text is legible if its leaves are. -/
theorem inherited_legible : Inherited Legible where
  leaf h := by
    obtain ⟨later, hrun⟩ := Reader.on_eq_ok_iff.mp h
    exact yields_iff.mp (Leaf.legible_readLeaf _) _ _ hrun
  modified h := by rwa [Legible]
  scored h := by rwa [Legible]
  bracket h := by rwa [Legible]
  list h := by rwa [Legible, allLegible_iff]
  unary h := by rwa [Legible]
  binary h h' := by
    rw [Legible]
    exact ⟨h, h'⟩

/-- Texts are read as legible expressions. -/
theorem legible_of_parse {text : Text} {e : Expression} (h : parse text = .ok (some e)) :
    e.Legible :=
  inherited_legible.parse h

end Expression
end DiceNotation

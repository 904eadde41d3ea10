import DiceNotation.Proofs.Expression.Subtraction

/-!
# Sums of dice in a list

Dice that are added up in curly brackets, with a suffix behind them, are one pool under what the
suffix shows.  What a suffix shows does not depend on what it stands behind.

Main definitions:

- `Text.plus`: a text added to a text.
- `WrittenDice.plain`: dice without modifiers or score.

Main results:

- `Expression.withSuffix_eq`: a suffix lays the same over anything, or fails alike.
- `Expression.parse_listOf_suffix`: a pool in curly brackets is that pool under the suffix.
- `Expression.parse_listOf_plus`: so is a sum of dice.
-/

namespace DiceNotation

/-- A text added to a text. -/
def Text.plus (text other : Text) : Text := text ++ BinaryOp.add.symbol ++ other

/-- Dice of a count and faces, without modifiers or score. -/
def WrittenDice.plain (count : WrittenNumber) (faces : WrittenFaces) : WrittenDice where
  count := some count
  faces := faces
  modifiers := []
  separate := List.isChain_nil
  score := none
  apart := by simp

/-- Plain dice are dice with their count and faces. -/
theorem WrittenDice.expression_plain (count : WrittenNumber) (faces : WrittenFaces) :
    (plain count faces).expression = faces.dice count.value := rfl

namespace Outline

/-- Characters of suffixes are in standard form. -/
theorem isStandard_of_isSuffixCharacter {c : Char} (h : isSuffixCharacter c = true) :
    Text.isStandard c = true := by
  have hsmall : ∀ n : Fin 128, isSuffixCharacter (Char.ofNat n) = true →
      Text.isStandard (Char.ofNat n) = true := by
    decide +kernel
  have hc : c.toNat < 128 := by
    simp only [isSuffixCharacter, Bool.or_eq_true] at h
    rcases h with (hlower | hdigit) | hcomparison
    · have hle : c.toNat ≤ 'z'.toNat := of_decide_eq_true (Bool.and_eq_true_iff.mp hlower).2
      exact Nat.lt_of_le_of_lt hle (by decide)
    · exact Nat.lt_of_le_of_lt (Char.isDigit_iff_toNat.mp hdigit).2 (by decide)
    · simp only [isComparison, Bool.or_eq_true, beq_iff_eq] at hcomparison
      rcases hcomparison with (rfl | rfl) | rfl <;> decide
  have hstandard := hsmall ⟨c.toNat, hc⟩
  rw [Char.ofNat_toNat] at hstandard
  exact hstandard h

/-- A suffix is in standard form. -/
theorem isStandard_of_suffixAfter {last : Option Char} {text : Text}
    (h : suffixAfter last text = text) : ∀ c ∈ text, Text.isStandard c = true := by
  induction text generalizing last with
  | nil => exact List.forall_mem_nil _
  | cons c rest ih =>
      obtain ⟨hc, hrest⟩ := suffixAfter_cons_eq_iff.mp h
      refine List.forall_mem_cons.mpr ⟨?_, ih hrest⟩
      by_cases hminus : c = '-'
      · rw [hminus]
        rfl
      · rw [continuesSuffix, if_neg hminus] at hc
        exact isStandard_of_isSuffixCharacter hc

/-- A list of texts with a suffix, in standard form. -/
theorem isStandard_listOf_suffix {text suffix : Text} (h : ∀ c ∈ text, Text.isStandard c = true)
    (hsuffix : leadingSuffix suffix = suffix) :
    ∀ c ∈ Text.listOf [text] ++ suffix, Text.isStandard c = true :=
  List.forall_mem_append.mpr ⟨Text.isStandard_listOf h, isStandard_of_suffixAfter hsuffix⟩

end Outline

namespace Expression

/-! ## Suffixes -/

/-- What a suffix shows: modifiers and perhaps a score, to be laid over what stands before it. -/
def readOverlay (suffix : Text) : Reader (List Modifier × Option Score) := do
  match ← Leaf.readScore? with
  | some score =>
    Leaf.requireEnd
    return ([], some score)
  | none =>
    let mark ← Leaf.peek
    if mark = some 'k' ∨ mark = some 'd' then
      let selection ← Leaf.readSelection
      Leaf.requireEnd
      return ([selection], none)
    throw (.malformed (.unknownListModifiers suffix) none)

/-- What a suffix, perhaps an empty one, shows. -/
def overlay (suffix : Text) : Except Fault (List Modifier × Option Score) :=
  if suffix.isEmpty then .ok ([], none) else (readOverlay suffix).on suffix

/-- A suffix is its modifiers and its score, laid over the operand. -/
theorem readSuffix_eq (operand : Expression) (suffix : Text) :
    readSuffix operand suffix = readOverlay suffix >>= fun laid =>
      pure ((operand.withModifiers laid.1).withScore laid.2) := by
  unfold readSuffix readOverlay
  rw [bind_assoc]
  congr 1
  funext score?
  cases score? with
  | some score =>
      dsimp only
      rw [bind_assoc]
      rfl
  | none =>
      dsimp only
      rw [bind_assoc]
      congr 1
      funext mark
      split
      · simp only [bind_assoc]
        rfl
      · rfl

/-- What a suffix shows does not depend on what it stands behind. -/
theorem withSuffix_eq (operand : Expression) (suffix : Text) :
    operand.withSuffix suffix =
      (overlay suffix).map fun laid => (operand.withModifiers laid.1).withScore laid.2 := by
  unfold withSuffix overlay
  split
  · rfl
  · rw [readSuffix_eq, Reader.on, Reader.on, EStateM.run_bind]
    cases (readOverlay suffix).run (Cursor.ofText suffix) <;> rfl

/-! ## Pools in curly brackets -/

/-- A pool in curly brackets is that pool, under what the suffix shows. -/
theorem parse_listOf_suffix {text : Text} (hstandard : ∀ c ∈ text, Text.isStandard c = true)
    {content : Outline} (hreads : Outline.Reads text [content]) {e : Expression}
    (he : ofOutline content = .ok e) (hpool : e.shape = .pool) {suffix : Text}
    (hsuffix : Outline.leadingSuffix suffix = suffix) :
    parse (Text.listOf [text] ++ suffix) =
      (overlay suffix).map fun laid =>
        some (((bracket e).withModifiers laid.1).withScore laid.2) := by
  have houtline := Outline.ofText_listOf_suffix (List.cons_ne_nil text [])
    (.cons hreads .nil) hsuffix
  have hentries := ofOutlines_entriesOf (.cons he .nil)
  rw [parse_of_ofText (Outline.isStandard_listOf_suffix hstandard hsuffix) houtline rfl, ofOutline,
    hentries]
  have hlisted : ofGroup { isList := true, suffix } [bracket e] =
      (bracket e).withSuffix suffix := by
    simp [ofGroup, listed, hpool]
  rw [ok_bind, List.map_singleton, hlisted, withSuffix_eq]
  cases overlay suffix <;> rfl

/-- Dice are a pool. -/
theorem shape_dice (count : Int) (faces : WrittenFaces) : (faces.dice count).shape = .pool := by
  cases faces <;> rfl

variable (count first second : WrittenNumber) (faces : WrittenFaces) {suffix : Text}

/-- Dice in curly brackets. -/
theorem parse_listOf_dice (hsuffix : Outline.leadingSuffix suffix = suffix) :
    parse (Text.listOf [(WrittenDice.plain count faces).text] ++ suffix) =
      (overlay suffix).map fun laid =>
        some (((bracket (faces.dice count.value)).withModifiers laid.1).withScore laid.2) := by
  let w := WrittenDice.plain count faces
  have hpart := w.isLeafPart_text
  exact parse_listOf_suffix hpart.isStandard (hpart.reads w.text_ne_nil)
    (ofOutline_of_ofLeaf w.text_ne_nil (ofLeaf_written w)) (shape_dice _ faces) hsuffix

/-- A sum of dice in curly brackets. -/
theorem parse_listOf_plus (hsuffix : Outline.leadingSuffix suffix = suffix) :
    parse (Text.listOf [(WrittenDice.plain first faces).text.plus
        (WrittenDice.plain second faces).text] ++ suffix) =
      (overlay suffix).map fun laid =>
        some (((bracket (.binary .add (faces.dice first.value)
          (faces.dice second.value))).withModifiers laid.1).withScore laid.2) := by
  let w := WrittenDice.plain first faces
  let w' := WrittenDice.plain second faces
  have hpart := w.isLeafPart_text
  have hpart' := w'.isLeafPart_text
  have hop : BinaryOp.add ≠ .undefined := by simp
  have hreads : Outline.Reads (w.text.plus w'.text)
      [.math BinaryOp.add.symbol (.leaf w.text) (.leaf w'.text)] :=
    Outline.reads_operation hop (hpart.isOperand w.text_ne_nil) (hpart'.isOperand w'.text_ne_nil)
      (hpart.append hpart').isBracket_eq
  have hstandard : ∀ c ∈ w.text.plus w'.text, Text.isStandard c = true :=
    List.forall_mem_append.mpr ⟨List.forall_mem_append.mpr
      ⟨hpart.isStandard, List.forall_mem_singleton.mpr rfl⟩, hpart'.isStandard⟩
  have hsum : ofOutline (.math BinaryOp.add.symbol (.leaf w.text) (.leaf w'.text)) =
      .ok (.binary .add (faces.dice first.value) (faces.dice second.value)) := by
    have hleft := ofOutline_of_ofLeaf w.text_ne_nil (ofLeaf_written w)
    have hright := ofOutline_of_ofLeaf w'.text_ne_nil (ofLeaf_written w')
    have hsymbol : BinaryOp.ofSymbol? BinaryOp.add.symbol = some .add := rfl
    rw [ofOutline, hleft, hright, hsymbol]
    simp [Outline.isEmpty, w, w', WrittenDice.expression_plain]
  refine parse_listOf_suffix hstandard hreads hsum ?_ hsuffix
  rw [shape_add, if_pos ⟨shape_dice _ faces, shape_dice _ faces⟩]

end Expression
end DiceNotation

import DiceNotation.Outline.Brackets
import DiceNotation.Proofs.Outline.Grouping
import DiceNotation.Proofs.Steps

/-!
# Formulas

A formula is text without brackets: operands with operators between them.  Its outline is
the grouping of its operands by precedence.  An operand at either end may be missing; the
outline then has an empty slot in its place.

Main definitions:

- `Outline.formulaText`: a formula as it is written.
- `Outline.IsOperand`, `Outline.IsFormula`: texts that are read as operands, and formulas
  of such.

Main results:

- `Outline.pieces_formulaText`: at the operators of one level a formula is cut into blocks.
- `Outline.level_blocks`: blocks are grouped to the left.
- `Outline.ofMath_formulaText`: the outline of a formula is its grouping.
-/

namespace DiceNotation

/-- The character of an operator. -/
def BinaryOp.mark : BinaryOp → Char
  | .add => '+'
  | .subtract => '-'
  | .multiply => '*'
  | .divide => '/'
  | .remainder => '%'
  | .power => '^'
  | .undefined => ' '

/-- An operator with a meaning is written as its one character. -/
theorem BinaryOp.symbol_eq_mark {op : BinaryOp} (h : op ≠ .undefined) : op.symbol = [op.mark] := by
  cases op with
  | undefined => exact absurd rfl h
  | add | subtract | multiply | divide | remainder | power => rfl

namespace Outline

/-! ## Formulas as they are written -/

/-- A formula as it is written: its first operand, and the operators with their right
operands. -/
def formulaText (first : Text) : List (BinaryOp × Text) → Text
  | [] => first
  | (op, a) :: rest => first ++ op.symbol ++ formulaText a rest

/-- The outline of an operand; a missing one is an empty slot. -/
def slot (text : Text) : Outline := if text.isEmpty then .empty else .leaf text

/-- A text that is read as one operand. -/
structure IsOperand (text : Text) : Prop where
  ne_nil : text ≠ []
  plain : ∀ c ∈ text, c ∉ ['+', '*', '/', '%', '^']
  signs : ∀ before after, text = before ++ '-' :: after →
    ∀ c, before.getLast? = some c → isComparison c = true
  last : ∀ c, text.getLast? = some c → c ≠ '-' ∧ isComparison c = false

/-- Operators with their right operands, of which the last may be missing. -/
def IsRest : List (BinaryOp × Text) → Prop
  | [] => True
  | (op, a) :: rest => op ≠ .undefined ∧ (IsOperand a ∨ (a = [] ∧ rest = [])) ∧ IsRest rest

/-! ## Cutting at one level -/

section Pieces

variable {operators : Text} {sign : Option Char → Bool}

/-- The piece of an operand, if it is not missing. -/
def operandPieces (text : Text) : List Piece := if text.isEmpty then [] else [.operand text]

/-- The pieces of texts with operators between them. -/
def textPieces (first : Text) (others : List (BinaryOp × Text)) : List Piece :=
  operandPieces first ++
    others.flatMap fun next => .operator next.1.mark :: operandPieces next.2

/-- A character in front belongs to the first text. -/
theorem glue_textPieces (c : Char) (first : Text) (others : List (BinaryOp × Text)) :
    Piece.glue c (textPieces first others) = textPieces (c :: first) others := by
  cases first with
  | cons d rest => rfl
  | nil =>
      cases others with
      | nil => rfl
      | cons next others => rfl

/-- Several characters in front belong to the first text, too. -/
theorem foldr_glue_textPieces (text first : Text) (others : List (BinaryOp × Text)) :
    text.foldr Piece.glue (textPieces first others) = textPieces (text ++ first) others := by
  induction text with
  | nil => rfl
  | cons c rest ih => rw [List.foldr_cons, ih, glue_textPieces, List.cons_append]

/-- Whether a character behind `previous` is an operator of the level. -/
def isCut (operators : Text) (sign : Option Char → Bool) (previous : Option Char) (c : Char) :
    Bool :=
  operators.contains c && !(c == '-' && sign previous)

/-- Text behind `previous` without an operator of the level. -/
def Uncut (operators : Text) (sign : Option Char → Bool) : Option Char → Text → Prop
  | _, [] => True
  | previous, c :: rest =>
    isCut operators sign previous c = false ∧ Uncut operators sign (some c) rest

/-- The character before what follows a text. -/
def lastOf (previous : Option Char) (text : Text) : Option Char := text.getLast?.or previous

/-- What is not cut is glued to the first piece of the rest. -/
theorem pieces_append {previous : Option Char} {text : Text}
    (h : Uncut operators sign previous text) (rest : Text) :
    pieces operators sign previous (text ++ rest) =
      text.foldr Piece.glue (pieces operators sign (lastOf previous text) rest) := by
  induction text generalizing previous with
  | nil => rfl
  | cons c text ih =>
      have hlast : lastOf previous (c :: text) = lastOf (some c) text := by
        simp [lastOf, List.getLast?_cons]
      rw [List.cons_append, pieces, hlast, List.foldr_cons, ← ih h.2]
      have hcut := h.1
      rw [isCut] at hcut
      rw [if_neg (by simpa using hcut)]

/-- A formula in which just the chosen operators are operators of the level. -/
def CutAt (operators : Text) (sign : Option Char → Bool) (cuts : BinaryOp → Bool) :
    Option Char → Text → List (BinaryOp × Text) → Prop
  | previous, first, [] => Uncut operators sign previous first
  | previous, first, (op, a) :: rest =>
    Uncut operators sign previous first ∧ op ≠ .undefined ∧
      isCut operators sign (lastOf previous first) op.mark = cuts op ∧
      CutAt operators sign cuts (some op.mark) a rest

/-- At the operators of one level a formula is cut into blocks. -/
theorem pieces_formulaText {cuts : BinaryOp → Bool} {previous : Option Char} {first : Text}
    {rest : List (BinaryOp × Text)} (h : CutAt operators sign cuts previous first rest) :
    pieces operators sign previous (formulaText first rest) =
      textPieces (formulaText first (Grouping.blocks cuts rest).1)
        ((Grouping.blocks cuts rest).2.map fun next =>
          (next.1, formulaText next.2.1 next.2.2)) := by
  induction rest generalizing previous first with
  | nil =>
      have hpieces := pieces_append h []
      rw [List.append_nil] at hpieces
      rw [formulaText, hpieces]
      simpa [pieces, textPieces, operandPieces, Grouping.blocks, formulaText] using
        foldr_glue_textPieces first [] []
  | cons next rest ih =>
      obtain ⟨op, a⟩ := next
      obtain ⟨hfirst, hop, hcut, hrest⟩ := h
      rw [isCut] at hcut
      rw [formulaText, BinaryOp.symbol_eq_mark hop, List.append_assoc, pieces_append hfirst,
        List.singleton_append, pieces, hcut, ih hrest, Grouping.blocks]
      by_cases hcuts : cuts op = true
      · rw [if_pos hcuts, if_pos hcuts, formulaText, List.map_cons]
        simpa [textPieces, operandPieces] using
          foldr_glue_textPieces first [] ((op, _) :: List.map _ (Grouping.blocks cuts rest).2)
      · rw [if_neg hcuts, if_neg hcuts, glue_textPieces, foldr_glue_textPieces, formulaText,
          BinaryOp.symbol_eq_mark hop]
        simp

end Pieces

/-! ## Grouping one level -/

section Levels

variable {β : Type} {operators : Text} {operand : Text → Except Fault Outline}

/-- Only the last of several texts may be missing. -/
def Filled (text : β → Text) : List (BinaryOp × β) → Prop
  | [] => True
  | (_, b) :: rest => (text b ≠ [] ∨ rest = []) ∧ Filled text rest

/-- The outline of blocks with operators between them. -/
def chained (outline : β → Outline) (before : Outline) (others : List (BinaryOp × β)) : Outline :=
  others.foldl (fun before next => .math next.1.symbol before (outline next.2)) before

/-- A piece shows the operator it stands for. -/
theorem symbol?_operator {op : BinaryOp} (h : operators.contains op.mark = true) :
    (Piece.operator op.mark).symbol? operators = some op.mark := by
  simp [Piece.symbol?, Piece.text] at h ⊢
  exact h

/-- Blocks that are read one by one are chained in their order. -/
theorem chain_blocks (text : β → Text) (outline : β → Outline) {others : List (BinaryOp × β)}
    (hops : ∀ next ∈ others, next.1 ≠ .undefined ∧ operators.contains next.1.mark = true)
    (hread : ∀ next ∈ others, operand (text next.2) = .ok (outline next.2))
    (hempty : ∀ next ∈ others, text next.2 = [] → outline next.2 = .empty)
    (hfilled : Filled text others) (before : Outline) :
    chain operators operand before
        (others.flatMap fun next => .operator next.1.mark :: operandPieces (text next.2)) =
      .ok (chained outline before others) := by
  induction others generalizing before with
  | nil => rfl
  | cons next rest ih =>
      obtain ⟨op, b⟩ := next
      obtain ⟨⟨hop, hmark⟩, hops⟩ := List.forall_mem_cons.mp hops
      obtain ⟨hb, hread⟩ := List.forall_mem_cons.mp hread
      obtain ⟨hslot, hempty⟩ := List.forall_mem_cons.mp hempty
      by_cases htext : text b = []
      · obtain rfl : rest = [] := hfilled.1.resolve_left (by simpa using htext)
        have hsymbol : op.symbol = [op.mark] := BinaryOp.symbol_eq_mark hop
        simp [operandPieces, htext, chain, symbol?_operator hmark, chained, hslot htext, hsymbol]
      · have hnext := ih hops hread hempty hfilled.2 (.math op.symbol before (outline b))
        rw [BinaryOp.symbol_eq_mark hop] at hnext
        simp [operandPieces, htext, chain, symbol?_operator hmark, chained, Piece.text, hb,
          BinaryOp.symbol_eq_mark hop] at hnext ⊢
        exact hnext

/-- Blocks with operators of one level between them are grouped to the left. -/
theorem level_blocks (text : β → Text) (outline : β → Outline) (first : β)
    {others : List (BinaryOp × β)}
    (hops : ∀ next ∈ others, next.1 ≠ .undefined ∧ operators.contains next.1.mark = true)
    (hfirst : operand (text first) = .ok (outline first))
    (hread : ∀ next ∈ others, operand (text next.2) = .ok (outline next.2))
    (hslot : text first = [] → outline first = .empty)
    (hempty : ∀ next ∈ others, text next.2 = [] → outline next.2 = .empty)
    (hfilled : Filled text others)
    (hsymbol : (Piece.operand (text first)).symbol? operators = none) :
    level operators operand
        (textPieces (text first) (others.map fun next => (next.1, text next.2))) =
      .ok (chained outline (outline first) others) := by
  have hchain := chain_blocks text outline hops hread hempty hfilled
  rw [textPieces, List.flatMap_map]
  by_cases htext : text first = []
  · rw [hslot htext]
    cases others with
    | nil => simp [operandPieces, htext, level, chained]
    | cons next rest =>
        have hmark := (hops next (List.mem_cons_self ..)).2
        rw [← hchain .empty]
        simp [operandPieces, htext, level, symbol?_operator hmark]
  · rw [← hchain (outline first)]
    simp [operandPieces, htext, level, hsymbol, Piece.text, hfirst]

end Levels

/-! ## Formulas of formulas -/

/-- The outline of a formula: that of its grouping. -/
def formulaOutline (formula : Text × List (BinaryOp × Text)) : Outline :=
  (Grouping.ofFormula formula.1 formula.2).outline slot

/-- A formula without text is a missing operand alone. -/
theorem formulaText_eq_nil {first : Text} {rest : List (BinaryOp × Text)} (hrest : IsRest rest)
    (h : formulaText first rest = []) : first = [] ∧ rest = [] := by
  cases rest with
  | nil => exact ⟨h, rfl⟩
  | cons next rest =>
      obtain ⟨op, a⟩ := next
      simp [formulaText, BinaryOp.symbol_eq_mark hrest.1] at h

/-- Blocks that are grouped to the left have the outline of a chain. -/
theorem outline_groupBlocks (grouping : Grouping Text)
    (others : List (BinaryOp × Text × List (BinaryOp × Text))) :
    (grouping.groupBlocks others).outline slot =
      chained formulaOutline (grouping.outline slot) others := by
  induction others generalizing grouping with
  | nil => rfl
  | cons next rest ih => exact ih _

/-- The first block of a formula has the operands of one. -/
theorem isRest_block {cuts : BinaryOp → Bool} {rest : List (BinaryOp × Text)} (h : IsRest rest) :
    IsRest (Grouping.blocks cuts rest).1 := by
  induction rest with
  | nil => trivial
  | cons next rest ih =>
      obtain ⟨op, a⟩ := next
      obtain ⟨hop, ha, hrest⟩ := h
      rw [Grouping.blocks]
      split
      · trivial
      · refine ⟨hop, ha.imp_right ?_, ih hrest⟩
        rintro ⟨hnil, rfl⟩
        exact ⟨hnil, rfl⟩

/-- So are the blocks behind it. -/
theorem isRest_blocks {cuts : BinaryOp → Bool} {rest : List (BinaryOp × Text)} (h : IsRest rest)
    {op : BinaryOp} {a : Text} {block : List (BinaryOp × Text)}
    (hmem : (op, a, block) ∈ (Grouping.blocks cuts rest).2) :
    op ≠ .undefined ∧ (IsOperand a ∨ a = []) ∧ IsRest block := by
  induction rest with
  | nil => simp [Grouping.blocks] at hmem
  | cons next rest ih =>
      obtain ⟨op', a'⟩ := next
      obtain ⟨hop, ha, hrest⟩ := h
      rw [Grouping.blocks] at hmem
      split at hmem
      · rcases List.mem_cons.mp hmem with heq | hmem
        · cases heq
          exact ⟨hop, ha.imp_right And.left, isRest_block hrest⟩
        · exact ih hrest hmem
      · exact ih hrest hmem

/-- Only the last block may be missing. -/
theorem filled_blocks {cuts : BinaryOp → Bool} {rest : List (BinaryOp × Text)} (h : IsRest rest) :
    Filled (fun formula : Text × List (BinaryOp × Text) => formulaText formula.1 formula.2)
      (Grouping.blocks cuts rest).2 := by
  induction rest with
  | nil => trivial
  | cons next rest ih =>
      obtain ⟨op, a⟩ := next
      obtain ⟨hop, ha, hrest⟩ := h
      rw [Grouping.blocks]
      split
      · refine ⟨?_, ih hrest⟩
        rcases ha with ha | ⟨-, rfl⟩
        · left
          intro htext
          exact ha.ne_nil (formulaText_eq_nil (isRest_block hrest) htext).1
        · exact .inr rfl
      · exact ih hrest

/-- A level over formulas: cut into blocks, each of which is read by the level below. -/
theorem level_formulaText {operators : Text} {sign : Option Char → Bool}
    {operand : Text → Except Fault Outline} {cuts : BinaryOp → Bool} {first : Text}
    {rest : List (BinaryOp × Text)} (hrest : IsRest rest)
    (hcut : CutAt operators sign cuts none first rest)
    (hleft : ∀ op cut, cuts op = true → cuts cut = true → op.groupsBefore cut = true)
    (hinside : ∀ next ∈ rest, cuts next.1 = false → Grouping.Inside cuts next.1)
    (hmarks : ∀ op, cuts op = true → operators.contains op.mark = true)
    (hfirst : operand (formulaText first (Grouping.blocks cuts rest).1) =
      .ok (formulaOutline (first, (Grouping.blocks cuts rest).1)))
    (hread : ∀ next ∈ (Grouping.blocks cuts rest).2,
      operand (formulaText next.2.1 next.2.2) = .ok (formulaOutline next.2))
    (hsymbol : (Piece.operand (formulaText first (Grouping.blocks cuts rest).1)).symbol? operators =
      none) :
    level operators operand (pieces operators sign none (formulaText first rest)) =
      .ok (formulaOutline (first, rest)) := by
  have hslot : ∀ first rest, IsRest rest → formulaText first rest = [] →
      formulaOutline (first, rest) = .empty := by
    intro first rest hrest htext
    obtain ⟨rfl, rfl⟩ := formulaText_eq_nil hrest htext
    rfl
  have hops : ∀ next ∈ (Grouping.blocks cuts rest).2,
      next.1 ≠ .undefined ∧ operators.contains next.1.mark = true := fun next hnext =>
    ⟨(isRest_blocks hrest hnext).1, hmarks _ (Grouping.of_mem_blocks hnext).2.1⟩
  have hlevel := level_blocks (fun formula : Text × List (BinaryOp × Text) =>
      formulaText formula.1 formula.2) formulaOutline (first, (Grouping.blocks cuts rest).1)
    hops hfirst hread (hslot first _ (isRest_block hrest))
    (fun next hnext => hslot _ _ (isRest_blocks hrest hnext).2.2) (filled_blocks hrest) hsymbol
  rw [pieces_formulaText hcut, hlevel, formulaOutline, formulaOutline,
    Grouping.ofFormula_eq_blocks hleft first hinside, outline_groupBlocks]

/-! ## Powers -/

/-- Text without powers is part of the first operand. -/
theorem powers_append {text : Text} (h : '^' ∉ text) (rest : Text) :
    powers (text ++ rest) = text.foldr pushLeft (powers rest) := by
  induction text with
  | nil => rfl
  | cons c text ih =>
      simp only [List.mem_cons, not_or] at h
      rw [List.cons_append, powers, if_neg (Ne.symm h.1), ih h.2, List.foldr_cons]

/-- Text pushed on an empty slot is an operand. -/
theorem foldr_pushLeft_empty (text : Text) : text.foldr pushLeft .empty = slot text := by
  induction text with
  | nil => rfl
  | cons c rest ih =>
      rw [List.foldr_cons, ih]
      cases rest <;> rfl

/-- Text pushed on an operator is its left side. -/
theorem foldr_pushLeft_math (text symbol : Text) (right : Outline) :
    text.foldr pushLeft (.math symbol .empty right) = .math symbol (slot text) right := by
  induction text with
  | nil => rfl
  | cons c rest ih =>
      rw [List.foldr_cons, ih]
      cases rest <;> rfl

/-- A formula of powers groups to the right. -/
theorem powers_formulaText {first : Text} {rest : List (BinaryOp × Text)} (hfirst : '^' ∉ first)
    (hrest : ∀ next ∈ rest, next.1 = .power ∧ '^' ∉ next.2) :
    powers (formulaText first rest) = formulaOutline (first, rest) := by
  induction rest generalizing first with
  | nil =>
      have hpowers := powers_append hfirst []
      rw [List.append_nil] at hpowers
      rw [formulaText, hpowers]
      exact foldr_pushLeft_empty first
  | cons next rest ih =>
      obtain ⟨op, a⟩ := next
      obtain ⟨⟨hop, ha⟩, hmore⟩ := List.forall_mem_cons.mp hrest
      have hop : op = .power := hop
      subst hop
      have hgroup : Grouping.ofFormula first ((.power, a) :: rest) =
          .apply .power (.operand first) (Grouping.ofFormula a rest) :=
        Grouping.extend_powers first (.operand a) fun next hnext => (hmore next hnext).1
      have hright : powers ('^' :: formulaText a rest) =
          .math ['^'] .empty (formulaOutline (a, rest)) := by
        rw [powers, if_pos rfl, ih ha hmore]
      rw [formulaText, List.append_assoc, powers_append hfirst, formulaOutline, hgroup]
      change first.foldr pushLeft (powers ('^' :: formulaText a rest)) = _
      rw [hright, foldr_pushLeft_math]
      rfl

/-! ## Products -/

/-- The operators of products. -/
def isProduct (op : BinaryOp) : Bool := op.level == 2

/-- The operators of sums. -/
def isSum (op : BinaryOp) : Bool := op.level == 1

/-- Products are the operators of the middle level. -/
theorem isProduct_eq_true {op : BinaryOp} : isProduct op = true ↔ op.level = 2 := by
  simp [isProduct]

/-- Sums are the operators of the lowest level. -/
theorem isSum_eq_true {op : BinaryOp} : isSum op = true ↔ op.level = 1 := by
  simp [isSum]

/-- An operator with a meaning has a level. -/
theorem level_pos {op : BinaryOp} (h : op ≠ .undefined) : 0 < op.level := by
  cases op with
  | undefined => exact absurd rfl h
  | add | subtract | multiply | divide | remainder | power => decide

/-- No operator binds tighter than powers. -/
theorem level_le {op : BinaryOp} : op.level ≤ 3 := by
  cases op <;> decide

/-- Powers are alone on their level. -/
theorem eq_power_of_level {op : BinaryOp} (h : op.level = 3) : op = .power := by
  cases op with
  | power => rfl
  | add | subtract | multiply | divide | remainder | undefined => simp [BinaryOp.level] at h

/-- What binds tighter is inside the blocks of a level. -/
theorem inside_of_lt {cuts : BinaryOp → Bool} {op : BinaryOp} {level : Nat}
    (hcuts : ∀ cut, cuts cut = true → cut.level = level) (h : level < op.level) :
    Grouping.Inside cuts op := by
  intro cut hcut
  rw [← hcuts cut hcut] at h
  exact ⟨BinaryOp.groupsBefore_of_lt h, BinaryOp.groupsBefore_of_gt h⟩

/-- The characters of products are those of products only. -/
theorem contains_mark_products {op : BinaryOp} :
    List.contains ['*', '/', '%'] op.mark = isProduct op := by
  cases op <;> rfl

/-- The characters of sums are those of sums only. -/
theorem contains_mark_sums {op : BinaryOp} : List.contains ['+', '-'] op.mark = isSum op := by
  cases op <;> rfl

/-- The character of an operator is one of the operator characters. -/
theorem contains_mark_operatorCharacters {op : BinaryOp} (h : op ≠ .undefined) :
    operatorCharacters.contains op.mark = true := by
  cases op with
  | undefined => exact absurd rfl h
  | add | subtract | multiply | divide | remainder | power => rfl

/-- The characters that no operand has. -/
def IsPlain (text : Text) : Prop := ∀ c ∈ text, c ∉ ['+', '*', '/', '%', '^']

/-- An operand has no character of an operator, a `-` apart. -/
theorem isPlain_of_isOperand {text : Text} (h : IsOperand text ∨ text = []) : IsPlain text := by
  rcases h with h | rfl
  · exact h.plain
  · simp [IsPlain]

/-- Operands have no operator of products. -/
theorem uncut_products {text : Text} (h : IsPlain text) (previous : Option Char) :
    Uncut ['*', '/', '%'] (fun _ => false) previous text := by
  induction text generalizing previous with
  | nil => trivial
  | cons c rest ih =>
      obtain ⟨hc, hrest⟩ := List.forall_mem_cons.mp h
      have hcut : List.contains ['*', '/', '%'] c = false := by
        simp only [List.mem_cons, not_or] at hc
        simp [hc]
      exact ⟨by rw [isCut, hcut, Bool.false_and], ih hrest _⟩

/-- No operand of a formula has an operator of products. -/
theorem isPlain_rest {rest : List (BinaryOp × Text)} (h : IsRest rest) :
    ∀ next ∈ rest, next.1 ≠ .undefined ∧ IsPlain next.2 := by
  induction rest with
  | nil => simp
  | cons next rest ih =>
      obtain ⟨op, a⟩ := next
      obtain ⟨hop, ha, hrest⟩ := h
      exact List.forall_mem_cons.mpr
        ⟨⟨hop, isPlain_of_isOperand (ha.imp_right And.left)⟩, ih hrest⟩

/-- A formula without sums is cut at its products. -/
theorem cutAt_products {first : Text} {rest : List (BinaryOp × Text)} (hfirst : IsPlain first)
    (hrest : ∀ next ∈ rest, next.1 ≠ .undefined ∧ IsPlain next.2)
    (hlevel : ∀ next ∈ rest, 2 ≤ next.1.level) (previous : Option Char) :
    CutAt ['*', '/', '%'] (fun _ => false) isProduct previous first rest := by
  induction rest generalizing first previous with
  | nil => exact uncut_products hfirst _
  | cons next rest ih =>
      obtain ⟨op, a⟩ := next
      obtain ⟨⟨hop, ha⟩, hrest⟩ := List.forall_mem_cons.mp hrest
      obtain ⟨hlevelop, hlevel⟩ := List.forall_mem_cons.mp hlevel
      refine ⟨uncut_products hfirst _, hop, ?_, ih ha hrest hlevel _⟩
      rw [isCut, contains_mark_products, Bool.and_false, Bool.not_false, Bool.and_true]

/-- A formula that is one character is an operand or an operator without operands. -/
theorem formulaText_eq_singleton {first : Text} {rest : List (BinaryOp × Text)} {c : Char}
    (hrest : IsRest rest) (h : formulaText first rest = [c]) :
    (first = [c] ∧ rest = []) ∨ ∃ next ∈ rest, next.1.mark = c := by
  cases rest with
  | nil => exact .inl ⟨h, rfl⟩
  | cons next rest =>
      obtain ⟨op, a⟩ := next
      rw [formulaText, BinaryOp.symbol_eq_mark hrest.1] at h
      have hmem : op.mark ∈ [c] := by simp [← h]
      exact .inr ⟨_, List.mem_cons_self .., by simpa using hmem⟩

/-- A formula is no operator of a level that none of its operators and operands has. -/
theorem symbol?_formulaText {operators : Text} {first : Text} {rest : List (BinaryOp × Text)}
    (hrest : IsRest rest) (hfirst : ∀ c, first = [c] → operators.contains c = false)
    (hmarks : ∀ next ∈ rest, operators.contains next.1.mark = false) :
    (Piece.operand (formulaText first rest)).symbol? operators = none := by
  unfold Piece.symbol?
  split
  · next c htext =>
      rcases formulaText_eq_singleton hrest htext with ⟨hc, -⟩ | ⟨next, hnext, rfl⟩
      · rw [if_neg (by simpa using hfirst c hc)]
      · rw [if_neg (by simpa using hmarks next hnext)]
  · rfl

/-- The outline of a formula without sums. -/
theorem products_formulaText {first : Text} {rest : List (BinaryOp × Text)}
    (hfirst : IsOperand first ∨ first = []) (hrest : IsRest rest)
    (hlevel : ∀ next ∈ rest, 2 ≤ next.1.level) :
    products (formulaText first rest) = .ok (formulaOutline (first, rest)) := by
  have hplain := isPlain_of_isOperand hfirst
  have hplains := isPlain_rest hrest
  -- Inside a block there is no operator left but `^`.
  have hpower : ∀ next ∈ rest, isProduct next.1 = false → next.1 = .power := by
    intro next hnext hcut
    have htwo := hlevel next hnext
    have hle := @level_le next.1
    have hne : next.1.level ≠ 2 := fun h => by simp [isProduct_eq_true.mpr h] at hcut
    exact eq_power_of_level (by omega)
  have hblock : ∀ first block, IsPlain first →
      (∀ next ∈ block, next ∈ rest ∧ isProduct next.1 = false) →
      powers (formulaText first block) = formulaOutline (first, block) := by
    intro first block hfirst hmem
    refine powers_formulaText (fun h => hfirst _ h (by simp)) fun next hnext => ?_
    obtain ⟨hin, hcut⟩ := hmem next hnext
    exact ⟨hpower next hin hcut, fun h => (hplains next hin).2 _ h (by simp)⟩
  rw [products]
  refine level_formulaText hrest (cutAt_products hplain hplains hlevel none) ?_ ?_ ?_ ?_ ?_ ?_
  · intro op cut hop hcut
    rw [isProduct_eq_true] at hop hcut
    exact BinaryOp.groupsBefore_of_eq (by omega) (by omega)
  · intro next hnext hcut
    refine inside_of_lt (fun cut => isProduct_eq_true.mp) ?_
    rw [hpower next hnext hcut]
    decide
  · intro op hop
    rwa [contains_mark_products]
  · rw [hblock first _ hplain fun next hnext => Grouping.of_mem_block hnext]
  · intro next hnext
    obtain ⟨hmem, -, hin⟩ := Grouping.of_mem_blocks hnext
    rw [hblock next.2.1 _ (hplains _ hmem).2 hin]
  · refine symbol?_formulaText (isRest_block hrest) ?_ ?_
    · rintro c rfl
      have hc := hplain c (by simp)
      simp only [List.mem_cons, not_or] at hc
      simp [hc]
    · intro next hnext
      obtain ⟨hin, hcut⟩ := Grouping.of_mem_block hnext
      rw [hpower next hin hcut]
      rfl

/-! ## Sums -/

/-- Operands have no operator of sums: each `-` in them is a sign. -/
theorem uncut_sums {afterGroup : Bool} {text : Text} (h : IsOperand text)
    {previous : Option Char}
    (hhead : text.head? = some '-' → isSign afterGroup previous = true) :
    Uncut ['+', '-'] (isSign afterGroup) previous text := by
  suffices hsuffix : ∀ rest before, text = before ++ rest →
      Uncut ['+', '-'] (isSign afterGroup) (lastOf previous before) rest by
    exact hsuffix text [] rfl
  intro rest
  induction rest with
  | nil => exact fun _ _ => trivial
  | cons c rest ih =>
      intro before htext
      have hnext := ih (before ++ [c]) (by simp [htext])
      simp only [lastOf, List.getLast?_append, List.getLast?_singleton, Option.some_or] at hnext
      refine ⟨?_, by simpa using hnext⟩
      have hc := h.plain c (by simp [htext])
      by_cases hminus : c = '-'
      · subst hminus
        have hsign : isSign afterGroup (lastOf previous before) = true := by
          cases hlast : before.getLast? with
          | none =>
              have hbefore : before = [] := by simpa using hlast
              subst hbefore
              exact hhead (by simp [htext])
          | some d =>
              have hd := h.signs before rest htext d hlast
              simp only [isComparison, Bool.or_eq_true, beq_iff_eq] at hd
              rcases hd with (rfl | rfl) | rfl <;> simp [lastOf, hlast, isSign, operatorCharacters]
        simp [isCut, hsign]
      · simp only [List.mem_cons, not_or] at hc
        simp [isCut, hminus, hc]

/-- The character before an operator does not make a sign of it. -/
theorem isSign_of_isOperand {afterGroup : Bool} {text : Text} (h : IsOperand text)
    (previous : Option Char) : isSign afterGroup (lastOf previous text) = false := by
  cases hlast : text.getLast? with
  | none => exact absurd (by simpa using hlast) h.ne_nil
  | some c =>
      have hc := h.plain c (List.mem_of_getLast? hlast)
      obtain ⟨hminus, hcomparison⟩ := h.last c hlast
      simp only [List.mem_cons, not_or] at hc
      simp only [isComparison, Bool.or_eq_false_iff, beq_eq_false_iff_ne] at hcomparison
      simp [lastOf, hlast, isSign, operatorCharacters, hc, hminus, hcomparison]

/-- A formula is cut at its sums, signs excepted. -/
theorem cutAt_sums {afterGroup : Bool} {first : Text} {rest : List (BinaryOp × Text)}
    {previous : Option Char}
    (hfirst : (IsOperand first ∧ (first.head? = some '-' → isSign afterGroup previous = true)) ∨
      (first = [] ∧ (rest = [] ∨ isSign afterGroup previous = false)))
    (hrest : IsRest rest) :
    CutAt ['+', '-'] (isSign afterGroup) isSum previous first rest := by
  induction rest generalizing first previous with
  | nil =>
      rcases hfirst with ⟨hoperand, hhead⟩ | ⟨rfl, -⟩
      · exact uncut_sums hoperand hhead
      · trivial
  | cons next rest ih =>
      obtain ⟨op, a⟩ := next
      obtain ⟨hop, ha, hrest⟩ := hrest
      have huncut : Uncut ['+', '-'] (isSign afterGroup) previous first := by
        rcases hfirst with ⟨hoperand, hhead⟩ | ⟨rfl, -⟩
        · exact uncut_sums hoperand hhead
        · trivial
      have hsign : isSign afterGroup (lastOf previous first) = false := by
        rcases hfirst with ⟨hoperand, -⟩ | ⟨rfl, hempty | hsign⟩
        · exact isSign_of_isOperand hoperand previous
        · simp at hempty
        · simpa [lastOf] using hsign
      refine ⟨huncut, hop, ?_, ih ?_ hrest⟩
      · rw [isCut, contains_mark_sums, hsign, Bool.and_false, Bool.not_false, Bool.and_true]
      · rcases ha with ha | ⟨rfl, rfl⟩
        · exact .inl ⟨ha, fun _ => contains_mark_operatorCharacters hop⟩
        · exact .inr ⟨rfl, .inl rfl⟩

/-- A formula whose first operand may be missing behind a group. -/
structure IsFormula (afterGroup : Bool) (first : Text) (rest : List (BinaryOp × Text)) :
    Prop where
  first : (IsOperand first ∧ (afterGroup = true → first.head? ≠ some '-')) ∨
    (first = [] ∧ afterGroup = true)
  rest : IsRest rest

/-- The outline of a formula is the grouping of its operands by precedence. -/
theorem ofMath_formulaText {afterGroup : Bool} {first : Text} {rest : List (BinaryOp × Text)}
    (h : IsFormula afterGroup first rest) :
    ofMath (formulaText first rest) afterGroup =
      .ok ((Grouping.ofFormula first rest).outline slot) := by
  have hslot : IsOperand first ∨ first = [] := by
    rcases h.first with ⟨hoperand, -⟩ | ⟨hnil, -⟩
    · exact .inl hoperand
    · exact .inr hnil
  have hcut : CutAt ['+', '-'] (isSign afterGroup) isSum none first rest := by
    refine cutAt_sums ?_ h.rest
    rcases h.first with ⟨hoperand, hhead⟩ | ⟨hnil, hgroup⟩
    · refine .inl ⟨hoperand, fun hminus => ?_⟩
      cases afterGroup with
      | false => rfl
      | true => exact absurd hminus (hhead rfl)
    · exact .inr ⟨hnil, .inr (by simp [isSign, hgroup])⟩
  have htwo : ∀ next ∈ rest, isSum next.1 = false → 2 ≤ next.1.level := by
    intro next hnext hsum
    have hpos := level_pos (isPlain_rest h.rest next hnext).1
    have hne : next.1.level ≠ 1 := fun h => by simp [isSum_eq_true.mpr h] at hsum
    omega
  rw [ofMath]
  refine level_formulaText h.rest hcut ?_ ?_ ?_ ?_ ?_ ?_
  · intro op cut hop hcut
    rw [isSum_eq_true] at hop hcut
    exact BinaryOp.groupsBefore_of_eq (by omega) (by omega)
  · intro next hnext hsum
    exact inside_of_lt (fun cut => isSum_eq_true.mp) (htwo next hnext hsum)
  · intro op hop
    rwa [contains_mark_sums]
  · refine products_formulaText hslot (isRest_block h.rest) fun next hnext => ?_
    obtain ⟨hin, hsum⟩ := Grouping.of_mem_block hnext
    exact htwo next hin hsum
  · intro next hnext
    obtain ⟨-, -, hin⟩ := Grouping.of_mem_blocks hnext
    obtain ⟨-, ha, hblock⟩ := isRest_blocks h.rest hnext
    exact products_formulaText ha hblock fun next hnext =>
      htwo next (hin next hnext).1 (hin next hnext).2
  · refine symbol?_formulaText (isRest_block h.rest) ?_ ?_
    · rintro c rfl
      rcases hslot with hoperand | hnil
      · have hc := hoperand.plain c (by simp)
        have hend := hoperand.last c rfl
        simp only [List.mem_cons, not_or] at hc
        simp [hc, hend]
      · simp at hnil
    · intro next hnext
      rw [contains_mark_sums]
      exact (Grouping.of_mem_block hnext).2

end Outline
end DiceNotation

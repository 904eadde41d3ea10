import DiceNotation.Proofs.Outline.Formula
import DiceNotation.Proofs.Outline.Nesting

/-!
# Folding

In a formula some operands may stand in brackets.  Between brackets it is grouped by
precedence; but the operator behind a bracket takes for its left side all that stands
before it.

Main definitions:

- `Outline.IsLiteral`, `Outline.Term`: an integer as it is written, perhaps in brackets.
- `Outline.folded`: how a formula with brackets is grouped.

Main results:

- `Outline.Found.plain`, `Outline.Found.bracketed`: what a walk has found after one more
  operator and term.
- `Outline.ofText_termsText`: the outline of a formula with brackets.
-/

namespace DiceNotation
namespace Outline

/-! ## Terms -/

/-- An integer as it is written: digits, perhaps behind a sign. -/
def IsLiteral (text : Text) : Prop :=
  Numeral.digits text ≠ [] ∧ ∀ c ∈ Numeral.digits text, c.isDigit = true

/-- An integer, perhaps in brackets. -/
structure Term where
  literal : Text
  bracketed : Bool := false
deriving Repr, DecidableEq

/-- A term as it is written. -/
def Term.text (term : Term) : Text :=
  if term.bracketed then '(' :: term.literal ++ [')'] else term.literal

/-- The outline of a term. -/
def Term.outline (term : Term) : Outline :=
  if term.bracketed then Outline.bracketed [] (.leaf term.literal) else slot term.literal

/-- A text that does not stand in brackets; a missing one is a slot. -/
def plain (text : Text) : Term := { literal := text }

/-- Operators with texts on their right that do not stand in brackets. -/
def plains (rest : List (BinaryOp × Text)) : List (BinaryOp × Term) :=
  rest.map fun next => (next.1, plain next.2)

/-- A formula of terms as it is written. -/
def termsText (first : Term) (rest : List (BinaryOp × Term)) : Text :=
  formulaText first.text (rest.map fun next => (next.1, next.2.text))

/-- Operators with literals on their right. -/
def IsTerms (rest : List (BinaryOp × Term)) : Prop :=
  ∀ next ∈ rest, next.1 ≠ .undefined ∧ IsLiteral next.2.literal

/-- A grouping with one more operator and term, and whether it ends in a bracket.  Behind a
bracket the operator takes the whole grouping. -/
def foldNext (state : Grouping Term × Bool) (next : BinaryOp × Term) : Grouping Term × Bool :=
  (if state.2 then .apply next.1 state.1 (.operand next.2) else state.1.extend next.1 next.2,
    next.2.bracketed)

/-- How a formula of terms is grouped. -/
def folded (first : Term) (rest : List (BinaryOp × Term)) : Grouping Term :=
  (rest.foldl foldNext (.operand first, first.bracketed)).1

/-! ## Literals -/

section Literals

variable {text : Text}

/-- A literal is digits, perhaps behind a sign. -/
theorem digits_of_isLiteral (h : IsLiteral text) :
    ∃ digits : Text, digits ≠ [] ∧ (∀ c ∈ digits, c.isDigit = true) ∧
      (text = digits ∨ text = '-' :: digits) := by
  unfold IsLiteral Numeral.digits at h
  split at h
  · exact ⟨_, h.1, h.2, .inr rfl⟩
  · exact ⟨_, h.1, h.2, .inl rfl⟩

/-- A digit is no other character. -/
theorem isDigit_ne {c d : Char} (hc : c.isDigit = true) (hd : d.isDigit = false) : c ≠ d := by
  rintro rfl
  simp [hc] at hd

/-- A literal is made of digits and a sign. -/
theorem mem_of_isLiteral (h : IsLiteral text) {c : Char} (hc : c ∈ text) :
    c = '-' ∨ c.isDigit = true := by
  obtain ⟨digits, -, hdigits, rfl | rfl⟩ := digits_of_isLiteral h
  · exact .inr (hdigits c hc)
  · exact (List.mem_cons.mp hc).imp_right (hdigits c)

/-- A literal is read as one operand. -/
theorem isOperand_of_isLiteral (h : IsLiteral text) : IsOperand text where
  ne_nil := by
    rintro rfl
    exact h.1 rfl
  plain c hc := by
    rcases mem_of_isLiteral h hc with rfl | hdigit
    · decide
    · simp only [List.mem_cons, List.not_mem_nil, or_false, not_or]
      exact ⟨isDigit_ne hdigit rfl, isDigit_ne hdigit rfl, isDigit_ne hdigit rfl,
        isDigit_ne hdigit rfl, isDigit_ne hdigit rfl⟩
  signs before after htext c hc := by
    -- A `-` behind another character would be one of the digits.
    obtain ⟨digits, -, hdigits, hcases⟩ := digits_of_isLiteral h
    have hminus : '-' ∈ digits := by
      rcases hcases with rfl | rfl
      · simp [htext]
      · cases before with
        | nil => simp at hc
        | cons d before =>
            simp only [List.cons_append, List.cons.injEq] at htext
            simp [htext.2]
    simpa using hdigits _ hminus
  last c hc := by
    obtain ⟨digits, hne, hdigits, hcases⟩ := digits_of_isLiteral h
    have hlast : digits.getLast? = some c := by
      rcases hcases with rfl | rfl
      · exact hc
      · rw [List.getLast?_cons] at hc
        cases hdigit : digits.getLast? with
        | none => exact absurd (by simpa using hdigit) hne
        | some d => simpa [hdigit] using hc
    have hdigit := hdigits c (List.mem_of_getLast? hlast)
    refine ⟨isDigit_ne hdigit rfl, ?_⟩
    simp only [isComparison, Bool.or_eq_false_iff, beq_eq_false_iff_ne]
    exact ⟨⟨isDigit_ne hdigit rfl, isDigit_ne hdigit rfl⟩, isDigit_ne hdigit rfl⟩

/-- A literal has no brackets. -/
theorem isBracket_of_isLiteral (h : IsLiteral text) : ∀ c ∈ text, isBracket c = false := by
  intro c hc
  rcases mem_of_isLiteral h hc with rfl | hdigit
  · rfl
  · simp only [isBracket, Bool.or_eq_false_iff, beq_eq_false_iff_ne]
    exact ⟨⟨⟨⟨isDigit_ne hdigit rfl, isDigit_ne hdigit rfl⟩, isDigit_ne hdigit rfl⟩,
      isDigit_ne hdigit rfl⟩, isDigit_ne hdigit rfl⟩

end Literals

/-! ## Walks through literals -/

/-- A text without brackets is taken into the buffer. -/
theorem walk_take {text : Text} (h : ∀ c ∈ text, isBracket c = false) {walk : Walk}
    (hclosed : walk.closed = none) :
    text.foldlM Walk.step walk = .ok
      { walk with place := walk.place + text.length, buffer := text.reverse ++ walk.buffer } := by
  induction text generalizing walk with
  | nil => rfl
  | cons c rest ih =>
      obtain ⟨hc, hrest⟩ := List.forall_mem_cons.mp h
      have hstep : walk.step c =
          .ok { walk with place := walk.place + 1, buffer := c :: walk.buffer } := by
        rw [Walk.step_eq_ok_iff, Walk.settle_of_closed_eq_none hclosed]
        exact .inr ⟨by simp [hclosed], .take hc⟩
      rw [List.foldlM_cons, hstep, ok_bind, ih hrest (by exact hclosed)]
      simp [Nat.add_assoc, Nat.add_comm 1]

/-- A formula without brackets, on its own. -/
theorem reads_formula {first : Text} {rest : List (BinaryOp × Text)} (h : IsFormula false first rest)
    (hplain : ∀ c ∈ formulaText first rest, isBracket c = false) :
    Reads (formulaText first rest) [(Grouping.ofFormula first rest).outline slot] := by
  have hne : formulaText first rest ≠ [] := by
    obtain ⟨hfirst, -⟩ := h.first.resolve_right (by simp)
    cases rest <;> simp [formulaText, hfirst.ne_nil]
  refine ⟨_, walk_take hplain rfl, rfl, ?_⟩
  simp [Walk.settle, Walk.content, elementsWith, hne, ofMath_formulaText h]

/-- An operand without brackets, on its own. -/
theorem reads_operand {text : Text} (h : IsOperand text) (hplain : ∀ c ∈ text, isBracket c = false) :
    Reads text [.leaf text] := by
  have hformula : IsFormula false text [] := ⟨.inl ⟨h, by simp⟩, trivial⟩
  simpa [formulaText, Grouping.ofFormula, Grouping.outline, slot, h.ne_nil] using
    reads_formula hformula hplain

/-- An operator between two operands without brackets, on its own. -/
theorem reads_operation {op : BinaryOp} (hop : op ≠ .undefined) {left right : Text}
    (hleft : IsOperand left) (hright : IsOperand right)
    (hplain : ∀ c ∈ left ++ right, isBracket c = false) :
    Reads (left ++ op.symbol ++ right) [.math op.symbol (.leaf left) (.leaf right)] := by
  have hformula : IsFormula false left [(op, right)] :=
    ⟨.inl ⟨hleft, by simp⟩, hop, .inl hright, trivial⟩
  have hsymbol : ∀ c ∈ op.symbol, isBracket c = false := by
    cases op <;> simp [BinaryOp.symbol, isBracket]
  obtain ⟨hpl, hpr⟩ := List.forall_mem_append.mp hplain
  have hreads := reads_formula hformula
    (List.forall_mem_append.mpr ⟨List.forall_mem_append.mpr ⟨hpl, hsymbol⟩, hpr⟩)
  simpa [formulaText, Grouping.ofFormula, Grouping.extend, Grouping.outline, slot, hleft.ne_nil,
    hright.ne_nil] using hreads

/-- A literal on its own. -/
theorem reads_literal {text : Text} (h : IsLiteral text) : Reads text [.leaf text] :=
  reads_operand (isOperand_of_isLiteral h) (isBracket_of_isLiteral h)

/-- Behind an operator there is no name of a function. -/
theorem functionSuffix_append {c : Char} (hc : c.isLower = false) (text : Text) :
    functionSuffix (text ++ [c]) = [] := by
  have hne : ∀ d : Char, d.isLower = true → d ≠ c := by
    rintro d hd rfl
    simp [hc] at hd
  have hr := hne 'r' rfl
  have hl := hne 'l' rfl
  have hd := hne 'd' rfl
  have hs := hne 's' rfl
  simp [functionSuffix, functionNames, List.isSuffixOf, List.isPrefixOf, hr, hl, hd, hs]

/-! ## What a walk has found -/

/-- A formula goes on with an operator and an operand. -/
theorem formulaText_append (first : Text) (rest : List (BinaryOp × Text)) (op : BinaryOp)
    (a : Text) : formulaText first (rest ++ [(op, a)]) = formulaText first rest ++ op.symbol ++ a := by
  induction rest generalizing first with
  | nil => rfl
  | cons next rest ih =>
      obtain ⟨op', b⟩ := next
      simp [formulaText, ih]

/-- The outline of a formula without brackets. -/
theorem outline_plains (first : Text) (rest : List (BinaryOp × Text)) :
    (Grouping.ofFormula first rest).outline slot =
      (Grouping.ofFormula (plain first) (plains rest)).outline Term.outline := by
  have hmap : (Grouping.ofFormula first rest).map plain =
      Grouping.ofFormula (plain first) (plains rest) :=
    Grouping.map_extendAll plain (.operand first) rest
  rw [← hmap, Grouping.outline_map]
  rfl

/-- Operators with literals on their right, none of which stands in brackets. -/
def AreLiterals (rest : List (BinaryOp × Text)) : Prop :=
  ∀ next ∈ rest, next.1 ≠ .undefined ∧ IsLiteral next.2

/-- What has been found in a formula: the elements before the current place and the
characters since the last of them, latest first, with the grouping so far and whether it
ends in a bracket. -/
inductive Found : List Outline → Text → Grouping Term → Bool → Prop where
  | first {first : Text} {rest : List (BinaryOp × Text)} (hfirst : IsLiteral first)
      (hrest : AreLiterals rest) :
      Found [] (formulaText first rest).reverse (.ofFormula (plain first) (plains rest)) false
  | later {elements : List Outline} {base : Grouping Term} {rest : List (BinaryOp × Text)}
      (hne : elements ≠ []) (hbase : base.All fun term => IsLiteral term.literal)
      (hlinked : elements.foldlM linkNext [] = .ok [base.outline Term.outline])
      (hrest : AreLiterals rest) :
      Found elements (formulaText [] rest).reverse (base.takenBy (plains rest)) rest.isEmpty

/-- Literals are operands of a formula. -/
theorem isRest_of_areLiterals {rest : List (BinaryOp × Text)} (h : AreLiterals rest) :
    IsRest rest := by
  induction rest with
  | nil => trivial
  | cons next rest ih =>
      obtain ⟨⟨hop, hnext⟩, hrest⟩ := List.forall_mem_cons.mp h
      exact ⟨hop, .inl (isOperand_of_isLiteral hnext), ih hrest⟩

/-- The operand of the last operator may be missing. -/
theorem isRest_append {rest : List (BinaryOp × Text)} (h : AreLiterals rest) {op : BinaryOp}
    (hop : op ≠ .undefined) : IsRest (rest ++ [(op, [])]) := by
  induction rest with
  | nil => exact ⟨hop, .inr ⟨rfl, rfl⟩, trivial⟩
  | cons next rest ih =>
      obtain ⟨⟨hop', hnext⟩, hrest⟩ := List.forall_mem_cons.mp h
      exact ⟨hop', .inl (isOperand_of_isLiteral hnext), ih hrest⟩

/-- A literal, or a literal in brackets, is a whole operand. -/
theorem whole_of_isLiteral {term : Term} (h : IsLiteral term.literal) :
    term.outline.isMath = false ∧ term.outline.isEmpty = false := by
  have hne := (isOperand_of_isLiteral h).ne_nil
  unfold Term.outline slot
  split
  · exact ⟨rfl, rfl⟩
  · simp [hne, isMath, isEmpty]

/-- A formula without a first operand takes what stands before it. -/
theorem linkNext_ofFormula {base : Grouping Term}
    (hbase : base.All fun term => IsLiteral term.literal) {rest : List (BinaryOp × Text)}
    (hne : rest ≠ []) :
    linkNext [base.outline Term.outline] ((Grouping.ofFormula [] rest).outline slot) =
      .ok [(base.takenBy (plains rest)).outline Term.outline] := by
  have hwhole := hbase.imp fun _ => whole_of_isLiteral
  rw [linkNext_cons_eq_ok_iff, outline_plains]
  refine .inr (.inr ⟨_, (hwhole.fillRight? _).1, ?_, rfl⟩)
  exact Grouping.fillLeft?_ofFormula Term.outline base rfl (by simpa [plains] using hne)

/-- The characters of a formula become one more element. -/
theorem elementsWith_formulaText {elements : List Outline} {first : Text}
    {rest : List (BinaryOp × Text)} (h : IsFormula (!elements.isEmpty) first rest)
    (hne : formulaText first rest ≠ []) :
    elementsWith elements (formulaText first rest).reverse =
      .ok (elements ++ [(Grouping.ofFormula first rest).outline slot]) := by
  simp [elementsWith, hne, ofMath_formulaText h]

/-- Operands outside brackets go on with another. -/
theorem plains_append (rest : List (BinaryOp × Text)) (op : BinaryOp) (a : Text) :
    plains (rest ++ [(op, a)]) = plains rest ++ [(op, plain a)] := by
  simp [plains]

/-- What takes a whole grouping grows as formulas with brackets do. -/
theorem takenBy_plains_append (base : Grouping Term) (rest : List (BinaryOp × Text))
    (op : BinaryOp) (a : Text) :
    base.takenBy (plains (rest ++ [(op, a)])) =
      (foldNext (base.takenBy (plains rest), rest.isEmpty) (op, plain a)).1 := by
  rw [plains_append]
  cases rest with
  | nil => rfl
  | cons next rest => exact Grouping.takenBy_append (by simp [plains]) op (plain a)

/-- The grouping of operands outside brackets folds in another. -/
theorem ofFormula_plains_append (first : Text) (rest : List (BinaryOp × Text)) (op : BinaryOp)
    (a : Text) :
    Grouping.ofFormula (plain first) (plains (rest ++ [(op, a)])) =
      (foldNext (Grouping.ofFormula (plain first) (plains rest), false) (op, plain a)).1 := by
  rw [plains_append]
  exact Grouping.extendAll_append ..

/-- All that has been found makes one element, shaped by the grouping so far. -/
theorem Found.content {elements : List Outline} {buffer : Text} {grouping : Grouping Term}
    {closed : Bool} (h : Found elements buffer grouping closed) :
    ∃ all, elementsWith elements buffer = .ok all ∧
      all.foldlM linkNext [] = .ok [grouping.outline Term.outline] := by
  cases h with
  | @first first rest hfirst hrest =>
      have hoperand := isOperand_of_isLiteral hfirst
      have hrest := isRest_of_areLiterals hrest
      refine ⟨_, elementsWith_formulaText ⟨.inl ⟨hoperand, by simp⟩, hrest⟩ ?_, ?_⟩
      · exact fun hnil => hoperand.ne_nil (formulaText_eq_nil hrest hnil).1
      · rw [← outline_plains]
        rfl
  | @later elements base rest hne hbase hlinked hrest =>
      by_cases hempty : rest = []
      · subst hempty
        exact ⟨elements, rfl, hlinked⟩
      · have hrest := isRest_of_areLiterals hrest
        refine ⟨_, elementsWith_formulaText ⟨.inr ⟨rfl, by simpa using hne⟩, hrest⟩ ?_, ?_⟩
        · exact fun hnil => hempty (formulaText_eq_nil hrest hnil).2
        · rw [List.foldlM_append, hlinked, ok_bind, List.foldlM_cons,
            linkNext_ofFormula hbase hempty]
          rfl

/-- Behind one more operator all that has been found makes one element with a slot at its
end. -/
theorem Found.openBracket {elements : List Outline} {buffer : Text} {grouping : Grouping Term}
    {closed : Bool} (h : Found elements buffer grouping closed) {op : BinaryOp}
    (hop : op ≠ .undefined) :
    ∃ before, elementsWith elements (op.mark :: buffer) = .ok before ∧ before ≠ [] ∧
      before.foldlM linkNext [] =
        .ok [(foldNext (grouping, closed) (op, plain [])).1.outline Term.outline] := by
  have hbuffer : ∀ first rest, op.mark :: (formulaText first rest).reverse =
      (formulaText first (rest ++ [(op, [])])).reverse := by
    intro first rest
    simp [formulaText_append, BinaryOp.symbol_eq_mark hop]
  cases h with
  | @first first rest hfirst hrest =>
      rw [hbuffer]
      have hrest := isRest_append hrest hop
      refine ⟨_, elementsWith_formulaText
        ⟨.inl ⟨isOperand_of_isLiteral hfirst, by simp⟩, hrest⟩ ?_, by simp, ?_⟩
      · exact fun hnil => by simpa using (formulaText_eq_nil hrest hnil).2
      · rw [← ofFormula_plains_append, ← outline_plains]
        rfl
  | @later elements base rest hne hbase hlinked hrest =>
      rw [hbuffer]
      have hrest := isRest_append hrest hop
      refine ⟨_, elementsWith_formulaText ⟨.inr ⟨rfl, by simpa using hne⟩, hrest⟩ ?_, by simp, ?_⟩
      · exact fun hnil => by simpa using (formulaText_eq_nil hrest hnil).2
      · rw [List.foldlM_append, hlinked, ok_bind, List.foldlM_cons,
          linkNext_ofFormula hbase (by simp), takenBy_plains_append]
        rfl

/-- A slot at the end takes the operand behind it. -/
theorem fillRight?_foldNext (state : Grouping Term × Bool) (op : BinaryOp) (term : Term) :
    fillRight? term.outline ((foldNext state (op, plain [])).1.outline Term.outline) =
      some ((foldNext state (op, term)).1.outline Term.outline) := by
  obtain ⟨grouping, closed⟩ := state
  cases closed with
  | true => rfl
  | false => exact Grouping.fillRight?_outline Term.outline rfl term grouping

/-- What has been found after one more operator and a literal. -/
theorem Found.plain {elements : List Outline} {buffer : Text} {grouping : Grouping Term}
    {closed : Bool} (h : Found elements buffer grouping closed) {op : BinaryOp}
    (hop : op ≠ .undefined) {literal : Text} (hliteral : IsLiteral literal) :
    Found elements (literal.reverse ++ op.mark :: buffer)
      (foldNext (grouping, closed) (op, Outline.plain literal)).1 false := by
  have hbuffer : ∀ first rest, literal.reverse ++ op.mark :: (formulaText first rest).reverse =
      (formulaText first (rest ++ [(op, literal)])).reverse := by
    intro first rest
    simp [formulaText_append, BinaryOp.symbol_eq_mark hop]
  have happend : ∀ rest, AreLiterals rest → AreLiterals (rest ++ [(op, literal)]) := by
    intro rest hrest next hnext
    rcases List.mem_append.mp hnext with hnext | hnext
    · exact hrest next hnext
    · rw [List.mem_singleton.mp hnext]
      exact ⟨hop, hliteral⟩
  cases h with
  | first hfirst hrest =>
      rw [hbuffer, ← ofFormula_plains_append]
      exact .first hfirst (happend _ hrest)
  | @later elements base rest hne hbase hlinked hrest =>
      have hlater := Found.later hne hbase hlinked (happend rest hrest)
      rw [List.isEmpty_eq_false_iff.mpr (by simp)] at hlater
      rw [hbuffer, ← takenBy_plains_append]
      exact hlater

/-- All terms of a folding are those before and the next. -/
theorem all_foldNext_iff {P : Term → Prop} {state : Grouping Term × Bool} {op : BinaryOp}
    {term : Term} :
    (foldNext state (op, term)).1.All P ↔ state.1.All P ∧ op ≠ .undefined ∧ P term := by
  unfold foldNext
  split
  · exact and_left_comm
  · exact Grouping.all_extend

/-- Literals outside brackets are terms. -/
theorem isTerms_plains {rest : List (BinaryOp × Text)} (h : AreLiterals rest) :
    IsTerms (plains rest) := by
  intro next hnext
  obtain ⟨literal, hmem, rfl⟩ := List.mem_map.mp hnext
  exact h literal hmem

/-- All that was found in a formula are literals. -/
theorem Found.all {elements : List Outline} {buffer : Text} {grouping : Grouping Term}
    {closed : Bool} (h : Found elements buffer grouping closed) :
    grouping.All fun term => IsLiteral term.literal := by
  cases h with
  | @first first rest hfirst hrest =>
      have hall : (Grouping.operand (Outline.plain first)).All fun term => IsLiteral term.literal :=
        hfirst
      exact hall.extendAll (isTerms_plains hrest)
  | later hne hbase hlinked hrest => exact hbase.takenBy (isTerms_plains hrest)

/-- Elements that make one are a grouping behind which nothing has been found yet. -/
theorem Found.later_nil {elements : List Outline} {base : Grouping Term} (hne : elements ≠ [])
    (hbase : base.All fun term => IsLiteral term.literal)
    (hlinked : elements.foldlM linkNext [] = .ok [base.outline Term.outline]) :
    Found elements [] base true :=
  later hne hbase hlinked (List.forall_mem_nil _)

/-- A bracket that has closed takes its place behind the operator before it. -/
theorem Found.closeBracket {elements before : List Outline} {buffer : Text}
    {grouping : Grouping Term} {closed : Bool} (h : Found elements buffer grouping closed)
    {op : BinaryOp} (hop : op ≠ .undefined) {literal : Text} (hliteral : IsLiteral literal)
    (hlinked : before.foldlM linkNext [] =
      .ok [(foldNext (grouping, closed) (op, Outline.plain [])).1.outline Term.outline]) :
    Found (before ++ [Outline.bracketed [] (.leaf literal)]) []
      (foldNext (grouping, closed) (op, ⟨literal, true⟩)).1 true := by
  have hfill := fillRight?_foldNext (grouping, closed) op ⟨literal, true⟩
  have hnext : linkNext [(foldNext (grouping, closed) (op, Outline.plain [])).1.outline Term.outline]
      (Outline.bracketed [] (.leaf literal)) =
        .ok [(foldNext (grouping, closed) (op, ⟨literal, true⟩)).1.outline Term.outline] :=
    linkNext_cons_eq_ok_iff.mpr (.inr (.inl ⟨_, hfill, rfl, rfl⟩))
  refine later_nil (by simp) (all_foldNext_iff.mpr ⟨h.all, hop, hliteral⟩) ?_
  rw [List.foldlM_append, hlinked, ok_bind, List.foldlM_cons, hnext]
  rfl

/-! ## Walks through formulas -/

/-- A walk that has found a formula. -/
structure Shows (walk : Walk) (state : Grouping Term × Bool) : Prop where
  surroundings : walk.surroundings = .top
  closed : walk.closed = none
  found : Found walk.elements walk.buffer state.1 state.2

/-- A walk through the first term. -/
theorem walk_first {term : Term} (h : IsLiteral term.literal) :
    ∃ walk, term.text.foldlM Walk.step {} = .ok walk ∧
      Shows walk (.operand term, term.bracketed) := by
  obtain ⟨literal, bracketed⟩ := term
  cases bracketed with
  | false =>
      refine ⟨_, walk_take (isBracket_of_isLiteral h) rfl, rfl, rfl, ?_⟩
      simpa [formulaText, plains, Grouping.ofFormula, plain] using
        Found.first h (List.forall_mem_nil _)
  | true =>
      refine ⟨_, (reads_literal h).bracketed {} [] rfl rfl, rfl, rfl, ?_⟩
      exact .later_nil (by simp) h rfl

/-- A walk through one more operator and term. -/
theorem walk_next {walk : Walk} {state : Grouping Term × Bool} (h : Shows walk state)
    {op : BinaryOp} (hop : op ≠ .undefined) {term : Term} (hterm : IsLiteral term.literal) :
    ∃ walk', (op.symbol ++ term.text).foldlM Walk.step walk = .ok walk' ∧
      Shows walk' (foldNext state (op, term)) := by
  obtain ⟨literal, bracketed⟩ := term
  have hmark : isBracket op.mark = false ∧ op.mark.isLower = false := by
    cases op <;> exact ⟨rfl, rfl⟩
  have hwalk : [op.mark].foldlM Walk.step walk = _ := walk_take (by simp [hmark.1]) h.closed
  rw [BinaryOp.symbol_eq_mark hop, List.foldlM_append, hwalk, ok_bind]
  cases bracketed with
  | false =>
      exact ⟨_, walk_take (isBracket_of_isLiteral hterm) h.closed, h.surroundings, h.closed,
        h.found.plain hop hterm⟩
  | true =>
      obtain ⟨before, hbefore, hne, hlinked⟩ := h.found.openBracket hop
      have hfunction := functionSuffix_append hmark.2 walk.buffer.reverse
      refine ⟨_, (reads_literal hterm).bracketed _ before h.closed ?_, h.surroundings, rfl, ?_⟩
      · simpa [Walk.function, hfunction] using hbefore
      · simpa [Walk.function, hfunction, Outline.bracketed, foldNext] using
          h.found.closeBracket hop hterm hlinked

/-- A formula is its first operand and each operator with the one behind it. -/
theorem formulaText_flatMap (first : Text) (rest : List (BinaryOp × Text)) :
    formulaText first rest = first ++ rest.flatMap fun next => next.1.symbol ++ next.2 := by
  induction rest generalizing first with
  | nil => simp [formulaText]
  | cons next rest ih =>
      obtain ⟨op, a⟩ := next
      simp [formulaText, ih]

/-- A walk through more operators and terms. -/
theorem walk_rest {rest : List (BinaryOp × Term)} (hrest : IsTerms rest) {walk : Walk}
    {state : Grouping Term × Bool} (h : Shows walk state) :
    ∃ walk', (rest.flatMap fun next => next.1.symbol ++ next.2.text).foldlM Walk.step walk =
      .ok walk' ∧ Shows walk' (rest.foldl foldNext state) := by
  induction rest generalizing walk state with
  | nil => exact ⟨walk, rfl, h⟩
  | cons next rest ih =>
      obtain ⟨⟨hop, hterm⟩, hrest⟩ := List.forall_mem_cons.mp hrest
      obtain ⟨walk₁, hwalk, hshows⟩ := walk_next h hop hterm
      obtain ⟨walk₂, hlater, hshows⟩ := ih hrest hshows
      refine ⟨walk₂, ?_, hshows⟩
      rw [List.flatMap_cons, List.foldlM_append, hwalk, ok_bind, hlater]

/-- The outline of a formula with brackets is its grouping. -/
theorem ofText_termsText {first : Term} {rest : List (BinaryOp × Term)}
    (hfirst : IsLiteral first.literal) (hrest : IsTerms rest) :
    ofText (termsText first rest) = .ok ((folded first rest).outline Term.outline) := by
  obtain ⟨walk₁, hwalk, hshows⟩ := walk_first hfirst
  obtain ⟨walk₂, hlater, hshows⟩ := walk_rest hrest hshows
  obtain ⟨all, hall, hlinked⟩ := hshows.found.content
  have htext : termsText first rest =
      first.text ++ rest.flatMap fun next => next.1.symbol ++ next.2.text := by
    rw [termsText, formulaText_flatMap, List.flatMap_map]
  rw [ofText, htext, List.foldlM_append, hwalk, ok_bind, hlater, ok_bind, Walk.finish,
    Walk.settle_of_closed_eq_none hshows.closed]
  simp [hshows.surroundings, Walk.content, hall, link, hlinked, folded]

/-- All terms of a folding are the first and those that follow. -/
theorem all_foldl_foldNext {P : Term → Prop} {rest : List (BinaryOp × Term)}
    {state : Grouping Term × Bool} :
    (rest.foldl foldNext state).1.All P ↔
      state.1.All P ∧ ∀ next ∈ rest, next.1 ≠ .undefined ∧ P next.2 := by
  induction rest generalizing state with
  | nil => simp
  | cons next rest ih =>
      rw [List.foldl_cons, ih, List.forall_mem_cons, ← and_assoc]
      exact and_congr_left fun _ => all_foldNext_iff

/-- What holds of all operands of a formula holds of all its terms. -/
theorem all_folded_iff {P : Term → Prop} {first : Term} {rest : List (BinaryOp × Term)} :
    (folded first rest).All P ↔ P first ∧ ∀ next ∈ rest, next.1 ≠ .undefined ∧ P next.2 :=
  all_foldl_foldNext

end Outline
end DiceNotation

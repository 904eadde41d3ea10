import DiceNotation.Expression.Parse
import DiceNotation.Proofs.Outline.Nesting
import DiceNotation.Proofs.Text.Words

/-!
# Compound texts

Two texts in brackets with an operator between them are read as the operator between the
two expressions, and a text in brackets behind the name of a function as the function of
its expression, whatever the texts are.

Main definitions:

- `BinaryOp.between`, `UnaryOp.around`: compound texts.

Main results:

- `Expression.parse_eq_ok`: what is read from a text that is not empty.
- `Expression.parse_between`, `Expression.parse_around`: what is read from a compound text.
-/

namespace DiceNotation

/-- Two texts in brackets with an operator between them. -/
def BinaryOp.between (op : BinaryOp) (left right : Text) : Text :=
  ('(' :: left ++ [')']) ++ op.symbol ++ ('(' :: right ++ [')'])

/-- A text in brackets behind the name of a function. -/
def UnaryOp.around (op : UnaryOp) (text : Text) : Text := op.name ++ ('(' :: text ++ [')'])

/-! ## Standard forms -/

/-- Symbols of operators are in standard form. -/
theorem standardize_symbol (op : BinaryOp) : op.symbol.standardize = op.symbol := by
  cases op <;> rfl

/-- Names of functions are in standard form. -/
theorem standardize_name (op : UnaryOp) : op.name.standardize = op.name := by
  cases op <;> rfl

/-- The standard form of an operation is that of its sides. -/
theorem standardize_between (op : BinaryOp) (left right : Text) :
    (op.between left right).standardize = op.between left.standardize right.standardize := by
  have hparts : op.between left right = [] ++ '(' :: (left ++ ')' :: (op.symbol ++
      '(' :: (right ++ ')' :: []))) := by simp [BinaryOp.between]
  rw [hparts, Text.standardize_append_openBracket, Text.standardize_append_closeBracket,
    Text.standardize_append_openBracket, Text.standardize_append_closeBracket,
    standardize_symbol]
  simp [BinaryOp.between]

/-- The standard form of a function is that of what it is applied to. -/
theorem standardize_around (op : UnaryOp) (text : Text) :
    (op.around text).standardize = op.around text.standardize := by
  have hparts : op.around text = op.name ++ '(' :: (text ++ ')' :: []) := by
    simp [UnaryOp.around]
  rw [hparts, Text.standardize_append_openBracket, Text.standardize_append_closeBracket,
    standardize_name]
  simp [UnaryOp.around]

/-! ## Outlines -/

namespace Outline

/-- An operator with nothing around it has two empty slots. -/
theorem symbol_alone {op : BinaryOp} (hop : op ≠ .undefined) :
    ∃ c, op.symbol = [c] ∧ isBracket c = false ∧ functionSuffix [c] = [] ∧
      ofMath [c] true = .ok (.math [c] .empty .empty) := by
  cases op with
  | undefined => exact absurd rfl hop
  | add | subtract | multiply | divide | remainder | power => exact ⟨_, rfl, rfl, rfl, rfl⟩

/-- A text in brackets at the front of a walk. -/
theorem walk_bracketed {text : Text} {content : Outline} (h : Reads text [content]) :
    ('(' :: text ++ [')']).foldlM Walk.step {} =
      .ok { place := text.length + 2, elements := [bracketed [] content] } := by
  have hfunction : Walk.function {} = [] := rfl
  simpa [bracketed, hfunction] using h.bracketed {} [] rfl rfl

/-- An operator takes the brackets on either side of it for its operands. -/
theorem ofText_between {op : BinaryOp} (hop : op ≠ .undefined) {left right : Text}
    {first second : Outline} (hleft : Reads left [first]) (hright : Reads right [second]) :
    ofText (op.between left right) =
      .ok (.math op.symbol (bracketed [] first) (bracketed [] second)) := by
  obtain ⟨c, hsymbol, hc, hfunction, hmath⟩ := symbol_alone hop
  have hopen : Walk.step { place := left.length + 2, elements := [bracketed [] first] } c =
      .ok { place := left.length + 2 + 1, elements := [bracketed [] first], buffer := [c] } := by
    rw [Walk.step_eq_ok_iff]
    exact .inr ⟨by simp, .take hc⟩
  have hclose := hright.bracketed
    { place := left.length + 2 + 1, elements := [bracketed [] first], buffer := [c] }
    [bracketed [] first, .math [c] .empty .empty] rfl
    (by simp [Walk.function, hfunction, elementsWith, hmath])
  rw [BinaryOp.between, ofText, hsymbol, List.foldlM_append, List.foldlM_append,
    walk_bracketed hleft, ok_bind, List.foldlM_cons, hopen]
  simp only [ok_bind, List.foldlM_nil, pure_eq_ok]
  rw [hclose]
  simp [Walk.function, hfunction, Walk.finish, Walk.settle, Walk.content, elementsWith, link,
    linkNext, bracketed, isMath, fillLeft?, fillRight?]

/-- The name of a function belongs to the bracket behind it. -/
theorem ofText_around {op : UnaryOp} (hop : op ≠ .undefined) {text : Text} {content : Outline}
    (h : Reads text [content]) : ofText (op.around text) = .ok (bracketed op.name content) := by
  have hname : op.name.foldlM Walk.step {} =
      .ok { place := op.name.length, buffer := op.name.reverse } := by
    cases op <;> rfl
  have hfunction : functionSuffix op.name = op.name := by
    cases op <;> rfl
  have hclose := h.bracketed { place := op.name.length, buffer := op.name.reverse } [] rfl
    (by simp [Walk.function, hfunction, elementsWith])
  rw [UnaryOp.around, ofText, List.foldlM_append, hname, ok_bind, hclose]
  simp [Walk.function, hfunction, Walk.finish, Walk.settle, Walk.content, elementsWith, bracketed]

end Outline

/-! ## Expressions -/

namespace Expression

/-- What is read from a text that is not empty. -/
theorem parse_eq_ok {text : Text} (htext : text.standardize ≠ []) {result : Option Expression}
    (h : parse text = .ok result) :
    ∃ outline e, Outline.Reads text.standardize [outline] ∧ ofOutline outline = .ok e ∧
      result = some e := by
  rw [parse, parseStandard, bind_eq_ok_iff] at h
  obtain ⟨outline, houtline, hread⟩ := h
  rw [Outline.ofText_eq_ok_iff] at houtline
  obtain ⟨content, hreads, rfl⟩ := houtline
  obtain ⟨element, rfl, helement⟩ := hreads.exists_element htext
  cases element with
  | empty => simp [Outline.isEmpty] at helement
  | leaf | math | group =>
      simp only [List.head?_cons, Option.getD_some, bind_eq_ok_iff] at hread
      obtain ⟨e, he, hresult⟩ := hread
      cases hresult
      exact ⟨_, e, hreads, he, rfl⟩

/-- An operator is read from its symbol. -/
theorem ofSymbol?_symbol {op : BinaryOp} (hop : op ≠ .undefined) :
    BinaryOp.ofSymbol? op.symbol = some op := by
  cases op with
  | undefined => exact absurd rfl hop
  | add | subtract | multiply | divide | remainder | power => rfl

/-- A function is read from its name. -/
theorem ofName?_name {op : UnaryOp} (hop : op ≠ .undefined) :
    op.name ≠ [] ∧ UnaryOp.ofName? op.name = some op := by
  cases op with
  | undefined => exact absurd rfl hop
  | floor | ceiling | round | magnitude => exact ⟨by simp [UnaryOp.name], rfl⟩

/-- The operator between two expressions in brackets. -/
theorem parse_between {op : BinaryOp} (hop : op ≠ .undefined) {left right : Text}
    (hleft : left.standardize ≠ []) (hright : right.standardize ≠ []) {e f : Expression}
    (he : parse left = .ok (some e)) (hf : parse right = .ok (some f)) :
    parse (op.between left right) = .ok (some (.binary op (.bracket e) (.bracket f))) := by
  obtain ⟨outline, _, hreads, he, ⟨⟩⟩ := parse_eq_ok hleft he
  obtain ⟨outline', _, hreads', hf, ⟨⟩⟩ := parse_eq_ok hright hf
  rw [parse, standardize_between, parseStandard, Outline.ofText_between hop hreads hreads']
  simp [Outline.bracketed, Outline.isEmpty, ofOutline, ofOutlines, ofGroup, enclosed, he, hf,
    ofSymbol?_symbol hop]

/-- The function of an expression in brackets. -/
theorem parse_around {op : UnaryOp} (hop : op ≠ .undefined) {text : Text}
    (htext : text.standardize ≠ []) {e : Expression} (h : parse text = .ok (some e)) :
    parse (op.around text) = .ok (some (.unary op e)) := by
  obtain ⟨outline, _, hreads, he, ⟨⟩⟩ := parse_eq_ok htext h
  obtain ⟨hname, hfound⟩ := ofName?_name hop
  rw [parse, standardize_around, parseStandard, Outline.ofText_around hop hreads]
  simp [Outline.bracketed, ofOutline, ofOutlines, ofGroup, enclosed, he, hname, hfound]

end Expression
end DiceNotation

import DiceNotation.Expression.Leaf
import DiceNotation.Text.Standard

/-!
# Reading expressions

The expression of a text is found from its outline: leaves are read, operators and
functions looked up by their symbols and names, and a list of a single pool is that pool.

Main definitions:

- `Expression.ofOutline`: the expression of an outline.
- `Expression.parse`: the expression of a text, if there is any text.
-/

namespace DiceNotation
namespace Expression

/-- A bracket around an expression, or the function whose name stands before it. -/
def enclosed (function : Text) (content : Expression) : Except Fault Expression :=
  if function.isEmpty then .ok (.bracket content)
  else match UnaryOp.ofName? function with
    | some op => .ok (.unary op content)
    | none => .error (.malformed (.unknownFunction function) none)

/-- A list with its suffix.  A single pool is not made a list, so that its suffix acts on
the dice. -/
def listed (entries : List Expression) (suffix : Text) : Except Fault Expression :=
  match entries with
  | [entry] => if entry.shape = .pool then entry.withSuffix suffix
      else (Expression.list [entry]).withSuffix suffix
  | entries => (Expression.list entries).withSuffix suffix

/-- The expression of a group whose elements have been read. -/
def ofGroup (enclosure : Enclosure) (entries : List Expression) : Except Fault Expression :=
  if enclosure.isList then listed entries enclosure.suffix
  else match entries with
    | [content] => enclosed enclosure.function content
    | _ => .error (.malformed .notOneExpression none)

mutual

/-- The expression of an outline. -/
def ofOutline : Outline → Except Fault Expression
  | .empty => .error (.malformed .expressionExpected none)
  | .leaf text =>
    if text.isEmpty then .error (.malformed .expressionExpected none) else ofLeaf text
  | .math symbol left right =>
    if left.isEmpty || right.isEmpty then .error (.malformed (.missingOperand symbol) none)
    else match BinaryOp.ofSymbol? symbol with
      | none => .error (.malformed (.unknownOperator symbol) none)
      | some op => do
        let first ← ofOutline left
        let second ← ofOutline right
        return .binary op first second
  | .group enclosure elements => do
    let entries ← ofOutlines elements
    ofGroup enclosure entries

/-- The expressions of several outlines, in order. -/
def ofOutlines : List Outline → Except Fault (List Expression)
  | [] => .ok []
  | element :: rest => do
    let first ← ofOutline element
    let others ← ofOutlines rest
    return first :: others

end

/-- The expression of a text in standard form, if there is any text. -/
def parseStandard (text : Text) : Except Fault (Option Expression) := do
  match ← Outline.ofText text with
  | .empty => return none
  | outline => return some (← ofOutline outline)

/-- The expression of a text, if there is any text but blanks. -/
def parse (text : Text) : Except Fault (Option Expression) := parseStandard text.standardize

@[simp]
theorem parse_nil : parse [] = .ok none := rfl

end Expression
end DiceNotation

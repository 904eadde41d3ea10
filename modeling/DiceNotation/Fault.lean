import DiceNotation.Text.Basic

/-!
# Faults

Everything that can go wrong between reading an expression and reporting its result, named
by its cause.  Most faults are the user's to mend: such a fault has a *report*, a short
code with a sentence.  The others say that a number or a place left the range in which the
engine can work, and have no report.

Main definitions:

- `Malformation`: why a text is not an expression.
- `Impossibility`: why a well-formed expression has no value.
- `Fault`: every way to fail.
- `Fault.report?`: what the user is told, if the fault is the user's.
-/

namespace DiceNotation

/-! ## Causes -/

/-- Why a text is not an expression. -/
inductive Malformation where
  | unexpectedEnd
  | unexpectedCharacter (found : Char)
  | notAnInteger (found : Char)
  | signInsideInteger
  | signWithoutDigits
  | unknownComparison (found : Char)
  | malformedDecimal
  | negativeDiceCount
  | dieMarkExpected (place : Int)
  | noFaces
  | explosionMarkExpected (place : Int)
  | rerollMarkExpected (place : Int)
  | selectionMarkExpected (place : Int)
  | negativeSelection
  | unknownListModifiers (suffix : Text)
  | expressionExpected
  | notOneExpression
  | unknownFunction (name : Text)
  | missingOperand (symbol : Text)
  | unknownOperator (symbol : Text)
  | operatorExpected (found : Text)
  | operandConflict
  | functionOfList (name : Text)
  | bracketNotClosed
  | strayTerminator
  | unlinkedElements
deriving Repr, DecidableEq

/-- Why an arithmetic operation has no result. -/
inductive ArithmeticFault where
  | divisionByZero
  | tooLarge
  | outsideDomain
deriving Repr, DecidableEq

/-- Why a well-formed expression has no value. -/
inductive Impossibility where
  | unsupportedOperand (owner operand : String)
  | explodingCustomDie
  | matchingNothing
  | totalOfNothing
  | arithmetic (cause : ArithmeticFault)
deriving Repr, DecidableEq

/-- Every way to fail. -/
inductive Fault where
  /-- The text is not an expression; `place` is where that showed, if known. -/
  | malformed (cause : Malformation) (place : Option Int)
  /-- The expression has no value. -/
  | impossible (cause : Impossibility)
  /-- More dice were announced than `limit` allows. -/
  | overBudget (limit : Int)
  /-- A place outside a text, a list of faces or the rolls of a die. -/
  | noSuchPlace
  /-- An arithmetic operation failed where no expression asked for it. -/
  | unguarded (cause : ArithmeticFault)
  /-- A numeral of more digits than are read or written. -/
  | numeralTooLong
  /-- An operation that has a place in a tree but no meaning. -/
  | undefinedOperation
  /-- The source of draws has run dry. -/
  | drawsExhausted
  /-- A setting that should be an integer is not. -/
  | notAnIntegerSetting
  /-- Dice kept calling for more dice beyond any bound. -/
  | unsettled
deriving Repr, DecidableEq

/-! ## Wording -/

/-- The sentence for a malformation. -/
def Malformation.sentence : Malformation → String
  | .unexpectedEnd => "Unexpected end of dice string."
  | .unexpectedCharacter found => s!"Unexpected character '{found}'."
  | .notAnInteger found => s!"Unexpected character '{found}' encountered parsing integer."
  | .signInsideInteger => "Unexpected '-' after start of integer."
  | .signWithoutDigits => "Expected digits after '-'."
  | .unknownComparison found => s!"Unexpected compare point type '{found}'."
  | .malformedDecimal => "Malformed decimal number."
  | .negativeDiceCount => "Cannot roll a negative number of dice."
  | .dieMarkExpected place => s!"Expected character 'd' at position {place}."
  | .noFaces => "Dice must have 1 or more faces."
  | .explosionMarkExpected place => s!"Expected explosion character at position {place}."
  | .rerollMarkExpected place => s!"Expected reroll character at position {place}."
  | .selectionMarkExpected place => s!"Expected keep or drop character at position {place}."
  | .negativeSelection => "Cannot keep or drop a negative number of values."
  | .unknownListModifiers suffix => "Unknown list modifiers '" ++ String.ofList suffix ++ "'."
  | .expressionExpected => "Expected a number, dice roll or bracket."
  | .notOneExpression => "Brackets must contain exactly one expression."
  | .unknownFunction name => "Unknown function name '" ++ String.ofList name ++ "'."
  | .missingOperand symbol =>
    "Math operator '" ++ String.ofList symbol ++ "' is missing an operand."
  | .unknownOperator symbol => "Unknown math operator '" ++ String.ofList symbol ++ "'."
  | .operatorExpected found => "Math syntax error near '" ++ String.ofList found ++ "'."
  | .operandConflict => "Math syntax error."
  | .functionOfList name =>
    "Function '" ++ String.ofList name ++ "' cannot be applied to a list."
  | .bracketNotClosed => "Bracket not closed."
  | .strayTerminator => "Unexpected closing bracket or comma."
  | .unlinkedElements => "Found elements that are not linked by a math operator."

/-- The sentence for an arithmetic fault. -/
def ArithmeticFault.sentence : ArithmeticFault → String
  | .divisionByZero => "Division by zero."
  | .tooLarge => "Math result is too large."
  | .outsideDomain => "Math domain error."

/-- The sentence for an impossibility. -/
def Impossibility.sentence : Impossibility → String
  | .unsupportedOperand owner operand => s!"{owner} does not support operating on {operand}."
  | .explodingCustomDie => "Explode function not supported for custom dice."
  | .matchingNothing => "Cannot match values in an empty list."
  | .totalOfNothing => "Cannot resolve an empty list to a number."
  | .arithmetic cause => cause.sentence

/-! ## Reports -/

/-- What the user is told: the code of a family of faults and a sentence. -/
structure Report where
  code : String
  sentence : String
deriving Repr, DecidableEq

/-- A report in one line, its code in square brackets first. -/
def Report.line (report : Report) : String := "[" ++ report.code ++ "] " ++ report.sentence

namespace Fault

/-- What the user is told, if the fault is the user's to mend. -/
def report? : Fault → Option Report
  | .malformed cause _ => some ⟨"SYNTAX_ERROR", cause.sentence⟩
  | .impossible cause => some ⟨"SEMANTIC_ERROR", cause.sentence⟩
  | .overBudget limit => some ⟨"DICE_LIMIT", s!"Exceeded the maximum of {limit} dice."⟩
  | _ => none

/-- Where the fault showed, if it belongs to a place in a text. -/
def place? : Fault → Option Int
  | .malformed _ place => place
  | _ => none

end Fault
end DiceNotation

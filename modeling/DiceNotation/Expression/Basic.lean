import DiceNotation.Expression.Condition

/-!
# Expressions

An expression is a number, a roll of dice, or is built from such by modifiers, scores,
brackets, lists, functions and operators.  What an expression yields, a pool of dice, a
list of numbers or one number, shows in its shape before anything is rolled.

Main definitions:

- `Modifier`: explosions, rerolls and selections, which keep a pool a pool.
- `Score`: ways to make one number of many.
- `Expression`: expressions.
- `Expression.shape`: what an expression yields.

Main results:

- `Expression.shape_bracket`, `Expression.shape_add`: brackets keep the shape, and the sum
  of two pools is a pool.
-/

namespace DiceNotation

/-! ## Parts of expressions -/

/-- What an exploding die does: it spawns a new die, grows itself, or spawns a new die
less one. -/
inductive Explosion where
  | regular
  | compounding
  | penetrating
deriving Repr, DecidableEq

/-- What selects entries: one of several conditions, or a number of the highest or lowest
values. -/
inductive Selector where
  | meeting (conditions : List Condition)
  | extreme (highest : Bool) (count : Int)
deriving Repr, DecidableEq

/-- What may be done to a pool. -/
inductive Modifier where
  /-- Dice explode that meet the condition, or without one show their maximum. -/
  | explode (explosion : Explosion) (condition : Option Condition)
  /-- Dice that meet a condition are replaced, once or until none does. -/
  | reroll (conditions : List Condition) (once : Bool)
  /-- Selected entries are kept, or dropped. -/
  | select (keep : Bool) (selector : Selector)
deriving Repr, DecidableEq

/-- How one number is made of many. -/
inductive Score where
  /-- Equal values are brought together; their groups are counted, or all added up. -/
  | groups (counted : Bool)
  /-- Successes count up and failures down. -/
  | successes (success : Condition) (failure : Option Condition)
deriving Repr, DecidableEq

/-- Functions of one number.  The undefined one has a place in a tree and no meaning. -/
inductive UnaryOp where
  | floor
  | ceiling
  | round
  | magnitude
  | undefined
deriving Repr, DecidableEq

/-- Operators between two numbers.  The undefined one has a place in a tree and no
meaning. -/
inductive BinaryOp where
  | add
  | subtract
  | multiply
  | divide
  | remainder
  | power
  | undefined
deriving Repr, DecidableEq

/-- The name a function is written with. -/
def UnaryOp.name : UnaryOp → Text
  | .floor => ['f', 'l', 'o', 'o', 'r']
  | .ceiling => ['c', 'e', 'i', 'l']
  | .round => ['r', 'o', 'u', 'n', 'd']
  | .magnitude => ['a', 'b', 's']
  | .undefined => []

/-- The function with a name. -/
def UnaryOp.ofName? (name : Text) : Option UnaryOp :=
  [UnaryOp.floor, .ceiling, .round, .magnitude].find? fun op => op.name == name

/-- The symbol an operator is written with. -/
def BinaryOp.symbol : BinaryOp → Text
  | .add => ['+']
  | .subtract => ['-']
  | .multiply => ['*']
  | .divide => ['/']
  | .remainder => ['%']
  | .power => ['^']
  | .undefined => []

/-- The operator with a symbol. -/
def BinaryOp.ofSymbol? (symbol : Text) : Option BinaryOp :=
  [BinaryOp.add, .subtract, .multiply, .divide, .remainder, .power].find? fun op =>
    op.symbol == symbol

/-! ## Expressions -/

/-- An expression. -/
inductive Expression where
  /-- Dice with the faces `least`, …, `greatest`. -/
  | dice (count least greatest : Int)
  /-- Dice with listed faces. -/
  | customDice (count : Int) (faces : List Int)
  /-- A number; without a text it shows its value. -/
  | number (value : Number) (text : Text)
  | modified (modifier : Modifier) (operand : Expression)
  | scored (score : Score) (operand : Expression)
  | bracket (content : Expression)
  | list (entries : List Expression)
  | unary (op : UnaryOp) (operand : Expression)
  | binary (op : BinaryOp) (left right : Expression)
deriving Repr

/-- What an expression yields. -/
inductive Shape where
  | pool
  | list
  | number
deriving Repr, DecidableEq

namespace Expression

/-- What an expression yields.  A selection keeps the shape of a pool and makes a list of
anything else. -/
def shape : Expression → Shape
  | .dice .. => .pool
  | .customDice .. => .pool
  | .modified (.explode ..) _ => .pool
  | .modified (.reroll ..) _ => .pool
  | .modified (.select ..) operand => if operand.shape = .pool then .pool else .list
  | .bracket content => content.shape
  | .list _ => .list
  | .binary .add left right =>
    if left.shape = .pool ∧ right.shape = .pool then .pool else .number
  | _ => .number

@[simp]
theorem shape_bracket (content : Expression) : (bracket content).shape = content.shape := by
  simp [shape]

theorem shape_add (left right : Expression) :
    (binary .add left right).shape =
      if left.shape = .pool ∧ right.shape = .pool then .pool else .number := by
  simp [shape]

/-- The name of the kind of an expression, for messages. -/
def title : Expression → String
  | .dice .. => "DiceRoll"
  | .customDice .. => "CustomDiceRoll"
  | .number .. => "StaticNumber"
  | .modified (.explode .regular _) _ => "ExplodeRegular"
  | .modified (.explode .compounding _) _ => "ExplodeCompounding"
  | .modified (.explode .penetrating _) _ => "ExplodePenetrating"
  | .modified (.reroll ..) _ => "Reroll"
  | .modified (.select _ (.meeting _)) _ => "KeepDropConditional"
  | .modified (.select _ (.extreme ..)) _ => "KeepDropHighLow"
  | .scored (.groups _) _ => "NumberMatcher"
  | .scored (.successes ..) _ => "SuccessFailCounter"
  | .bracket _ => "Bracket"
  | .list _ => "NumberList"
  | .unary .floor _ => "Floor"
  | .unary .ceiling _ => "Ceiling"
  | .unary .round _ => "Round"
  | .unary .magnitude _ => "Absolute"
  | .unary .undefined _ => "UnaryFunction"
  | .binary .add .. => "Add"
  | .binary .subtract .. => "Subtract"
  | .binary .multiply .. => "Multiply"
  | .binary .divide .. => "Divide"
  | .binary .remainder .. => "Modulo"
  | .binary .power .. => "Exponent"
  | .binary .undefined .. => "BinaryMath"

/-- Modifiers laid over an expression, the first of them innermost. -/
def withModifiers (operand : Expression) (modifiers : List Modifier) : Expression :=
  modifiers.foldl (fun e modifier => .modified modifier e) operand

@[simp]
theorem withModifiers_nil (operand : Expression) : operand.withModifiers [] = operand := rfl

@[simp]
theorem withModifiers_cons (operand : Expression) (modifier : Modifier)
    (rest : List Modifier) :
    operand.withModifiers (modifier :: rest) =
      (Expression.modified modifier operand).withModifiers rest := rfl

/-- A score laid over an expression, if there is one. -/
def withScore (operand : Expression) : Option Score → Expression
  | some score => .scored score operand
  | none => operand

end Expression
end DiceNotation

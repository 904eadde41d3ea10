import DiceNotation.Evaluation.Growth
import DiceNotation.Evaluation.Scoring
import DiceNotation.Evaluation.Selection
import DiceNotation.Expression.Parse

/-!
# Evaluation

An expression is evaluated depth first and from left to right; draws are made in that
order.  A modifier or score asks for an operand of the right shape before anything in the
operand is rolled.

Main definitions:

- `UnaryOp.apply`, `BinaryOp.apply`: the operations on numbers.
- `Expression.evaluate`: what an expression yields on a table.
- `Expression.resolve`: the outcome of a text.

Main results:

- `UnaryOp.apply_floor_int`, `BinaryOp.apply_add_int`: integers stay integers.
- `Expression.resolve_nil`: no text is zero, without a draw.
-/

namespace DiceNotation

/-- Arithmetic that an expression asked for. -/
def ArithmeticFault.guarded {α : Type} : Except ArithmeticFault α → Except Fault α :=
  Except.mapError fun cause => .impossible (.arithmetic cause)

@[simp]
theorem ArithmeticFault.guarded_ok {α : Type} (a : α) :
    ArithmeticFault.guarded (.ok a) = .ok a := rfl

/-! ## Operations on numbers -/

namespace UnaryOp

/-- A function of a number. -/
def apply (op : UnaryOp) (value : Number) : Except Fault Number :=
  match op with
  | .floor => ArithmeticFault.guarded value.floor
  | .ceiling => ArithmeticFault.guarded value.ceil
  | .round => ArithmeticFault.guarded value.roundHalfUp
  | .magnitude => .ok value.abs
  | .undefined => .error .undefinedOperation

@[simp]
theorem apply_floor_int (n : Int) : floor.apply (.int n) = .ok (.int n) := rfl

@[simp]
theorem apply_ceiling_int (n : Int) : ceiling.apply (.int n) = .ok (.int n) := rfl

@[simp]
theorem apply_magnitude_int (n : Int) : magnitude.apply (.int n) = .ok (.int n.natAbs) := rfl

/-- The outcome of a function.  It keeps the kind of its operand. -/
def outcome (op : UnaryOp) (operand : Outcome) : Except Fault Outcome := do
  let value ← op.apply operand.value
  return { operand with value, text := op.name ++ ['('] ++ operand.text ++ [')'] }

end UnaryOp

namespace BinaryOp

/-- An operator between two numbers. -/
def apply (op : BinaryOp) (left right : Number) : Except Fault Number :=
  match op with
  | .add => ArithmeticFault.guarded (left.add right)
  | .subtract => ArithmeticFault.guarded (left.sub right)
  | .multiply => ArithmeticFault.guarded (left.mul right)
  | .divide => ArithmeticFault.guarded (left.div right)
  | .remainder => ArithmeticFault.guarded (left.remainder right)
  | .power => ArithmeticFault.guarded (left.power right)
  | .undefined => .error .undefinedOperation

@[simp]
theorem apply_add_int (m n : Int) : add.apply (.int m) (.int n) = .ok (.int (m + n)) := rfl

@[simp]
theorem apply_subtract_int (m n : Int) :
    subtract.apply (.int m) (.int n) = .ok (.int (m - n)) := rfl

@[simp]
theorem apply_multiply_int (m n : Int) :
    multiply.apply (.int m) (.int n) = .ok (.int (m * n)) := rfl

/-- The outcome of an operator. -/
def outcome (op : BinaryOp) (markup : Markup) (left right : Outcome) :
    Except Fault Outcome := do
  let value ← op.apply left.value right.value
  return { value
           text := left.text ++ [' '] ++ markup.operator op.symbol ++ [' '] ++ right.text
           kind := left.kind.shared right.kind }

end BinaryOp

/-- A value in brackets: only the text of a single outcome shows them. -/
def Value.bracketed : Value → Value
  | .single outcome =>
    if outcome.text.isEmpty then .single outcome
    else .single { outcome with text := ['('] ++ outcome.text ++ [')'] }
  | value => value

namespace Expression

/-! ## Evaluation -/

/-- The shapes an expression accepts its operand in. -/
def accepts : Expression → Shape → Bool
  | .modified (.explode ..) _, shape => shape == .pool
  | .modified (.reroll ..) _, shape => shape == .pool
  | .modified (.select ..) _, shape => shape != .number
  | .scored .., shape => shape != .number
  | _, _ => true

/-- The fault of an operand in a shape that its owner does not accept. -/
def demand (owner operand : Expression) : Except Fault Unit :=
  if owner.accepts operand.shape then .ok ()
  else .error (.impossible (.unsupportedOperand owner.title operand.title))

/-- What a modifier makes of a value. -/
def modify (table : Table) (markup : Markup) (modifier : Modifier) (value : Value) :
    Roll Value :=
  match modifier with
  | .explode explosion condition => do
    return .pool (← table.explode explosion condition value.dice)
  | .reroll conditions once => do
    return .pool (← table.reroll conditions once value.dice)
  | .select keep selector => return value.select keep selector markup

/-- What a score makes of a value. -/
def scoreOf (markup : Markup) (score : Score) (isDie : Bool) (value : Value) : Roll Value := do
  let entries ← Roll.lift (value.entries markup)
  let outcome ← Roll.lift (score.apply markup isDie entries)
  return .single outcome

/-- Dice of a count and faces, announced and rolled. -/
def rollAnnounced (table : Table) (count : Int) (faces : Faces) : Roll Value := do
  table.announce count
  return .pool (← table.rollDice faces count.toNat)

mutual

/-- What an expression yields on a table. -/
def evaluate (table : Table) (markup : Markup) : Expression → Roll Value
  | .dice count least greatest => rollAnnounced table count (.range least greatest)
  | .customDice count faces => rollAnnounced table count (.listed faces)
  | .number value text => do
    let text ← if text.isEmpty then Roll.lift value.text else pure text
    return .single { value, text }
  | .modified modifier operand => do
    Roll.lift (demand (.modified modifier operand) operand)
    let value ← evaluate table markup operand
    modify table markup modifier value
  | .scored score operand => do
    Roll.lift (demand (.scored score operand) operand)
    let value ← evaluate table markup operand
    scoreOf markup score (operand.shape == .pool) value
  | .bracket content => do
    let value ← evaluate table markup content
    return value.bracketed
  | .list entries => do return .list (← evaluateEntries table markup entries)
  | .unary op operand => do
    let value ← evaluate table markup operand
    let outcome ← Roll.lift (value.collapse markup)
    return .single (← Roll.lift (op.outcome outcome))
  | .binary op left right => do
    if (Expression.binary op left right).shape = .pool then
      let first ← evaluate table markup left
      let second ← evaluate table markup right
      return .pool (first.dice ++ second.dice)
    else
      let first ← evaluate table markup left
      let leftOutcome ← Roll.lift (first.collapse markup)
      let second ← evaluate table markup right
      let rightOutcome ← Roll.lift (second.collapse markup)
      return .single (← Roll.lift (op.outcome markup leftOutcome rightOutcome))

/-- One outcome for each entry of a list, in turn. -/
def evaluateEntries (table : Table) (markup : Markup) : List Expression → Roll (List Outcome)
  | [] => return []
  | entry :: rest => do
    let value ← evaluate table markup entry
    let outcome ← Roll.lift (value.collapse markup)
    let others ← evaluateEntries table markup rest
    return outcome :: others

end

/-! ## Texts -/

/-- The outcome of an expression. -/
def outcomeOf (table : Table) (markup : Markup) (e : Expression) : Roll Outcome := do
  let value ← evaluate table markup e
  Roll.lift (value.collapse markup)

/-- The outcome of a text.  A text without an expression is zero. -/
def resolve (table : Table) (markup : Markup) (text : Text) : Roll Outcome := do
  match ← Roll.lift (parse text) with
  | none => return { value := .int 0, text := [] }
  | some e => outcomeOf table markup e

/-- What a text yields, before it is collapsed.  A text without an expression yields
nothing that has a meaning. -/
def evaluateText (table : Table) (markup : Markup) (text : Text) : Roll Value := do
  match ← Roll.lift (parse text) with
  | none => throw .undefinedOperation
  | some e => evaluate table markup e

@[simp]
theorem resolve_nil (table : Table) (markup : Markup) :
    resolve table markup [] = pure { value := .int 0, text := [] } := rfl

/-- The limit on dice where none is given. -/
def defaultLimit : Int := 1000

end Expression
end DiceNotation

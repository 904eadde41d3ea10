import DiceNotation.Expression.Basic
import DiceNotation.Outline.Brackets
import DiceNotation.Text.Cursor

/-!
# Leaves

A leaf is a number, `12`, `-3` or `1.5`, or dice:

    [count] d (sides | f) modifier* [score]

Modifiers are explosions `!`, `!!` and `!p`, rerolls `r` and `ro`, and selections `k` and
`d`, followed by conditions, or by `h` or `l` and a count.  Scores are `m`, `mt` and a
condition for success, perhaps with one for failure after an `f`.  Modifiers act in the
order in which they are read.

Each reader takes what it reads from a cursor and leaves the cursor behind it, also when it
fails.

Main definitions:

- `Leaf.readInteger`, `Leaf.readCondition`: integers and conditions.
- `Leaf.readModifier?`, `Leaf.readScore?`: a modifier or score, if one follows.
- `Leaf.readDice`: dice after their count.
- `Expression.ofLeaf`: the expression of a leaf.
- `Expression.withSuffix`: an expression under the suffix of a list.
-/

namespace DiceNotation

/-- A reader takes what it reads from a cursor. -/
abbrev Reader := EStateM Fault Cursor

namespace Leaf

/-! ## Characters -/

/-- Whether a character may belong to an integer. -/
def isIntegerCharacter (c : Char) : Bool := c == '-' || c.isDigit

/-- Whether a character may belong to a condition. -/
def isConditionCharacter (c : Char) : Bool := isIntegerCharacter c || Outline.isComparison c

/-! ## Steps -/

/-- The next character, which stays ahead. -/
def peek : Reader (Option Char) := do return (← get).head?

/-- The character after the next. -/
def peekSecond : Reader (Option Char) := do return (← get).second?

/-- The next character, taken; the cursor moves on past the end too. -/
def take : Reader (Option Char) := do
  let cursor ← get
  set cursor.next
  return cursor.head?

/-- Move one place on. -/
def skip : Reader Unit := modify Cursor.next

/-- Fail at the place of the character read last. -/
def failHere {α : Type} (cause : Malformation) : Reader α := do
  throw (.malformed cause (some (← get).index))

/-- Fail at the place of the next character. -/
def failNext {α : Type} (cause : Malformation) : Reader α := do
  throw (.malformed cause (some ((← get).index + 1)))

/-- What is no reader itself fails without moving. -/
def lift {α : Type} (result : Except Fault α) : Reader α := MonadExcept.ofExcept result

/-- The text must end here. -/
def requireEnd : Reader Unit := do lift (← get).requireEnd

/-- The longest run of digits, taken. -/
def takeDigits : Reader Text := do
  let cursor ← get
  set (cursor.skipWhile Char.isDigit)
  return cursor.ahead.takeWhile Char.isDigit

@[simp]
theorem run_peek (cursor : Cursor) : peek.run cursor = .ok cursor.head? cursor := rfl

@[simp]
theorem run_peekSecond (cursor : Cursor) :
    peekSecond.run cursor = .ok cursor.second? cursor := rfl

@[simp]
theorem run_take (cursor : Cursor) : take.run cursor = .ok cursor.head? cursor.next := rfl

@[simp]
theorem run_skip (cursor : Cursor) : skip.run cursor = .ok () cursor.next := rfl

/-- A failure blames the place of the cursor. -/
@[simp]
theorem run_failHere {α : Type} (cause : Malformation) (cursor : Cursor) :
    (failHere cause : Reader α).run cursor =
      .error (.malformed cause (some cursor.index)) cursor := rfl

/-- A failure at the next character blames the place behind. -/
@[simp]
theorem run_failNext {α : Type} (cause : Malformation) (cursor : Cursor) :
    (failNext cause : Reader α).run cursor =
      .error (.malformed cause (some (cursor.index + 1))) cursor := rfl

@[simp]
theorem run_lift_ok {α : Type} (a : α) (cursor : Cursor) :
    (lift (.ok a)).run cursor = .ok a cursor := rfl

@[simp]
theorem run_lift_error {α : Type} (fault : Fault) (cursor : Cursor) :
    (lift (.error fault) : Reader α).run cursor = .error fault cursor := rfl

/-- All digits ahead are taken. -/
@[simp]
theorem run_takeDigits (cursor : Cursor) :
    takeDigits.run cursor =
      .ok (cursor.ahead.takeWhile Char.isDigit) (cursor.skipWhile Char.isDigit) := rfl

/-! ## Integers and conditions -/

/-- The numeral of an integer: digits, perhaps after a sign. -/
def readNumeral : Reader Text := do
  match ← peek with
  | none => failNext .unexpectedEnd
  | some c =>
    if !isIntegerCharacter c then failNext (.notAnInteger c)
    skip
    let digits ← takeDigits
    if (← peek) = some '-' then
      skip
      failHere .signInsideInteger
    if c = '-' ∧ digits = [] then failHere .signWithoutDigits
    return c :: digits

/-- An integer. -/
def readInteger : Reader Int := do lift (Numeral.read (← readNumeral))

/-- A condition; an integer alone is a condition of equality. -/
def readCondition : Reader Condition := do
  if (← peek).any isIntegerCharacter then
    return ⟨.equal, ← readInteger⟩
  match ← take with
  | none => failHere .unexpectedEnd
  | some c =>
    match Comparison.ofMark? c with
    | none => failHere (.unknownComparison c)
    | some comparison => return ⟨comparison, ← readInteger⟩

/-- A condition, if one follows. -/
def readCondition? : Reader (Option Condition) := do
  if (← peek).any isConditionCharacter then return some (← readCondition) else return none

/-! ## Modifiers -/

/-- An explosion. -/
def readExplosion : Reader Modifier := do
  if (← take) ≠ some '!' then failHere (.explosionMarkExpected (← get).index)
  let mark ← peek
  let explosion : Explosion :=
    if mark = some '!' then .compounding else if mark = some 'p' then .penetrating else .regular
  if explosion ≠ .regular then skip
  return .explode explosion (← readCondition?)

/-- Further conditions of a reroll.  Those of `r` and of `ro` do not mix.  The fuel is at
least the number of conditions that can follow. -/
def readRerollConditions (once : Bool) : Nat → Reader (List Condition)
  | 0 => return []
  | fuel + 1 => do
    if (← peek) ≠ some 'r' then return []
    if ((← peekSecond) == some 'o') != once then return []
    skip
    if once then skip
    let condition ← readCondition
    return condition :: (← readRerollConditions once fuel)

/-- The number of characters ahead, which bounds what can still be read. -/
def remaining : Reader Nat := do return (← get).ahead.length

@[simp]
theorem run_remaining (cursor : Cursor) :
    remaining.run cursor = .ok cursor.ahead.length cursor := rfl

/-- A reroll. -/
def readReroll : Reader Modifier := do
  if (← take) ≠ some 'r' then failHere (.rerollMarkExpected (← get).index)
  let once := (← peek) == some 'o'
  if once then skip
  let condition ← readCondition
  let more ← readRerollConditions once (← remaining)
  return .reroll (condition :: more) once

/-- Further conditions of a selection, each after its mark.  A mark before `h` or `l`
begins another selection. -/
def readSelectConditions (mark : Char) : Nat → Reader (List Condition)
  | 0 => return []
  | fuel + 1 => do
    if (← peek) ≠ some mark then return []
    let second ← peekSecond
    if second = some 'h' ∨ second = some 'l' then return []
    skip
    let condition ← readCondition
    return condition :: (← readSelectConditions mark fuel)

/-- A selection. -/
def readSelection : Reader Modifier := do
  let mark ← take
  if mark ≠ some 'k' ∧ mark ≠ some 'd' then failHere (.selectionMarkExpected (← get).index)
  let keep := mark == some 'k'
  let side ← peek
  if side = some 'h' ∨ side = some 'l' then
    skip
    let count ← if (← peek).any isIntegerCharacter then readInteger else pure 1
    if count < 0 then failHere .negativeSelection
    return .select keep (.extreme (side == some 'h') count)
  let condition ← readCondition
  let more ← readSelectConditions (if keep then 'k' else 'd') (← remaining)
  return .select keep (.meeting (condition :: more))

/-- A modifier, if one follows. -/
def readModifier? : Reader (Option Modifier) := do
  let mark ← peek
  if mark = some '!' then return some (← readExplosion)
  if mark = some 'r' then return some (← readReroll)
  if mark = some 'k' ∨ mark = some 'd' then return some (← readSelection)
  return none

/-- All modifiers that follow.  Each takes a character at least, so that as much fuel as
characters ahead is enough. -/
def readModifiers : Nat → Reader (List Modifier)
  | 0 => return []
  | fuel + 1 => do
    match ← readModifier? with
    | none => return []
    | some modifier => return modifier :: (← readModifiers fuel)

/-! ## Scores -/

/-- A score, if one follows. -/
def readScore? : Reader (Option Score) := do
  let mark ← peek
  if mark = some 'm' then
    skip
    let counted := (← peek) == some 't'
    if counted then skip
    return some (.groups counted)
  if mark.any isConditionCharacter then
    let success ← readCondition
    if (← peek) = some 'f' then
      skip
      return some (.successes success (some (← readCondition)))
    return some (.successes success none)
  return none

/-! ## Dice -/

/-- The faces of a die: `d` and the number of sides, or `df` for a die of `-1`, `0` and
`1`. -/
def readDie (count : Int) : Reader Expression := do
  match ← take with
  | none => failHere .unexpectedEnd
  | some c => if c ≠ 'd' then failHere (.dieMarkExpected (← get).index)
  match ← peek with
  | none => failNext .unexpectedEnd
  | some c =>
    if isIntegerCharacter c then
      let sides ← readInteger
      if sides < 1 then failHere .noFaces
      return .dice count 1 sides
    if c = 'f' then
      skip
      return .dice count (-1) 1
    failNext (.unexpectedCharacter c)

/-- Dice after their count, up to the end of the text. -/
def readDice (count : Int) : Reader Expression := do
  if count < 0 then failHere .negativeDiceCount
  let dice ← readDie count
  let modifiers ← readModifiers (← remaining)
  let score ← readScore?
  requireEnd
  return (dice.withModifiers modifiers).withScore score

/-! ## Numbers -/

/-- The number of a decimal: an integer part, which may have a sign, and places. -/
def decimal (whole places : Text) : Binary64 :=
  Binary64.ofDecimal (Numeral.isSigned whole)
    (Nat.ofDigitChars 10 (Numeral.digits whole ++ places) 0) places.length

/-- A number or dice, up to the end of the text. -/
def readLeaf : Reader Expression := do
  lift (← get).requireMore
  let whole ← if (← peek) = some 'd' then pure ['1'] else readNumeral
  match ← peek with
  | some '.' =>
    skip
    let places ← readNumeral
    if Numeral.isSigned places then failHere .malformedDecimal
    requireEnd
    return .number (.real (decimal whole places)) (whole ++ ['.'] ++ places)
  | some 'd' => readDice (← lift (Numeral.read whole))
  | _ =>
    requireEnd
    let value ← lift (Numeral.read whole)
    return .number (.int value) (← lift (Numeral.write value))

end Leaf

/-! ## Whole texts -/

/-- What a reader makes of a text. -/
def Reader.on {α : Type} (reader : Reader α) (text : Text) : Except Fault α :=
  match reader.run (Cursor.ofText text) with
  | .ok result _ => .ok result
  | .error fault _ => .error fault

namespace Expression

/-- The expression of a leaf. -/
def ofLeaf (text : Text) : Except Fault Expression := Leaf.readLeaf.on text

/-- What the suffix of a list lays over the list: a score, or else one selection. -/
def readSuffix (operand : Expression) (suffix : Text) : Reader Expression := do
  match ← Leaf.readScore? with
  | some score =>
    Leaf.requireEnd
    return .scored score operand
  | none =>
    let mark ← Leaf.peek
    if mark = some 'k' ∨ mark = some 'd' then
      let selection ← Leaf.readSelection
      Leaf.requireEnd
      return .modified selection operand
    throw (.malformed (.unknownListModifiers suffix) none)

/-- An expression under the suffix of a list; an empty suffix does nothing. -/
def withSuffix (operand : Expression) (suffix : Text) : Except Fault Expression :=
  if suffix.isEmpty then .ok operand else (readSuffix operand suffix).on suffix

@[simp]
theorem withSuffix_nil (operand : Expression) : operand.withSuffix [] = .ok operand := rfl

end Expression
end DiceNotation

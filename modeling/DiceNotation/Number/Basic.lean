import DiceNotation.Number.Numeral
import DiceNotation.Number.Shortest

/-!
# Numbers

The value of an expression is an integer of any size or a binary64 number.  Integers stay
exact as long as an operation allows it; where an operation mixes the two kinds, or leaves
the integers, the integer is first rounded to the nearest binary64 number.

Main definitions:

- `Number`: the two kinds of values.
- `Number.lt`, `Number.eqv`: exact comparison across both kinds.
- the operations of expressions, each with its failures.
- `Number.text`: a number as text.

Main results:

- `Number.lt_int`, `Number.eqv_int`, `Number.total_int`: on integers these are the order,
  the equality and the sum of integers.
- `Number.unitPower_eq_pow`: powers of `-1`, `0` and `1`.
-/

namespace DiceNotation

/-- A value: an integer, or a binary64 number. -/
inductive Number where
  | int (n : Int)
  | real (x : Binary64)
deriving Repr, DecidableEq

namespace Number

/-! ## Order -/

/-- A point of the line, infinities included. -/
inductive Point where
  | bottom
  | rational (q : Rat)
  | top
deriving Repr, DecidableEq

/-- Whether a point lies before another. -/
def Point.lt : Point → Point → Bool
  | .bottom, .bottom => false
  | .bottom, _ => true
  | .rational _, .bottom => false
  | .rational p, .rational q => p < q
  | .rational _, .top => true
  | .top, _ => false

/-- Where a number lies on the line; what is not a number lies nowhere. -/
def point? : Number → Option Point
  | .int n => some (.rational n)
  | .real (.infinite negative) => some (if negative then .bottom else .top)
  | .real x => x.toRat?.map .rational

/-- Whether a number is less than another. -/
def lt (a b : Number) : Bool :=
  match a, b with
  | .int m, .int n => decide (m < n)
  | a, b =>
    match a.point?, b.point? with
    | some p, some q => p.lt q
    | _, _ => false

/-- Whether two numbers are the same point; what is not a number is not even itself. -/
def eqv (a b : Number) : Bool :=
  match a, b with
  | .int m, .int n => decide (m = n)
  | a, b =>
    match a.point?, b.point? with
    | some p, some q => decide (p = q)
    | _, _ => false

@[simp]
theorem lt_int (m n : Int) : lt (.int m) (.int n) = decide (m < n) := rfl

@[simp]
theorem eqv_int (m n : Int) : eqv (.int m) (.int n) = decide (m = n) := rfl

/-- Whether a number is not a number. -/
def isNan : Number → Bool
  | .real .nan => true
  | _ => false

/-! ## Arithmetic -/

/-- The nearest binary64 number. -/
def toBinary64 : Number → Except ArithmeticFault Binary64
  | .int n => Binary64.ofInt n
  | .real x => .ok x

/-- An operation of binary64 numbers, on the nearest of these. -/
def rounded (op : Binary64 → Binary64 → Binary64) (a b : Number) :
    Except ArithmeticFault Number := do
  let x ← a.toBinary64
  let y ← b.toBinary64
  return .real (op x y)

/-- The sum. -/
def add : Number → Number → Except ArithmeticFault Number
  | .int m, .int n => .ok (.int (m + n))
  | a, b => rounded (· + ·) a b

/-- The difference. -/
def sub : Number → Number → Except ArithmeticFault Number
  | .int m, .int n => .ok (.int (m - n))
  | a, b => rounded (· - ·) a b

/-- The product. -/
def mul : Number → Number → Except ArithmeticFault Number
  | .int m, .int n => .ok (.int (m * n))
  | a, b => rounded (· * ·) a b

/-- The quotient of two integers, rounded once; its sign is negative if just one of theirs
is, also when it is zero. -/
def quotient (m n : Int) : Except ArithmeticFault Number :=
  if n = 0 then .error .divisionByZero
  else match Binary64.round (decide (m < 0) != decide (n < 0)) (mkRat m n.natAbs) with
    | .infinite _ => .error .tooLarge
    | x => .ok (.real x)

/-- The quotient, always a binary64 number. -/
def div : Number → Number → Except ArithmeticFault Number
  | .int m, .int n => quotient m n
  | a, b => do
    let x ← a.toBinary64
    let y ← b.toBinary64
    if y.isZero then throw .divisionByZero
    return .real (x / y)

/-- The remainder of a quotient cut to an integer; it has the sign of the dividend. -/
def remainder (a b : Number) : Except ArithmeticFault Number :=
  if b.eqv (.int 0) then .error .divisionByZero
  else match a, b with
    | .int m, .int n => .ok (.int (Int.tmod m n))
    | a, b => do
      let x ← a.toBinary64
      let y ← b.toBinary64
      let r ← x.remainder y
      return .real r

/-! ## Powers -/

/-- Integer powers that surely have more bits than this are too large. -/
def maxPowerBits : Nat := 4096

/-- A power of `-1`, `0` or `1`, found from the parity of the exponent. -/
def unitPower (base : Int) (exponent : Nat) : Int :=
  if exponent = 0 then 1 else if exponent % 2 = 0 then base * base else base

/-- Powers of `-1`, `0` and `1` depend only on the parity of the exponent. -/
theorem unitPower_eq_pow {base : Int} (h : base.natAbs ≤ 1) (exponent : Nat) :
    unitPower base exponent = base ^ exponent := by
  have hbase : base = -1 ∨ base = 0 ∨ base = 1 := by omega
  induction exponent with
  | zero => simp [unitPower]
  | succ k ih =>
      rw [Int.pow_succ, ← ih]
      rcases hbase with rfl | rfl | rfl <;> simp only [unitPower] <;> grind

/-- A power of integers with a natural exponent, unless it surely has too many bits. -/
def integerPower (base : Int) (exponent : Nat) : Except ArithmeticFault Number :=
  if base.natAbs ≤ 1 then .ok (.int (unitPower base exponent))
  else if exponent * base.natAbs.log2 + 1 > maxPowerBits then .error .tooLarge
  else .ok (.int (base ^ exponent))

/-- The power. -/
def power : Number → Number → Except ArithmeticFault Number
  | .int base, .int (.ofNat exponent) => integerPower base exponent
  | a, b => do
    let x ← a.toBinary64
    let y ← b.toBinary64
    let z ← x.pow y
    return .real z

/-! ## Functions -/

/-- The greatest integer that is not above a number. -/
def floor : Number → Except ArithmeticFault Number
  | .int n => .ok (.int n)
  | .real x => do return .int (← x.floor)

/-- The least integer that is not below a number. -/
def ceil : Number → Except ArithmeticFault Number
  | .int n => .ok (.int n)
  | .real x => do return .int (← x.ceil)

/-- One half. -/
def half : Binary64 := Binary64.ofRat (mkRat 1 2)

/-- The integer nearest to a number, the greater of two: what is left of the number plus
one half, a binary64 sum. -/
def roundHalfUp (a : Number) : Except ArithmeticFault Number := do
  let raised ← a.add (.real half)
  raised.floor

/-- The magnitude. -/
def abs : Number → Number
  | .int n => .int n.natAbs
  | .real x => .real x.abs

/-! ## Totals -/

/-- The sum of a list, from left to right. -/
def total (numbers : List Number) : Except ArithmeticFault Number :=
  numbers.foldlM add (.int 0)

theorem foldlM_add_int (numbers : List Int) (start : Int) :
    (numbers.map Number.int).foldlM add (.int start) = .ok (.int (start + numbers.sum)) := by
  induction numbers generalizing start with
  | nil => simp [pure, Except.pure]
  | cons n rest ih =>
      simp only [List.map_cons, List.foldlM_cons, add, List.sum_cons]
      exact (ih (start + n)).trans (by rw [Int.add_assoc])

/-- The total of integers is their sum. -/
@[simp]
theorem total_int (numbers : List Int) :
    total (numbers.map Number.int) = .ok (.int numbers.sum) := by
  simpa [total] using foldlM_add_int numbers 0

/-! ## Text -/

/-- A number as text. -/
def text : Number → Except Fault Text
  | .int n => Numeral.write n
  | .real x => .ok x.text

/-- A number as text for a reply: an integer without a point, whatever its kind. -/
def plainText : Number → Except Fault Text
  | .real x =>
    match x.toRat? with
    | some q => if q.den = 1 then Numeral.write q.num else .ok x.text
    | none => .ok x.text
  | a => a.text

end Number
end DiceNotation

import DiceNotation.Fault

/-!
# Binary floating point

A binary64 number is not a number, one of the two infinities, or a sign with a magnitude.
The finite magnitudes are counted upward from zero: the one of rank `1` is the least above
zero, and so on.  The ranks below `2 ^ 53` lie on one grid of spacing `2 ^ (-1074)`; from
there on every `2 ^ 52` ranks the spacing doubles.

Every operation takes the exact rational result and rounds it once, to the nearest number
and from the middle between two to the even one, so that no operation depends on how
another one rounds.

Main definitions:

- `Binary64`: the numbers.
- `Binary64.magnitude`: the rational number of a rank.
- `Binary64.nearestRank`: rounding.
- `Binary64.toRat?`, `Binary64.round`: to and from the rationals.
- sums, products, quotients, remainders, powers and the integers next to a number.

Main results:

- `Binary64.roundHalfEven_le`, `Binary64.le_roundHalfEven`: rounding stays within one half.
-/

-- Powers and sums of integers are those of the core library, whatever else is imported.
attribute [instance (high)] instPowNat Zero.ofOfNat0
attribute [default_instance (high + 1)] instPowNat

namespace DiceNotation

/-- The number of finite magnitudes. -/
def Binary64.ranks : Nat := 2047 * 2 ^ 52

/-- The binary64 numbers. -/
inductive Binary64 where
  | nan
  | infinite (negative : Bool)
  | finite (negative : Bool) (rank : Fin Binary64.ranks)
deriving Repr, DecidableEq

namespace Binary64

/-! ## Magnitudes -/

/-- The integer by which a magnitude is a multiple of its spacing. -/
def significand (rank : Nat) : Nat :=
  if rank < 2 ^ 53 then rank else 2 ^ 52 + rank % 2 ^ 52

/-- The spacing around a magnitude is this power of two. -/
def exponent (rank : Nat) : Int :=
  if rank < 2 ^ 53 then -1074 else (rank / 2 ^ 52 : Nat) - 1075

/-- `m` times the power of two with exponent `e`. -/
def scaled (m : Nat) (e : Int) : Rat := mkRat (m * 2 ^ e.toNat : Nat) (2 ^ (-e).toNat)

/-- The magnitude of a rank. -/
def magnitude (rank : Nat) : Rat := scaled (significand rank) (exponent rank)

/-- Zero, with a sign. -/
def zero (negative : Bool) : Binary64 := .finite negative ⟨0, by decide⟩

/-- The exact value of a finite number. -/
def toRat? : Binary64 → Option Rat
  | .finite negative rank => some (if negative then -magnitude rank else magnitude rank)
  | _ => none

/-! ## Rounding -/

/-- The integer nearest to `num / den`, the even one of two. -/
def roundHalfEven (num den : Nat) : Nat :=
  let quotient := num / den
  let twice := 2 * (num % den)
  if twice < den then quotient
  else if den < twice then quotient + 1
  else quotient + quotient % 2

/-- Rounding goes up by at most one half. -/
theorem roundHalfEven_le (num den : Nat) :
    2 * den * roundHalfEven num den ≤ 2 * num + den := by
  have hdiv := Nat.div_add_mod num den
  simp only [roundHalfEven]
  split
  · grind
  · split
    · grind
    · have hparity := Nat.mod_two_eq_zero_or_one (num / den)
      rcases hparity with h | h <;> rw [h] <;> grind

/-- Rounding goes down by at most one half. -/
theorem le_roundHalfEven (num den : Nat) (hden : 0 < den) :
    2 * num ≤ 2 * den * roundHalfEven num den + den := by
  have hdiv := Nat.div_add_mod num den
  have hmod := Nat.mod_lt num hden
  simp only [roundHalfEven]
  split
  · grind
  · split
    · grind
    · have hparity := Nat.mod_two_eq_zero_or_one (num / den)
      rcases hparity with h | h <;> rw [h] <;> grind

/-- The exponent of the greatest power of two that is at most `num / den`. -/
def floorLog2 (num den : Nat) : Int :=
  let guess : Int := (num.log2 : Int) - den.log2
  if den * 2 ^ guess.toNat ≤ num * 2 ^ (-guess).toNat then guess else guess - 1

/-- The exponent of the spacing around `num / den`. -/
def gridExponent (num den : Nat) : Int := max (-1074) (floorLog2 num den - 52)

/-- The rank of the magnitude nearest to `num / den`.  Past the last finite magnitude the
count goes on, as if the spacing went on doubling. -/
def nearestRank (num den : Nat) : Nat :=
  if num = 0 then 0
  else
    let e := gridExponent num den
    (e + 1074).toNat * 2 ^ 52 + roundHalfEven (num * 2 ^ (-e).toNat) (den * 2 ^ e.toNat)

/-- The number with a sign and the magnitude nearest to that of `q`; infinite when the
nearest magnitude is past the last finite one. -/
def round (negative : Bool) (q : Rat) : Binary64 :=
  let rank := nearestRank q.num.natAbs q.den
  if h : rank < ranks then .finite negative ⟨rank, h⟩ else .infinite negative

/-- The number nearest to a rational; a zero is positive. -/
def ofRat (q : Rat) : Binary64 := round (decide (q < 0)) q

/-- The number nearest to an integer, unless that is infinite. -/
def ofInt (n : Int) : Except ArithmeticFault Binary64 :=
  match ofRat n with
  | .infinite _ => .error .tooLarge
  | x => .ok x

/-- The number nearest to a decimal, which keeps its sign when it is zero. -/
def ofDecimal (negative : Bool) (digits : Nat) (places : Int) : Binary64 :=
  round negative (mkRat (digits * 10 ^ (-places).toNat : Nat) (10 ^ places.toNat))

/-! ## Signs -/

/-- The opposite number. -/
def neg : Binary64 → Binary64
  | .nan => .nan
  | .infinite negative => .infinite !negative
  | .finite negative rank => .finite (!negative) rank

/-- The number without its sign. -/
def abs : Binary64 → Binary64
  | .nan => .nan
  | .infinite _ => .infinite false
  | .finite _ rank => .finite false rank

/-- Whether a number is zero, of either sign. -/
def isZero : Binary64 → Bool
  | .finite _ rank => rank.val == 0
  | _ => false

/-- Whether a number is an integer. -/
def isInteger (x : Binary64) : Bool := x.toRat?.any fun q => q.den == 1

/-! ## Arithmetic -/

/-- The sum.  An exact sum of zero is negative only if both terms are. -/
def add : Binary64 → Binary64 → Binary64
  | .nan, _ => .nan
  | _, .nan => .nan
  | .infinite a, .infinite b => if a = b then .infinite a else .nan
  | .infinite a, .finite .. => .infinite a
  | .finite .., .infinite b => .infinite b
  | .finite a i, .finite b j =>
    let sum := (if a then -magnitude i else magnitude i) + (if b then -magnitude j else magnitude j)
    if sum = 0 then zero (a && b) else ofRat sum

/-- The difference. -/
def sub (x y : Binary64) : Binary64 := add x (neg y)

/-- The product. -/
def mul : Binary64 → Binary64 → Binary64
  | .nan, _ => .nan
  | _, .nan => .nan
  | .infinite a, .infinite b => .infinite (a != b)
  | .infinite a, .finite b j => if j.val = 0 then .nan else .infinite (a != b)
  | .finite a i, .infinite b => if i.val = 0 then .nan else .infinite (a != b)
  | .finite a i, .finite b j => round (a != b) (magnitude i * magnitude j)

/-- The quotient; by zero it is infinite, or not a number. -/
def div : Binary64 → Binary64 → Binary64
  | .nan, _ => .nan
  | _, .nan => .nan
  | .infinite _, .infinite _ => .nan
  | .infinite a, .finite b _ => .infinite (a != b)
  | .finite a _, .infinite b => zero (a != b)
  | .finite a i, .finite b j =>
    if j.val = 0 then (if i.val = 0 then .nan else .infinite (a != b))
    else round (a != b) (magnitude i / magnitude j)

instance : Neg Binary64 := ⟨neg⟩
instance : Add Binary64 := ⟨add⟩
instance : Sub Binary64 := ⟨sub⟩
instance : Mul Binary64 := ⟨mul⟩
instance : Div Binary64 := ⟨div⟩

/-- The remainder of a quotient cut to an integer; it has the sign of the dividend.  There
is none of an infinite dividend or by a zero divisor. -/
def remainder : Binary64 → Binary64 → Except ArithmeticFault Binary64
  | .nan, _ => .ok .nan
  | _, .nan => .ok .nan
  | .infinite _, _ => .error .outsideDomain
  | x@(.finite ..), .infinite _ => .ok x
  | .finite a i, .finite _ j =>
    if j.val = 0 then .error .outsideDomain
    else
      let quotient : Int := (magnitude i / magnitude j).floor
      .ok (round a (magnitude i - magnitude j * quotient))

/-- The greatest integer that is not above a number. -/
def floor : Binary64 → Except ArithmeticFault Int
  | .nan => .error .outsideDomain
  | .infinite _ => .error .tooLarge
  | .finite a i => .ok (if a then -magnitude i else magnitude i).floor

/-- The least integer that is not below a number. -/
def ceil (x : Binary64) : Except ArithmeticFault Int := do
  let below ← (neg x).floor
  return -below

/-! ## Powers -/

/-- The pattern of 64 bits: the sign, then the rank. -/
def toBits : Binary64 → UInt64
  | .nan => 0x7FF8000000000000
  | .infinite negative => (if negative then 0x8000000000000000 else 0) + 0x7FF0000000000000
  | .finite negative rank =>
    (if negative then 0x8000000000000000 else 0) + UInt64.ofNat rank.val

/-- The number with a pattern of 64 bits. -/
def ofBits (bits : UInt64) : Binary64 :=
  let negative := decide (0x8000000000000000 ≤ bits)
  let rank := bits.toNat % 2 ^ 63
  if h : rank < ranks then .finite negative ⟨rank, h⟩
  else if rank = ranks then .infinite negative
  else .nan

/-- A finite power of finite numbers, as near as the machine's power function comes. -/
def machinePower (x y : Binary64) : Binary64 :=
  ofBits (Float.pow (Float.ofBits x.toBits) (Float.ofBits y.toBits)).toBits

/-- Whether a number is one. -/
def isOne (x : Binary64) : Bool := x.toRat? == some 1

/-- Whether a number is an odd integer. -/
def isOdd (x : Binary64) : Bool := x.toRat?.any fun q => q.den == 1 && q.num % 2 != 0

/-- Whether the sign of a number is negative. -/
def isNegative : Binary64 → Bool
  | .nan => false
  | .infinite negative => negative
  | .finite negative _ => negative

/-- Whether the magnitude of a number is less than one. -/
def isFraction (x : Binary64) : Bool := x.abs.toRat?.any fun q => q < 1

/-- The power.  Anything to the power zero is one, and so is every power of one; a finite
power that is no real number has no value, nor has a negative power of zero, and one past
the last finite number is too large. -/
def pow (x y : Binary64) : Except ArithmeticFault Binary64 :=
  match x, y with
  | .nan, _ => .ok (if y.isZero then ofRat 1 else .nan)
  | _, .nan => .ok (if x.isOne then ofRat 1 else .nan)
  | .infinite a, _ =>
    if y.isZero then .ok (ofRat 1)
    else if y.isNegative then .ok (zero (a && y.isOdd))
    else .ok (.infinite (a && y.isOdd))
  | _, .infinite b =>
    if x.abs.isOne then .ok (ofRat 1)
    else if b = x.isFraction then .ok (.infinite false)
    else .ok (zero false)
  | .finite .., .finite .. =>
    match machinePower x y with
    | .nan => .error .outsideDomain
    | .infinite _ => if x.isZero then .error .outsideDomain else .error .tooLarge
    | power => .ok power

end Binary64
end DiceNotation

import DiceNotation.Number.Binary64
import DiceNotation.Text.Basic

/-!
# Shortest decimals

A finite binary64 number is written with the fewest digits that read back as the same
number; of two such decimals the nearer one is taken, and from the middle between them the
one with the even last digit.  From `0.0001` up to, but not including, `10 ^ 16` a decimal
is written out, with a point and at least one place; any other has a power of ten.

Main definitions:

- `Decimal`: digits and the place of the point.
- `Decimal.shortest`: the shortest decimal of a magnitude.
- `Binary64.text`: a number as text.
-/

namespace DiceNotation

/-- The number `digits * 10 ^ power`. -/
structure Decimal where
  digits : Nat
  power : Int
deriving Repr, DecidableEq

namespace Decimal

/-- The rank of the magnitude nearest to a decimal. -/
def rank (d : Decimal) : Nat :=
  Binary64.nearestRank (d.digits * 10 ^ d.power.toNat) (10 ^ (-d.power).toNat)

/-- The number of digits of a natural number, one for zero. -/
def width (n : Nat) : Nat := (Nat.toDigits 10 n).length

/-- The exponent of the greatest power of ten that is at most a positive `num / den`. -/
def floorLog10 (num den : Nat) : Int :=
  if den ≤ num then width (num / den) - 1 else -(width ((den + num - 1) / num - 1))

/-- The decimal whose last digit counts `10 ^ power` that is nearest to `num / den` of
those on either side that read back as `rank`, if one does. -/
def nearest? (num den rank : Nat) (power : Int) : Option Decimal :=
  let num' := num * 10 ^ (-power).toNat
  let den' := den * 10 ^ power.toNat
  let below : Decimal := ⟨num' / den', power⟩
  let above : Decimal := ⟨num' / den' + 1, power⟩
  if below.rank = rank then
    if above.rank = rank then some ⟨Binary64.roundHalfEven num' den', power⟩ else some below
  else if above.rank = rank then some above
  else none

/-- The same number without zeros at the end of its digits, for digits below
`10 ^ fuel`. -/
def trimmed : Nat → Decimal → Decimal
  | 0, d => d
  | fuel + 1, d =>
    if d.digits ≠ 0 ∧ d.digits % 10 = 0 then trimmed fuel ⟨d.digits / 10, d.power + 1⟩ else d

/-- The shortest decimal that reads back as a rank, with at most seventeen digits: so many
always suffice. -/
def shortest (rank : Nat) : Decimal :=
  let q := Binary64.magnitude rank
  let num := q.num.natAbs
  let lead := floorLog10 num q.den
  let found := (List.range 17).findSome? fun (n : Nat) => nearest? num q.den rank (lead - n)
  trimmed 17 (found.getD ⟨0, 0⟩)

/-! ## Layout -/

/-- How decimals are laid out: the exponents from `writtenOutFrom` up to, but not
including, `writtenOutBelow` are written out, and the others have a power of ten of at
least `exponentWidth` digits. -/
structure Layout where
  writtenOutFrom : Int
  writtenOutBelow : Int
  exponentWidth : Nat
deriving Repr, DecidableEq

/-- From `0.0001` up to `10 ^ 16` a number is written out; a power of ten has two digits or
more. -/
def layout : Layout where
  writtenOutFrom := -4
  writtenOutBelow := 16
  exponentWidth := 2

/-- The exponent of a decimal: of its first digit. -/
def leadExponent (d : Decimal) : Int := d.power + width d.digits - 1

/-- A power of ten, with its sign. -/
def exponentText (layout : Layout) (e : Int) : Text :=
  let digits := Nat.toDigits 10 e.natAbs
  [if e < 0 then '-' else '+'] ++ List.replicate (layout.exponentWidth - digits.length) '0' ++ digits

/-- A decimal written out, with a point and at least one place. -/
def writtenOut (d : Decimal) : Text :=
  let digits := Nat.toDigits 10 d.digits
  if 0 ≤ d.power then digits ++ List.replicate d.power.toNat '0' ++ ['.', '0']
  else
    let places := (-d.power).toNat
    let padded := List.replicate (places + 1 - digits.length) '0' ++ digits
    padded.take (padded.length - places) ++ ['.'] ++ padded.drop (padded.length - places)

/-- A decimal with one digit before the point and a power of ten. -/
def withPower (layout : Layout) (d : Decimal) : Text :=
  match Nat.toDigits 10 d.digits with
  | [] => []
  | first :: rest =>
    [first] ++ (if rest.isEmpty then [] else '.' :: rest) ++ ['e'] ++
      exponentText layout d.leadExponent

/-- A decimal as text. -/
def text (layout : Layout) (d : Decimal) : Text :=
  let e := d.leadExponent
  if layout.writtenOutFrom ≤ e ∧ e < layout.writtenOutBelow then d.writtenOut
  else d.withPower layout

end Decimal

namespace Binary64

/-- A number as text. -/
def text : Binary64 → Text
  | .nan => ['n', 'a', 'n']
  | .infinite negative => (if negative then ['-'] else []) ++ ['i', 'n', 'f']
  | .finite negative rank =>
    (if negative then ['-'] else []) ++ (Decimal.shortest rank).text Decimal.layout

end Binary64
end DiceNotation

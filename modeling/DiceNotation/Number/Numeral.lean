import DiceNotation.Fault

/-!
# Integer numerals

An integer is written with a `-` if it is negative and then its decimal digits.  Numerals
of more than `Numeral.digitLimit` digits are neither read nor written.

Main results:

- `Numeral.value_ofInt`: what is written reads back as the same integer.
-/

namespace DiceNotation
namespace Numeral

/-- The greatest number of digits that are read or written. -/
def digitLimit : Nat := 4300

/-- The numeral of an integer, of any length. -/
def ofInt (n : Int) : Text :=
  if n < 0 then '-' :: Nat.toDigits 10 n.natAbs else Nat.toDigits 10 n.natAbs

/-- The digits of a numeral without its sign. -/
def digits : Text → Text
  | '-' :: rest => rest
  | text => text

/-- Whether a numeral has a sign. -/
def isSigned : Text → Bool
  | '-' :: _ => true
  | _ => false

/-- The integer of a numeral. -/
def value (numeral : Text) : Int :=
  let magnitude := Nat.ofDigitChars 10 (digits numeral) 0
  if isSigned numeral then -magnitude else magnitude

/-- The integer of a numeral that is not too long. -/
def read (numeral : Text) : Except Fault Int :=
  if (digits numeral).length > digitLimit then .error .numeralTooLong else .ok (value numeral)

/-- The numeral of an integer, unless it is too long. -/
def write (n : Int) : Except Fault Text :=
  if (Nat.toDigits 10 n.natAbs).length > digitLimit then .error .numeralTooLong
  else .ok (ofInt n)

/-! ## Reading back -/

/-- Digits do not begin with a sign. -/
theorem toDigits_ne_sign (n : Nat) (rest : Text) : Nat.toDigits 10 n ≠ '-' :: rest := by
  intro h
  have hmem : '-' ∈ Nat.toDigits 10 n := by rw [h]; exact List.mem_cons_self
  exact absurd (Nat.isDigit_of_mem_toDigits (by decide) (by decide) hmem) (by decide)

theorem digits_toDigits (n : Nat) : digits (Nat.toDigits 10 n) = Nat.toDigits 10 n := by
  unfold digits
  split
  · next rest h => exact absurd h (toDigits_ne_sign n rest)
  · rfl

theorem isSigned_toDigits (n : Nat) : isSigned (Nat.toDigits 10 n) = false := by
  unfold isSigned
  split
  · next rest h => exact absurd h (toDigits_ne_sign n rest)
  · rfl

@[simp]
theorem digits_ofInt (n : Int) : digits (ofInt n) = Nat.toDigits 10 n.natAbs := by
  unfold ofInt
  split
  · rfl
  · exact digits_toDigits _

/-- What is written reads back as the same integer. -/
@[simp]
theorem value_ofInt (n : Int) : value (ofInt n) = n := by
  have hread := @Nat.ofDigitChars_toDigits 10 n.natAbs (by decide) (by decide)
  simp only [value, digits_ofInt, hread]
  unfold ofInt
  split
  · simp only [isSigned, if_true]
    omega
  · simp only [isSigned_toDigits, Bool.false_eq_true, if_false]
    omega

end Numeral
end DiceNotation

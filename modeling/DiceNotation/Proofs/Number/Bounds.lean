import DiceNotation.Dice.Table
import DiceNotation.Proofs.Steps
import Mathlib.Algebra.Order.Field.Rat
import Mathlib.Data.Rat.Cast.Defs
import Mathlib.Tactic.Linarith
import Mathlib.Tactic.Positivity

/-!
# Bounds of binary floating point

Finite numbers are less than `2 ^ 1024`, and so are integers next to them.  So what a draw shows is
at most that far from the least face, however wide the range; its numeral is not too long.

Main results:

- `Binary64.magnitude_lt`: a bound for all magnitudes.
- `Binary64.natAbs_floor_le`: a bound for integers below finite numbers.
- `Table.natAbs_place_le`: a bound for what a draw shows.
- `Numeral.write_eq_ok_iff`, `Numeral.past_mul_lt`: integers that are written.
-/

namespace DiceNotation
namespace Binary64

/-- The exponent of the least power of two past all finite magnitudes. -/
def pastExponent : Nat := 1024

/-- The least power of two past all finite magnitudes. -/
def past : Nat := 2 ^ pastExponent

theorem two_le_past : 2 ≤ past := by
  unfold past
  exact Nat.le_self_pow (by decide) 2

/-- Significands have 53 bits at most. -/
theorem significand_lt (rank : Nat) : significand rank < 2 ^ 53 := by
  unfold significand
  split
  · assumption
  · have hmod := Nat.mod_lt rank (show 0 < 2 ^ 52 by decide)
    omega

/-- No exponent is greater than that of the greatest number. -/
theorem exponent_le (rank : Fin ranks) : (exponent rank).toNat ≤ 971 := by
  have hlt : rank.val < 2047 * 2 ^ 52 := rank.isLt
  unfold exponent
  split
  · decide
  · have hdiv : rank.val / 2 ^ 52 < 2047 := by omega
    omega

/-- Scaling down makes nothing greater. -/
theorem scaled_le (m : Nat) (e : Int) : scaled m e ≤ (m * 2 ^ e.toNat : Nat) := by
  have hden : (1 : Rat) ≤ (2 ^ (-e).toNat : Nat) := by exact_mod_cast Nat.one_le_two_pow
  rw [scaled, Rat.mkRat_eq_div, Int.cast_natCast]
  exact div_le_self (Nat.cast_nonneg _) hden

theorem magnitude_nonneg (rank : Nat) : 0 ≤ magnitude rank := by
  rw [magnitude, scaled, Rat.mkRat_eq_div, Int.cast_natCast]
  positivity

/-- Finite magnitudes are less than `2 ^ 1024`. -/
theorem magnitude_lt (rank : Fin ranks) : magnitude rank < past := by
  have hexponent := exponent_le rank
  have hlt : significand rank * 2 ^ (exponent rank).toNat < past :=
    calc significand rank * 2 ^ (exponent rank).toNat
        < 2 ^ 53 * 2 ^ (exponent rank).toNat :=
          Nat.mul_lt_mul_of_pos_right (significand_lt rank) (Nat.two_pow_pos _)
      _ = 2 ^ (53 + (exponent rank).toNat) := (Nat.pow_add ..).symm
      _ ≤ past := Nat.pow_le_pow_right Nat.two_pos (by unfold pastExponent; omega)
  exact lt_of_le_of_lt (scaled_le _ _) (by exact_mod_cast hlt)

/-- The integer below a finite number. -/
theorem natAbs_floor_le {x : Binary64} {n : Int} (h : x.floor = .ok n) : n.natAbs ≤ past := by
  cases x with
  | nan | infinite => simp [floor] at h
  | finite negative rank =>
      obtain rfl := Except.ok.inj h
      have hnonneg := magnitude_nonneg rank
      have hlt := magnitude_lt rank
      generalize magnitude rank = q at *
      have hupper : (if negative then -q else q).floor ≤ past := by
        refine Int.le_of_lt (Rat.floor_lt_iff.mpr ?_)
        rw [Int.cast_natCast]
        split <;> linarith
      have hlower : -(past : Int) ≤ (if negative then -q else q).floor := by
        rw [Rat.le_floor_iff, Int.cast_neg, Int.cast_natCast]
        split <;> linarith
      omega

end Binary64

/-- What a draw shows is not far from the least face. -/
theorem Table.natAbs_place_le {x : Binary64} {least greatest face : Int}
    (h : place x least greatest = .ok face) : (face - least).natAbs ≤ Binary64.past := by
  unfold place at h
  simp only [bind_eq_ok_iff, pure_eq_ok, Except.ok.injEq] at h
  obtain ⟨width, -, offset, hoffset, rfl⟩ := h
  rw [Int.add_sub_cancel]
  exact Binary64.natAbs_floor_le hoffset

namespace Numeral

/-- An integer is written exactly if it has few digits. -/
theorem write_eq_ok_iff {n : Int} :
    (∃ text, write n = .ok text) ↔ n.natAbs < 10 ^ digitLimit := by
  have hlength := Nat.length_toDigits_le_iff (b := 10) (n := n.natAbs) (k := digitLimit)
    (by decide) (by decide)
  unfold write
  rw [← hlength]
  split
  · next hlong => simp [Nat.not_le.mpr hlong]
  · next hshort => simp [Nat.not_lt.mp hshort]

/-- The number of digits by which an integer next to a binary64 number falls short of the greatest
number of digits that are written. -/
def spareDigits : Nat := digitLimit - Binary64.pastExponent - 1

/-- The sum of many integers next to binary64 numbers has few digits. -/
theorem past_mul_lt {count : Nat} (h : count ≤ 10 ^ spareDigits) :
    count * (2 * Binary64.past) < 10 ^ digitLimit := by
  have hdigits : spareDigits + Binary64.pastExponent < digitLimit := by decide
  unfold Binary64.past
  generalize Binary64.pastExponent = k at hdigits
  generalize spareDigits = spare at *
  have hpower : 2 * 2 ^ k < 10 ^ (k + 1) := by
    rw [← Nat.pow_succ']
    exact Nat.pow_lt_pow_left (by decide) (Nat.succ_ne_zero k)
  calc count * (2 * 2 ^ k)
      ≤ 10 ^ spare * (2 * 2 ^ k) := Nat.mul_le_mul_right _ h
    _ < 10 ^ spare * 10 ^ (k + 1) := Nat.mul_lt_mul_of_pos_left hpower (Nat.pow_pos (by decide))
    _ = 10 ^ (spare + (k + 1)) := (Nat.pow_add ..).symm
    _ ≤ 10 ^ digitLimit := Nat.pow_le_pow_right (by decide) hdigits

end Numeral
end DiceNotation

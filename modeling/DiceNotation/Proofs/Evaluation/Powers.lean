import DiceNotation.Evaluation.Basic
import Mathlib.Data.Nat.Size

/-!
# Powers within a budget of bits

The size of a power of integers is estimated before it is computed, from below: a base of `k + 1`
bits has powers of at least `exponent * k + 1` bits.  So no power within the budget is refused.  A
power past the budget may be let through, since the estimate falls short of the size by up to one
bit for each factor; a base keeps to the budget exactly if the greatest of its powers that is let
through does.

Main definitions:

- `Number.bitLength`: the number of bits of an integer.
- `Number.greatestExponent`: the greatest exponent that is let through for a base.
- `BinaryOp.Refused`: powers that are refused as too large.

Main results:

- `Number.mul_log2_lt_bitLength`, `Number.bitLength_pow_le`: the size of a power, from below and
  from above.
- `BinaryOp.powers_within_budget`: which powers are computed, and which bases keep to the budget.
-/

namespace DiceNotation

namespace Number

/-! ## Bits -/

/-- The number of bits of an integer, its sign not counted. -/
def bitLength (n : Int) : Nat := n.natAbs.size

/-- An integer fits into so many bits just when it is less than the power of two. -/
theorem bitLength_le_iff {n : Int} {bits : Nat} : bitLength n ≤ bits ↔ n.natAbs < 2 ^ bits :=
  Nat.size_le

/-- It takes more bits just when it is not less. -/
theorem lt_bitLength_iff {n : Int} {bits : Nat} : bits < bitLength n ↔ 2 ^ bits ≤ n.natAbs :=
  Nat.lt_size

section Powers

variable {base : Int}

/-- The powers of `-1`, `0` and `1` have one bit at most. -/
theorem bitLength_pow_of_le_one (hbase : base.natAbs ≤ 1) (exponent : Nat) :
    bitLength (base ^ exponent) ≤ 1 := by
  rw [bitLength_le_iff, Int.natAbs_pow]
  have hpow : base.natAbs ^ exponent ≤ 1 ^ exponent := Nat.pow_le_pow_left hbase exponent
  rw [Nat.one_pow] at hpow
  omega

/-- The size of a power from below: each factor adds the bits of the base behind its first one. -/
theorem mul_log2_lt_bitLength (hbase : base ≠ 0) (exponent : Nat) :
    exponent * base.natAbs.log2 < bitLength (base ^ exponent) := by
  rw [lt_bitLength_iff, Int.natAbs_pow, Nat.mul_comm, Nat.pow_mul]
  exact Nat.pow_le_pow_left (Nat.log2_self_le (Int.natAbs_ne_zero.mpr hbase)) exponent

/-- The size of a power from above: each factor adds all bits of the base at most. -/
theorem bitLength_pow_le (base : Int) {exponent : Nat} (hexponent : exponent ≠ 0) :
    bitLength (base ^ exponent) ≤ exponent * (base.natAbs.log2 + 1) := by
  rw [bitLength_le_iff, Int.natAbs_pow, Nat.mul_comm, Nat.pow_mul]
  exact Nat.pow_lt_pow_left Nat.lt_log2_self hexponent

/-- Greater exponents make no smaller powers. -/
theorem bitLength_pow_mono (hbase : base ≠ 0) {m n : Nat} (h : m ≤ n) :
    bitLength (base ^ m) ≤ bitLength (base ^ n) := by
  unfold bitLength
  rw [Int.natAbs_pow, Int.natAbs_pow]
  exact Nat.size_le_size (Nat.pow_le_pow_right (Int.natAbs_pos.mpr hbase) h)

end Powers

/-! ## Powers that are let through -/

/-- The greatest exponent that is let through for a base whose powers grow. -/
def greatestExponent (base : Int) : Nat := (maxPowerBits - 1) / base.natAbs.log2

section Budget

variable {base : Int}

/-- A base past one has a logarithm. -/
theorem log2_pos (hbase : 1 < base.natAbs) : 0 < base.natAbs.log2 :=
  (Nat.le_log2 (Nat.ne_zero_of_lt hbase)).mpr hbase

/-- An exponent is within the budget if the least length of its power is. -/
theorem le_greatestExponent_iff (hbase : 1 < base.natAbs) {exponent : Nat} :
    exponent ≤ greatestExponent base ↔ exponent * base.natAbs.log2 + 1 ≤ maxPowerBits := by
  have hbudget : 0 < maxPowerBits := by decide
  rw [greatestExponent, Nat.le_div_iff_mul_le (log2_pos hbase)]
  omega

/-- What is let through has fewer than twice as many bits as the budget allows. -/
theorem bitLength_pow_le_twice (hbase : 1 < base.natAbs) {exponent : Nat}
    (hexponent : exponent ≤ greatestExponent base) :
    bitLength (base ^ exponent) < 2 * maxPowerBits := by
  have hlog := log2_pos hbase
  have hwithin := (le_greatestExponent_iff hbase).mp hexponent
  by_cases hzero : exponent = 0
  · rw [hzero, Int.pow_zero]
    decide
  · calc bitLength (base ^ exponent)
        ≤ exponent * (base.natAbs.log2 + 1) := bitLength_pow_le base hzero
      _ = exponent * base.natAbs.log2 + exponent * 1 := Nat.mul_add ..
      _ ≤ exponent * base.natAbs.log2 + exponent * base.natAbs.log2 :=
        Nat.add_le_add_left (Nat.mul_le_mul_left exponent hlog) _
      _ < 2 * maxPowerBits := by omega

/-- Powers of zero and one are never refused. -/
theorem power_of_le_one (hbase : base.natAbs ≤ 1) (exponent : Nat) :
    power (.int base) (.int exponent) = .ok (.int (base ^ exponent)) := by
  change integerPower base exponent = _
  rw [integerPower, if_pos hbase, unitPower_eq_pow hbase]

/-- Powers that grow are computed up to the greatest exponent that is let through. -/
theorem power_of_one_lt (hbase : 1 < base.natAbs) (exponent : Nat) :
    power (.int base) (.int exponent) =
      if exponent ≤ greatestExponent base then .ok (.int (base ^ exponent))
      else .error .tooLarge := by
  change integerPower base exponent = _
  rw [integerPower, if_neg (Nat.not_le.mpr hbase)]
  simp only [le_greatestExponent_iff hbase, gt_iff_lt]
  split
  · next hover => rw [if_neg (Nat.not_le.mpr hover)]
  · next hwithin => rw [if_pos (Nat.not_lt.mp hwithin)]

/-- No power within the budget is refused. -/
theorem power_within_budget {exponent : Nat}
    (hbits : bitLength (base ^ exponent) ≤ maxPowerBits) :
    power (.int base) (.int exponent) = .ok (.int (base ^ exponent)) := by
  by_cases hbase : base.natAbs ≤ 1
  · exact power_of_le_one hbase exponent
  · have hbase : 1 < base.natAbs := Nat.not_le.mp hbase
    have hgrows := mul_log2_lt_bitLength (Int.natAbs_pos.mp (Nat.lt_trans Nat.one_pos hbase)) exponent
    rw [power_of_one_lt hbase, if_pos]
    exact (le_greatestExponent_iff hbase).mpr (Nat.le_trans hgrows hbits)

end Budget

end Number

namespace BinaryOp

open Number

/-- Whether a power of integers is refused, and the user told that it is too large. -/
structure Refused (base : Int) (exponent : Nat) : Prop where
  power_eq : Number.power (.int base) (.int exponent) = .error .tooLarge
  report : ∃ fault, power.apply (.int base) (.int exponent) = .error fault ∧
    fault.report? = some ⟨"SEMANTIC_ERROR", "Math result is too large."⟩

/-- A power is refused for its size, and for nothing else. -/
theorem refused_iff {base : Int} {exponent : Nat} :
    Refused base exponent ↔ Number.power (.int base) (.int exponent) = .error .tooLarge := by
  refine ⟨Refused.power_eq, fun h => ⟨h, .impossible (.arithmetic .tooLarge), ?_, rfl⟩⟩
  rw [apply, h]
  rfl

/-- Every power of integers within the budget of bits is computed exactly.  Past the budget a power
is refused if its exponent is greater than what is let through for its base, and otherwise computed
all the same, with fewer than twice as many bits.  So the powers of a base that are past the budget
are all refused exactly if the greatest of its powers that is let through is within the budget. -/
theorem powers_within_budget (base : Int) :
    (∀ exponent : Nat, bitLength (base ^ exponent) ≤ maxPowerBits →
      Number.power (.int base) (.int exponent) = .ok (.int (base ^ exponent))) ∧
    (∀ exponent : Nat, maxPowerBits < bitLength (base ^ exponent) →
      if exponent ≤ greatestExponent base then
        Number.power (.int base) (.int exponent) = .ok (.int (base ^ exponent)) ∧
          bitLength (base ^ exponent) < 2 * maxPowerBits
      else Refused base exponent) ∧
    ((∀ exponent : Nat, maxPowerBits < bitLength (base ^ exponent) → Refused base exponent) ↔
      bitLength (base ^ greatestExponent base) ≤ maxPowerBits) := by
  by_cases hbase : base.natAbs ≤ 1
  · -- Such a base has no power past the budget.
    have hbits : ∀ exponent, bitLength (base ^ exponent) ≤ maxPowerBits := fun exponent =>
      Nat.le_trans (bitLength_pow_of_le_one hbase exponent) (by decide)
    refine ⟨fun _ => power_within_budget, fun exponent hpast => ?_, fun _ => hbits _, ?_⟩
    · exact absurd hpast (Nat.not_lt.mpr (hbits exponent))
    · exact fun _ exponent hpast => absurd hpast (Nat.not_lt.mpr (hbits exponent))
  · have hbase : 1 < base.natAbs := Nat.not_le.mp hbase
    have hnonzero : base ≠ 0 := Int.natAbs_pos.mp (Nat.lt_trans Nat.one_pos hbase)
    refine ⟨fun _ => power_within_budget, fun exponent _ => ?_, fun hrefused => ?_, ?_⟩
    · rw [refused_iff, power_of_one_lt hbase]
      split
      · next hle => exact ⟨rfl, bitLength_pow_le_twice hbase hle⟩
      · rfl
    · refine Nat.not_lt.mp fun hpast => ?_
      have hthrough := (hrefused _ hpast).power_eq
      rw [power_of_one_lt hbase, if_pos (Nat.le_refl _)] at hthrough
      contradiction
    · intro hgreatest exponent hpast
      rw [refused_iff, power_of_one_lt hbase, if_neg]
      intro hle
      exact Nat.not_lt.mpr (Nat.le_trans (bitLength_pow_mono hnonzero hle) hgreatest) hpast

/-- The powers of two keep to the budget: the greatest that is let through fills it. -/
theorem powers_within_budget_two :
    bitLength (2 ^ greatestExponent 2) = maxPowerBits ∧
      Number.power (.int 2) (.int 4095) = .ok (.int (2 ^ 4095)) ∧ Refused 2 4096 := by
  have hsize : ∀ exponent : Nat, bitLength (2 ^ exponent) = exponent + 1 := fun exponent => by
    rw [bitLength, Int.natAbs_pow]
    exact Nat.size_pow
  have hgreatest : greatestExponent 2 = 4095 := by decide
  obtain ⟨hwithin, -, hpast⟩ := powers_within_budget 2
  refine ⟨by rw [hsize, hgreatest]; rfl, hwithin 4095 ?_, hpast.mpr ?_ 4096 ?_⟩
  · rw [hsize]
    decide
  · rw [hsize, hgreatest]
    decide
  · rw [hsize]
    decide

/-- The powers of three do not: a result of 4098 bits is let through. -/
theorem power_past_budget :
    maxPowerBits < bitLength (3 ^ 2585) ∧
      Number.power (.int 3) (.int 2585) = .ok (.int (3 ^ 2585)) ∧ ¬ Refused 3 2585 := by
  have hbase : 1 < (3 : Int).natAbs := by decide
  have hthrough := power_of_one_lt hbase 2585
  rw [if_pos (by decide)] at hthrough
  refine ⟨?_, hthrough, fun hrefused => ?_⟩
  · rw [lt_bitLength_iff, Int.natAbs_pow]
    decide +kernel
  · have hpower := hrefused.power_eq
    simp only [hthrough, reduceCtorEq] at hpower

end BinaryOp
end DiceNotation

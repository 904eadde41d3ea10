import DiceNotation.Proofs.Number.Bounds
import DiceNotation.Proofs.Dice.Rolls
import Mathlib.Algebra.Order.Field.Power
import Mathlib.Order.Monotone.Basic
import Mathlib.Tactic.FieldSimp
import Mathlib.Tactic.Ring

/-!
# Rounding to binary floating point

The magnitudes of binary64 numbers lie on grids, each twice as wide as the one before, and a rank is
a place on one of them.  A number is compared with the middle between two magnitudes: below it it is
not rounded past the first, past it it is, and from the middle it goes to the even rank.  Everything
about rounding follows from this, and sums and products are the exact ones, rounded.

Main definitions:

- `Binary64.spacing`, `Binary64.OnGrid`: the grids, and the multiples of a spacing on them.
- `Binary64.middle`: the middle between a magnitude and the next one.
- `Binary64.rankOf`, `Binary64.nearest`: what a rational is rounded to.

Main results:

- `Binary64.magnitude_grid`, `Binary64.magnitude_strictMono`: magnitudes by grid and by rank.
- `Binary64.nearestRank_cases`: how a quotient is rounded.
- `Binary64.rankOf_cases`: what a rational is rounded to, by the middles on either side.
- `Binary64.toRat?_add`, `Binary64.toRat?_mul`: sums and products are rounded once.
-/

namespace DiceNotation
namespace Binary64

/-! ## The grid of magnitudes -/

/-- A power of two is a quotient of natural powers, one of which is one. -/
theorem two_zpow_eq (e : Int) :
    (2 : Rat) ^ e = (2 ^ e.toNat : Nat) / (2 ^ (-e).toNat : Nat) := by
  rcases Int.eq_nat_or_neg e with ⟨n, rfl | rfl⟩
  · simp
  · simp

/-- A scaled natural number is its product with a power of two. -/
theorem scaled_eq (m : Nat) (e : Int) : scaled m e = m * (2 : Rat) ^ e := by
  rw [scaled, Rat.mkRat_eq_div, two_zpow_eq, Int.cast_natCast, Nat.cast_mul, mul_div_assoc]

/-- The spacing of the grid with a number, counted from the finest. -/
def spacing (k : Nat) : Rat := 2 ^ ((k : Int) - 1074)

theorem spacing_pos (k : Nat) : 0 < spacing k := zpow_pos two_pos _

/-- Each grid is twice as wide as the one before. -/
theorem spacing_succ (k : Nat) : spacing (k + 1) = 2 * spacing k := by
  have hexponent : ((k + 1 : Nat) : Int) - 1074 = (k : Int) - 1074 + 1 := by omega
  rw [spacing, spacing, hexponent, zpow_add_one₀ two_ne_zero, mul_comm]

/-- Whether the multiple `m` of a spacing is a magnitude of the grid `k`, or the next one behind
them. -/
structure OnGrid (k m : Nat) : Prop where
  le : m ≤ 2 ^ 53
  normal : k = 0 ∨ 2 ^ 52 ≤ m

/-- A magnitude is a multiple of the spacing of its grid. -/
theorem magnitude_grid {k m : Nat} (h : OnGrid k m) :
    magnitude (k * 2 ^ 52 + m) = m * spacing k := by
  obtain ⟨hle, hnormal⟩ := h
  by_cases hlast : m = 2 ^ 53
  · have hsignificand : significand (k * 2 ^ 52 + m) = 2 ^ 52 := by
      rw [significand, if_neg (by omega)]
      omega
    have hexponent : exponent (k * 2 ^ 52 + m) = ((k + 1 : Nat) : Int) - 1074 := by
      rw [exponent, if_neg (by omega)]
      omega
    rw [magnitude, scaled_eq, hsignificand, hexponent, ← spacing, spacing_succ, hlast]
    push_cast
    ring
  · by_cases hzero : k * 2 ^ 52 + m < 2 ^ 53
    · have hk : k = 0 := by omega
      subst hk
      rw [magnitude, scaled_eq, significand, exponent, if_pos hzero, if_pos hzero, Nat.zero_mul,
        Nat.zero_add]
      rfl
    · have hsignificand : significand (k * 2 ^ 52 + m) = m := by
        rw [significand, if_neg hzero]
        omega
      have hexponent : exponent (k * 2 ^ 52 + m) = (k : Int) - 1074 := by
        rw [exponent, if_neg hzero]
        omega
      rw [magnitude, scaled_eq, hsignificand, hexponent, spacing]

/-- Every rank lies on some grid. -/
theorem exists_onGrid (rank : Nat) :
    ∃ k m, rank = k * 2 ^ 52 + m ∧ m < 2 ^ 53 ∧ OnGrid k m := by
  by_cases hnormal : rank < 2 ^ 52
  · exact ⟨0, rank, by omega, by omega, by omega, .inl rfl⟩
  · exact ⟨rank / 2 ^ 52 - 1, 2 ^ 52 + rank % 2 ^ 52, by omega, by omega, by omega,
      .inr (by omega)⟩

/-- Behind a place on a grid but its last is another. -/
theorem OnGrid.succ {k m : Nat} (h : OnGrid k m) (hlt : m < 2 ^ 53) : OnGrid k (m + 1) :=
  ⟨hlt, h.normal.imp_right fun h => Nat.le_succ_of_le h⟩

/-- Magnitudes of consecutive ranks are one spacing apart. -/
theorem magnitude_succ_grid {k m : Nat} (h : OnGrid k m) (hlt : m < 2 ^ 53) :
    magnitude (k * 2 ^ 52 + m + 1) = (m + 1) * spacing k := by
  rw [Nat.add_assoc, magnitude_grid (h.succ hlt), Nat.cast_succ]

/-- Greater ranks have greater magnitudes. -/
theorem magnitude_strictMono : StrictMono magnitude := by
  refine strictMono_nat_of_lt_succ fun rank => ?_
  obtain ⟨k, m, rfl, hlt, hgrid⟩ := exists_onGrid rank
  rw [magnitude_succ_grid hgrid hlt, magnitude_grid hgrid]
  linarith [spacing_pos k]

/-- The middle between the magnitude of a rank and the next one. -/
def middle (rank : Nat) : Rat := (magnitude rank + magnitude (rank + 1)) / 2

/-- A middle lies past its lower magnitude. -/
theorem magnitude_lt_middle (rank : Nat) : magnitude rank < middle rank := by
  have hlt := magnitude_strictMono (Nat.lt_succ_self rank)
  rw [middle]
  linarith

/-- A middle lies below every later magnitude. -/
theorem middle_lt_magnitude {rank later : Nat} (h : rank < later) :
    middle rank < magnitude later := by
  have hlt := magnitude_strictMono (Nat.lt_succ_self rank)
  have hle := magnitude_strictMono.monotone (Nat.succ_le_of_lt h)
  rw [middle]
  linarith

/-- A middle on a grid is an odd multiple of half its spacing. -/
theorem middle_grid {k m : Nat} (h : OnGrid k m) (hlt : m < 2 ^ 53) :
    middle (k * 2 ^ 52 + m) = (2 * m + 1) / 2 * spacing k := by
  rw [middle, magnitude_succ_grid h hlt, magnitude_grid h]
  ring

/-- The numbers of a grid lie above the middles before it. -/
theorem middle_lt_mul_spacing {k rank : Nat} (h : rank < k * 2 ^ 52 + 2 ^ 52) {x : Rat}
    (hx : (2 ^ 52 : Nat) ≤ x) : middle rank < x * spacing k := by
  calc
    middle rank < magnitude (k * 2 ^ 52 + 2 ^ 52) := middle_lt_magnitude h
    _ = (2 ^ 52 : Nat) * spacing k := magnitude_grid ⟨by decide, .inr (Nat.le_refl _)⟩
    _ ≤ x * spacing k := mul_le_mul_of_nonneg_right hx (spacing_pos k).le

/-- They lie below the middles behind it. -/
theorem mul_spacing_lt_middle {k rank : Nat} (h : k * 2 ^ 52 + 2 ^ 53 ≤ rank) {x : Rat}
    (hx : x < (2 ^ 53 : Nat)) : x * spacing k < middle rank := by
  calc
    x * spacing k < (2 ^ 53 : Nat) * spacing k := mul_lt_mul_of_pos_right hx (spacing_pos k)
    _ = magnitude (k * 2 ^ 52 + 2 ^ 53) := (magnitude_grid ⟨Nat.le_refl _, .inr (by decide)⟩).symm
    _ ≤ magnitude rank := magnitude_strictMono.monotone h
    _ < middle rank := magnitude_lt_middle rank

/-! ## Rounding to integers -/

section RoundHalfEven

variable {num den m : Nat}

/-- Below the middle a quotient is rounded down. -/
theorem roundHalfEven_le_of_lt (h : 2 * num < (2 * m + 1) * den) : roundHalfEven num den ≤ m := by
  have hle := roundHalfEven_le num den
  by_contra hlt
  have hmul : 2 * den * (m + 1) ≤ 2 * den * roundHalfEven num den :=
    Nat.mul_le_mul_left _ (Nat.lt_of_not_le hlt)
  nlinarith

/-- Past the middle a quotient is rounded up. -/
theorem lt_roundHalfEven_of_lt (hden : 0 < den) (h : (2 * m + 1) * den < 2 * num) :
    m < roundHalfEven num den := by
  have hle := le_roundHalfEven num den hden
  by_contra hge
  have hmul : 2 * den * roundHalfEven num den ≤ 2 * den * m :=
    Nat.mul_le_mul_left _ (Nat.le_of_not_lt hge)
  nlinarith

/-- From the middle between two integers it goes to the even one. -/
theorem roundHalfEven_of_middle (hden : 0 < den) (h : 2 * num = (2 * m + 1) * den) :
    roundHalfEven num den = m + m % 2 := by
  have hdivision := Nat.div_add_mod num den
  have hmod := Nat.mod_lt num hden
  have hdiv : num / den = m := by
    refine Nat.div_eq_of_lt_le ?_ ?_ <;> nlinarith
  have hmiddle : 2 * (num % den) = den := by
    rw [hdiv] at hdivision
    nlinarith
  simp [roundHalfEven, hdiv, hmiddle]

end RoundHalfEven

/-! ## Rounding to magnitudes -/

/-- Powers of two are compared with quotients in natural numbers. -/
theorem two_zpow_le_div_iff {num den : Nat} (hden : den ≠ 0) (e : Int) :
    (2 : Rat) ^ e ≤ num / den ↔ den * 2 ^ e.toNat ≤ num * 2 ^ (-e).toNat := by
  have hpos : (0 : Rat) < den := by exact_mod_cast Nat.pos_of_ne_zero hden
  have hpower : (0 : Rat) < (2 ^ (-e).toNat : Nat) := by exact_mod_cast Nat.two_pow_pos _
  rw [two_zpow_eq, div_le_div_iff₀ hpower hpos, mul_comm]
  exact_mod_cast Iff.rfl

/-- The greatest power of two that is at most a quotient. -/
theorem floorLog2_spec {num den : Nat} (hnum : num ≠ 0) (hden : den ≠ 0) :
    (2 : Rat) ^ floorLog2 num den ≤ num / den ∧
      (num / den : Rat) < 2 ^ (floorLog2 num den + 1) := by
  have hpos : (0 : Rat) < den := by exact_mod_cast Nat.pos_of_ne_zero hden
  let guess : Int := (num.log2 : Int) - den.log2
  have hupper : (num / den : Rat) < 2 ^ (guess + 1) := by
    have hpower : (2 : Rat) ^ (guess + 1) = 2 ^ (num.log2 + 1) / 2 ^ den.log2 := by
      rw [← zpow_natCast, ← zpow_natCast, ← zpow_sub₀ two_ne_zero]
      congr 1
      push_cast
      omega
    rw [hpower]
    refine div_lt_div₀ ?_ ?_ (by positivity) (by positivity)
    · exact_mod_cast Nat.lt_log2_self
    · exact_mod_cast Nat.log2_self_le hden
  have hlower : (2 : Rat) ^ (guess - 1) ≤ num / den := by
    have hpower : (2 : Rat) ^ (guess - 1) = 2 ^ num.log2 / 2 ^ (den.log2 + 1) := by
      rw [← zpow_natCast, ← zpow_natCast, ← zpow_sub₀ two_ne_zero]
      congr 1
      push_cast
      omega
    rw [hpower]
    refine div_le_div₀ (by positivity) ?_ hpos ?_
    · exact_mod_cast Nat.log2_self_le hnum
    · exact_mod_cast Nat.lt_log2_self.le
  have hguess : (2 : Rat) ^ guess ≤ num / den ↔
      den * 2 ^ guess.toNat ≤ num * 2 ^ (-guess).toNat := two_zpow_le_div_iff hden guess
  have hlog : floorLog2 num den =
      if den * 2 ^ guess.toNat ≤ num * 2 ^ (-guess).toNat then guess else guess - 1 := rfl
  rw [hlog]
  split
  · next h => exact ⟨hguess.mpr h, hupper⟩
  · next h =>
      refine ⟨hlower, ?_⟩
      rw [sub_add_cancel]
      exact lt_of_not_ge fun hle => h (hguess.mp hle)

/-- A quotient is rounded to an integer on the grid around it. -/
theorem exists_nearestRank {num den : Nat} (hnum : num ≠ 0) (hden : den ≠ 0) :
    ∃ k n d : Nat, nearestRank num den = k * 2 ^ 52 + roundHalfEven n d ∧ 0 < d ∧
      (num / den : Rat) = n / d * spacing k ∧ n < 2 ^ 53 * d ∧ (k = 0 ∨ 2 ^ 52 * d ≤ n) := by
  obtain ⟨hle, hlt⟩ := floorLog2_spec hnum hden
  let e := gridExponent num den
  have he : e = max (-1074) (floorLog2 num den - 52) := rfl
  have hpos : (0 : Rat) < den := by exact_mod_cast Nat.pos_of_ne_zero hden
  have hd : 0 < den * 2 ^ e.toNat := Nat.mul_pos (Nat.pos_of_ne_zero hden) (Nat.two_pow_pos _)
  have hdRat : (0 : Rat) < (den * 2 ^ e.toNat : Nat) := by exact_mod_cast hd
  have hspacing : spacing (e + 1074).toNat = 2 ^ e := by
    rw [spacing]
    congr 1
    omega
  have hquotient : (num / den : Rat) =
      (num * 2 ^ (-e).toNat : Nat) / (den * 2 ^ e.toNat : Nat) * spacing (e + 1074).toNat := by
    rw [hspacing, two_zpow_eq]
    push_cast
    field_simp
  refine ⟨(e + 1074).toNat, num * 2 ^ (-e).toNat, den * 2 ^ e.toNat, ?_, hd, hquotient, ?_, ?_⟩
  · rw [nearestRank, if_neg hnum]
  · have hbound : (num / den : Rat) < 2 ^ 53 * spacing (e + 1074).toNat := by
      refine hlt.trans_le ?_
      rw [hspacing, ← zpow_natCast, ← zpow_add₀ two_ne_zero]
      exact zpow_le_zpow_right₀ one_le_two (by push_cast; omega)
    rw [hquotient, mul_lt_mul_iff_of_pos_right (spacing_pos _), div_lt_iff₀ hdRat] at hbound
    exact_mod_cast hbound
  · refine or_iff_not_imp_left.mpr fun hk => ?_
    have hbound : 2 ^ 52 * spacing (e + 1074).toNat ≤ (num / den : Rat) := by
      refine le_trans ?_ hle
      rw [hspacing, ← zpow_natCast, ← zpow_add₀ two_ne_zero]
      exact zpow_le_zpow_right₀ one_le_two (by push_cast; omega)
    rw [hquotient, mul_le_mul_iff_of_pos_right (spacing_pos _), le_div_iff₀ hdRat] at hbound
    exact_mod_cast hbound

theorem magnitude_zero : magnitude 0 = 0 := by
  simpa using magnitude_grid (k := 0) (m := 0) ⟨by decide, .inl rfl⟩

section Nearest

variable {num den rank : Nat}

/-- A number is rounded to the nearest magnitude, and from the middle between two to the one whose
rank is even. -/
theorem nearestRank_cases (hden : den ≠ 0) (rank : Nat) :
    (middle rank < (num / den : Rat) ∧ rank < nearestRank num den) ∨
      ((num / den : Rat) < middle rank ∧ nearestRank num den ≤ rank) ∨
        ((num / den : Rat) = middle rank ∧ nearestRank num den = rank + rank % 2) := by
  by_cases hnum : num = 0
  · refine .inr (.inl ⟨?_, by simp [nearestRank, hnum]⟩)
    have hmiddle := magnitude_lt_middle rank
    have hnonneg := magnitude_nonneg rank
    rw [hnum, Nat.cast_zero, zero_div]
    linarith
  obtain ⟨k, n, d, hnearest, hd, hquotient, hlt, hnormal⟩ := exists_nearestRank hnum hden
  have hdRat : (0 : Rat) < d := by exact_mod_cast hd
  have hspacing := spacing_pos k
  rw [hnearest]
  by_cases hbelow : k ≠ 0 ∧ rank < k * 2 ^ 52 + 2 ^ 52
  · -- The number lies on a later grid than the rank.
    left
    have hnormal := hnormal.resolve_left hbelow.1
    have hround : 2 ^ 52 - 1 < roundHalfEven n d := lt_roundHalfEven_of_lt hd (by omega)
    refine ⟨?_, by omega⟩
    rw [hquotient]
    refine middle_lt_mul_spacing hbelow.2 ?_
    rw [le_div_iff₀ hdRat]
    exact_mod_cast hnormal
  by_cases habove : k * 2 ^ 52 + 2 ^ 53 ≤ rank
  · -- The number lies on an earlier grid than the rank.
    right; left
    have hround : roundHalfEven n d ≤ 2 ^ 53 := roundHalfEven_le_of_lt (by omega)
    refine ⟨?_, by omega⟩
    rw [hquotient]
    refine mul_spacing_lt_middle habove ?_
    rw [div_lt_iff₀ hdRat]
    exact_mod_cast hlt
  -- Both lie on the same grid, and are compared as multiples of its spacing.
  obtain ⟨m, rfl⟩ : ∃ m, rank = k * 2 ^ 52 + m := ⟨rank - k * 2 ^ 52, by omega⟩
  have hgrid : OnGrid k m := ⟨by omega, by omega⟩
  rw [middle_grid hgrid (by omega), hquotient, mul_lt_mul_iff_of_pos_right hspacing,
    mul_lt_mul_iff_of_pos_right hspacing, mul_left_inj' hspacing.ne',
    div_lt_div_iff₀ two_pos hdRat, div_lt_div_iff₀ hdRat two_pos,
    div_eq_div_iff hdRat.ne' two_ne_zero]
  norm_cast
  rw [Nat.mul_comm n 2]
  rcases Nat.lt_trichotomy (2 * n) ((2 * m + 1) * d) with hless | hequal | hgreater
  · exact .inr (.inl ⟨hless, Nat.add_le_add_left (roundHalfEven_le_of_lt hless) _⟩)
  · have hround := roundHalfEven_of_middle hd hequal
    exact .inr (.inr ⟨hequal, by omega⟩)
  · exact .inl ⟨hgreater, Nat.add_lt_add_left (lt_roundHalfEven_of_lt hd hgreater) _⟩

end Nearest

/-! ## Rounding rationals -/

/-- The rank of the magnitude nearest to that of a rational. -/
def rankOf (q : Rat) : Nat := nearestRank q.num.natAbs q.den

section RankOf

variable {q : Rat} {rank : Nat}

/-- The magnitude of a rational is the quotient of its parts. -/
theorem natAbs_num_div_den (q : Rat) : (q.num.natAbs : Rat) / q.den = |q| := by
  have hden : (0 : Rat) < q.den := by exact_mod_cast q.den_pos
  rw [Nat.cast_natAbs, Int.cast_abs, ← abs_of_pos hden, ← abs_div, Rat.num_div_den]

/-- Past a middle a rational is rounded past it, below it to below, and from it to the even rank. -/
theorem rankOf_cases (q : Rat) (rank : Nat) :
    (middle rank < |q| ∧ rank < rankOf q) ∨ (|q| < middle rank ∧ rankOf q ≤ rank) ∨
      (|q| = middle rank ∧ rankOf q = rank + rank % 2) := by
  rw [← natAbs_num_div_den q]
  exact nearestRank_cases q.den_nz rank

/-- What is rounded to an odd rank lies strictly between the middles on either side of it. -/
theorem between_of_rankOf_odd (h : rankOf q = rank + 1) (hodd : (rank + 1) % 2 = 1) :
    middle rank < |q| ∧ |q| < middle (rank + 1) := by
  constructor
  · rcases rankOf_cases q rank with ⟨hpast, -⟩ | ⟨-, hle⟩ | ⟨-, heq⟩
    · exact hpast
    · omega
    · omega
  · rcases rankOf_cases q (rank + 1) with ⟨-, hlt⟩ | ⟨hbelow, -⟩ | ⟨-, heq⟩
    · omega
    · exact hbelow
    · omega

/-- Below the middle between two magnitudes a number is not rounded past the first. -/
theorem rankOf_le_of_lt (h : |q| < middle rank) : rankOf q ≤ rank := by
  rcases rankOf_cases q rank with ⟨hpast, -⟩ | ⟨-, hle⟩ | ⟨heq, -⟩
  · exact absurd hpast h.not_gt
  · exact hle
  · exact absurd heq h.ne

/-- Past the middle between two magnitudes a number is rounded past the first. -/
theorem lt_rankOf_of_lt (h : middle rank < |q|) : rank < rankOf q := by
  rcases rankOf_cases q rank with ⟨-, hlt⟩ | ⟨hbelow, -⟩ | ⟨heq, -⟩
  · exact hlt
  · exact absurd hbelow h.not_gt
  · exact absurd heq h.ne'

/-- From the middle between two magnitudes a number is rounded to the one whose rank is even. -/
theorem rankOf_of_middle (h : |q| = middle rank) : rankOf q = rank + rank % 2 := by
  rcases rankOf_cases q rank with ⟨hpast, -⟩ | ⟨hbelow, -⟩ | ⟨-, heq⟩
  · exact absurd h hpast.ne'
  · exact absurd h hbelow.ne
  · exact heq

/-- Up to a magnitude a number is not rounded past it. -/
theorem rankOf_le (h : |q| ≤ magnitude rank) : rankOf q ≤ rank :=
  rankOf_le_of_lt (h.trans_lt (magnitude_lt_middle rank))

/-- From a magnitude on a number is not rounded below it. -/
theorem le_rankOf (h : magnitude rank ≤ |q|) : rank ≤ rankOf q := by
  cases rank with
  | zero => exact Nat.zero_le _
  | succ before =>
      exact lt_rankOf_of_lt ((middle_lt_magnitude (Nat.lt_succ_self before)).trans_le h)

/-- A magnitude is not rounded at all. -/
theorem rankOf_of_magnitude (h : |q| = magnitude rank) : rankOf q = rank :=
  Nat.le_antisymm (rankOf_le h.le) (le_rankOf h.ge)

end RankOf

/-- The magnitude nearest to that of a rational, with its sign. -/
def nearest (q : Rat) : Rat := if q < 0 then -magnitude (rankOf q) else magnitude (rankOf q)

/-- Of what is not negative, the nearest is a magnitude. -/
theorem nearest_of_nonneg {q : Rat} (h : 0 ≤ q) : nearest q = magnitude (rankOf q) :=
  if_neg (not_lt.mpr h)

/-- Of what is negative, the nearest is a negated magnitude. -/
theorem nearest_of_neg {q : Rat} (h : q < 0) : nearest q = -magnitude (rankOf q) := if_pos h

/-- The magnitude of the nearest number is that of the rank. -/
theorem abs_nearest (q : Rat) : |nearest q| = magnitude (rankOf q) := by
  have hnonneg := magnitude_nonneg (rankOf q)
  rcases le_or_gt 0 q with hq | hq
  · rw [nearest_of_nonneg hq, abs_of_nonneg hnonneg]
  · rw [nearest_of_neg hq, abs_neg, abs_of_nonneg hnonneg]

/-- The nearest number to a magnitude, of either sign, is that itself. -/
theorem nearest_of_magnitude {q : Rat} {rank : Nat} (h : |q| = magnitude rank) :
    nearest q = q := by
  rcases le_or_gt 0 q with hq | hq
  · rw [nearest_of_nonneg hq, rankOf_of_magnitude h, ← h, abs_of_nonneg hq]
  · rw [nearest_of_neg hq, rankOf_of_magnitude h, ← h, abs_of_neg hq, neg_neg]

/-- The rank does not depend on the sign. -/
@[simp]
theorem rankOf_neg (q : Rat) : rankOf (-q) = rankOf q := by
  rw [rankOf, rankOf, Rat.neg_num, Rat.neg_den, Int.natAbs_neg]

theorem rankOf_zero : rankOf 0 = 0 := rankOf_of_magnitude (by rw [magnitude_zero, abs_zero])

/-- Rounding does not depend on the sign. -/
theorem nearest_neg (q : Rat) : nearest (-q) = -nearest q := by
  rcases lt_trichotomy q 0 with hneg | rfl | hpos
  · rw [nearest_of_nonneg (by linarith), nearest_of_neg hneg, rankOf_neg, neg_neg]
  · rw [neg_zero, nearest_of_nonneg le_rfl, rankOf_zero, magnitude_zero, neg_zero]
  · rw [nearest_of_neg (by linarith), nearest_of_nonneg hpos.le, rankOf_neg]
/-- The value of a finite number is a magnitude with a sign. -/
theorem exists_magnitude_of_toRat? {x : Binary64} {v : Rat} (hx : x.toRat? = some v) :
    ∃ rank < ranks, |v| = magnitude rank := by
  obtain ⟨negative, rank, rfl⟩ := toRat?_eq_some hx
  refine ⟨rank, rank.isLt, ?_⟩
  rw [← Option.some.inj hx]
  cases negative <;> simp [abs_of_nonneg (magnitude_nonneg _)]

/-- A rounded number has the value of its rank, unless the rank is past all of them. -/
theorem toRat?_round (negative : Bool) (q : Rat) :
    (round negative q).toRat? = if rankOf q < ranks then
      some (if negative then -magnitude (rankOf q) else magnitude (rankOf q)) else none := by
  have hround : round negative q =
      if h : rankOf q < ranks then .finite negative ⟨rankOf q, h⟩ else .infinite negative := rfl
  by_cases hrank : rankOf q < ranks
  · rw [hround, dif_pos hrank, if_pos hrank]
    rfl
  · rw [hround, dif_neg hrank, if_neg hrank]
    rfl

/-- A rational is rounded to the nearest number, unless that is past the last finite one. -/
theorem toRat?_ofRat (q : Rat) :
    (ofRat q).toRat? = if rankOf q < ranks then some (nearest q) else none := by
  simp [ofRat, toRat?_round, nearest]

/-- A sign beside a magnitude is that of the rational that is rounded. -/
theorem toRat?_round_of_nonneg (negative : Bool) {q : Rat} (hq : 0 ≤ q) :
    (round negative q).toRat? = (ofRat (if negative then -q else q)).toRat? := by
  rw [toRat?_round, toRat?_ofRat, ← nearest_of_nonneg hq]
  cases negative with
  | false => rfl
  | true => simp [nearest_neg]

/-- Zeros of either sign have the value of zero. -/
theorem toRat?_zero (negative : Bool) : (zero negative).toRat? = (ofRat 0).toRat? := by
  rw [toRat?_ofRat, nearest_of_nonneg le_rfl, rankOf_zero, if_pos (by decide)]
  cases negative <;> simp [zero, toRat?, magnitude_zero]

section Operations

variable {x y : Binary64} {p q : Rat}

/-- A sum is the exact sum, rounded. -/
theorem toRat?_add (hx : x.toRat? = some p) (hy : y.toRat? = some q) :
    (x + y).toRat? = (ofRat (p + q)).toRat? := by
  obtain ⟨a, i, rfl⟩ := toRat?_eq_some hx
  obtain ⟨b, j, rfl⟩ := toRat?_eq_some hy
  have hadd : (finite a i + finite b j) =
      if p + q = 0 then zero (a && b) else ofRat (p + q) := by
    rw [← Option.some.inj hx, ← Option.some.inj hy]
    rfl
  rw [hadd]
  split
  · next hzero => rw [hzero, toRat?_zero]
  · rfl

/-- A product is the exact product, rounded. -/
theorem toRat?_mul (hx : x.toRat? = some p) (hy : y.toRat? = some q) :
    (x * y).toRat? = (ofRat (p * q)).toRat? := by
  obtain ⟨a, i, rfl⟩ := toRat?_eq_some hx
  obtain ⟨b, j, rfl⟩ := toRat?_eq_some hy
  obtain rfl := Option.some.inj hx
  obtain rfl := Option.some.inj hy
  change (mul (.finite a i) (.finite b j)).toRat? = _
  rw [mul, toRat?_round_of_nonneg _ (mul_nonneg (magnitude_nonneg i) (magnitude_nonneg j))]
  congr 2
  cases a <;> cases b <;> simp

/-- The integer below a finite number. -/
theorem floor_eq_ok_iff {n : Int} : x.floor = .ok n ↔ ∃ q, x.toRat? = some q ∧ q.floor = n := by
  cases x with
  | nan | infinite => simp [floor, toRat?]
  | finite negative rank => simp [floor, toRat?]

/-- An integer is rounded, unless the nearest number is not finite. -/
theorem ofInt_eq_ok_iff {n : Int} : ofInt n = .ok x ↔ ofRat n = x ∧ ∃ q, x.toRat? = some q := by
  have hnan : ofRat n ≠ .nan := round_ne_nan _ _
  rw [ofInt]
  cases hround : ofRat n with
  | nan => exact absurd hround hnan
  | infinite negative =>
      simp only [reduceCtorEq, false_iff, not_and]
      rintro rfl
      simp [toRat?]
  | finite negative rank =>
      simp only [Except.ok.injEq, iff_self_and]
      rintro rfl
      simp [toRat?]

end Operations

end Binary64
end DiceNotation

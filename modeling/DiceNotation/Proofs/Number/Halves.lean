import DiceNotation.Proofs.Number.Rounding

/-!
# Rounding to integers

A number is rounded to an integer by way of its sum with one half, which is itself rounded to a
binary64 number.  Integers with few bits are raised by one half exactly.  From `2 ^ 52` on the sum
lies in the middle between two integers, so that odd ones are raised to the next integer; and past
`2 ^ 53` an integer is first rounded to a number, all of which are even there.  So what rounding
leaves alone are the integers of up to 52 bits, and of the others the even ones that are binary64
numbers; and whatever is rounded ends among these.

Main definitions:

- `Binary64.unitRank`, `Binary64.evenRank`: the grid of the integers, and where all are even.
- `Binary64.Holds`: integers that are binary64 numbers.
- `Number.SurvivesRounding`: integers that rounding leaves alone.

Main results:

- `Binary64.floor_nearest_add_half`, `Binary64.nearest_add_half_of_even`: integers raised by one
  half.
- `Number.roundHalfUp_int_iff`: which integers are left alone.
- `Number.survivesRounding_of_roundHalfUp`: what is rounded is left alone from then on.
-/

namespace DiceNotation
namespace Binary64

/-! ## Integers among the magnitudes -/

/-- Each grid further doubles the spacing. -/
theorem spacing_add (j k : Nat) : spacing (j + k) = 2 ^ k * spacing j := by
  induction k with
  | zero => simp
  | succ k ih =>
      rw [← Nat.add_assoc, spacing_succ, ih, pow_succ]
      ring

/-- The grid of the integers has the spacing one. -/
theorem spacing_one : spacing 1074 = 1 := by
  simp [spacing]

/-- The rank of an integer on the grid of the integers, of those from `2 ^ 52` up to `2 ^ 53`. -/
def unitRank (m : Nat) : Nat := 1074 * 2 ^ 52 + m

/-- On the grid of the integers the magnitude is the integer. -/
theorem magnitude_unitRank {m : Nat} (hle : 2 ^ 52 ≤ m) (hle' : m ≤ 2 ^ 53) :
    magnitude (unitRank m) = m := by
  rw [unitRank, magnitude_grid ⟨hle', .inr hle⟩, spacing_one, mul_one]

/-- On that grid the middles are the halves. -/
theorem middle_unitRank {m : Nat} (hle : 2 ^ 52 ≤ m) (hlt : m < 2 ^ 53) :
    middle (unitRank m) = m + 1 / 2 := by
  rw [unitRank, middle_grid ⟨hlt.le, .inr hle⟩ hlt, spacing_one]
  ring

/-- The rank from which all magnitudes are even integers. -/
def evenRank : Nat := unitRank (2 ^ 53)

/-- From the even rank on, magnitudes are even integers. -/
theorem exists_even {rank : Nat} (h : evenRank ≤ rank) :
    ∃ n : Nat, magnitude rank = (2 * n : Nat) := by
  obtain ⟨k, m, rfl, hlt, hgrid⟩ := exists_onGrid rank
  unfold evenRank unitRank at h
  obtain ⟨j, rfl⟩ : ∃ j, k = 1074 + (1 + j) := ⟨k - 1075, by omega⟩
  refine ⟨m * 2 ^ j, ?_⟩
  rw [magnitude_grid hgrid, spacing_add, spacing_one]
  push_cast
  ring

/-- So they are two apart at least. -/
theorem magnitude_add_two_le {rank : Nat} (h : evenRank ≤ rank) :
    magnitude rank + 2 ≤ magnitude (rank + 1) := by
  obtain ⟨m, hm⟩ := exists_even h
  obtain ⟨n, hn⟩ := exists_even (Nat.le_succ_of_le h)
  have hlt := magnitude_strictMono (Nat.lt_succ_self rank)
  rw [hm, hn] at *
  have hlt : 2 * m < 2 * n := by exact_mod_cast hlt
  exact_mod_cast (by omega : 2 * m + 2 ≤ 2 * n)

/-- The even rank is that of `2 ^ 53`. -/
theorem magnitude_evenRank : magnitude evenRank = 2 ^ 53 := by
  rw [evenRank, magnitude_unitRank (by decide) (Nat.le_refl _)]
  norm_num

/-- From there on no magnitude is less. -/
theorem two_pow_le_magnitude {rank : Nat} (h : evenRank ≤ rank) : 2 ^ 53 ≤ magnitude rank :=
  magnitude_evenRank ▸ magnitude_strictMono.monotone h

/-- Every number of so few bits is a magnitude. -/
theorem exists_magnitude {m : Nat} (hm : m < 2 ^ 53) (k : Nat) :
    ∃ rank, magnitude rank = m * spacing k := by
  induction k generalizing m with
  | zero => exact ⟨_, magnitude_grid ⟨hm.le, .inl rfl⟩⟩
  | succ k ih =>
      by_cases hnormal : 2 ^ 52 ≤ m
      · exact ⟨_, magnitude_grid ⟨hm.le, .inr hnormal⟩⟩
      · obtain ⟨rank, hrank⟩ := @ih (2 * m) (by omega)
        refine ⟨rank, ?_⟩
        rw [hrank, spacing_succ]
        push_cast
        ring

/-! ## Raising integers by one half -/

/-- An integer and a half round down to the integer. -/
theorem floor_add_half (n : Int) : ((n : Rat) + 1 / 2).floor = n := by
  have hlower : n ≤ ((n : Rat) + 1 / 2).floor := Rat.le_floor_iff.mpr (by linarith)
  have hupper : ((n : Rat) + 1 / 2).floor < n + 1 := Rat.floor_lt_iff.mpr (by push_cast; linarith)
  omega

/-- An integer with few bits is raised exactly. -/
theorem nearest_add_half_of_lt {n : Int} (h : (2 * n + 1).natAbs < 2 ^ 53) :
    nearest (n + 1 / 2) = n + 1 / 2 := by
  obtain ⟨rank, hrank⟩ := exists_magnitude h 1073
  have hhalf : spacing 1073 = 1 / 2 := by
    have hdouble := spacing_succ 1073
    rw [spacing_one] at hdouble
    linarith
  have hpos : (0 : Rat) < 1 / 2 := by norm_num
  have hmagnitude : |(n : Rat) + 1 / 2| = magnitude rank := by
    rw [hrank, hhalf, Nat.cast_natAbs, Int.cast_abs, ← abs_of_pos hpos, ← abs_mul]
    congr 1
    push_cast
    rw [abs_of_pos hpos]
    ring
  exact nearest_of_magnitude hmagnitude

/-- From the middle between two integers on their own grid it goes to the even one. -/
theorem magnitude_rankOf_of_half {q : Rat} {m : Nat} (hle : 2 ^ 52 ≤ m) (hlt : m < 2 ^ 53)
    (h : |q| = m + 1 / 2) : magnitude (rankOf q) = (m + m % 2 : Nat) := by
  have hmiddle := rankOf_of_middle (h.trans (middle_unitRank hle hlt).symm)
  rw [hmiddle, ← magnitude_unitRank (by omega) (by omega)]
  congr 1
  unfold unitRank
  omega

/-- Where all numbers are even, the middle below one is at least one half away, and just so far only
below the first of them. -/
theorem lt_rankOf_of_sub_half {q : Rat} {before : Nat} (h : evenRank ≤ before + 1)
    (hq : |q| = magnitude (before + 1) - 1 / 2) : before < rankOf q := by
  by_cases hlater : evenRank ≤ before
  · have hgap := magnitude_add_two_le hlater
    refine lt_rankOf_of_lt ?_
    rw [hq, middle]
    linarith
  · have hfirst : before = unitRank (2 ^ 53 - 1) := by
      unfold evenRank unitRank at *
      omega
    have hmiddle : |q| = middle before := by
      have hlast : unitRank (2 ^ 53 - 1) + 1 = evenRank := rfl
      rw [hq, hfirst, hlast, magnitude_evenRank, middle_unitRank (by decide) (by decide)]
      norm_num
    rw [rankOf_of_middle hmiddle, hfirst]
    decide

/-- Where all numbers are even, a number is raised to itself. -/
theorem rankOf_add_half {v : Rat} {rank : Nat} (hv : |v| = magnitude rank)
    (h : evenRank ≤ rank) : rankOf (v + 1 / 2) = rank := by
  have hgap := magnitude_add_two_le h
  have hfar := two_pow_le_magnitude h
  obtain ⟨before, rfl⟩ := Nat.exists_eq_succ_of_ne_zero
    (Nat.ne_zero_of_lt ((by decide : 0 < evenRank).trans_le h))
  rcases le_or_gt 0 v with hsign | hsign
  · rw [abs_of_nonneg hsign] at hv
    have habs : |v + 1 / 2| = v + 1 / 2 := abs_of_nonneg (by linarith)
    refine Nat.le_antisymm (rankOf_le_of_lt ?_) (le_rankOf ?_)
    · rw [habs, middle]
      linarith
    · rw [habs]
      linarith
  · rw [abs_of_neg hsign] at hv
    have habs : |v + 1 / 2| = magnitude (before + 1) - 1 / 2 := by
      rw [abs_of_neg (by linarith)]
      linarith
    refine Nat.le_antisymm (rankOf_le ?_) (lt_rankOf_of_sub_half h habs)
    rw [habs]
    linarith

/-- Among even integers a half is lost. -/
theorem nearest_add_half_of_even {v : Rat} {rank : Nat} (hv : |v| = magnitude rank)
    (h : evenRank ≤ rank) : nearest (v + 1 / 2) = v := by
  have hfar := two_pow_le_magnitude h
  rcases le_or_gt 0 v with hsign | hsign
  · rw [nearest_of_nonneg (by linarith), rankOf_add_half hv h, ← hv, abs_of_nonneg hsign]
  · have hneg : v + 1 / 2 < 0 := by
      rw [abs_of_neg hsign] at hv
      linarith
    rw [nearest_of_neg hneg, rankOf_add_half hv h, ← hv, abs_of_neg hsign, neg_neg]

/-- An integer on the grid of the integers is raised to itself if it is even, and to the next one if
it is odd. -/
theorem floor_nearest_add_half {n : Int} (hle : 2 ^ 52 ≤ n.natAbs) (hlt : n.natAbs < 2 ^ 53) :
    (nearest (n + 1 / 2)).floor = n + n % 2 := by
  rcases Int.le_total 0 n with hn | hn
  · have hcast : (0 : Rat) ≤ n := by exact_mod_cast hn
    have hq : (0 : Rat) ≤ n + 1 / 2 := by linarith
    have habs : |(n : Rat) + 1 / 2| = n.natAbs + 1 / 2 := by
      rw [abs_of_nonneg hq, Nat.cast_natAbs, abs_of_nonneg hn]
    rw [nearest_of_nonneg hq, magnitude_rankOf_of_half hle hlt habs, ← Int.cast_natCast,
      Rat.floor_intCast]
    omega
  · by_cases hfirst : n.natAbs = 2 ^ 52
    · rw [nearest_add_half_of_lt (by omega), floor_add_half]
      omega
    · have hcast : (n : Rat) ≤ -1 := by exact_mod_cast (by omega : n ≤ -1)
      have hq : (n : Rat) + 1 / 2 < 0 := by linarith
      have habs : |(n : Rat) + 1 / 2| = (n.natAbs - 1 : Nat) + 1 / 2 := by
        rw [abs_of_neg hq, Nat.cast_sub (by omega), Nat.cast_natAbs, abs_of_nonpos hn]
        push_cast
        ring
      rw [nearest_of_neg hq, magnitude_rankOf_of_half (by omega) (by omega) habs,
        ← Int.cast_natCast, ← Int.cast_neg, Rat.floor_intCast]
      omega

/-- What a number is raised to on the grid of the integers is even, since the number itself lies on
that grid or on a coarser one. -/
theorem even_of_rankOf_add_half {v : Rat} {rank m : Nat} (hv : |v| = magnitude rank)
    (hle : 2 ^ 52 ≤ m) (hlt : m < 2 ^ 53) (h : rankOf (v + 1 / 2) = unitRank m) :
    m % 2 = 0 := by
  by_contra hodd
  obtain ⟨before, rfl⟩ : ∃ before, m = before + 1 := ⟨m - 1, by omega⟩
  have hbefore := magnitude_unitRank (show 2 ^ 52 ≤ before by omega) (by omega)
  have hthis := magnitude_unitRank hle hlt.le
  have hnext := magnitude_unitRank (show 2 ^ 52 ≤ before + 1 + 1 by omega) (by omega)
  have hbelow := middle_unitRank (show 2 ^ 52 ≤ before by omega) (by omega)
  have habove := middle_unitRank hle hlt
  unfold unitRank at *
  push_cast at *
  -- The sum lies strictly between the middles around its rank, which is odd.
  rw [← Nat.add_assoc] at h
  obtain ⟨hpast, hshort⟩ := between_of_rankOf_odd h (by omega)
  rw [hbelow] at hpast
  rw [Nat.add_assoc, habove] at hshort
  -- So the number lies strictly between two neighbours on that grid.
  rcases le_or_gt 0 v with hsign | hsign
  · rw [abs_of_nonneg (by linarith)] at hpast hshort
    rw [abs_of_nonneg hsign] at hv
    have hlow : magnitude (1074 * 2 ^ 52 + before) < magnitude rank := by linarith
    have hhigh : magnitude rank < magnitude (1074 * 2 ^ 52 + (before + 1)) := by linarith
    rw [magnitude_strictMono.lt_iff_lt] at hlow hhigh
    omega
  · have hneg : v + 1 / 2 < 0 := by
      by_contra hnonneg
      rw [abs_of_nonneg (not_lt.mp hnonneg)] at hpast
      have hfar : (0 : Rat) ≤ before := Nat.cast_nonneg _
      linarith
    rw [abs_of_neg hneg] at hpast hshort
    rw [abs_of_neg hsign] at hv
    have hlow : magnitude (1074 * 2 ^ 52 + (before + 1)) < magnitude rank := by linarith
    have hhigh : magnitude rank < magnitude (1074 * 2 ^ 52 + (before + 1 + 1)) := by linarith
    rw [magnitude_strictMono.lt_iff_lt] at hlow hhigh
    omega

/-- From the grid of the integers on, a number is raised to an even integer. -/
theorem exists_even_of_add_half {x : Binary64} {v : Rat} (hx : x.toRat? = some v)
    (h : unitRank (2 ^ 52) ≤ rankOf (v + 1 / 2)) :
    ∃ n : Int, nearest (v + 1 / 2) = n ∧ 2 ∣ n := by
  obtain ⟨rank, -, hv⟩ := exists_magnitude_of_toRat? hx
  obtain ⟨n, hn, heven⟩ : ∃ n : Nat, |nearest (v + 1 / 2)| = n ∧ 2 ∣ n := by
    rw [abs_nearest]
    by_cases hlater : evenRank ≤ rankOf (v + 1 / 2)
    · obtain ⟨n, hn⟩ := exists_even hlater
      exact ⟨2 * n, hn, Nat.dvd_mul_right 2 n⟩
    · obtain ⟨m, hm, hle, hlt⟩ :
          ∃ m, rankOf (v + 1 / 2) = unitRank m ∧ 2 ^ 52 ≤ m ∧ m < 2 ^ 53 := by
        unfold evenRank unitRank at *
        exact ⟨rankOf (v + 1 / 2) - 1074 * 2 ^ 52, by omega, by omega, by omega⟩
      refine ⟨m, ?_, Nat.dvd_of_mod_eq_zero (even_of_rankOf_add_half hv hle hlt hm)⟩
      rw [hm, magnitude_unitRank hle hlt.le]
  rcases abs_choice (nearest (v + 1 / 2)) with hsign | hsign
  · refine ⟨n, ?_, by omega⟩
    push_cast
    linarith
  · refine ⟨-n, ?_, by omega⟩
    push_cast
    linarith

/-! ## Integers that are numbers -/

/-- Whether an integer is a finite binary64 number. -/
def Holds (n : Int) : Prop := ∃ x : Binary64, x.toRat? = some (n : Rat)

/-- A half is a number. -/
theorem toRat?_half : Number.half.toRat? = some (1 / 2) := by
  decide +kernel

/-- An integer to which a number is rounded is a number. -/
theorem holds_of_nearest {q : Rat} {n : Int} (hrank : rankOf q < ranks) (h : nearest q = n) :
    Holds n := ⟨ofRat q, by rw [toRat?_ofRat, if_pos hrank, h]⟩

/-- What is a finite number is rounded to itself. -/
theorem Holds.ofInt {n : Int} (h : Holds n) :
    ∃ x, ofInt n = .ok x ∧ x.toRat? = some (n : Rat) := by
  obtain ⟨x, hx⟩ := h
  obtain ⟨rank, hranks, hn⟩ := exists_magnitude_of_toRat? hx
  have hround : (ofRat n).toRat? = some (n : Rat) := by
    rw [toRat?_ofRat, rankOf_of_magnitude hn, if_pos hranks, nearest_of_magnitude hn]
  exact ⟨ofRat n, ofInt_eq_ok_iff.mpr ⟨rfl, _, hround⟩, hround⟩

/-- Up to `2 ^ 53` nothing is rounded to infinity. -/
theorem rankOf_lt_ranks {q : Rat} (h : |q| ≤ 2 ^ 53) : rankOf q < ranks :=
  Nat.lt_of_le_of_lt (rankOf_le (magnitude_evenRank ▸ h)) (by decide)

/-- Integers of so few bits are finite numbers. -/
theorem holds_of_natAbs_lt {n : Int} (h : n.natAbs < 2 ^ 53) : Holds n := by
  obtain ⟨rank, hrank⟩ := exists_magnitude h 1074
  rw [spacing_one, mul_one, Nat.cast_natAbs, Int.cast_abs] at hrank
  refine holds_of_nearest (rankOf_lt_ranks ?_) (nearest_of_magnitude hrank.symm)
  rw [← Int.cast_abs, ← Nat.cast_natAbs]
  exact_mod_cast h.le

/-- A sum is finite only if its terms are. -/
theorem exists_toRat?_of_add {x y : Binary64} {w : Rat} (h : (x + y).toRat? = some w) :
    ∃ v, x.toRat? = some v := by
  cases x with
  | nan => cases h
  | infinite a =>
      cases y with
      | nan | finite => cases h
      | infinite b =>
          change (if a = b then infinite a else nan).toRat? = _ at h
          split at h <;> cases h
  | finite => exact ⟨_, rfl⟩

end Binary64

namespace Number

open Binary64

/-- Whether rounding leaves an integer alone: one with at most 52 bits, or an even one that is a
finite binary64 number. -/
def SurvivesRounding (n : Int) : Prop := n.natAbs < 2 ^ 52 ∨ 2 ∣ n ∧ Holds n

/-- A number is rounded to the integer below what is left of its sum with one half. -/
theorem roundHalfUp_eq_ok_iff {a b : Number} :
    a.roundHalfUp = .ok b ↔ ∃ x v, a.toBinary64 = .ok x ∧ x.toRat? = some v ∧
      rankOf (v + 1 / 2) < ranks ∧ b = .int (nearest (v + 1 / 2)).floor := by
  have hraised : a.roundHalfUp = (do
      let x ← a.toBinary64
      let n ← (x + half).floor
      return .int n) := by
    cases a with
    | int n => simp [roundHalfUp, add, rounded, toBinary64, floor]
    | real x => rfl
  simp only [hraised, bind_eq_ok_iff, floor_eq_ok_iff, pure_eq_ok, Except.ok.injEq]
  constructor
  · rintro ⟨x, hx, _, ⟨w, hw, rfl⟩, rfl⟩
    obtain ⟨v, hv⟩ := exists_toRat?_of_add hw
    rw [toRat?_add hv toRat?_half, toRat?_ofRat] at hw
    obtain ⟨hrank, rfl⟩ : rankOf (v + 1 / 2) < ranks ∧ nearest (v + 1 / 2) = w := by simpa using hw
    exact ⟨x, v, hx, hv, hrank, rfl⟩
  · rintro ⟨x, v, hx, hv, hrank, rfl⟩
    refine ⟨x, hx, _, ⟨nearest (v + 1 / 2), ?_, rfl⟩, rfl⟩
    rw [toRat?_add hv toRat?_half, toRat?_ofRat, if_pos hrank]

/-- What a number is rounded to is left alone by rounding. -/
theorem survivesRounding_of_roundHalfUp {a b : Number} (h : a.roundHalfUp = .ok b) :
    ∃ n, b = .int n ∧ SurvivesRounding n := by
  obtain ⟨x, v, -, hv, hranks, rfl⟩ := roundHalfUp_eq_ok_iff.mp h
  refine ⟨_, rfl, ?_⟩
  by_cases hunit : unitRank (2 ^ 52) ≤ rankOf (v + 1 / 2)
  · obtain ⟨n, hn, heven⟩ := exists_even_of_add_half hv hunit
    have hfloor : (nearest (v + 1 / 2)).floor = n := by rw [hn, Rat.floor_intCast]
    rw [hfloor]
    exact .inr ⟨heven, holds_of_nearest hranks hn⟩
  · have hshort : |nearest (v + 1 / 2)| < 2 ^ 52 := by
      have hlt := magnitude_strictMono (Nat.lt_of_not_le hunit)
      rw [magnitude_unitRank (Nat.le_refl _) (by decide)] at hlt
      rw [abs_nearest]
      exact_mod_cast hlt
    obtain ⟨hlow, hhigh⟩ := abs_lt.mp hshort
    have hlower : -2 ^ 52 ≤ (nearest (v + 1 / 2)).floor :=
      Rat.le_floor_iff.mpr (by push_cast; linarith)
    have hupper : (nearest (v + 1 / 2)).floor < 2 ^ 52 :=
      Rat.floor_lt_iff.mpr (by push_cast; linarith)
    by_cases hfirst : (nearest (v + 1 / 2)).floor = -2 ^ 52
    · rw [hfirst]
      exact .inr ⟨by decide, holds_of_natAbs_lt (by decide)⟩
    · exact .inl (by omega)

/-- Which integers rounding leaves alone. -/
theorem roundHalfUp_int_iff {n : Int} :
    roundHalfUp (.int n) = .ok (.int n) ↔ SurvivesRounding n := by
  constructor
  · intro h
    obtain ⟨m, hm, hsurvives⟩ := survivesRounding_of_roundHalfUp h
    rwa [Number.int.inj hm]
  · intro h
    have hholds : Holds n := h.elim (fun hsmall => holds_of_natAbs_lt (by omega)) And.right
    obtain ⟨x, hx, hv⟩ := hholds.ofInt
    suffices hraised : rankOf (n + 1 / 2) < ranks ∧ (nearest (n + 1 / 2)).floor = n from
      roundHalfUp_eq_ok_iff.mpr ⟨x, n, hx, hv, hraised.1, by rw [hraised.2]⟩
    by_cases hfar : 2 ^ 53 ≤ n.natAbs
    · obtain ⟨rank, hranks, hn⟩ := exists_magnitude_of_toRat? hv
      have heven : evenRank ≤ rank := by
        rw [← magnitude_strictMono.le_iff_le, magnitude_evenRank, ← hn, ← Int.cast_abs,
          ← Nat.cast_natAbs]
        exact_mod_cast hfar
      rw [rankOf_add_half hn heven, nearest_add_half_of_even hn heven, Rat.floor_intCast]
      exact ⟨hranks, rfl⟩
    · refine ⟨rankOf_lt_ranks ?_, ?_⟩
      · have hcast : |(n : Rat)| ≤ 2 ^ 53 - 1 := by
          rw [← Int.cast_abs, ← Nat.cast_natAbs]
          have hle : (n.natAbs : Rat) ≤ (2 ^ 53 - 1 : Nat) := by exact_mod_cast (by omega)
          exact hle.trans (by norm_num)
        have hhalf := abs_add_le (n : Rat) (1 / 2)
        rw [abs_of_pos (show (0 : Rat) < 1 / 2 by norm_num)] at hhalf
        linarith
      · by_cases hgrid : 2 ^ 52 ≤ n.natAbs
        · have heven : 2 ∣ n := (h.resolve_left (Nat.not_lt.mpr hgrid)).1
          rw [floor_nearest_add_half hgrid (Nat.lt_of_not_le hfar)]
          omega
        · rw [nearest_add_half_of_lt (by omega), floor_add_half]

end Number
end DiceNotation

import DiceNotation.Proofs.Number.Rounding

/-!
# Draws on the die

A draw from zero up to one shows a face of its range, however wide the range is.  Where the width is
rounded up, the magnitude before the one it is rounded to is still below the width; and the product
with a number less than one falls short of the rounded width by more than rounding makes up for, so
that it is rounded to that magnitude at most.

Main results:

- `Binary64.mul_lt_middle`: numbers less than one times a magnitude.
- `Binary64.nearest_mul_nearest`: a draw times a width, both rounded.
- `Table.draw_within`: every draw lies on the die.
-/

namespace DiceNotation
namespace Binary64

/-! ## Numbers less than one -/

/-- The rank of one. -/
def oneRank : Nat := 1023 * 2 ^ 52

theorem magnitude_oneRank : magnitude oneRank = 1 := by
  have hgrid := magnitude_grid (k := 1022) (m := 2 ^ 52) ⟨by decide, .inr (Nat.le_refl _)⟩
  rw [oneRank, show 1023 * 2 ^ 52 = 1022 * 2 ^ 52 + 2 ^ 52 by decide, hgrid, spacing]
  norm_num

/-- Magnitudes less than one are so by the spacing before it at least. -/
theorem magnitude_le_of_lt_one {rank : Nat} (h : magnitude rank < 1) :
    2 ^ 53 * magnitude rank ≤ 2 ^ 53 - 1 := by
  have hgrid := magnitude_grid (k := 1021) (m := 2 ^ 53 - 1) ⟨by decide, .inr (by decide)⟩
  rw [← magnitude_oneRank, magnitude_strictMono.lt_iff_lt, oneRank] at h
  have hle : magnitude rank ≤ magnitude (1021 * 2 ^ 52 + (2 ^ 53 - 1)) :=
    magnitude_strictMono.monotone (by omega)
  rw [hgrid, spacing] at hle
  norm_num at hle ⊢
  linarith

/-- Behind the magnitudes of the finest grid that leave out their first bit, the spacing is small
beside the magnitudes. -/
theorem magnitude_gap {rank : Nat} (h : 2 ^ 52 ≤ rank) :
    2 ^ 52 * (magnitude (rank + 1) - magnitude rank) < magnitude (rank + 1) := by
  obtain ⟨k, m, rfl, hlt, hgrid⟩ := exists_onGrid rank
  have hnormal : 2 ^ 52 ≤ m := by
    have hnormal := hgrid.normal
    omega
  have hnormalRat : (2 ^ 52 : Rat) ≤ m := by exact_mod_cast hnormal
  rw [magnitude_succ_grid hgrid hlt, magnitude_grid hgrid]
  nlinarith [spacing_pos k]

/-- What is less than one makes a magnitude smaller by more than rounding makes up for. -/
theorem mul_lt_middle {i rank : Nat} (hi : magnitude i < 1) (hrank : 2 ^ 52 ≤ rank) :
    magnitude i * magnitude (rank + 1) < middle rank := by
  have hnonneg := magnitude_nonneg rank
  have hlt := magnitude_strictMono (Nat.lt_succ_self rank)
  have hmul := mul_le_mul_of_nonneg_right (magnitude_le_of_lt_one hi) (hnonneg.trans hlt.le)
  have hgap := magnitude_gap hrank
  rw [middle]
  linarith

/-! ## Widths -/

/-- What is at least one is rounded to such a number. -/
theorem oneRank_le_rankOf {w : Rat} (hw : 1 ≤ w) : oneRank ≤ rankOf w := by
  apply le_rankOf
  rwa [magnitude_oneRank, abs_of_nonneg (zero_le_one.trans hw)]

/-- A number less than one times a rounded width, rounded in turn, stays below the width. -/
theorem nearest_mul_nearest {x : Binary64} {p w : Rat} (hx : x.toRat? = some p) (hp : 0 ≤ p)
    (hlt : p < 1) (hw : 1 ≤ w) :
    rankOf (p * nearest w) < rankOf w ∧ 0 ≤ nearest (p * nearest w) ∧
      nearest (p * nearest w) < w := by
  have hwidth : 0 ≤ w := zero_le_one.trans hw
  have hone := oneRank_le_rankOf hw
  unfold oneRank at hone
  obtain ⟨i, -, hi⟩ := exists_magnitude_of_toRat? hx
  obtain rfl : p = magnitude i := by rwa [abs_of_nonneg hp] at hi
  obtain ⟨before, hbefore⟩ := Nat.exists_eq_succ_of_ne_zero (show rankOf w ≠ 0 by omega)
  have hproduct : 0 ≤ magnitude i * magnitude (before + 1) :=
    mul_nonneg (magnitude_nonneg _) (magnitude_nonneg _)
  have hrank : rankOf (magnitude i * magnitude (before + 1)) ≤ before := by
    apply rankOf_le_of_lt
    rw [abs_of_nonneg hproduct]
    exact mul_lt_middle hlt (by omega)
  -- The width may lie below the number it is rounded to, but not below the one before.
  have hbelow : magnitude before < w := by
    by_contra hle
    have hback : rankOf w ≤ before := by
      apply rankOf_le
      rw [abs_of_nonneg hwidth]
      exact not_lt.mp hle
    omega
  rw [nearest_of_nonneg hwidth, hbefore, nearest_of_nonneg hproduct]
  exact ⟨Nat.lt_succ_of_le hrank, magnitude_nonneg _,
    (magnitude_strictMono.monotone hrank).trans_lt hbelow⟩

end Binary64

namespace Table

open Binary64

section Draws

variable {x : Binary64} {p : Rat} {least greatest : Int}

/-- What a draw shows on a range whose width is rounded to a finite number. -/
theorem place_eq_ok (hx : x.toRat? = some p) (hp : 0 ≤ p) (hlt : p < 1) (hle : least ≤ greatest)
    {width : Int} (hwidth : width = greatest - least + 1)
    (hfinite : ∃ rounded, ofInt width = .ok rounded) :
    place x least greatest = .ok ((nearest (p * nearest width)).floor + least) := by
  obtain ⟨_, hrounded⟩ := hfinite
  obtain ⟨rfl, v, hv⟩ := ofInt_eq_ok_iff.mp hrounded
  have hone : (1 : Rat) ≤ width := by exact_mod_cast (by omega : 1 ≤ width)
  obtain ⟨hrank, -, -⟩ := nearest_mul_nearest hx hp hlt hone
  obtain ⟨hranks, rfl⟩ : rankOf width < ranks ∧ nearest width = v := by
    simpa [toRat?_ofRat] using hv
  have hfloor : (x * ofRat width).floor = .ok (nearest (p * nearest width)).floor := by
    rw [floor_eq_ok_iff, toRat?_mul hx hv, toRat?_ofRat, if_pos (hrank.trans hranks)]
    exact ⟨_, rfl, rfl⟩
  rw [place, ← hwidth, hrounded, ok_bind, hfloor]
  rfl

/-- Every draw lies on the die: of a range whose width is rounded to a finite number, any number
from zero up to one shows a face that is neither below the least nor above the greatest.  The width
and the product are rounded, each once, and the rest is exact. -/
theorem draw_within {table : Table} {tally : Tally} (hsource : table.source tally.drawn = some x)
    (hx : x.toRat? = some p) (hp : 0 ≤ p) (hlt : p < 1) (hle : least ≤ greatest)
    (hfinite : ∃ rounded, ofInt (greatest - least + 1) = .ok rounded) :
    ∃ face, (table.draw least greatest).run tally =
        .ok face { tally with drawn := tally.drawn + 1 } ∧
      least ≤ face ∧ face ≤ greatest ∧
      face = (nearest (p * nearest (greatest - least + 1 : Int))).floor + least := by
  have hplace := place_eq_ok hx hp hlt hle rfl hfinite
  have hone : (1 : Rat) ≤ (greatest - least + 1 : Int) := by
    exact_mod_cast (by omega : 1 ≤ greatest - least + 1)
  obtain ⟨-, hnonneg, hbelow⟩ := nearest_mul_nearest hx hp hlt hone
  have hlower : 0 ≤ (nearest (p * nearest (greatest - least + 1 : Int))).floor :=
    Rat.le_floor_iff.mpr (by exact_mod_cast hnonneg)
  have hupper : (nearest (p * nearest (greatest - least + 1 : Int))).floor <
      greatest - least + 1 := Rat.floor_lt_iff.mpr hbelow
  refine ⟨_, ?_, by omega, by omega, rfl⟩
  rw [draw, EStateM.run_bind, run_nextDraw, hsource]
  simp [hplace]

end Draws

/-- A table on which every draw is the greatest number less than one. -/
def utmost : Table where
  source := fun _ => some (.finite false ⟨oneRank - 1, by decide⟩)

/-- The greatest draw shows the greatest face, also where the width is rounded up. -/
theorem draw_within_roundedUp :
    ∃ face, (utmost.draw 1 (2 ^ 53 + 3)).run {} = .ok face { drawn := 1 } ∧
      1 ≤ face ∧ face ≤ 2 ^ 53 + 3 ∧ face = 2 ^ 53 + 3 := by
  have hsource : utmost.source ({} : Tally).drawn =
      some (.finite false ⟨oneRank - 1, by decide⟩) := rfl
  have hx : (Binary64.finite false ⟨oneRank - 1, by decide⟩).toRat? =
      some ((2 ^ 53 - 1) / 2 ^ 53) := by
    decide +kernel
  have hfinite : ofInt (2 ^ 53 + 3 - 1 + 1) =
      .ok (.finite false ⟨1076 * 2 ^ 52 + 2, by decide⟩) := by
    decide +kernel
  obtain ⟨face, hrun, hleast, hgreatest, hface⟩ :=
    draw_within hsource hx (by norm_num) (by norm_num) (by norm_num) ⟨_, hfinite⟩
  refine ⟨face, hrun, hleast, hgreatest, ?_⟩
  rw [hface]
  decide +kernel

end Table
end DiceNotation

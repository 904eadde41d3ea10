import DiceNotation.Number.Basic
import Mathlib.Algebra.Order.Ring.Cast
import Mathlib.Algebra.Order.Ring.Rat
import Mathlib.Order.WithBot

/-!
# The order of numbers

Integers and binary64 numbers, infinities included, lie on one line, and comparing them compares
where they lie there.  Only what is not a number has no place on the line.

Main definitions:

- `Number.height`: where a number lies.

Main results:

- `Number.lt_eq_decide`, `Number.eqv_iff`: numbers compare as their heights do.
-/

namespace DiceNotation
namespace Number

/-- Where a point lies on the line. -/
def Point.height : Point → WithBot (WithTop ℚ)
  | .bottom => ⊥
  | .rational q => ((q : WithTop ℚ) : WithBot (WithTop ℚ))
  | .top => ((⊤ : WithTop ℚ) : WithBot (WithTop ℚ))

/-- Points are compared by their heights. -/
theorem Point.lt_eq_decide (p q : Point) : p.lt q = decide (p.height < q.height) := by
  have htop (r : ℚ) : ((r : WithTop ℚ) : WithBot (WithTop ℚ)) < ⊤ :=
    WithBot.coe_lt_coe.mpr (WithTop.coe_lt_top r)
  cases p <;> cases q <;> simp [Point.lt, Point.height, htop]

/-- Points of one height are one. -/
theorem Point.height_inj {p q : Point} : p.height = q.height ↔ p = q := by
  cases p <;> cases q <;> simp [Point.height]

/-- Where a number lies on the line; what is not a number is put below all others. -/
def height (a : Number) : WithBot (WithTop ℚ) := (a.point?.map Point.height).getD ⊥

/-- Whatever is a number has a point, and lies there. -/
theorem exists_point {a : Number} (h : a.isNan = false) :
    ∃ p, a.point? = some p ∧ a.height = p.height := by
  suffices hpoint : ∃ p, a.point? = some p by
    obtain ⟨p, hp⟩ := hpoint
    exact ⟨p, hp, by rw [height, hp]; rfl⟩
  cases a with
  | int n => exact ⟨_, rfl⟩
  | real x =>
      cases x with
      | nan => simp [isNan] at h
      | infinite negative => exact ⟨_, rfl⟩
      | finite negative rank => exact ⟨_, rfl⟩

section Comparable

variable {a b : Number} (ha : a.isNan = false) (hb : b.isNan = false)
include ha hb

/-- Numbers compare as their heights do. -/
theorem lt_eq_decide : a.lt b = decide (a.height < b.height) := by
  obtain ⟨p, hp, hheight⟩ := exists_point ha
  obtain ⟨q, hq, hheight'⟩ := exists_point hb
  rw [hheight, hheight', ← Point.lt_eq_decide]
  cases a with
  | int m =>
      cases b with
      | int n =>
          cases hp
          cases hq
          simp [Point.lt]
      | real y => simp [lt, hp, hq]
  | real x => simp [lt, hp, hq]

/-- What is not less is at least as high. -/
theorem lt_eq_false_iff : a.lt b = false ↔ b.height ≤ a.height := by
  rw [lt_eq_decide ha hb, decide_eq_false_iff_not, not_lt]

/-- Numbers are equal where their heights are. -/
theorem eqv_iff : a.eqv b = true ↔ a.height = b.height := by
  obtain ⟨p, hp, hheight⟩ := exists_point ha
  obtain ⟨q, hq, hheight'⟩ := exists_point hb
  rw [hheight, hheight', Point.height_inj]
  cases a with
  | int m =>
      cases b with
      | int n =>
          cases hp
          cases hq
          simp
      | real y => simp [eqv, hp, hq]
  | real x => simp [eqv, hp, hq]

end Comparable

end Number
end DiceNotation

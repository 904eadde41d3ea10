import DiceNotation.Proofs.Dice.Allowance
import DiceNotation.Proofs.Evaluation.Session

/-!
# Texts under two limits

A text that is resolved with some dice left does what it does with more dice left, unless it
announces more dice than the fewer.  Then, and only then, it fails for the limit.  A limit that
is too long to be written keeps this as well, but cannot be blamed by name.

Main results:

- `Expression.tracks_resolve`: a text under two limits.
- `Expression.resolve_with_more_left`: only the dice that are left matter.
- `Expression.exists_limit_not_blamed`: a limit that is passed and not blamed.
-/

namespace DiceNotation
namespace Expression

variable {limit limit' : Int} {tally tally' : Tally}

/-- What a text does under two limits compares. -/
theorem tracks_resolve (source : Source) (limit limit' : Int) (markup : Markup) (text : Text) :
    Roll.Tracks limit limit' (resolve { source, limit := some limit } markup text)
      (resolve { source, limit := some limit' } markup text) := by
  have hR : Table.Alike (Roll.Tracks limit limit') limit { source, limit := some limit }
      { source, limit := some limit' } := Table.alike_tracks rfl rfl rfl
  exact hR.resolve markup text

/-- Only the dice that are left matter.  From two tallies with as many draws made, of which the
first has no more dice left than the second, a text comes to the same, unless it blames the first
limit; and it blames the first limit exactly if it announces, from the second tally, more dice
than the first has left.  A limit of more digits than are written is passed by the same texts,
but they fail for the number that cannot be written. -/
theorem resolve_with_more_left (source : Source) (markup : Markup) (text : Text)
    (hwithin : tally.Within limit limit' tally') :
    let left := limit - tally.announced
    let first := (resolve { source, limit := some limit } markup text).attempt tally
    let second := (resolve { source, limit := some limit' } markup text).attempt tally'
    let spent := second.tally.announced - tally'.announced
    let blames := ∃ blamed, first.answer = .error (.overBudget blamed)
    ((Nat.toDigits 10 limit.natAbs).length ≤ Numeral.digitLimit →
      (¬ blames → first.Repeats tally tally' second) ∧ (blames ↔ left < spent)) ∧
    (Numeral.digitLimit < (Nat.toDigits 10 limit.natAbs).length →
      (spent ≤ left → first.Repeats tally tally' second) ∧
      (left < spent → first.answer = .error .numeralTooLong)) := by
  intro left first second spent blames
  have htracks := tracks_resolve source limit limit' markup text
  have hrepeats : spent ≤ left → first.Repeats tally tally' second :=
    htracks.repeats tally tally' hwithin
  have hexceeds : left < spent → first.answer = .error (Table.excess limit) :=
    htracks.exceeds tally tally' hwithin
  constructor
  · intro hshort
    have hexcess : Table.excess limit = .overBudget limit := by
      rw [Table.excess_eq, if_neg (Nat.not_lt.mpr hshort)]
    have hiff : blames ↔ left < spent := by
      constructor
      · rintro ⟨blamed, hblamed⟩
        refine Int.not_le.mp fun hspent => ?_
        -- both attempts would blame a limit, but the second has not passed its own
        have hsame : first.answer = second.answer := (hrepeats hspent).answer_eq
        have hpassed : limit' < second.tally.announced :=
          (accounted_resolve rfl markup text).passed (hsame.symm.trans hblamed)
        have hle := hwithin.left_le
        omega
      · intro hspent
        exact ⟨limit, by rw [hexceeds hspent, hexcess]⟩
    refine ⟨fun hnot => hrepeats ?_, hiff⟩
    exact Int.not_lt.mp fun hspent => hnot (hiff.mpr hspent)
  · intro hlong
    refine ⟨hrepeats, fun hspent => ?_⟩
    rw [hexceeds hspent, Table.excess_eq, if_pos hlong]

/-- With one die left two dice are too many; with six left they are not. -/
theorem resolve_with_more_left_twoDice :
    Tally.Within 3 10 { announced := 2 } { announced := 4 } ∧
    ∃ blamed, ((resolve { source := fun _ => some Number.half, limit := some 3 } .plain
      ['2', 'd', '6']).attempt { announced := 2 }).answer = .error (.overBudget blamed) := by
  have hwithin : Tally.Within 3 10 { announced := 2 } { announced := 4 } :=
    ⟨rfl, by decide, by decide⟩
  have hsecond : ((resolve { source := fun _ => some Number.half, limit := some 10 } .plain
      ['2', 'd', '6']).attempt { announced := 4 }).tally.announced = 6 := by
    decide +kernel
  have h := resolve_with_more_left (fun _ => some Number.half) .plain ['2', 'd', '6'] hwithin
  refine ⟨hwithin, ((h.1 (by decide)).2).mpr ?_⟩
  rw [hsecond]
  decide

/-- A limit of more digits than are written is passed without being blamed. -/
theorem exists_limit_not_blamed :
    ∃ (limit limit' : Int) (tally tally' : Tally), tally.Within limit limit' tally' ∧
      limit - tally.announced <
        ((resolve { source := fun _ => none, limit := some limit' } .plain
          ['2', 'd', '6']).attempt tally').tally.announced - tally'.announced ∧
      ∀ blamed, ((resolve { source := fun _ => none, limit := some limit } .plain
        ['2', 'd', '6']).attempt tally).answer ≠ .error (.overBudget blamed) := by
  have hlongest : ∀ digits, 0 < digits →
      ∃ limit : Int, digits < (Nat.toDigits 10 limit.natAbs).length := by
    intro digits hdigits
    refine ⟨10 ^ digits, ?_⟩
    rw [← Nat.not_le, Nat.length_toDigits_le_iff (by decide) hdigits, Int.natAbs_pow]
    exact Nat.lt_irrefl _
  obtain ⟨limit, hlong⟩ := hlongest Numeral.digitLimit (by decide)
  have hspent : ((resolve { source := fun _ => none, limit := some 10 } .plain
      ['2', 'd', '6']).attempt {}).tally.announced = 2 := by
    decide +kernel
  have hwithin : Tally.Within limit 10 { announced := limit } {} :=
    ⟨rfl, by simp, by simp⟩
  have hless : limit - limit <
      ((resolve { source := fun _ => none, limit := some 10 } .plain
        ['2', 'd', '6']).attempt {}).tally.announced - 0 := by
    rw [hspent]
    omega
  refine ⟨limit, 10, { announced := limit }, {}, hwithin, hless, fun blamed hblamed => ?_⟩
  have hexceeds := (tracks_resolve _ limit 10 _ _).exceeds _ _ hwithin hless
  rw [hexceeds, Table.excess_eq, if_pos hlong] at hblamed
  cases hblamed

end Expression
end DiceNotation

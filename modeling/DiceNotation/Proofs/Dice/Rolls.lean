import DiceNotation.Proofs.Dice.Growth

/-!
# Rolls

On a table with a limit and a source that never runs dry, dice that have a range of faces can be
rolled, and the only number that may go out of range is one that is too long to be written or too
large to be rounded.

Main definitions:

- `Fault.IsForeseen`: the user's faults, and numbers that go out of range.
- `Fault.IsOfNumbers`: those of them that working with numbers comes to.
- `Source.IsUnit`: a source of draws from zero up to one.
- `Die.IsRolled`: a die of a range that has been rolled.

Main results:

- `Table.gives_place`: a finite draw has a place on any range.
- `Table.rolls_within`: dice with a range of faces can be rolled under a limit.
-/

namespace DiceNotation

/-! ## Faults -/

/-- Whether a fault is the user's to mend, or that of a number out of range. -/
def Fault.IsForeseen : Fault → Prop
  | .malformed .. => True
  | .impossible _ => True
  | .overBudget _ => True
  | .numeralTooLong => True
  | .unguarded .tooLarge => True
  | _ => False

/-- Whether a fault is that of numbers without a result: one is out of range, or there is none. -/
def Fault.IsOfNumbers : Fault → Prop
  | .impossible .matchingNothing => True
  | .impossible .totalOfNothing => True
  | .impossible (.arithmetic _) => True
  | .numeralTooLong => True
  | .unguarded .tooLarge => True
  | _ => False

/-- A fault of numbers is foreseen. -/
theorem Fault.IsOfNumbers.isForeseen {fault : Fault} (h : fault.IsOfNumbers) :
    fault.IsForeseen := by
  cases fault with
  | impossible | numeralTooLong => trivial
  | unguarded cause => cases cause <;> exact h
  | _ => exact h.elim

/-- What holds of writing an integer. -/
theorem Numeral.gives_write (n : Int) :
    Gives (Numeral.write n) (fun _ => True) Fault.IsOfNumbers := by
  unfold Numeral.write
  split <;> trivial

/-! ## Draws -/

/-- A source that never runs dry, of draws from zero up to one. -/
def Source.IsUnit (source : Source) : Prop :=
  ∀ n, ∃ x q, source n = some x ∧ x.toRat? = some q ∧ 0 ≤ q ∧ q < 1

namespace Binary64

/-- A number with a value is finite. -/
theorem toRat?_eq_some {x : Binary64} {q : Rat} (h : x.toRat? = some q) :
    ∃ negative rank, x = .finite negative rank := by
  cases x with
  | nan | infinite => simp [toRat?] at h
  | finite negative rank => exact ⟨negative, rank, rfl⟩

/-- Rounding always gives a number. -/
theorem round_ne_nan (negative : Bool) (q : Rat) : round negative q ≠ .nan := by
  unfold round
  dsimp only
  split <;> simp

/-- An integer is rounded to a finite number, unless it is too large. -/
theorem gives_ofInt (n : Int) :
    Gives (ofInt n) (fun x => ∃ negative rank, x = .finite negative rank) (· = .tooLarge) := by
  have hnan : ofRat n ≠ .nan := round_ne_nan _ _
  unfold ofInt
  cases hround : ofRat n with
  | nan => exact absurd hround hnan
  | infinite negative => exact rfl
  | finite negative rank => exact ⟨negative, rank, rfl⟩

/-- A product of finite numbers is an integer once it is cut, unless it is too large. -/
theorem gives_floor_mul (a b : Bool) (i j : Fin ranks) :
    Gives (mul (.finite a i) (.finite b j)).floor (fun _ => True) (· = .tooLarge) := by
  have hnan := round_ne_nan (a != b) (magnitude i * magnitude j)
  rw [mul]
  cases hround : round (a != b) (magnitude i * magnitude j) with
  | nan => exact absurd hround hnan
  | infinite negative => exact rfl
  | finite negative rank => trivial

end Binary64

/-- Whether a die has a range of faces and has been rolled. -/
structure Die.IsRolled (die : Die) : Prop where
  faces : ∃ least greatest, die.faces = .range least greatest
  rolls : die.rolls ≠ []

namespace Table

variable {table : Table}

/-- A finite draw has a place on any range, unless a number on the way is too large. -/
theorem gives_place (negative : Bool) (rank : Fin Binary64.ranks) (least greatest : Int) :
    Gives (place (.finite negative rank) least greatest) (fun _ => True) (· = .tooLarge) := by
  unfold place
  refine (Binary64.gives_ofInt _).bind ?_
  rintro _ - ⟨negative', rank', rfl⟩
  exact (Binary64.gives_floor_mul ..).bind fun _ _ _ => trivial

/-- On a table with a limit and a source that never runs dry, dice with a range of faces can be
rolled. -/
theorem rolls_within {limit : Int} (hsource : table.source.IsUnit)
    (hlimit : table.limit = some limit) : table.Rolls Faces.IsRange Fault.IsForeseen where
  announce := ends_announce fun limit => by
    rw [excess_eq]
    split <;> trivial
  drawFace := by
    rintro _ ⟨least, greatest, rfl⟩ tally
    obtain ⟨x, q, hx, hq, -, -⟩ := hsource tally.drawn
    obtain ⟨negative, rank, rfl⟩ := Binary64.toRat?_eq_some hq
    refine ends_draw (fun hdry => absurd (hx.symm.trans hdry) (by simp)) ?_
    intro y hy
    obtain rfl := Option.some.inj (hx.symm.trans hy)
    refine (gives_place negative rank least greatest).imp (fun _ _ h => h) ?_
    rintro _ rfl
    trivial
  threshold := fun _ hfaces => Die.gives_threshold hfaces
  unsettled := fun hnone => absurd (hlimit.symm.trans hnone) (by simp)

end Table
end DiceNotation

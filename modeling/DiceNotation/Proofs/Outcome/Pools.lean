import DiceNotation.Evaluation.Selection
import DiceNotation.Proofs.Evaluation.Compound
import DiceNotation.Proofs.Dice.Turns
import DiceNotation.Proofs.Number.Bounds

/-!
# Outcomes of dice

A die that has been rolled has an outcome exactly if no number in its text is too long: none of its
rolls, and behind several of them not their sum.

Main definitions:

- `Die.IsLong`, `Die.IsWritten`: dice with a number that is too long, and dice with a text.

Main results:

- `Die.gives_bareText`, `Die.exists_bareText_iff`: the rolls of a die, written.
- `Outcome.gives_ofPool`, `Outcome.exists_ofPool_iff`: the outcomes of a pool, and when it has them.
- `Value.collapse_pool_written`, `Value.collapse_pool_long`: the total of dice that can be written,
  and of dice of which one is long.
-/

namespace DiceNotation

/-- An integer is written exactly if it is not too long. -/
theorem Numeral.gives_write_long (n : Int) :
    Gives (write n) (fun _ => n.natAbs < 10 ^ digitLimit) fun fault =>
      fault = .numeralTooLong ∧ 10 ^ digitLimit ≤ n.natAbs := by
  have hwrite := write_eq_ok_iff (n := n)
  unfold write at hwrite ⊢
  split
  · next hlong =>
      simp only [hlong, if_true, reduceCtorEq, exists_false, false_iff, Nat.not_lt] at hwrite
      exact ⟨rfl, hwrite⟩
  · next hshort =>
      simp only [hshort, if_false, Except.ok.injEq, exists_eq', true_iff] at hwrite
      exact hwrite

namespace Die

/-- Whether a number in the text of a die is too long. -/
def IsLong (die : Die) : Prop :=
  (∃ roll ∈ die.rolls, 10 ^ Numeral.digitLimit ≤ roll.natAbs) ∨
    10 ^ Numeral.digitLimit ≤ die.value.natAbs

/-- No number in the text of a die is too long if its rolls and their sum are not. -/
theorem not_isLong_iff {die : Die} :
    ¬ die.IsLong ↔ (∀ roll ∈ die.rolls, roll.natAbs < 10 ^ Numeral.digitLimit) ∧
      die.value.natAbs < 10 ^ Numeral.digitLimit := by
  simp [IsLong, not_or]

/-- Whether the text of a die can be written: it has been rolled, and no number is too long. -/
structure IsWritten (die : Die) : Prop where
  rolled : die.rolls ≠ []
  short : ¬ die.IsLong

/-- The rolls of a die that has been rolled are written exactly if no number is too long. -/
theorem gives_bareText {die : Die} (hrolled : die.rolls ≠ []) :
    Gives die.bareText (fun _ => ¬ die.IsLong) fun fault =>
      fault = .numeralTooLong ∧ die.IsLong := by
  have hwrite : ∀ roll ∈ die.rolls, Gives (Numeral.write roll)
      (fun _ => roll.natAbs < 10 ^ Numeral.digitLimit)
      fun fault => fault = .numeralTooLong ∧ die.IsLong := fun roll hroll =>
    (Numeral.gives_write_long roll).imp (fun _ _ h => h) fun _ h => ⟨h.1, .inl ⟨roll, hroll, h.2⟩⟩
  have hsum : Gives die.sumText (fun _ => die.value.natAbs < 10 ^ Numeral.digitLimit)
      fun fault => fault = .numeralTooLong ∧ die.IsLong :=
    ((Numeral.gives_write_long die.value).imp (fun _ _ h => h)
      fun _ h => ⟨h.1, .inr h.2⟩).bind fun _ _ h => h
  unfold bareText
  split
  · next hnone => exact absurd hnone hrolled
  · next first rest hrolls =>
      rw [not_isLong_iff, hrolls]
      rw [hrolls] at hwrite
      obtain ⟨hfirst, hrest⟩ := List.forall_mem_cons.mp hwrite
      refine hfirst.bind fun head _ hhead => ?_
      have htail : Gives (rest.mapM rollText)
          (fun _ => ∀ roll ∈ rest, roll.natAbs < 10 ^ Numeral.digitLimit)
          fun fault => fault = .numeralTooLong ∧ die.IsLong := by
        refine Gives.mapM
          (P := fun (read : List Int) _ => ∀ roll ∈ read, roll.natAbs < 10 ^ Numeral.digitLimit)
          (by simp) ?_
        intro read _ roll hroll hread
        refine (hrest roll hroll).bind fun _ _ hshort => ?_
        exact gives_ok.mpr (List.forall_mem_append.mpr ⟨hread, by simpa using hshort⟩)
      refine htail.bind fun tail _ htail => ?_
      have hshort : ∀ roll ∈ first :: rest, roll.natAbs < 10 ^ Numeral.digitLimit :=
        List.forall_mem_cons.mpr ⟨hhead, htail⟩
      dsimp only
      split
      · next hsingle =>
          -- A single roll is all of the value.
          have hvalue : die.value = first := by simp [value, hrolls, List.isEmpty_iff.mp hsingle]
          exact gives_ok.mpr ⟨hshort, by rwa [hvalue]⟩
      · exact hsum.bind fun _ _ hvalue => gives_ok.mpr ⟨hshort, hvalue⟩

/-- The rolls of a die can be written just when it has been rolled and no number among them is too
long. -/
theorem exists_bareText_iff {die : Die} : (∃ bare, die.bareText = .ok bare) ↔ die.IsWritten := by
  by_cases hrolled : die.rolls = []
  · have hbare : die.bareText = .error .noSuchPlace := by rw [bareText, hrolled]
    simp only [hbare, reduceCtorEq, exists_false, false_iff]
    exact fun h => h.rolled hrolled
  · have hgives := gives_bareText hrolled
    cases hbare : die.bareText with
    | ok bare =>
        rw [hbare, gives_ok] at hgives
        exact iff_of_true ⟨bare, rfl⟩ ⟨hrolled, hgives⟩
    | error fault =>
        rw [hbare] at hgives
        exact iff_of_false (by simp) fun h => h.short hgives.2

end Die

namespace Outcome

variable {dice : List Die}

/-- The outcomes of dice stand as the dice do. -/
theorem gives_ofPool (markup : Markup) (hrolled : ∀ die ∈ dice, die.rolls ≠ []) :
    Gives (ofPool dice markup) (fun outcomes => outcomes.map standing = dice.map Die.standing)
      fun fault => fault = .numeralTooLong ∧ ∃ die ∈ dice, die.IsLong := by
  refine Gives.mapM (P := fun dice outcomes => outcomes.map standing = dice.map Die.standing) rfl ?_
  intro read made die hdie hmade
  have hbare : Gives die.bareText (fun _ => True)
      fun fault => fault = .numeralTooLong ∧ ∃ die ∈ dice, die.IsLong :=
    (Die.gives_bareText (hrolled die hdie)).imp (fun _ _ _ => trivial)
      fun _ h => ⟨h.1, die, hdie, h.2⟩
  have htext : Gives (die.text markup) (fun _ => True)
      fun fault => fault = .numeralTooLong ∧ ∃ die ∈ dice, die.IsLong :=
    hbare.bind fun _ _ _ => trivial
  refine htext.bind fun text _ _ => ?_
  simp [hmade, standing, Die.standing]

/-- Dice have outcomes exactly if their rolls can be written. -/
theorem ofPool_eq_ok_iff (markup : Markup) (dice : List Die) :
    (∃ outcomes, ofPool dice markup = .ok outcomes) ↔
      ∀ die ∈ dice.map Die.unmarked, ∃ bare, die.bareText = .ok bare := by
  unfold ofPool
  rw [exists_mapM_eq_ok_iff, List.forall_mem_map]
  refine forall₂_congr fun die _ => ?_
  have hbare : die.unmarked.bareText = die.bareText := rfl
  rw [hbare, Die.outcome, Die.text]
  cases die.bareText <;> simp

/-- Dice have outcomes exactly if their texts can be written. -/
theorem exists_ofPool_iff (markup : Markup) (dice : List Die) :
    (∃ outcomes, ofPool dice markup = .ok outcomes) ↔ ∀ die ∈ dice, die.IsWritten := by
  rw [ofPool_eq_ok_iff, List.forall_mem_map]
  refine forall₂_congr fun die _ => ?_
  have hbare : die.unmarked.bareText = die.bareText := rfl
  rw [hbare, Die.exists_bareText_iff]

end Outcome

namespace Value

variable {markup : Markup} {dice : List Die}

/-- The total of dice that have outcomes. -/
theorem collapse_pool_outcomes {outcomes : List Outcome}
    (houtcomes : Outcome.ofPool dice markup = .ok outcomes)
    (hrolled : ∀ die ∈ dice, die.rolls ≠ []) (hne : dice ≠ []) :
    (pool dice).collapse markup = .ok
      { value := .int (Die.shares dice).sum, text := Outcome.listText outcomes Outcome.plus } := by
  have hgives := Outcome.gives_ofPool markup hrolled
  rw [houtcomes] at hgives
  have hsome : outcomes ≠ [] := by
    rintro rfl
    exact hne (List.map_eq_nil_iff.mp (Eq.symm hgives))
  exact collapse_pool_eq_ok_iff.mpr ⟨outcomes, houtcomes, hsome, rfl⟩

/-- A pool has no total if its dice have no outcomes. -/
theorem collapse_pool_error {fault : Fault} (h : Outcome.ofPool dice markup = .error fault) :
    (pool dice).collapse markup = .error fault := by
  have hentries : (pool dice).entries markup = .error fault := h
  rw [collapse, hentries, error_bind]
  simp

/-- The total of dice that can be written. -/
theorem collapse_pool_written (markup : Markup) (hwritten : ∀ die ∈ dice, die.IsWritten)
    (hne : dice ≠ []) :
    ∃ text, (pool dice).collapse markup = .ok { value := .int (Die.shares dice).sum, text } := by
  obtain ⟨outcomes, houtcomes⟩ := (Outcome.exists_ofPool_iff markup dice).mpr hwritten
  exact ⟨_, collapse_pool_outcomes houtcomes (fun die hdie => (hwritten die hdie).rolled) hne⟩

/-- Dice that have been rolled have no total if one of them is long. -/
theorem collapse_pool_long (markup : Markup) (hrolled : ∀ die ∈ dice, die.rolls ≠ [])
    (hlong : ∃ die ∈ dice, die.IsLong) :
    (pool dice).collapse markup = .error .numeralTooLong := by
  have hgives := Outcome.gives_ofPool markup hrolled
  cases houtcomes : Outcome.ofPool dice markup with
  | ok outcomes =>
      obtain ⟨die, hdie, hlong⟩ := hlong
      have hwritten := (Outcome.exists_ofPool_iff markup dice).mp ⟨outcomes, houtcomes⟩
      exact absurd hlong (hwritten die hdie).short
  | error fault =>
      rw [houtcomes] at hgives
      exact hgives.1 ▸ collapse_pool_error houtcomes

end Value

end DiceNotation

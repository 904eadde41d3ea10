import DiceNotation.Proofs.Expression.Literal
import Mathlib.Data.List.Chain

/-!
# Dice as they are written

Dice are written as their count, `d`, their sides, the modifiers in the order in which they act,
and at most one score.  Every number may be written with leading zeros, and the number of a
condition with a sign.  The count may be left out, of the dice and of a selection by size; it is
then one.  So may the point at which dice explode, which is then their highest face, and its
comparison, which is then equality.

Conditions of one reroll or of one selection are written one after the other, each behind the
mark.  So a modifier that continues such a chain cannot be told from more conditions of it; and an
explosion without a point takes the mark of another explosion for its own, or the condition of a
score for its point.

Main definitions:

- `WrittenInteger`, `WrittenNumber`: integers and numbers as they may be written.
- `WrittenCondition`, `WrittenPoint`, `WrittenModifier`, `WrittenScore`: what they stand behind.
- `WrittenModifier.Continues`: whether a modifier is written as more of the one before.
- `WrittenModifier.TakesIn`: whether a score is written as more of the modifier before.
- `WrittenDice`: dice with modifiers and a score of which none is taken for more of the one before.

Main results:

- `WrittenInteger.read_text`: a written integer has its value.
- `WrittenInteger.value_ofInt`, `WrittenNumber.value_ofNat`: every integer and every number that
  is not too long can be written.
-/

namespace DiceNotation

/-! ## Numbers -/

/-- An integer as it may be written, of no more digits than are read. -/
structure WrittenInteger where
  text : Text
  literal : Outline.IsLiteral text
  short : (Numeral.digits text).length ≤ Numeral.digitLimit

/-- An integer written without a sign. -/
structure WrittenNumber extends WrittenInteger where
  unsigned : Numeral.isSigned text = false

namespace WrittenInteger

/-- The integer that is written. -/
def value (n : WrittenInteger) : Int := Numeral.value n.text

/-- What is written is read. -/
theorem read_text (n : WrittenInteger) : Numeral.read n.text = .ok n.value := by
  rw [Numeral.read, if_neg (Nat.not_lt.mpr n.short), value]

/-- An integer as it is commonly written. -/
def ofInt (n : Int) (h : (Nat.toDigits 10 n.natAbs).length ≤ Numeral.digitLimit) :
    WrittenInteger where
  text := Numeral.ofInt n
  literal := by
    rw [Outline.IsLiteral, Numeral.digits_ofInt]
    refine ⟨?_, fun c hc => Nat.isDigit_of_mem_toDigits (by decide) (by decide) hc⟩
    exact Nat.toDigits_ne_nil
  short := by rwa [Numeral.digits_ofInt]

/-- An integer within the limit on digits is written with its value. -/
@[simp]
theorem value_ofInt (n : Int) (h : (Nat.toDigits 10 n.natAbs).length ≤ Numeral.digitLimit) :
    (ofInt n h).value = n :=
  Numeral.value_ofInt n

end WrittenInteger

namespace WrittenNumber

/-- A written number has no sign. -/
theorem digits_text (n : WrittenNumber) : Numeral.digits n.text = n.text := by
  have hunsigned := n.unsigned
  unfold Numeral.isSigned at hunsigned
  unfold Numeral.digits
  split at hunsigned
  · simp at hunsigned
  · rfl

/-- A number as it is commonly written. -/
def ofNat (n : Nat) (h : (Nat.toDigits 10 n).length ≤ Numeral.digitLimit) : WrittenNumber where
  toWrittenInteger := .ofInt n h
  unsigned := by
    change Numeral.isSigned (Numeral.ofInt n) = false
    rw [Numeral.ofInt, if_neg (Int.not_lt.mpr (Int.natCast_nonneg n)), Numeral.isSigned_toDigits]

/-- A natural number within the limit on digits is written with its value. -/
@[simp]
theorem value_ofNat (n : Nat) (h : (Nat.toDigits 10 n).length ≤ Numeral.digitLimit) :
    (ofNat n h).value = n :=
  WrittenInteger.value_ofInt n h

/-- A written number is not negative. -/
theorem value_nonneg (n : WrittenNumber) : 0 ≤ n.value := by
  rw [WrittenInteger.value, Numeral.value, n.unsigned]
  simp

end WrittenNumber

/-- A count as it is written, if it is. -/
def countText (count : Option WrittenNumber) : Text := (count.map fun n => n.text).getD []

/-- The count that is written; where it is left out it is one. -/
def countValue (count : Option WrittenNumber) : Int := (count.map fun n => n.value).getD 1

/-- A count is not negative. -/
theorem countValue_nonneg (count : Option WrittenNumber) : 0 ≤ countValue count := by
  cases count with
  | none => exact Int.one_nonneg
  | some n => exact n.value_nonneg

/-! ## Conditions and modifiers -/

/-- A condition: a comparison and an integer. -/
structure WrittenCondition where
  comparison : Comparison
  target : WrittenInteger

namespace WrittenCondition

/-- A condition as it is written. -/
def text (c : WrittenCondition) : Text := c.comparison.mark :: c.target.text

/-- The condition that is written. -/
def condition (c : WrittenCondition) : Condition := ⟨c.comparison, c.target.value⟩

end WrittenCondition

/-- The point at which dice explode: a condition, or a number alone. -/
inductive WrittenPoint where
  | compared (condition : WrittenCondition)
  | alone (number : WrittenNumber)

namespace WrittenPoint

/-- A point as it is written. -/
def text : WrittenPoint → Text
  | compared condition => condition.text
  | alone number => number.text

/-- The condition of a point; a number alone is compared for equality. -/
def condition : WrittenPoint → Condition
  | compared condition => condition.condition
  | alone number => ⟨.equal, number.value⟩

end WrittenPoint

/-- A point as it is written, if there is one. -/
def pointText (point : Option WrittenPoint) : Text := (point.map WrittenPoint.text).getD []

/-- Conditions, each behind a mark. -/
def chainText (mark : Text) (conditions : List WrittenCondition) : Text :=
  conditions.flatMap fun c => mark ++ c.text

/-- The mark of an explosion. -/
def Explosion.mark : Explosion → Text
  | .regular => ['!']
  | .compounding => ['!', '!']
  | .penetrating => ['!', 'p']

/-- The mark of a reroll. -/
def rerollMark (once : Bool) : Text := if once then ['r', 'o'] else ['r']

/-- The mark of a selection. -/
def selectMark (keep : Bool) : Char := if keep then 'k' else 'd'

/-- A modifier.  A chain has a condition at least. -/
inductive WrittenModifier where
  | explode (explosion : Explosion) (point : Option WrittenPoint)
  | reroll (once : Bool) (first : WrittenCondition) (more : List WrittenCondition)
  | meeting (keep : Bool) (first : WrittenCondition) (more : List WrittenCondition)
  | extreme (keep highest : Bool) (count : Option WrittenNumber)

namespace WrittenModifier

/-- A modifier as it is written. -/
def text : WrittenModifier → Text
  | explode explosion point => explosion.mark ++ pointText point
  | reroll once first more => chainText (rerollMark once) (first :: more)
  | meeting keep first more => chainText [selectMark keep] (first :: more)
  | extreme keep highest count =>
    selectMark keep :: (if highest then 'h' else 'l') :: countText count

/-- The modifier that is written. -/
def modifier : WrittenModifier → Modifier
  | explode explosion point => .explode explosion (point.map WrittenPoint.condition)
  | reroll once first more => .reroll ((first :: more).map WrittenCondition.condition) once
  | meeting keep first more =>
    .select keep (.meeting ((first :: more).map WrittenCondition.condition))
  | extreme keep highest count => .select keep (.extreme highest (countValue count))

/-- Whether a modifier behind another is written as more of that one: as more conditions of it, or
as the second mark of an explosion that has one and no point. -/
def Continues : WrittenModifier → WrittenModifier → Prop
  | explode .regular none, explode _ _ => True
  | reroll once _ _, reroll once' _ _ => once = once'
  | meeting keep _ _, meeting keep' _ _ => keep = keep'
  | _, _ => False

end WrittenModifier

/-! ## Scores -/

/-- A score. -/
inductive WrittenScore where
  | groups (counted : Bool)
  | successes (success : WrittenCondition) (failure : Option WrittenCondition)

namespace WrittenScore

/-- A score as it is written. -/
def text : WrittenScore → Text
  | groups counted => if counted then ['m', 't'] else ['m']
  | successes success none => success.text
  | successes success (some failure) => success.text ++ 'f' :: failure.text

/-- The score that is written. -/
def score : WrittenScore → Score
  | groups counted => .groups counted
  | successes success failure =>
    .successes success.condition (failure.map WrittenCondition.condition)

end WrittenScore

/-- A score as it is written, if there is one. -/
def scoreText (score : Option WrittenScore) : Text := (score.map WrittenScore.text).getD []

/-! ## Dice -/

/-- What is written for the faces of a die: its sides, one at least, or `f` for a die of `-1`,
`0` and `1`. -/
inductive WrittenFaces where
  | upTo (sides : WrittenNumber) (positive : 1 ≤ sides.value)
  | fudge

namespace WrittenFaces

/-- Faces as they are written. -/
def text : WrittenFaces → Text
  | upTo sides _ => sides.text
  | fudge => ['f']

/-- Dice of the faces that are written. -/
def dice (count : Int) : WrittenFaces → Expression
  | upTo sides _ => .dice count 1 sides.value
  | fudge => .dice count (-1) 1

end WrittenFaces

/-- Whether a score behind a modifier is written as the point of that one. -/
def WrittenModifier.TakesIn : WrittenModifier → WrittenScore → Prop
  | explode _ none, .successes _ _ => True
  | _, _ => False

/-- Dice, modifiers of which none is written as more of the one before, and at most one score, which
is not written as more of the last of them either. -/
structure WrittenDice where
  count : Option WrittenNumber
  faces : WrittenFaces
  modifiers : List WrittenModifier
  separate : modifiers.IsChain fun first second => ¬ first.Continues second
  score : Option WrittenScore
  apart : ∀ last ∈ modifiers.getLast?, ∀ written ∈ score, ¬ last.TakesIn written

namespace WrittenDice

/-- Dice as they are written. -/
def text (w : WrittenDice) : Text :=
  countText w.count ++ 'd' :: (w.faces.text ++
    (w.modifiers.flatMap WrittenModifier.text ++ scoreText w.score))

/-- The dice that are written, under the modifiers in their order, and the score. -/
def expression (w : WrittenDice) : Expression :=
  ((w.faces.dice (countValue w.count)).withModifiers
    (w.modifiers.map WrittenModifier.modifier)).withScore (w.score.map WrittenScore.score)

end WrittenDice
end DiceNotation

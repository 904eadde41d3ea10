import DiceNotation.Text.Basic

/-!
# Texts that diverge

Where text is moved to the front of an operator, a reader who compares the two texts from
the left first meets the operator in the one and something else in the other.  That this is
how two texts differ is not undone by whatever is moved later in the same direction.

Main definitions:

- `Text.isOperator`: the characters that are operators.
- `Text.Diverges`: texts that first differ in an operator of the one.

Main results:

- `Text.Diverges.trans`: moving on in the same direction keeps two texts apart.
-/

namespace DiceNotation
namespace Text

/-- The characters that are operators of arithmetic. -/
def isOperator (c : Char) : Bool :=
  c == '+' || c == '-' || c == '*' || c == '/' || c == '%' || c == '^'

/-- Whether two texts first differ where `text` has an operator and `other` has none. -/
def Diverges (text other : Text) : Prop :=
  ∃ common operator back c rest, isOperator operator = true ∧ isOperator c = false ∧
    text = common ++ operator :: back ∧ other = common ++ c :: rest

namespace Diverges

variable {text other third : Text}

/-- Texts that diverge are different. -/
theorem ne (h : Diverges text other) : text ≠ other := by
  rcases h with ⟨common, operator, back, c, rest, hoperator, hc, rfl, rfl⟩
  intro heq
  have hcons : operator :: back = c :: rest := List.append_cancel_left heq
  rw [(List.cons.inj hcons).1, hc] at hoperator
  exact Bool.false_ne_true hoperator

/-- Texts that diverge do so whatever is behind them. -/
theorem append (h : Diverges text other) (more others : Text) :
    Diverges (text ++ more) (other ++ others) := by
  rcases h with ⟨common, operator, back, c, rest, hoperator, hc, rfl, rfl⟩
  exact ⟨common, operator, back ++ more, c, rest ++ others, hoperator, hc, by simp, by simp⟩

/-- And whatever is in front of both. -/
theorem prepend (h : Diverges text other) (front : Text) :
    Diverges (front ++ text) (front ++ other) := by
  rcases h with ⟨common, operator, back, c, rest, hoperator, hc, rfl, rfl⟩
  exact ⟨front ++ common, operator, back, c, rest, hoperator, hc, by simp, by simp⟩

/-- The earlier of two differences stays the first, as none of the two undoes the other. -/
theorem trans (h : Diverges text other) (h' : Diverges other third) : Diverges text third := by
  rcases h with ⟨common, operator, back, c, rest, hoperator, hc, rfl, rfl⟩
  rcases h' with ⟨common', operator', back', c', rest', hoperator', hc', heq, rfl⟩
  rcases List.append_eq_append_iff.mp heq with ⟨between, rfl, hrest⟩ | ⟨between, rfl, hrest⟩
  · cases between with
    | nil =>
        rw [← (List.cons.inj hrest).1, hc] at hoperator'
        exact absurd hoperator' Bool.false_ne_true
    | cons d between =>
        rcases List.cons.inj hrest with ⟨rfl, -⟩
        exact ⟨common, operator, back, c, between ++ c' :: rest', hoperator, hc, rfl, by simp⟩
  · cases between with
    | nil =>
        rw [(List.cons.inj hrest).1, hc] at hoperator'
        exact absurd hoperator' Bool.false_ne_true
    | cons d between =>
        rcases List.cons.inj hrest with ⟨rfl, -⟩
        exact ⟨common', operator', between ++ operator :: back, c', rest', hoperator', hc',
          by simp, rfl⟩

end Diverges
end Text
end DiceNotation

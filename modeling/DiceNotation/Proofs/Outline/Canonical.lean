import DiceNotation.Proofs.Outline.Formula
import Mathlib.Data.List.Chain

/-!
# The grouping by precedence

A grouping is read from left to right as a formula.  Of all groupings that are read as one
formula just one keeps to precedence: to the left of an operator stands only what binds tighter,
or as tight if it groups to the left, and to the right only what binds tighter, or as tight if it
groups to the right.  The outline of text without brackets is that of this grouping.

Main definitions:

- `Grouping.following`: the operators of a grouping with the operands behind them.
- `Grouping.ByPrecedence`: groupings that keep to precedence.
- `Grouping.IsCanonical`: the grouping of a formula that keeps to precedence.

Main results:

- `Grouping.isCanonical_ofFormula`, `Grouping.IsCanonical.eq_ofFormula`: there is one, and no
  other.
- `Outline.ofMath_canonical`: it is what the text of the formula is read as.
-/

namespace DiceNotation

namespace BinaryOp

/-- Whether what an operator joins may stand to the left of another operator. -/
def MayStandLeft (inner op : BinaryOp) : Prop :=
  op.level < inner.level ∨ op.level = inner.level ∧ op ≠ .power

/-- Whether what an operator joins may stand to the right of another operator. -/
def MayStandRight (inner op : BinaryOp) : Prop :=
  op.level < inner.level ∨ op.level = inner.level ∧ op = .power

/-- What an operator joins may stand left of a later one if it groups before it. -/
theorem groupsBefore_iff {earlier later : BinaryOp} :
    earlier.groupsBefore later = true ↔ earlier.MayStandLeft later := by
  simp [groupsBefore, MayStandLeft]

/-- Of two operators the earlier may stand to the left of the later, or else the later to the
right of the earlier. -/
theorem mayStandRight_of_not {earlier later : BinaryOp} (h : ¬ earlier.MayStandLeft later) :
    later.MayStandRight earlier := by
  cases earlier <;> cases later <;> simp_all [MayStandLeft, MayStandRight, level]

/-- An operator that may stand right of an earlier one does not take what that joins. -/
theorem MayStandRight.not_mayStandLeft {earlier later : BinaryOp}
    (h : later.MayStandRight earlier) : ¬ earlier.MayStandLeft later := by
  cases earlier <;> cases later <;> simp_all [MayStandLeft, MayStandRight, level]

/-- What binds as tight as `inner` at least may stand where `inner` may. -/
theorem MayStandLeft.of_level_le {inner tighter op : BinaryOp} (h : inner.MayStandLeft op)
    (hlevel : inner.level ≤ tighter.level) : tighter.MayStandLeft op := by
  by_cases hlt : op.level < tighter.level
  · exact .inl hlt
  · rcases h with h | ⟨heq, hpower⟩
    · omega
    · exact .inr ⟨by omega, hpower⟩

/-- What stands on the left binds no looser. -/
theorem MayStandLeft.level_le {inner op : BinaryOp} (h : inner.MayStandLeft op) :
    op.level ≤ inner.level := by
  rcases h with h | ⟨h, -⟩ <;> omega

/-- What stands on the right binds no looser. -/
theorem MayStandRight.level_le {inner op : BinaryOp} (h : inner.MayStandRight op) :
    op.level ≤ inner.level := by
  rcases h with h | ⟨h, -⟩ <;> omega

end BinaryOp

namespace Grouping

variable {α : Type}

/-! ## Groupings read from left to right -/

/-- The operators of a grouping with the operands behind them, in the order in which they are
written. -/
def following : Grouping α → List (BinaryOp × α)
  | .operand _ => []
  | .apply op left right => left.following ++ (op, right.leftmost) :: right.following

/-- The operators of a grouping are those with operands behind them. -/
theorem operators_eq_map (grouping : Grouping α) :
    grouping.operators = grouping.following.map Prod.fst := by
  induction grouping with
  | operand a => rfl
  | apply op left right ihleft ihright => simp [operators, following, ihleft, ihright]

/-- Another operand at the right end is not the leftmost. -/
@[simp]
theorem leftmost_extend (op : BinaryOp) (a : α) (grouping : Grouping α) :
    (grouping.extend op a).leftmost = grouping.leftmost :=
  leftmost_extendAll grouping [(op, a)]

/-- Another operator and operand at the right end follow last. -/
@[simp]
theorem following_extend (op : BinaryOp) (a : α) (grouping : Grouping α) :
    (grouping.extend op a).following = grouping.following ++ [(op, a)] := by
  induction grouping with
  | operand b => rfl
  | apply earlier left right _ ih =>
      rw [extend]
      split
      · rfl
      · simp [following, ih]

/-- Several of them follow in their order. -/
@[simp]
theorem following_extendAll (grouping : Grouping α) (rest : List (BinaryOp × α)) :
    (grouping.extendAll rest).following = grouping.following ++ rest := by
  induction rest generalizing grouping with
  | nil => simp
  | cons next rest ih =>
      obtain ⟨op, a⟩ := next
      simp [ih]

/-! ## Precedence -/

/-- Whether a grouping keeps to precedence: each operator takes on either side only operators that
may stand there. -/
def ByPrecedence : Grouping α → Prop
  | .operand _ => True
  | .apply op left right =>
    (∀ inner ∈ left.operators, inner.MayStandLeft op) ∧
      (∀ inner ∈ right.operators, inner.MayStandRight op) ∧
      left.ByPrecedence ∧ right.ByPrecedence

/-- Growth keeps to precedence. -/
theorem ByPrecedence.extend {grouping : Grouping α} (h : grouping.ByPrecedence) (op : BinaryOp)
    (a : α) : (grouping.extend op a).ByPrecedence := by
  induction grouping with
  | operand b => simp [Grouping.extend, ByPrecedence, operators]
  | apply earlier left right _ ih =>
      obtain ⟨hleft, hright, hbefore, hbehind⟩ := h
      rw [Grouping.extend]
      split
      · next hgroups =>
          -- All that is grouped before binds as tight as the operator at the root at least.
          have htaken := BinaryOp.groupsBefore_iff.mp hgroups
          refine ⟨?_, by simp [operators], ⟨hleft, hright, hbefore, hbehind⟩, trivial⟩
          intro inner hinner
          rw [operators, List.mem_append, List.mem_cons] at hinner
          rcases hinner with hinner | rfl | hinner
          · exact htaken.of_level_le (hleft inner hinner).level_le
          · exact htaken
          · exact htaken.of_level_le (hright inner hinner).level_le
      · next hgroups =>
          refine ⟨hleft, ?_, hbefore, ih hbehind⟩
          intro inner hinner
          rw [operators_extend, List.mem_append, List.mem_singleton] at hinner
          rcases hinner with hinner | rfl
          · exact hright inner hinner
          · exact BinaryOp.mayStandRight_of_not (mt BinaryOp.groupsBefore_iff.mpr hgroups)

/-- A grouping that keeps to precedence does so with more operators and operands. -/
theorem ByPrecedence.extendAll {grouping : Grouping α} (h : grouping.ByPrecedence)
    (rest : List (BinaryOp × α)) : (grouping.extendAll rest).ByPrecedence := by
  induction rest generalizing grouping with
  | nil => exact h
  | cons next rest ih => exact ih (h.extend next.1 next.2)

/-- Operators that may stand to the right of another one are taken by its right side. -/
theorem extendAll_apply {op : BinaryOp} (left right : Grouping α) {rest : List (BinaryOp × α)}
    (h : ∀ next ∈ rest, next.1.MayStandRight op) :
    (apply op left right).extendAll rest = .apply op left (right.extendAll rest) := by
  induction rest generalizing right with
  | nil => rfl
  | cons next rest ih =>
      obtain ⟨later, a⟩ := next
      obtain ⟨hlater, hrest⟩ := List.forall_mem_cons.mp h
      have hgroups : ¬ op.groupsBefore later = true :=
        mt BinaryOp.groupsBefore_iff.mp hlater.not_mayStandLeft
      rw [extendAll_cons, Grouping.extend, if_neg hgroups, ih _ hrest, extendAll_cons]

/-- A grouping that keeps to precedence is the one that its formula grows into. -/
theorem ByPrecedence.eq_ofFormula {grouping : Grouping α} (h : grouping.ByPrecedence) :
    grouping = ofFormula grouping.leftmost grouping.following := by
  induction grouping with
  | operand a => rfl
  | apply op left right ihleft ihright =>
      obtain ⟨hleft, hright, hbefore, hbehind⟩ := h
      have htaken : left.extend op right.leftmost = .apply op left (.operand right.leftmost) :=
        extend_of_forall_groupsBefore fun inner hinner =>
          BinaryOp.groupsBefore_iff.mpr (hleft inner hinner)
      have hlater : ∀ next ∈ right.following, next.1.MayStandRight op := by
        intro next hnext
        apply hright
        rw [operators_eq_map]
        exact List.mem_map_of_mem hnext
      calc apply op left right
          = .apply op left (ofFormula right.leftmost right.following) := by rw [← ihright hbehind]
        _ = (apply op left (.operand right.leftmost)).extendAll right.following :=
            (extendAll_apply left _ hlater).symm
        _ = (left.extend op right.leftmost).extendAll right.following := by rw [htaken]
        _ = ((ofFormula left.leftmost left.following).extend op right.leftmost).extendAll
              right.following := by rw [← ihleft hbefore]
        _ = ofFormula left.leftmost
              (left.following ++ (op, right.leftmost) :: right.following) := by
            rw [ofFormula, ofFormula, extendAll_append, extendAll_cons]

/-- Whether a grouping is read as a formula, and keeps to precedence. -/
structure IsCanonical (first : α) (rest : List (BinaryOp × α)) (grouping : Grouping α) : Prop where
  first : grouping.leftmost = first
  rest : grouping.following = rest
  ordered : grouping.ByPrecedence

/-- Every formula has a grouping that keeps to precedence. -/
theorem isCanonical_ofFormula (first : α) (rest : List (BinaryOp × α)) :
    IsCanonical first rest (ofFormula first rest) where
  first := leftmost_extendAll _ rest
  rest := following_extendAll _ rest
  ordered := by
    have hfirst : (operand first).ByPrecedence := trivial
    exact hfirst.extendAll rest

/-- It has no other. -/
theorem IsCanonical.eq_ofFormula {first : α} {rest : List (BinaryOp × α)} {grouping : Grouping α}
    (h : grouping.IsCanonical first rest) : grouping = ofFormula first rest := by
  have heq := h.ordered.eq_ofFormula
  rwa [h.first, h.rest] at heq

end Grouping

/-! ## Outlines -/

namespace Outline

/-- Each `-` in a text is its first character or follows a comparison exactly if this is so from
character to character. -/
theorem signs_iff_isChain {text : Text} :
    (∀ before after, text = before ++ '-' :: after →
      ∀ c, before.getLast? = some c → isComparison c = true) ↔
      text.IsChain fun previous c => c = '-' → isComparison previous = true := by
  rw [List.isChain_iff_forall_rel_of_append_cons_cons]
  constructor
  · rintro hsigns previous _ before after htext rfl
    exact hsigns (before ++ [previous]) after (by simp [htext]) previous (by simp)
  · intro hchain before after htext c hlast
    obtain ⟨front, rfl⟩ := List.getLast?_eq_some_iff.mp hlast
    have hfront : text = front ++ c :: '-' :: after := by simpa using htext
    exact hchain hfront rfl

/-- Whether a text is an operand is decided character by character. -/
theorem isOperand_iff {text : Text} :
    IsOperand text ↔ text ≠ [] ∧
      text.all (fun c => !(['+', '*', '/', '%', '^'].contains c)) = true ∧
      (text.IsChain fun previous c => c = '-' → isComparison previous = true) ∧
      text.getLast?.all (fun c => c != '-' && !isComparison c) = true := by
  rw [← signs_iff_isChain]
  simp only [List.all_eq_true, Option.all_eq_true, Bool.not_eq_true', Bool.and_eq_true, bne_iff_ne,
    List.contains_eq_mem, decide_eq_false_iff_not]
  exact ⟨fun h => ⟨h.ne_nil, h.plain, h.signs, h.last⟩, fun h => ⟨h.1, h.2.1, h.2.2.1, h.2.2.2⟩⟩

instance (text : Text) : Decidable (IsOperand text) := decidable_of_iff _ isOperand_iff.symm

instance decidableIsRest : (rest : List (BinaryOp × Text)) → Decidable (IsRest rest)
  | [] => .isTrue trivial
  | (op, a) :: rest =>
    have := decidableIsRest rest
    inferInstanceAs
      (Decidable (op ≠ .undefined ∧ (IsOperand a ∨ (a = [] ∧ rest = [])) ∧ IsRest rest))

instance (afterGroup : Bool) (first : Text) (rest : List (BinaryOp × Text)) :
    Decidable (IsFormula afterGroup first rest) :=
  decidable_of_iff
    (((IsOperand first ∧ (afterGroup = true → first.head? ≠ some '-')) ∨
      (first = [] ∧ afterGroup = true)) ∧ IsRest rest)
    ⟨fun h => ⟨h.1, h.2⟩, fun h => ⟨h.first, h.rest⟩⟩

/-- Operands with operators between them are read as the one grouping that keeps to precedence.
An operand that is missing, the first behind a group or the last, is an empty slot of it. -/
theorem ofMath_canonical {afterGroup : Bool} {first : Text} {rest : List (BinaryOp × Text)}
    (h : IsFormula afterGroup first rest) :
    ∃ grouping : Grouping Text, grouping.IsCanonical first rest ∧
      (∀ other : Grouping Text, other.IsCanonical first rest → other = grouping) ∧
      ofMath (formulaText first rest) afterGroup = .ok (grouping.outline slot) :=
  ⟨_, Grouping.isCanonical_ofFormula first rest, fun _ hother => hother.eq_ofFormula,
    ofMath_formulaText h⟩

/-- Behind a group, with all levels mixed, signs in the operands, and no operand at either end. -/
theorem ofMath_canonical_mixed :
    let rest : List (BinaryOp × Text) :=
      [(.subtract, ['2']), (.power, ['-', '3']), (.power, ['d', '6', 'r', '<', '-', '1']),
        (.multiply, ['4']), (.remainder, ['5']), (.add, [])]
    IsFormula true [] rest ∧
      formulaText [] rest = "-2^-3^d6r<-1*4%5+".toList ∧
      ∃ grouping : Grouping Text, grouping.IsCanonical [] rest ∧
        (∀ other : Grouping Text, other.IsCanonical [] rest → other = grouping) ∧
        ofMath (formulaText [] rest) true = .ok (grouping.outline slot) := by
  intro rest
  have hformula : IsFormula true [] rest := by decide
  exact ⟨hformula, by decide, ofMath_canonical hformula⟩

end Outline
end DiceNotation

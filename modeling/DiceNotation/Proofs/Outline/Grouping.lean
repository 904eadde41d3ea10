import DiceNotation.Expression.Basic
import DiceNotation.Outline.Slots

/-!
# Groupings

Operands with operators between them are grouped by precedence: `^` binds tightest and
groups to the right, then come `*`, `/` and `%`, and last `+` and `-`, which group to the
left.  A grouping grows by one operator and one operand at its right end.

Main definitions:

- `BinaryOp.groupsBefore`: which of two operators takes the operand between them.
- `Grouping`, `Grouping.extend`: a grouping, and its growth.
- `Grouping.ofFormula`: the grouping of a formula.
- `Grouping.blocks`: a formula, cut at operators.

Main results:

- `Grouping.ofFormula_eq_blocks`: cut at its loosest operators, which group to the left, a
  formula groups as its blocks do.
- `Grouping.extend_powers`: a formula of powers groups to the right.
-/

namespace DiceNotation

/-! ## Precedence -/

namespace BinaryOp

/-- How tightly an operator binds. -/
def level : BinaryOp → Nat
  | .add => 1
  | .subtract => 1
  | .multiply => 2
  | .divide => 2
  | .remainder => 2
  | .power => 3
  | .undefined => 0

/-- Whether an operator takes the operand between it and a later one: if it binds tighter,
or as tight and both group to the left. -/
def groupsBefore (earlier later : BinaryOp) : Bool :=
  later.level < earlier.level || (later.level == earlier.level && later != .power)

/-- An operator that binds tighter groups before. -/
theorem groupsBefore_of_lt {earlier later : BinaryOp} (h : later.level < earlier.level) :
    earlier.groupsBefore later = true := by
  simp [groupsBefore, h]

/-- An operator that binds looser does not. -/
theorem groupsBefore_of_gt {earlier later : BinaryOp} (h : earlier.level < later.level) :
    earlier.groupsBefore later = false := by
  simp [groupsBefore, Nat.lt_asymm h, Nat.ne_of_gt h]

/-- All operators but `^` group to the left. -/
theorem groupsBefore_of_eq {earlier later : BinaryOp} (h : later.level = earlier.level)
    (hlater : later.level ≠ 3) : earlier.groupsBefore later = true := by
  have hpower : later ≠ .power := by
    rintro rfl
    exact hlater rfl
  simp [groupsBefore, h, hpower]

/-- What groups before an operator does so when it binds tighter. -/
theorem groupsBefore_mono {looser tighter later : BinaryOp} (hlevel : looser.level ≤ tighter.level)
    (h : looser.groupsBefore later = true) : tighter.groupsBefore later = true := by
  simp only [groupsBefore, Bool.or_eq_true, decide_eq_true_eq, Bool.and_eq_true, beq_iff_eq] at h ⊢
  by_cases hlt : later.level < tighter.level
  · exact .inl hlt
  · rcases h with h | ⟨heq, hpower⟩
    · omega
    · exact .inr ⟨by omega, hpower⟩

end BinaryOp

/-- Operands grouped by operators. -/
inductive Grouping (α : Type) where
  | operand (a : α)
  | apply (op : BinaryOp) (left right : Grouping α)
deriving Repr, DecidableEq

namespace Grouping

variable {α β : Type}

/-- A grouping with one more operator and operand at its right end.  The operator takes for
its left side all that is grouped before it. -/
def extend (op : BinaryOp) (a : α) : Grouping α → Grouping α
  | .operand b => .apply op (.operand b) (.operand a)
  | .apply earlier left right =>
    if earlier.groupsBefore op then .apply op (.apply earlier left right) (.operand a)
    else .apply earlier left (extend op a right)

/-- A grouping with more operators and operands at its right end. -/
def extendAll (grouping : Grouping α) (rest : List (BinaryOp × α)) : Grouping α :=
  rest.foldl (fun grouping next => grouping.extend next.1 next.2) grouping

/-- The grouping of a formula: its first operand, and the operators with their right
operands. -/
def ofFormula (first : α) (rest : List (BinaryOp × α)) : Grouping α :=
  extendAll (.operand first) rest

@[simp]
theorem extendAll_nil (grouping : Grouping α) : grouping.extendAll [] = grouping := rfl

@[simp]
theorem extendAll_cons (grouping : Grouping α) (op : BinaryOp) (a : α)
    (rest : List (BinaryOp × α)) :
    grouping.extendAll ((op, a) :: rest) = (grouping.extend op a).extendAll rest := rfl

/-- Operators and operands may be added in parts. -/
@[simp]
theorem extendAll_append (grouping : Grouping α) (rest more : List (BinaryOp × α)) :
    grouping.extendAll (rest ++ more) = (grouping.extendAll rest).extendAll more :=
  List.foldl_append ..

/-! ## Powers -/

/-- Powers group to the right. -/
theorem extend_powers (a : α) (grouping : Grouping α) {rest : List (BinaryOp × α)}
    (h : ∀ next ∈ rest, next.1 = .power) :
    (apply .power (.operand a) grouping).extendAll rest =
      .apply .power (.operand a) (grouping.extendAll rest) := by
  induction rest generalizing grouping with
  | nil => rfl
  | cons next rest ih =>
      obtain ⟨op, b⟩ := next
      obtain ⟨hop, hrest⟩ := List.forall_mem_cons.mp h
      have hop : op = .power := hop
      subst hop
      rw [extendAll_cons, extend, if_neg (by decide), ih _ hrest, extendAll_cons]

/-! ## Blocks -/

/-- The part of a formula up to the first operator at which it is cut, and the blocks behind,
each with the operator before it.  A block is a formula. -/
def blocks (cuts : BinaryOp → Bool) :
    List (BinaryOp × α) → List (BinaryOp × α) × List (BinaryOp × α × List (BinaryOp × α))
  | [] => ([], [])
  | (op, a) :: rest =>
    if cuts op then ([], (op, a, (blocks cuts rest).1) :: (blocks cuts rest).2)
    else ((op, a) :: (blocks cuts rest).1, (blocks cuts rest).2)

section Members

variable {cuts : BinaryOp → Bool} {rest : List (BinaryOp × α)}

/-- The first block has only operators at which no cut is made. -/
theorem of_mem_block {next : BinaryOp × α} (h : next ∈ (blocks cuts rest).1) :
    next ∈ rest ∧ cuts next.1 = false := by
  induction rest with
  | nil => simp [blocks] at h
  | cons head rest ih =>
      obtain ⟨op, a⟩ := head
      rw [blocks] at h
      split at h
      · simp at h
      · next hcut =>
          rcases List.mem_cons.mp h with rfl | h
          · exact ⟨List.mem_cons_self .., by simpa using hcut⟩
          · exact ⟨List.mem_cons_of_mem _ (ih h).1, (ih h).2⟩

/-- A block behind a cut is made of operators and operands of the formula. -/
theorem of_mem_blocks {op : BinaryOp} {a : α} {block : List (BinaryOp × α)}
    (h : (op, a, block) ∈ (blocks cuts rest).2) :
    (op, a) ∈ rest ∧ cuts op = true ∧ ∀ next ∈ block, next ∈ rest ∧ cuts next.1 = false := by
  induction rest with
  | nil => simp [blocks] at h
  | cons head rest ih =>
      obtain ⟨op', a'⟩ := head
      rw [blocks] at h
      split at h
      · next hcut =>
          rcases List.mem_cons.mp h with heq | h
          · cases heq
            exact ⟨List.mem_cons_self .., hcut, fun next hnext =>
              ⟨List.mem_cons_of_mem _ (of_mem_block hnext).1, (of_mem_block hnext).2⟩⟩
          · obtain ⟨hmem, hop, hblock⟩ := ih h
            exact ⟨List.mem_cons_of_mem _ hmem, hop, fun next hnext =>
              ⟨List.mem_cons_of_mem _ (hblock next hnext).1, (hblock next hnext).2⟩⟩
      · obtain ⟨hmem, hop, hblock⟩ := ih h
        exact ⟨List.mem_cons_of_mem _ hmem, hop, fun next hnext =>
          ⟨List.mem_cons_of_mem _ (hblock next hnext).1, (hblock next hnext).2⟩⟩

end Members

/-- Blocks grouped to the left. -/
def groupBlocks (grouping : Grouping α) (others : List (BinaryOp × α × List (BinaryOp × α))) :
    Grouping α :=
  others.foldl (fun grouping next => .apply next.1 grouping (ofFormula next.2.1 next.2.2)) grouping

/-- A block that is still growing, behind all that stands before it. -/
def behind : Option (BinaryOp × Grouping α) → Grouping α → Grouping α
  | none, block => block
  | some (op, before), block => .apply op before block

section Blocks

variable {cuts : BinaryOp → Bool}

/-- Whether an operator is inside a block: it binds tighter than those that cut. -/
def Inside (cuts : BinaryOp → Bool) (op : BinaryOp) : Prop :=
  ∀ cut, cuts cut = true → op.groupsBefore cut = true ∧ cut.groupsBefore op = false

/-- A grouping whose root is inside a block. -/
def IsBlock (cuts : BinaryOp → Bool) : Grouping α → Prop
  | .operand _ => True
  | .apply op _ _ => Inside cuts op

/-- A block goes on with an operator inside it. -/
theorem isBlock_extend {op : BinaryOp} {a : α} {block : Grouping α} (hblock : IsBlock cuts block)
    (hop : Inside cuts op) : IsBlock cuts (block.extend op a) := by
  cases block with
  | operand => exact hop
  | apply earlier left right =>
      rw [extend]
      split
      · exact hop
      · exact hblock

/-- An operator inside a block is taken by the block. -/
theorem extend_behind_inside {before : Option (BinaryOp × Grouping α)}
    (hbefore : ∀ cut grouping, before = some (cut, grouping) → cuts cut = true)
    {op : BinaryOp} (hop : Inside cuts op) (a : α) (block : Grouping α) :
    (behind before block).extend op a = behind before (block.extend op a) := by
  cases before with
  | none => rfl
  | some cut =>
      obtain ⟨cut, grouping⟩ := cut
      rw [behind, extend, (hop cut (hbefore _ _ rfl)).2, if_neg (by simp), behind]

/-- An operator that cuts takes all that stands before it. -/
theorem extend_behind_cut (hleft : ∀ op cut, cuts op = true → cuts cut = true →
      op.groupsBefore cut = true) {before : Option (BinaryOp × Grouping α)}
    (hbefore : ∀ cut grouping, before = some (cut, grouping) → cuts cut = true)
    {block : Grouping α} (hblock : IsBlock cuts block) {cut : BinaryOp} (hcut : cuts cut = true)
    (a : α) : (behind before block).extend cut a = .apply cut (behind before block) (.operand a) := by
  cases before with
  | none =>
      cases block with
      | operand => rfl
      | apply op left right => rw [behind, extend, (hblock cut hcut).1, if_pos rfl]
  | some earlier =>
      obtain ⟨earlier, grouping⟩ := earlier
      rw [behind, extend, hleft _ _ (hbefore _ _ rfl) hcut, if_pos rfl]

/-- A growing block takes the operators up to the next cut, and the blocks behind follow. -/
theorem extendAll_behind (hleft : ∀ op cut, cuts op = true → cuts cut = true →
      op.groupsBefore cut = true) {rest : List (BinaryOp × α)}
    (hinside : ∀ next ∈ rest, cuts next.1 = false → Inside cuts next.1)
    (before : Option (BinaryOp × Grouping α))
    (hbefore : ∀ cut grouping, before = some (cut, grouping) → cuts cut = true)
    (block : Grouping α) (hblock : IsBlock cuts block) :
    (behind before block).extendAll rest =
      groupBlocks (behind before (block.extendAll (blocks cuts rest).1)) (blocks cuts rest).2 := by
  induction rest generalizing before block with
  | nil => rfl
  | cons next rest ih =>
      obtain ⟨op, a⟩ := next
      obtain ⟨hop, hrest⟩ := List.forall_mem_cons.mp hinside
      by_cases hcut : cuts op = true
      · rw [extendAll_cons, extend_behind_cut hleft hbefore hblock hcut, blocks, if_pos hcut]
        exact ih hrest (some (op, behind before block)) (by rintro _ _ ⟨⟩; exact hcut)
          (.operand a) trivial
      · have hin := hop (by simpa using hcut)
        rw [extendAll_cons, extend_behind_inside hbefore hin, blocks, if_neg hcut]
        exact ih hrest before hbefore (block.extend op a) (isBlock_extend hblock hin)

/-- Cut at its loosest operators, which group to the left, a formula groups as its blocks
do. -/
theorem ofFormula_eq_blocks (hleft : ∀ op cut, cuts op = true → cuts cut = true →
      op.groupsBefore cut = true) (first : α) {rest : List (BinaryOp × α)}
    (hinside : ∀ next ∈ rest, cuts next.1 = false → Inside cuts next.1) :
    ofFormula first rest =
      groupBlocks (ofFormula first (blocks cuts rest).1) (blocks cuts rest).2 :=
  extendAll_behind hleft hinside none (by simp) (.operand first) trivial

end Blocks

/-! ## Operands replaced -/

/-- A grouping of other operands. -/
def map (f : α → β) : Grouping α → Grouping β
  | .operand a => .operand (f a)
  | .apply op left right => .apply op (left.map f) (right.map f)

/-- Operands may be replaced before another is added. -/
@[simp]
theorem map_extend (f : α → β) (op : BinaryOp) (a : α) (grouping : Grouping α) :
    (grouping.extend op a).map f = (grouping.map f).extend op (f a) := by
  induction grouping with
  | operand b => rfl
  | apply earlier left right _ ih =>
      rw [extend, map, extend]
      split
      · rfl
      · rw [map, ih]

/-- So they may before several are. -/
@[simp]
theorem map_extendAll (f : α → β) (grouping : Grouping α) (rest : List (BinaryOp × α)) :
    (grouping.extendAll rest).map f =
      (grouping.map f).extendAll (rest.map fun next => (next.1, f next.2)) := by
  induction rest generalizing grouping with
  | nil => rfl
  | cons next rest ih =>
      obtain ⟨op, a⟩ := next
      rw [extendAll_cons, ih, map_extend]
      rfl

/-! ## Groupings that are taken whole -/

/-- A grouping that the first operator behind it takes whole for its left side. -/
def takenBy (base : Grouping α) : List (BinaryOp × α) → Grouping α
  | [] => base
  | (op, a) :: rest => (Grouping.apply op base (.operand a)).extendAll rest

/-- What has taken a grouping goes on like any other. -/
theorem takenBy_append {base : Grouping α} {rest : List (BinaryOp × α)} (h : rest ≠ [])
    (op : BinaryOp) (a : α) :
    base.takenBy (rest ++ [(op, a)]) = (base.takenBy rest).extend op a := by
  cases rest with
  | nil => exact absurd rfl h
  | cons next rest => simp [takenBy]

/-- A grouping with its leftmost operand replaced. -/
def plugLeft (base : Grouping α) : Grouping α → Grouping α
  | .operand _ => base
  | .apply op left right => .apply op (plugLeft base left) right

/-- Growth at the right end does not look at the leftmost operand. -/
theorem extendAll_plugLeft (base left right : Grouping α) (op : BinaryOp)
    (rest : List (BinaryOp × α)) :
    (apply op (plugLeft base left) right).extendAll rest =
      plugLeft base ((apply op left right).extendAll rest) := by
  induction rest generalizing op left right with
  | nil => rfl
  | cons next rest ih =>
      obtain ⟨op', a⟩ := next
      rw [extendAll_cons, extendAll_cons, extend, extend]
      split
      · exact ih (apply op left right) (.operand a) op'
      · exact ih left _ op

/-- What takes a grouping whole is a formula with the grouping in the place of its first
operand. -/
theorem takenBy_eq_plugLeft (base : Grouping α) (first : α) (rest : List (BinaryOp × α)) :
    base.takenBy rest = plugLeft base (ofFormula first rest) := by
  cases rest with
  | nil => rfl
  | cons next rest =>
      obtain ⟨op, a⟩ := next
      exact extendAll_plugLeft base (.operand first) (.operand a) op rest

/-! ## Operators -/

/-- The operators, in the order in which they are written. -/
def operators : Grouping α → List BinaryOp
  | .operand _ => []
  | .apply op left right => left.operators ++ op :: right.operators

/-- An operator at the right end is the last. -/
@[simp]
theorem operators_extend (op : BinaryOp) (a : α) (grouping : Grouping α) :
    (grouping.extend op a).operators = grouping.operators ++ [op] := by
  induction grouping with
  | operand b => rfl
  | apply earlier left right _ ih =>
      rw [extend]
      split
      · simp [operators]
      · simp [operators, ih]

/-- An operator before which all others group takes the whole grouping. -/
theorem extend_of_forall_groupsBefore {op : BinaryOp} {a : α} {grouping : Grouping α}
    (h : ∀ earlier ∈ grouping.operators, earlier.groupsBefore op = true) :
    grouping.extend op a = .apply op grouping (.operand a) := by
  cases grouping with
  | operand b => rfl
  | apply earlier left right => rw [extend, h earlier (by simp [operators]), if_pos rfl]

/-- Whether no operator binds looser than the one at the root. -/
def LoosestAtRoot : Grouping α → Prop
  | .operand _ => True
  | .apply op left right => ∀ other ∈ (apply op left right).operators, op.level ≤ other.level

/-- Growth keeps the loosest operator at the root. -/
theorem LoosestAtRoot.extend {grouping : Grouping α} (h : grouping.LoosestAtRoot)
    (op : BinaryOp) (a : α) : (grouping.extend op a).LoosestAtRoot := by
  cases grouping with
  | operand b => simp [Grouping.extend, LoosestAtRoot, operators]
  | apply earlier left right =>
      have hoperators := operators_extend op a (apply earlier left right)
      have hmem : ∀ other ∈ ((apply earlier left right).extend op a).operators,
          earlier.level ≤ other.level ∨ other = op := by
        intro other hother
        rw [hoperators, List.mem_append, List.mem_singleton] at hother
        exact hother.imp_left (h other)
      rw [Grouping.extend] at hmem ⊢
      by_cases hbefore : earlier.groupsBefore op = true
      · rw [if_pos hbefore] at hmem ⊢
        have hlevel : op.level ≤ earlier.level := by
          by_cases hlt : earlier.level < op.level
          · simp [BinaryOp.groupsBefore_of_gt hlt] at hbefore
          · omega
        intro other hother
        rcases hmem other hother with hother | rfl <;> omega
      · rw [if_neg hbefore] at hmem ⊢
        have hlevel : earlier.level ≤ op.level := by
          by_cases hlt : op.level < earlier.level
          · exact absurd (BinaryOp.groupsBefore_of_lt hlt) hbefore
          · omega
        intro other hother
        rcases hmem other hother with hother | rfl
        · exact hother
        · exact hlevel

/-! ## All operands -/

/-- What holds of all operands, between operators that have a meaning. -/
def All (P : α → Prop) : Grouping α → Prop
  | .operand a => P a
  | .apply op left right => op ≠ .undefined ∧ left.All P ∧ right.All P

/-- What holds of all operands may be weakened. -/
theorem All.imp {P Q : α → Prop} (hPQ : ∀ a, P a → Q a) {grouping : Grouping α}
    (h : grouping.All P) : grouping.All Q := by
  induction grouping with
  | operand a => exact hPQ a h
  | apply op left right ihleft ihright => exact ⟨h.1, ihleft h.2.1, ihright h.2.2⟩

/-- All operands are those before and the one at the right end. -/
theorem all_extend {P : α → Prop} {grouping : Grouping α} {op : BinaryOp} {a : α} :
    (grouping.extend op a).All P ↔ grouping.All P ∧ op ≠ .undefined ∧ P a := by
  induction grouping with
  | operand b =>
      simp only [extend, All]
      exact and_left_comm
  | apply earlier left right _ ih =>
      rw [extend]
      split
      · simp only [All]
        exact and_left_comm
      · simp only [All, ih, and_assoc]

/-- Another operand may be added to those of which something holds. -/
theorem All.extend {P : α → Prop} {grouping : Grouping α} (h : grouping.All P) {op : BinaryOp}
    (hop : op ≠ .undefined) {a : α} (ha : P a) : (grouping.extend op a).All P :=
  all_extend.mpr ⟨h, hop, ha⟩

/-- Several operands may be added. -/
theorem All.extendAll {P : α → Prop} {grouping : Grouping α} (h : grouping.All P)
    {rest : List (BinaryOp × α)} (hrest : ∀ next ∈ rest, next.1 ≠ .undefined ∧ P next.2) :
    (grouping.extendAll rest).All P := by
  induction rest generalizing grouping with
  | nil => exact h
  | cons next rest ih =>
      obtain ⟨⟨hop, hnext⟩, hrest⟩ := List.forall_mem_cons.mp hrest
      exact ih (h.extend hop hnext) hrest

/-- Operands may be added to a grouping that is taken whole. -/
theorem All.takenBy {P : α → Prop} {base : Grouping α} (h : base.All P)
    {rest : List (BinaryOp × α)} (hrest : ∀ next ∈ rest, next.1 ≠ .undefined ∧ P next.2) :
    (base.takenBy rest).All P := by
  cases rest with
  | nil => exact h
  | cons next rest =>
      obtain ⟨⟨hop, hnext⟩, hrest⟩ := List.forall_mem_cons.mp hrest
      have hall : (Grouping.apply next.1 base (.operand next.2)).All P := ⟨hop, h, hnext⟩
      exact hall.extendAll hrest

/-- All operands are replaced. -/
@[simp]
theorem all_map {P : β → Prop} {f : α → β} {grouping : Grouping α} :
    (grouping.map f).All P ↔ grouping.All fun a => P (f a) := by
  induction grouping with
  | operand a => rfl
  | apply op left right ihleft ihright => simp only [map, All, ihleft, ihright]

/-! ## Outlines -/

/-- The outline of a grouping whose operands have outlines. -/
def outline (operand : α → Outline) : Grouping α → Outline
  | .operand a => operand a
  | .apply op left right => .math op.symbol (left.outline operand) (right.outline operand)

/-- The outline of replaced operands is that with their outlines. -/
@[simp]
theorem outline_map (operand : β → Outline) (f : α → β) (grouping : Grouping α) :
    (grouping.map f).outline operand = grouping.outline (operand ∘ f) := by
  induction grouping with
  | operand a => rfl
  | apply op left right ihleft ihright => rw [map, outline, outline, ihleft, ihright]

/-- A grouping with an operator is arithmetic. -/
theorem isMath_outline_extend (operand : α → Outline) (op : BinaryOp) (a : α)
    (grouping : Grouping α) : ((grouping.extend op a).outline operand).isMath = true := by
  cases grouping with
  | operand => rfl
  | apply earlier left right =>
      rw [extend]
      split <;> rfl

/-! ## Slots -/

/-- What stands behind an operator without a right side is taken by it. -/
theorem fillRight?_outline (operand : α → Outline) {op : BinaryOp} {hole : α}
    (hhole : operand hole = .empty) (a : α) (grouping : Grouping α) :
    Outline.fillRight? (operand a) ((grouping.extend op hole).outline operand) =
      some ((grouping.extend op a).outline operand) := by
  induction grouping with
  | operand b => simp [extend, outline, hhole, Outline.fillRight?]
  | apply earlier left right _ ih =>
      rw [extend, extend]
      split
      · simp [outline, hhole, Outline.fillRight?]
      · have hmath := isMath_outline_extend operand op hole right
        rw [outline, Outline.fillRight?, ih]
        · rfl
        · intro hempty
          rw [hempty] at hmath
          simp [Outline.isMath] at hmath

/-- The leftmost operand. -/
def leftmost : Grouping α → α
  | .operand a => a
  | .apply _ left _ => left.leftmost

/-- What is added at the right end does not change the leftmost operand. -/
@[simp]
theorem leftmost_extendAll (grouping : Grouping α) (rest : List (BinaryOp × α)) :
    (grouping.extendAll rest).leftmost = grouping.leftmost := by
  induction rest generalizing grouping with
  | nil => rfl
  | cons next rest ih =>
      obtain ⟨op, a⟩ := next
      rw [extendAll_cons, ih]
      cases grouping with
      | operand => rfl
      | apply earlier left right =>
          rw [extend]
          split <;> rfl

/-- What stands before an operator without a left side is taken by it. -/
theorem fillLeft?_outline (operand : α → Outline) (base : Grouping α) {grouping : Grouping α}
    (hhole : operand grouping.leftmost = .empty)
    (hmath : (grouping.outline operand).isMath = true) :
    Outline.fillLeft? (base.outline operand) (grouping.outline operand) =
      some ((plugLeft base grouping).outline operand) := by
  induction grouping with
  | operand a =>
      rw [outline, show operand a = .empty from hhole] at hmath
      simp [Outline.isMath] at hmath
  | apply op left right ih _ =>
      rw [leftmost] at hhole
      cases left with
      | operand a =>
          rw [leftmost] at hhole
          simp [outline, hhole, Outline.fillLeft?, plugLeft]
      | apply op' left' right' =>
          have hfill := ih hhole rfl
          rw [outline, Outline.fillLeft?, hfill]
          · rfl
          · rw [outline]
            simp

/-- What a formula with a missing first operand takes. -/
theorem fillLeft?_ofFormula (operand : α → Outline) (base : Grouping α) {hole : α}
    (hhole : operand hole = .empty) {rest : List (BinaryOp × α)} (hrest : rest ≠ []) :
    Outline.fillLeft? (base.outline operand) ((ofFormula hole rest).outline operand) =
      some ((base.takenBy rest).outline operand) := by
  rw [takenBy_eq_plugLeft base hole]
  refine fillLeft?_outline operand base ?_ ?_
  · rw [ofFormula, leftmost_extendAll]
    exact hhole
  · rw [← List.dropLast_concat_getLast hrest, ofFormula, extendAll_append]
    exact isMath_outline_extend operand _ _ _

/-- Nothing is missing in a grouping of whole operands. -/
theorem All.fillRight? {operand : α → Outline} {grouping : Grouping α}
    (h : grouping.All fun a => (operand a).isMath = false ∧ (operand a).isEmpty = false)
    (other : Outline) :
    Outline.fillRight? other (grouping.outline operand) = none ∧
      grouping.outline operand ≠ .empty := by
  induction grouping with
  | operand a =>
      rw [outline]
      cases hoperand : operand a with
      | leaf | group => exact ⟨rfl, by simp⟩
      | math => simp [All, hoperand, Outline.isMath] at h
      | empty => simp [All, hoperand, Outline.isEmpty] at h
  | apply op left right ihleft ihright =>
      refine ⟨?_, by simp [outline]⟩
      rw [outline, Outline.fillRight?, (ihright h.2.2).1, (ihleft h.2.1).1]
      · rfl
      · exact (ihright h.2.2).2

end Grouping
end DiceNotation

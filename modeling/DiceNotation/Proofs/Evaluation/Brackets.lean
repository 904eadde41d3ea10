import DiceNotation.Proofs.Evaluation.Formula
import Mathlib.Data.List.Induction

/-!
# Redundant brackets

Brackets around a single integer of a formula should change nothing.  They do change the
grouping, as the operator behind a bracket takes all that stands before it.  This makes no
difference exactly if that operator would take all of it without the brackets, too.

Main definitions:

- `Expression.formula`: a formula of integers, some of them in brackets.
- `Expression.Redundant`: whether no operator behind a bracket takes more than it should.

Main results:

- `Expression.brackets_change_nothing_iff`: brackets change no result exactly if they are
  redundant in this sense.
-/

namespace DiceNotation

open Outline (Term IsLiteral IsTerms foldNext folded)

/-! ## Formulas -/

namespace Expression

/-- The operand of a formula at a place. -/
def termAt (literal : Nat → Text) (chosen : Nat → Bool) (k : Nat) : Term :=
  { literal := literal k, bracketed := chosen k }

/-- The operators of a formula, each with the operand behind it. -/
def termsBehind (literal : Nat → Text) (chosen : Nat → Bool) (ops : List BinaryOp) :
    List (BinaryOp × Term) :=
  ops.mapIdx fun k op => (op, termAt literal chosen (k + 1))

/-- The formula of integers with the given operators between them; the chosen operands stand
in brackets. -/
def formula (literal : Nat → Text) (chosen : Nat → Bool) (ops : List BinaryOp) : Text :=
  Outline.termsText (termAt literal chosen 0) (termsBehind literal chosen ops)

/-- The operators on integers that give integers again. -/
def integerOps : List BinaryOp := [.add, .subtract, .multiply, .remainder, .power]

/-- Whether each operator behind a chosen operand would take all that stands before it without
brackets, too. -/
def Redundant (chosen : Nat → Bool) (ops : List BinaryOp) : Prop :=
  ∀ j op, chosen j = true → ops[j]? = some op →
    ∀ earlier ∈ ops.take j, earlier.groupsBefore op = true

/-- How a formula is grouped, and whether it ends in a bracket. -/
def folding (literal : Nat → Text) (chosen : Nat → Bool) (ops : List BinaryOp) :
    Grouping Term × Bool :=
  (termsBehind literal chosen ops).foldl foldNext
    (.operand (termAt literal chosen 0), chosen 0)

section Folding

variable (literal : Nat → Text) (chosen : Nat → Bool)

/-- One more operator folds in its operand. -/
@[simp]
theorem folding_concat (ops : List BinaryOp) (op : BinaryOp) :
    folding literal chosen (ops ++ [op]) =
      foldNext (folding literal chosen ops) (op, termAt literal chosen (ops.length + 1)) := by
  simp [folding, termsBehind, List.mapIdx_append]

/-- A folding ends in a bracket if its last operand stands in one. -/
@[simp]
theorem folding_snd (ops : List BinaryOp) : (folding literal chosen ops).2 = chosen ops.length := by
  induction ops using List.reverseRecOn with
  | nil => rfl
  | append_singleton ops op ih => simp [foldNext, termAt]

/-- Folding keeps the operators in their order. -/
@[simp]
theorem operators_folding (ops : List BinaryOp) :
    (folding literal chosen ops).1.operators = ops := by
  induction ops using List.reverseRecOn with
  | nil => rfl
  | append_singleton ops op ih =>
      rw [folding_concat, foldNext]
      split
      · simp [Grouping.operators, ih]
      · simp [ih]

/-- Without brackets the loosest operator is at the root. -/
theorem loosestAtRoot_folding (ops : List BinaryOp) :
    (folding literal (fun _ => false) ops).1.LoosestAtRoot := by
  induction ops using List.reverseRecOn with
  | nil => trivial
  | append_singleton ops op ih =>
      rw [folding_concat, foldNext, folding_snd, if_neg (by simp)]
      exact ih.extend op _

end Folding

/-- A formula is made of literals and operators. -/
theorem isTerms_termsBehind {literal : Nat → Text} {chosen : Nat → Bool} {ops : List BinaryOp}
    (hops : ∀ op ∈ ops, op ∈ integerOps)
    (hliteral : ∀ k ≤ ops.length, IsLiteral (literal k)) :
    IsTerms (termsBehind literal chosen ops) := by
  intro next hnext
  obtain ⟨k, hk, rfl⟩ := List.mem_mapIdx.mp hnext
  refine ⟨?_, hliteral (k + 1) hk⟩
  have hop := hops _ (List.getElem_mem hk)
  rintro hundefined
  rw [show ops[k] = .undefined from hundefined] at hop
  simp [integerOps] at hop

/-! ## Brackets that change nothing -/

/-- A term without its brackets. -/
def bare (term : Term) : Term := { term with bracketed := false }

/-- Brackets around operands do not change the value of a grouping. -/
theorem value_map_bare (grouping : Grouping Term) :
    (grouping.map bare).value = grouping.value := by
  induction grouping with
  | operand term => rfl
  | apply op left right ihleft ihright =>
      rw [Grouping.map, Grouping.value, Grouping.value, ihleft, ihright]

/-- Brackets that change nothing do not without the last operator either, and its left side would
have taken all. -/
theorem Redundant.of_concat {chosen : Nat → Bool} {ops : List BinaryOp} {op : BinaryOp}
    (h : Redundant chosen (ops ++ [op])) :
    Redundant chosen ops ∧
      (chosen ops.length = true → ∀ earlier ∈ ops, earlier.groupsBefore op = true) := by
  constructor
  · intro j later hj hlater earlier hearlier
    have hlt : j < ops.length := (List.getElem?_eq_some_iff.mp hlater).1
    refine h j later hj (by rw [List.getElem?_append_left hlt, hlater]) earlier ?_
    rwa [List.take_append_of_le_length (by omega)]
  · intro hchosen earlier hearlier
    exact h ops.length op hchosen (by simp) earlier (by simpa using hearlier)

/-- Redundant brackets leave the grouping as it is. -/
theorem map_bare_folding (literal : Nat → Text) {chosen : Nat → Bool} {ops : List BinaryOp}
    (h : Redundant chosen ops) :
    (folding literal chosen ops).1.map bare = (folding literal (fun _ => false) ops).1 := by
  induction ops using List.reverseRecOn with
  | nil => rfl
  | append_singleton ops op ih =>
      obtain ⟨hops, hlast⟩ := h.of_concat
      have ih := ih hops
      rw [folding_concat, folding_concat, foldNext, foldNext, folding_snd, folding_snd,
        if_neg (by simp : ¬false = true), ← ih]
      by_cases hchosen : chosen ops.length = true
      · have hall : ∀ earlier ∈ ((folding literal chosen ops).1.map bare).operators,
            earlier.groupsBefore op = true := by
          rw [ih, operators_folding]
          exact hlast hchosen
        rw [if_pos hchosen, Grouping.extend_of_forall_groupsBefore hall]
        rfl
      · rw [if_neg hchosen, Grouping.map_extend]
        rfl

end Expression

/-! ## Operands that change nothing -/

namespace BinaryOp

/-- The right side with which an operator keeps its left side, if that is less than five. -/
def neutral : BinaryOp → Nat
  | .add | .subtract => 0
  | .multiply | .power => 1
  | .divide | .remainder | .undefined => 5

/-- A right side with which an operator does not keep two. -/
def probe : BinaryOp → Nat
  | .remainder => 1
  | _ => 2

/-- The operators on integers are five. -/
theorem mem_integerOps {op : BinaryOp} (h : op ∈ Expression.integerOps) :
    op = .add ∨ op = .subtract ∨ op = .multiply ∨ op = .remainder ∨ op = .power := by
  simpa [Expression.integerOps] using h

/-- A neutral right side keeps the left side. -/
theorem apply_neutral {op : BinaryOp} (hop : op ∈ Expression.integerOps) {n : Nat} (hn : n ≤ 25)
    (hremainder : op = .remainder → n < 5) :
    op.apply (.int n) (.int op.neutral) = .ok (.int n) := by
  rcases mem_integerOps hop with rfl | rfl | rfl | rfl | rfl
  · simp [neutral]
  · simp [neutral]
  · simp [neutral]
  · have hall : ∀ m : Fin 5, remainder.apply (.int (m : Nat)) (.int 5) = .ok (.int (m : Nat)) := by
      decide
    exact hall ⟨n, hremainder rfl⟩
  · have hall : ∀ m : Fin 26, power.apply (.int (m : Nat)) (.int 1) = .ok (.int (m : Nat)) := by
      decide
    exact hall ⟨n, by omega⟩

/-- Behind an operator that should not be taken, a probe at most squares its right side. -/
theorem apply_probe {earlier op : BinaryOp} (hearlier : earlier ∈ Expression.integerOps)
    (hop : op ∈ Expression.integerOps) (hbefore : earlier.groupsBefore op = false) :
    op.apply (.int earlier.neutral) (.int op.probe) = .ok (.int (earlier.neutral ^ 2 : Nat)) := by
  rcases mem_integerOps hearlier with rfl | rfl | rfl | rfl | rfl <;>
    rcases mem_integerOps hop with rfl | rfl | rfl | rfl | rfl <;>
      first
        | exact absurd hbefore (by decide)
        | decide

/-- Where an operator keeps its left side, it does so with its right side squared. -/
theorem apply_neutral_square {op : BinaryOp} (hop : op ∈ Expression.integerOps) {n : Nat}
    (hn : n ≤ 25) (h : op.apply (.int n) (.int op.neutral) = .ok (.int n)) :
    op.apply (.int n) (.int (op.neutral ^ 2 : Nat)) = .ok (.int n) := by
  have hall : ∀ m : Fin 26,
      remainder.apply (.int (m : Nat)) (.int 5) = .ok (.int (m : Nat)) →
        remainder.apply (.int (m : Nat)) (.int (25 : Nat)) = .ok (.int (m : Nat)) := by
    decide
  rcases mem_integerOps hop with rfl | rfl | rfl | rfl | rfl
  · exact h
  · exact h
  · exact h
  · exact hall ⟨n, by omega⟩ h
  · exact h

/-- What a probe makes of two. -/
theorem apply_two_probe {earlier op : BinaryOp} (hearlier : earlier ∈ Expression.integerOps)
    (hop : op ∈ Expression.integerOps) (hbefore : earlier.groupsBefore op = false) :
    ∃ n : Nat, op.apply (.int (2 : Nat)) (.int op.probe) = .ok (.int n) ∧ n < 5 ∧ n ≠ 2 := by
  rcases mem_integerOps hop with rfl | rfl | rfl | rfl | rfl
  · rcases mem_integerOps hearlier with rfl | rfl | rfl | rfl | rfl <;>
      exact absurd hbefore (by decide)
  · rcases mem_integerOps hearlier with rfl | rfl | rfl | rfl | rfl <;>
      exact absurd hbefore (by decide)
  · exact ⟨4, by decide⟩
  · exact ⟨0, by decide⟩
  · exact ⟨4, by decide⟩

end BinaryOp

/-! ## Groupings that keep their value -/

/-- A number below ten as it is written. -/
def numeral (n : Nat) : Text := [Nat.digitChar n]

/-- An operator with its neutral operand. -/
def IsNeutral (next : BinaryOp × Term) : Prop :=
  next.1 ∈ Expression.integerOps ∧ next.2.literal = numeral next.1.neutral

/-- A neutral right side is read as it is written. -/
theorem value_numeral_neutral (op : BinaryOp) :
    Numeral.value (numeral op.neutral) = (op.neutral : Int) := by
  cases op <;> decide

/-- A probe is read as it is written, too. -/
theorem value_numeral_probe (op : BinaryOp) :
    Numeral.value (numeral op.probe) = (op.probe : Int) := by
  cases op <;> decide

namespace Grouping

/-- A grouping with a small value that neutral operands at its right end do not change.  It is
exact if all operators along its right side keep their left sides. -/
inductive Steady (exact : Bool) : Grouping Term → Nat → Prop
  | operand {term : Term} {n : Nat} (hn : n ≤ 25) (hvalue : Numeral.value term.literal = (n : Int)) :
      Steady exact (.operand term) n
  | apply {op : BinaryOp} {left right : Grouping Term} {x y z : Nat}
      (hop : op ∈ Expression.integerOps)
      (hleft : left.value = .ok (.int x)) (hright : Steady exact right y)
      (happly : op.apply (.int x) (.int y) = .ok (.int z))
      (hlevel : op.level ≤ 1 → y < 5) (hz : z ≤ 25)
      (hexact : exact = true → x = z ∧ y = op.neutral) :
      Steady exact (.apply op left right) z

namespace Steady

variable {exact : Bool} {grouping : Grouping Term} {n : Nat}

/-- A steady grouping has its value. -/
theorem value_eq (h : Steady exact grouping n) : grouping.value = .ok (.int n) := by
  induction h with
  | operand hn hvalue => rw [Grouping.value, hvalue]
  | apply hop hleft hright happly hlevel hz hexact ihright =>
      rw [Grouping.value, hleft, ok_bind, ihright, ok_bind, happly]

/-- The value of a steady grouping is small. -/
theorem le (h : Steady exact grouping n) : n ≤ 25 := by
  cases h with
  | operand hn hvalue => exact hn
  | apply hop hleft hright happly hlevel hz hexact => exact hz

/-- A neutral operand is a steady grouping. -/
theorem numeral_neutral (exact : Bool) {next : BinaryOp × Term} (h : IsNeutral next) :
    Steady exact (.operand next.2) next.1.neutral := by
  refine .operand ?_ ?_
  · rcases BinaryOp.mem_integerOps h.1 with hop | hop | hop | hop | hop <;>
      simp [hop, BinaryOp.neutral]
  · rw [h.2, value_numeral_neutral]

/-- The whole of a grouping, taken with a neutral operand. -/
theorem taken (h : Steady exact grouping n) {next : BinaryOp × Term} (hnext : IsNeutral next)
    (hremainder : next.1 = .remainder → n < 5) :
    Steady exact (.apply next.1 grouping (.operand next.2)) n := by
  have hlevel : next.1.level ≤ 1 → next.1.neutral < 5 := by
    rcases BinaryOp.mem_integerOps hnext.1 with hop | hop | hop | hop | hop <;>
      simp [hop, BinaryOp.neutral, BinaryOp.level]
  exact .apply hnext.1 h.value_eq (numeral_neutral exact hnext)
    (BinaryOp.apply_neutral hnext.1 h.le hremainder) hlevel h.le fun _ => ⟨rfl, rfl⟩

/-- Growth by a neutral operand keeps the value. -/
theorem extend (h : Steady exact grouping n) {next : BinaryOp × Term} (hnext : IsNeutral next)
    (hremainder : next.1 = .remainder → n < 5) :
    Steady exact (grouping.extend next.1 next.2) n := by
  induction h with
  | operand hn hvalue =>
      have hoperand : Steady exact (.operand _) _ := .operand hn hvalue
      exact hoperand.taken hnext hremainder
  | @apply op left right x y z hop hleft hright happly hlevel hz hexact ihright =>
      rw [Grouping.extend]
      by_cases hbefore : op.groupsBefore next.1 = true
      · have happlied : Steady exact (.apply op left right) z :=
          .apply hop hleft hright happly hlevel hz hexact
        rw [if_pos hbefore]
        exact happlied.taken hnext hremainder
      · -- A remainder is taken only by operators whose right side is small.
        have hsmall : next.1 = .remainder → y < 5 := by
          intro hnext
          rw [hnext] at hbefore
          refine hlevel ?_
          rcases BinaryOp.mem_integerOps hop with rfl | rfl | rfl | rfl | rfl
          · decide
          · decide
          · exact absurd (by decide) hbefore
          · exact absurd (by decide) hbefore
          · exact absurd (by decide) hbefore
        rw [if_neg hbefore]
        exact .apply hop hleft (ihright hsmall) happly hlevel hz hexact

/-- Neutral operands keep the value, wherever there are brackets. -/
theorem foldl_foldNext {rest : List (BinaryOp × Term)} (hrest : ∀ next ∈ rest, IsNeutral next)
    {state : Grouping Term × Bool} (h : Steady exact state.1 n) (hn : n < 5) :
    Steady exact (rest.foldl foldNext state).1 n := by
  induction rest generalizing state with
  | nil => exact h
  | cons next rest ih =>
      obtain ⟨hnext, hrest⟩ := List.forall_mem_cons.mp hrest
      rw [List.foldl_cons]
      refine ih hrest ?_
      unfold foldNext
      split
      · exact h.taken hnext fun _ => hn
      · exact h.extend hnext fun _ => hn

/-- A probe is a steady grouping. -/
theorem numeral_probe {op : BinaryOp} {term : Term} (hterm : term.literal = numeral op.probe) :
    Steady false (.operand term) op.probe := by
  refine .operand ?_ (by rw [hterm, value_numeral_probe])
  cases op <;> decide

section Probe

variable {op earlier : BinaryOp} {left right : Grouping Term} {term : Term}

/-- A probe squares the right side of an operator that should not be taken. -/
theorem taken_probe (h : Steady true right earlier.neutral)
    (hearlier : earlier ∈ Expression.integerOps) (hop : op ∈ Expression.integerOps)
    (hbefore : earlier.groupsBefore op = false) (hterm : term.literal = numeral op.probe) :
    Steady false (.apply op right (.operand term)) (earlier.neutral ^ 2) := by
  refine .apply hop h.value_eq (numeral_probe hterm)
    (BinaryOp.apply_probe hearlier hop hbefore) ?_ ?_ (by simp)
  · intro
    cases op <;> decide
  · rcases BinaryOp.mem_integerOps hearlier with rfl | rfl | rfl | rfl | rfl <;> decide

/-- An exact grouping keeps its value when its right side is squared. -/
theorem replace_right (h : Steady true (.apply earlier left right) n) {right' : Grouping Term}
    {y : Nat} (hright : Steady false right' y)
    (hy : y = earlier.neutral ∨ y = earlier.neutral ^ 2) :
    Steady false (.apply earlier left right') n := by
  obtain _ | ⟨hearlier, hleft, _, happly, hlevel, hn, hexact⟩ := h
  obtain ⟨rfl, rfl⟩ := hexact rfl
  rcases hy with rfl | rfl
  · exact .apply hearlier hleft hright happly hlevel hn (by simp)
  · refine .apply hearlier hleft hright (BinaryOp.apply_neutral_square hearlier hn happly) ?_ hn
      (by simp)
    intro hlow
    rcases BinaryOp.mem_integerOps hearlier with rfl | rfl | rfl | rfl | rfl
    · decide
    · decide
    · decide
    · exact absurd hlow (by decide)
    · decide

/-- A probe that does not take the whole of an exact grouping keeps its value. -/
theorem extend_probe (h : Steady true (.apply earlier left right) n)
    (hop : op ∈ Expression.integerOps) (hbefore : earlier.groupsBefore op = false)
    (hterm : term.literal = numeral op.probe) :
    Steady false ((Grouping.apply earlier left right).extend op term) n := by
  -- The induction goes down the right side, to what the probe takes.
  induction right generalizing earlier left n with
  | operand b =>
      rw [Grouping.extend, if_neg (by simp [hbefore]), Grouping.extend]
      refine h.replace_right (y := earlier.neutral ^ 2) ?_ (.inr rfl)
      obtain _ | ⟨hearlier, _, hright, _, _, _, hexact⟩ := h
      obtain ⟨-, rfl⟩ := hexact rfl
      exact hright.taken_probe hearlier hop hbefore hterm
  | apply later left' right' _ ih =>
      rw [Grouping.extend, if_neg (by simp [hbefore])]
      obtain _ | ⟨hearlier, _, hright, _, _, _, hexact⟩ := id h
      obtain ⟨-, rfl⟩ := hexact rfl
      by_cases hlater : later.groupsBefore op = true
      · rw [Grouping.extend, if_pos hlater]
        exact h.replace_right (hright.taken_probe hearlier hop hbefore hterm) (.inr rfl)
      · exact h.replace_right (ih hright (by simpa using hlater)) (.inl rfl)

end Probe

end Steady
end Grouping

/-! ## Brackets that change a result -/

namespace Expression

/-- Literals that tell whether the operator at a place takes what it should: a probe behind it,
and neutral operands behind all others. -/
def probing (ops : List BinaryOp) (j : Nat) : Nat → Text
  | 0 => numeral 2
  | k + 1 =>
    match ops[k]? with
    | some op => numeral (if k = j then op.probe else op.neutral)
    | none => numeral 0

/-- Probing literals are literals, and are read. -/
theorem probing_readable (ops : List BinaryOp) (j k : Nat) :
    IsLiteral (probing ops j k) ∧ ∃ e, ofLeaf (probing ops j k) = .ok e := by
  have hdigit : ∀ n : Nat, n = 0 ∨ n = 1 ∨ n = 2 ∨ n = 5 →
      IsLiteral (numeral n) ∧ ∃ e, ofLeaf (numeral n) = .ok e := by
    rintro n (rfl | rfl | rfl | rfl) <;> exact ⟨⟨by decide, List.all_eq_true.mp rfl⟩, _, rfl⟩
  cases k with
  | zero => exact hdigit 2 (by simp)
  | succ k =>
      rw [probing]
      split
      · next op _ =>
          refine hdigit _ ?_
          split <;> cases op <;> simp [BinaryOp.probe, BinaryOp.neutral]
      · exact hdigit 0 (by simp)

section Probing

variable {ops : List BinaryOp} (hops : ∀ op ∈ ops, op ∈ integerOps)
include hops

/-- A probing formula, cut at the probe. -/
theorem termsBehind_probing (chosen : Nat → Bool) {j : Nat} {op : BinaryOp}
    (hj : ops[j]? = some op) :
    ∃ rest term, termsBehind (probing ops j) chosen ops =
        termsBehind (probing ops j) chosen (ops.take j) ++ (op, term) :: rest ∧
      term.literal = numeral op.probe ∧
      (∀ next ∈ termsBehind (probing ops j) chosen (ops.take j), IsNeutral next) ∧
      ∀ next ∈ rest, IsNeutral next := by
  obtain ⟨hlt, rfl⟩ := List.getElem?_eq_some_iff.mp hj
  have hneutral : ∀ k (hk : k < ops.length), k ≠ j →
      IsNeutral (ops[k], termAt (probing ops j) chosen (k + 1)) := by
    intro k hk hne
    refine ⟨hops _ (List.getElem_mem hk), ?_⟩
    simp [termAt, probing, hk, hne]
  have hcut : ops = ops.take j ++ ops[j] :: ops.drop (j + 1) := by
    rw [← List.drop_eq_getElem_cons, List.take_append_drop]
  have hlength : (ops.take j).length = j := by simp; omega
  refine ⟨(ops.drop (j + 1)).mapIdx fun k op =>
    (op, termAt (probing ops j) chosen (k + 1 + j + 1)), termAt (probing ops j) chosen (j + 1),
    ?_, ?_, ?_, ?_⟩
  · conv_lhs => rw [termsBehind, hcut]
    rw [List.mapIdx_append, List.mapIdx_cons, hlength]
    simp [termsBehind]
  · simp [termAt, probing, hlt]
  · intro next hnext
    obtain ⟨k, hk, rfl⟩ := List.mem_mapIdx.mp hnext
    have hk' : k < j := by omega
    simpa using hneutral k (by omega) (by omega)
  · intro next hnext
    obtain ⟨k, hk, rfl⟩ := List.mem_mapIdx.mp hnext
    have hk' : j + 1 + k < ops.length := by simp at hk; omega
    have hplace : k + 1 + j + 1 = j + 1 + k + 1 := by omega
    simpa [hplace] using hneutral (j + 1 + k) hk' (by omega)

/-- Up to the probe a formula keeps its first operand. -/
theorem steady_folding (chosen : Nat → Bool) {j : Nat} {op : BinaryOp}
    (hj : ops[j]? = some op) :
    (folding (probing ops j) chosen (ops.take j)).1.Steady true 2 := by
  obtain ⟨rest, term, -, -, hbefore, -⟩ := termsBehind_probing hops chosen hj
  have hfirst : (Grouping.operand (termAt (probing ops j) chosen 0)).Steady true 2 :=
    .operand (by decide) rfl
  exact Grouping.Steady.foldl_foldNext hbefore hfirst (by decide)

variable {j : Nat} {op earlier : BinaryOp} (hj : ops[j]? = some op)
  (hearlier : earlier ∈ ops.take j) (hbefore : earlier.groupsBefore op = false)
include hj hearlier hbefore

/-- Without brackets a probe that should not take all leaves the value as it is. -/
theorem value_folding_plain :
    (folding (probing ops j) (fun _ => false) ops).1.value = .ok (.int (2 : Nat)) := by
  have hsteady := steady_folding hops (fun _ => false) hj
  have hloosest := loosestAtRoot_folding (probing ops j) (ops.take j)
  have hoperators := operators_folding (probing ops j) (fun _ => false) (ops.take j)
  have hopen := folding_snd (probing ops j) (fun _ => false) (ops.take j)
  obtain ⟨rest, term, hterms, hterm, -, hrest⟩ :=
    termsBehind_probing hops (fun _ => false) hj
  have hop : op ∈ integerOps := hops op (List.mem_of_getElem? hj)
  have hnext : (foldNext (folding (probing ops j) (fun _ => false) (ops.take j)) (op, term)).1.Steady
      false 2 := by
    rw [foldNext, hopen, if_neg (by simp)]
    cases hgrouping : (folding (probing ops j) (fun _ => false) (ops.take j)).1 with
    | operand b =>
        rw [← hoperators, hgrouping, Grouping.operators] at hearlier
        exact absurd hearlier List.not_mem_nil
    | apply root left right =>
        rw [hgrouping] at hsteady hloosest hoperators
        refine hsteady.extend_probe hop ?_ hterm
        have hroot : root.level ≤ earlier.level := hloosest earlier (by rwa [hoperators])
        by_cases htake : root.groupsBefore op = true
        · simp [BinaryOp.groupsBefore_mono hroot htake] at hbefore
        · simpa using htake
  rw [folding, hterms, List.foldl_append, List.foldl_cons]
  exact (hnext.foldl_foldNext hrest (by decide)).value_eq

/-- Behind a bracket a probe that should not take all changes the value. -/
theorem value_folding_chosen {chosen : Nat → Bool} (hchosen : chosen j = true) :
    ∃ n : Nat, n ≠ 2 ∧ (folding (probing ops j) chosen ops).1.value = .ok (.int n) := by
  have hsteady := steady_folding hops chosen hj
  have hclosed := folding_snd (probing ops j) chosen (ops.take j)
  obtain ⟨rest, term, hterms, hterm, -, hrest⟩ := termsBehind_probing hops chosen hj
  have hop : op ∈ integerOps := hops op (List.mem_of_getElem? hj)
  obtain ⟨n, happly, hn, hne⟩ :=
    BinaryOp.apply_two_probe (hops _ (List.mem_of_mem_take hearlier)) hop hbefore
  refine ⟨n, hne, ?_⟩
  have hlength : (ops.take j).length = j := by
    have hlt := (List.getElem?_eq_some_iff.mp hj).1
    simp
    omega
  have hnext : (foldNext (folding (probing ops j) chosen (ops.take j)) (op, term)).1.Steady
      false n := by
    rw [foldNext, hclosed, hlength, if_pos hchosen]
    refine .apply hop hsteady.value_eq (Grouping.Steady.numeral_probe hterm) happly ?_ (by omega)
      (by simp)
    intro
    cases op <;> decide
  rw [folding, hterms, List.foldl_append, List.foldl_cons]
  exact (hnext.foldl_foldNext hrest hn).value_eq

end Probing

section Results

variable (table : Table) (markup : Markup)

/-- A formula has an outcome exactly if its literals are read and its grouping has a value. -/
theorem run_resolve_formula {literal : Nat → Text} {chosen : Nat → Bool} {ops : List BinaryOp}
    (hops : ∀ op ∈ ops, op ∈ integerOps) (hliteral : ∀ k ≤ ops.length, IsLiteral (literal k))
    (tally tally' : Tally) (value : Number) :
    (∃ outcome, (resolve table markup (formula literal chosen ops)).run tally =
        .ok outcome tally' ∧ outcome.value = value) ↔
      (folding literal chosen ops).1.All Grouping.Readable ∧
        (folding literal chosen ops).1.value = .ok value ∧ tally' = tally :=
  run_resolve_termsText (hliteral 0 (Nat.zero_le _)) (isTerms_termsBehind hops hliteral) ..

/-- A probing formula has the value of its grouping. -/
theorem run_resolve_probing {ops : List BinaryOp} (hops : ∀ op ∈ ops, op ∈ integerOps) (j : Nat)
    {chosen : Nat → Bool} {value : Number}
    (hvalue : (folding (probing ops j) chosen ops).1.value = .ok value) (tally : Tally) :
    ∃ outcome, (resolve table markup (formula (probing ops j) chosen ops)).run tally =
      .ok outcome tally ∧ outcome.value = value := by
  have hliteral : ∀ k ≤ ops.length, IsLiteral (probing ops j k) :=
    fun k _ => (probing_readable ops j k).1
  have hread : (folding (probing ops j) chosen ops).1.All Grouping.Readable := by
    refine Outline.all_folded_iff.mpr ⟨(probing_readable ops j 0).2, ?_⟩
    intro next hnext
    refine ⟨(isTerms_termsBehind hops hliteral next hnext).1, ?_⟩
    obtain ⟨k, -, rfl⟩ := List.mem_mapIdx.mp hnext
    exact (probing_readable ops j (k + 1)).2
  exact (run_resolve_formula table markup hops hliteral tally tally value).mpr ⟨hread, hvalue, rfl⟩

/-- Brackets around operands of a formula change no result, whatever its integers are, exactly
if they are redundant. -/
theorem brackets_change_nothing_iff (tally : Tally) {ops : List BinaryOp}
    (hops : ∀ op ∈ ops, op ∈ integerOps) (chosen : Nat → Bool) :
    (∀ literal : Nat → Text, (∀ k ≤ ops.length, IsLiteral (literal k)) →
      ∀ outcome tally',
        (resolve table markup (formula literal (fun _ => false) ops)).run tally =
          .ok outcome tally' →
        ∃ outcome', (resolve table markup (formula literal chosen ops)).run tally =
          .ok outcome' tally' ∧ outcome'.value = outcome.value) ↔
      Redundant chosen ops := by
  constructor
  · intro h j op hj hop earlier hearlier
    by_cases hbefore : earlier.groupsBefore op = true
    · exact hbefore
    · have hbefore : earlier.groupsBefore op = false := by simpa using hbefore
      obtain ⟨n, hne, hvalue⟩ := value_folding_chosen hops hop hearlier hbefore hj
      obtain ⟨plain, hplain, htwo⟩ := run_resolve_probing table markup hops j
        (value_folding_plain hops hop hearlier hbefore) tally
      obtain ⟨marked, hmarked, hn⟩ := run_resolve_probing table markup hops j
        hvalue tally
      obtain ⟨same, hsame, heq⟩ :=
        h (probing ops j) (fun k _ => (probing_readable ops j k).1) plain tally hplain
      have hoverlap : same = marked := by
        rw [hsame] at hmarked
        injection hmarked
      rw [hoverlap, hn, htwo] at heq
      simp at heq
      omega
  · intro h literal hliteral outcome tally' hrun
    obtain ⟨hread, hvalue, rfl⟩ :=
      (run_resolve_formula table markup hops hliteral tally tally' outcome.value).mp ⟨outcome, hrun, rfl⟩
    rw [← map_bare_folding literal h] at hread hvalue
    rw [value_map_bare] at hvalue
    have hread : (folding literal chosen ops).1.All fun term => Grouping.Readable (bare term) :=
      Grouping.all_map.mp hread
    exact (run_resolve_formula table markup hops hliteral tally' tally' outcome.value).mpr
      ⟨hread, hvalue, rfl⟩

end Results

/-- In a sum of products, brackets around the first operand of the sum. -/
theorem brackets_change_nothing_product :
    (∀ op ∈ [BinaryOp.multiply, .add, .multiply], op ∈ integerOps) ∧
      ∀ literal : Nat → Text, (∀ k ≤ 3, IsLiteral (literal k)) → ∀ outcome tally',
        (resolve { source := fun _ => none } .plain
          (formula literal (fun _ => false) [.multiply, .add, .multiply])).run {} =
            .ok outcome tally' →
        ∃ outcome', (resolve { source := fun _ => none } .plain
          (formula literal (fun k => k == 1) [.multiply, .add, .multiply])).run {} =
            .ok outcome' tally' ∧ outcome'.value = outcome.value := by
  have hops : ∀ op ∈ [BinaryOp.multiply, .add, .multiply], op ∈ integerOps := by decide
  refine ⟨hops, (brackets_change_nothing_iff _ _ _ hops _).mpr ?_⟩
  intro j op hj hop
  obtain rfl : j = 1 := by simpa using hj
  obtain rfl : BinaryOp.add = op := by simpa using hop
  decide

/-- Brackets around the middle operand of `1+2*3` change its value from seven to nine. -/
theorem brackets_change_sum :
    ∃ outcome outcome' : Outcome,
      (resolve { source := fun _ => none } .plain ['1', '+', '2', '*', '3']).run {} =
        .ok outcome {} ∧ outcome.value = .int 7 ∧
      (resolve { source := fun _ => none } .plain ['1', '+', '(', '2', ')', '*', '3']).run {} =
        .ok outcome' {} ∧ outcome'.value = .int 9 :=
  ⟨{ value := .int 7, text := ['1', ' ', '+', ' ', '2', ' ', '*', ' ', '3'] },
    { value := .int 9,
      text := ['1', ' ', '+', ' ', '(', '2', ')', ' ', '*', ' ', '3'] },
    by decide +kernel, rfl, by decide +kernel, rfl⟩

end Expression
end DiceNotation

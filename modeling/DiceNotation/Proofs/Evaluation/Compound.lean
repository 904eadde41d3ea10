import DiceNotation.Proofs.Evaluation.Shapes
import DiceNotation.Proofs.Expression.Compound

/-!
# Compound texts, evaluated

What a text yields in brackets is what it yields on its own.  So an operator between two
texts in brackets is the operator on the values of the two texts, and a function of a text
is the function of its value; draws and dice are those of the texts.

Main results:

- `Value.collapse_bracketed`: brackets change nothing but the text of an outcome.
- `Expression.run_outcomeOf_bracket`, `Expression.outcomeOf_binary`: the outcomes of brackets
  and of operators.
- `Expression.resolve_compound`: operators and functions are compositional.
-/

namespace DiceNotation

/-! ## Steps of a roll -/

namespace Roll

variable {α : Type} {x : Except Fault α} {a : α} {tally tally' : Tally}

/-- What does not roll succeeds without a change to the tally. -/
theorem run_lift_eq_ok_iff : (lift x).run tally = .ok a tally' ↔ x = .ok a ∧ tally' = tally := by
  cases x with
  | ok b =>
      rw [run_lift_ok]
      constructor
      · rintro ⟨rfl, rfl⟩
        exact ⟨rfl, rfl⟩
      · rintro ⟨⟨⟩, rfl⟩
        rfl
  | error fault => simp

end Roll

/-! ## Brackets -/

namespace Value

@[simp]
theorem bracketed_pool (dice : List Die) : (pool dice).bracketed = pool dice := rfl

/-- Brackets change nothing but the text of an outcome. -/
theorem collapse_bracketed {value : Value} {markup : Markup} {outcome : Outcome}
    (h : value.collapse markup = .ok outcome) :
    ∃ text, value.bracketed.collapse markup = .ok { outcome with text } := by
  cases value with
  | single single =>
      cases h
      by_cases htext : outcome.text.isEmpty = true
      · exact ⟨outcome.text, by simp [bracketed, htext]⟩
      · exact ⟨['('] ++ outcome.text ++ [')'], by simp [bracketed, htext]⟩
  | pool | list => exact ⟨_, h⟩

end Value

/-! ## Pools -/

/-- What dice show in a total: each that is not discarded its value. -/
def Die.shares (dice : List Die) : List Int :=
  dice.map fun die => if die.discarded then 0 else die.value

/-- A die adds its value to a total unless it is discarded. -/
theorem Die.share_outcome {die : Die} {markup : Markup} {outcome : Outcome}
    (h : die.outcome markup = .ok outcome) :
    outcome.share = .int (if die.discarded then 0 else die.value) := by
  rw [Die.outcome, bind_eq_ok_iff] at h
  obtain ⟨text, -, heq⟩ := h
  cases heq
  unfold Outcome.share
  cases die.discarded <;> rfl

/-- The outcomes of a pool show what its dice show. -/
theorem Outcome.shares_ofPool {dice : List Die} {markup : Markup} {outcomes : List Outcome}
    (h : ofPool dice markup = .ok outcomes) :
    outcomes.map share = (Die.shares dice).map .int := by
  have hmade := mapM_eq_ok_iff.mp h
  clear h
  induction hmade with
  | nil => rfl
  | cons hfirst _ ih => simp [Die.share_outcome hfirst, ih, Die.shares]

namespace Value

variable {markup : Markup}

/-- The total of a pool: the sum of what its dice show. -/
theorem collapse_pool_eq_ok_iff {dice : List Die} {outcome : Outcome} :
    (pool dice).collapse markup = .ok outcome ↔
      ∃ outcomes, Outcome.ofPool dice markup = .ok outcomes ∧ outcomes ≠ [] ∧
        outcome = { value := .int (Die.shares dice).sum
                    text := Outcome.listText outcomes Outcome.plus } := by
  unfold collapse
  simp only [entries, bind_eq_ok_iff]
  refine exists_congr fun outcomes => and_congr_right fun houtcomes => ?_
  by_cases hempty : outcomes = []
  · simp [hempty]
  · have htotal := Number.total_int (Die.shares dice)
    rw [← Outcome.shares_ofPool houtcomes] at htotal
    simp only [List.isEmpty_iff, hempty, total, htotal, ArithmeticFault.unguarded_ok, ok_bind,
      pure_eq_ok, ne_eq, not_false_eq_true, true_and, if_false, Except.ok.injEq]
    exact eq_comm

/-- The total of two pools together is the sum of their totals. -/
theorem collapse_append {dice others : List Die} {first second : Outcome}
    (hfirst : (pool dice).collapse markup = .ok first)
    (hsecond : (pool others).collapse markup = .ok second) :
    ∃ m n text, first.value = .int m ∧ second.value = .int n ∧
      first.kind = .plain ∧ second.kind = .plain ∧
      (pool (dice ++ others)).collapse markup = .ok { value := .int (m + n), text } := by
  rw [collapse_pool_eq_ok_iff] at hfirst hsecond
  obtain ⟨outcomes, houtcomes, hne, rfl⟩ := hfirst
  obtain ⟨outcomes', houtcomes', -, rfl⟩ := hsecond
  refine ⟨_, _, Outcome.listText (outcomes ++ outcomes') Outcome.plus, rfl, rfl, rfl, rfl, ?_⟩
  rw [collapse_pool_eq_ok_iff]
  refine ⟨outcomes ++ outcomes', ?_, by simp [hne], ?_⟩
  · rw [Outcome.ofPool] at houtcomes houtcomes' ⊢
    rw [List.mapM_append, houtcomes, ok_bind, houtcomes']
    rfl
  · simp [Die.shares]

end Value

namespace Expression

variable {table : Table} {markup : Markup}

/-! ## Outcomes -/

/-- The outcome of a text whose expression is known. -/
theorem run_resolve_of_parse {text : Text} {e : Expression} (h : parse text = .ok (some e))
    (tally : Tally) :
    (resolve table markup text).run tally = (outcomeOf table markup e).run tally := by
  simp [resolve, h]

/-- A text that is not empty and has an outcome has an expression. -/
theorem exists_parse_of_resolve {text : Text} (htext : text.standardize ≠ [])
    {tally tally' : Tally} {outcome : Outcome}
    (h : (resolve table markup text).run tally = .ok outcome tally') :
    ∃ e, parse text = .ok (some e) ∧
      (outcomeOf table markup e).run tally = .ok outcome tally' := by
  have hrun := h
  rw [resolve, run_bind_eq_ok_iff] at h
  obtain ⟨result, _, hparse, -⟩ := h
  rw [Roll.run_lift_eq_ok_iff] at hparse
  obtain ⟨_, e, -, -, rfl⟩ := parse_eq_ok htext hparse.1
  rw [run_resolve_of_parse hparse.1] at hrun
  exact ⟨e, hparse.1, hrun⟩

/-- The outcome of an expression is the total of what it yields. -/
theorem run_outcomeOf_eq_ok_iff {e : Expression} {tally tally' : Tally} {outcome : Outcome} :
    (outcomeOf table markup e).run tally = .ok outcome tally' ↔
      ∃ value, (evaluate table markup e).run tally = .ok value tally' ∧
        value.collapse markup = .ok outcome := by
  rw [outcomeOf, run_bind_eq_ok_iff]
  constructor
  · rintro ⟨value, tally₁, hvalue, hcollapse⟩
    rw [Roll.run_lift_eq_ok_iff] at hcollapse
    obtain ⟨hcollapse, rfl⟩ := hcollapse
    exact ⟨value, hvalue, hcollapse⟩
  · rintro ⟨value, hvalue, hcollapse⟩
    exact ⟨value, tally', hvalue, Roll.run_lift_eq_ok_iff.mpr ⟨hcollapse, rfl⟩⟩

/-! ## Operators and functions -/

/-- A guarded failure is that of an impossible computation. -/
theorem guarded_error {x : Except ArithmeticFault Number} {fault : Fault}
    (h : ArithmeticFault.guarded x = .error fault) :
    ∃ cause, fault = .impossible (.arithmetic cause) := by
  cases x with
  | ok value => simp at h
  | error cause =>
      cases h
      exact ⟨cause, rfl⟩

/-- An operator that has a meaning fails only in its arithmetic. -/
theorem apply_binary_error {op : BinaryOp} (hop : op ≠ .undefined) {left right : Number}
    {fault : Fault} (h : op.apply left right = .error fault) :
    ∃ cause, fault = .impossible (.arithmetic cause) := by
  cases op with
  | undefined => exact absurd rfl hop
  | add | subtract | multiply | divide | remainder | power => exact guarded_error h

/-- A function that has a meaning fails only in its arithmetic. -/
theorem apply_unary_error {op : UnaryOp} (hop : op ≠ .undefined) {value : Number}
    {fault : Fault} (h : op.apply value = .error fault) :
    ∃ cause, fault = .impossible (.arithmetic cause) := by
  cases op with
  | undefined => exact absurd rfl hop
  | magnitude => simp [UnaryOp.apply] at h
  | floor | ceiling | round => exact guarded_error h

/-- Of operators only a sum of pools is a pool. -/
theorem shape_eq_pool {op : BinaryOp} {e f : Expression}
    (h : (Expression.binary op (.bracket e) (.bracket f)).shape = .pool) :
    op = .add ∧ e.shape = .pool ∧ f.shape = .pool := by
  cases op with
  | add =>
      rw [shape_add] at h
      split at h
      · next hpools => exact ⟨rfl, by simpa using hpools⟩
      · simp at h
  | subtract | multiply | divide | remainder | power | undefined => simp [shape] at h

/-- An operator between two expressions in brackets, both of them pools. -/
theorem run_outcomeOf_pools {e f : Expression} (he : e.shape = .pool) (hf : f.shape = .pool)
    {tally tally₁ tally₂ : Tally} {first second : Outcome}
    (hfirst : (outcomeOf table markup e).run tally = .ok first tally₁)
    (hsecond : (outcomeOf table markup f).run tally₁ = .ok second tally₂) :
    ∃ m n text, first.value = .int m ∧ second.value = .int n ∧
      first.kind = .plain ∧ second.kind = .plain ∧
      (outcomeOf table markup (.binary .add (.bracket e) (.bracket f))).run tally =
        .ok { value := .int (m + n), text } tally₂ := by
  rw [run_outcomeOf_eq_ok_iff] at hfirst hsecond
  obtain ⟨value, hvalue, hcollapse⟩ := hfirst
  obtain ⟨value', hvalue', hcollapse'⟩ := hsecond
  obtain ⟨dice, rfl⟩ := exists_pool_of_run he hvalue
  obtain ⟨dice', rfl⟩ := exists_pool_of_run hf hvalue'
  obtain ⟨m, n, text, hm, hn, hkind, hkind', htotal⟩ := Value.collapse_append hcollapse hcollapse'
  refine ⟨m, n, text, hm, hn, hkind, hkind', ?_⟩
  rw [run_outcomeOf_eq_ok_iff]
  refine ⟨.pool (dice ++ dice'), ?_, htotal⟩
  have hshape : (Expression.binary .add (.bracket e) (.bracket f)).shape = .pool := by
    simp [shape_add, he, hf]
  simp [evaluate, hshape, hvalue, hvalue', Value.dice, -bind_pure_comp]

/-- Brackets change nothing but the text of an outcome. -/
theorem run_outcomeOf_bracket {e : Expression} {tally tally' : Tally} {outcome : Outcome}
    (h : (outcomeOf table markup e).run tally = .ok outcome tally') :
    ∃ text, (outcomeOf table markup (.bracket e)).run tally =
      .ok { outcome with text } tally' := by
  rw [run_outcomeOf_eq_ok_iff] at h
  obtain ⟨value, hvalue, hcollapse⟩ := h
  obtain ⟨text, hbracketed⟩ := Value.collapse_bracketed hcollapse
  refine ⟨text, run_outcomeOf_eq_ok_iff.mpr ⟨value.bracketed, ?_, hbracketed⟩⟩
  simp [evaluate, hvalue, -bind_pure_comp]

/-- An operator between expressions that are not both pools takes their outcomes in turn. -/
theorem outcomeOf_binary {op : BinaryOp} {e f : Expression}
    (hshape : (Expression.binary op e f).shape ≠ .pool) :
    outcomeOf table markup (.binary op e f) = (do
      let left ← outcomeOf table markup e
      let right ← outcomeOf table markup f
      Roll.lift (op.outcome markup left right)) := by
  have hlift : ∀ outcome : Outcome, Roll.lift (.ok outcome) = (pure outcome : Roll Outcome) :=
    fun _ => rfl
  simp [outcomeOf, evaluate, hshape, hlift]

/-- An operator between two expressions in brackets that are not both pools. -/
theorem run_outcomeOf_between {op : BinaryOp} {e f : Expression}
    (hshape : (Expression.binary op (.bracket e) (.bracket f)).shape ≠ .pool)
    {tally tally₁ tally₂ : Tally} {first second : Outcome}
    (hfirst : (outcomeOf table markup e).run tally = .ok first tally₁)
    (hsecond : (outcomeOf table markup f).run tally₁ = .ok second tally₂) :
    ∃ text, (outcomeOf table markup (.binary op (.bracket e) (.bracket f))).run tally =
      match op.apply first.value second.value with
      | .ok value => .ok { value, text, kind := first.kind.shared second.kind } tally₂
      | .error fault => .error fault tally₂ := by
  obtain ⟨text, hleft⟩ := run_outcomeOf_bracket hfirst
  obtain ⟨text', hright⟩ := run_outcomeOf_bracket hsecond
  refine ⟨text ++ [' '] ++ markup.operator op.symbol ++ [' '] ++ text', ?_⟩
  rw [outcomeOf_binary hshape]
  cases happly : op.apply first.value second.value <;>
    simp [hleft, hright, BinaryOp.outcome, happly]

/-- A function of an expression. -/
theorem run_outcomeOf_around (op : UnaryOp) {e : Expression} {tally tally₁ : Tally}
    {outcome : Outcome} (h : (outcomeOf table markup e).run tally = .ok outcome tally₁) :
    ∃ text, (outcomeOf table markup (.unary op e)).run tally =
      match op.apply outcome.value with
      | .ok value => .ok { outcome with value, text } tally₁
      | .error fault => .error fault tally₁ := by
  rw [run_outcomeOf_eq_ok_iff] at h
  obtain ⟨value, hvalue, hcollapse⟩ := h
  refine ⟨op.name ++ ['('] ++ outcome.text ++ [')'], ?_⟩
  cases happly : op.apply outcome.value <;>
    simp [outcomeOf, evaluate, hvalue, hcollapse, UnaryOp.outcome, happly]

/-- Operators between texts in brackets, and functions of texts in brackets, are compositional:
the draws and the dice are those of the texts, and the value, or the fault, is that of the
operator on their values, or of the function on the value. -/
theorem resolve_compound {left right : Text} (hleft : left.standardize ≠ [])
    (hright : right.standardize ≠ []) {tally tally₁ tally₂ : Tally} {a b : Outcome}
    (ha : (resolve table markup left).run tally = .ok a tally₁)
    (hb : (resolve table markup right).run tally₁ = .ok b tally₂) :
    (∀ op : BinaryOp, op ≠ .undefined →
      (∀ value, op.apply a.value b.value = .ok value →
        ∃ text, (resolve table markup (op.between left right)).run tally =
          .ok { value, text, kind := a.kind.shared b.kind } tally₂) ∧
      (∀ fault, op.apply a.value b.value = .error fault →
        (resolve table markup (op.between left right)).run tally = .error fault tally₂ ∧
          ∃ cause, fault = .impossible (.arithmetic cause))) ∧
    (∀ op : UnaryOp, op ≠ .undefined →
      (∀ value, op.apply a.value = .ok value →
        ∃ text, (resolve table markup (op.around left)).run tally =
          .ok { a with value, text } tally₁) ∧
      (∀ fault, op.apply a.value = .error fault →
        (resolve table markup (op.around left)).run tally = .error fault tally₁ ∧
          ∃ cause, fault = .impossible (.arithmetic cause))) := by
  obtain ⟨e, he, hfirst⟩ := exists_parse_of_resolve hleft ha
  obtain ⟨f, hf, hsecond⟩ := exists_parse_of_resolve hright hb
  constructor
  · intro op hop
    have hparse := parse_between hop hleft hright he hf
    rw [run_resolve_of_parse hparse]
    by_cases hshape : (Expression.binary op (.bracket e) (.bracket f)).shape = .pool
    · obtain ⟨rfl, hpool, hpool'⟩ := shape_eq_pool hshape
      obtain ⟨m, n, text, hm, hn, hkind, hkind', hrun⟩ :=
        run_outcomeOf_pools hpool hpool' hfirst hsecond
      rw [hm, hn, hkind, hkind', hrun]
      simp
    · obtain ⟨text, hrun⟩ := run_outcomeOf_between hshape hfirst hsecond
      rw [hrun]
      constructor
      · intro value hvalue
        exact ⟨text, by rw [hvalue]⟩
      · intro fault hfault
        exact ⟨by rw [hfault], apply_binary_error hop hfault⟩
  · intro op hop
    have hparse := parse_around hop hleft he
    obtain ⟨text, hrun⟩ := run_outcomeOf_around op hfirst
    rw [run_resolve_of_parse hparse, hrun]
    constructor
    · intro value hvalue
      exact ⟨text, by rw [hvalue]⟩
    · intro fault hfault
      exact ⟨by rw [hfault], apply_unary_error hop hfault⟩

/-- A table on which every draw is one half. -/
def halves : Table where
  source := fun _ => some Number.half

/-- Two pools of dice that are brought together in one. -/
theorem resolve_compound_pools :
    ∃ text, (resolve halves .markdown
        ['(', '2', 'd', '6', ')', '+', '(', 'd', '4', ')']).run {} =
      .ok { value := .int 11, text } { announced := 3, drawn := 3 } := by
  have hfirst : (resolve halves .markdown ['2', 'd', '6']).run {} =
      .ok { value := .int 8, text := ['(', '[', '4', ']', ' ', '+', ' ', '[', '4', ']', ')'] }
        { announced := 2, drawn := 2 } := by
    decide +kernel
  have hsecond : (resolve halves .markdown ['d', '4']).run { announced := 2, drawn := 2 } =
      .ok { value := .int 3, text := ['[', '3', ']'] } { announced := 3, drawn := 3 } := by
    decide +kernel
  have hcompound :=
    resolve_compound (by decide +kernel) (by decide +kernel) hfirst hsecond
  exact (hcompound.1 .add (by decide)).1 (.int 11) rfl

end Expression
end DiceNotation

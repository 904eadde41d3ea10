import DiceNotation.Proofs.Evaluation.Compound
import DiceNotation.Proofs.Evaluation.Scoring
import DiceNotation.Proofs.Expression.Listed

/-!
# Lists, evaluated

A list is the sum of its entries, resolved in turn.  The entries of a list are evaluated as
expressions on their own, one after the other on the same tally; each becomes one outcome,
which nothing has discarded.  A list of a single pool is not a list but that pool, and its sum
is that of the dice.

Main definitions:

- `Value.Kept`: a value that is no discarded outcome.

Main results:

- `Expression.evaluateEntries_eq_mapM`: entries are evaluated each on its own.
- `Expression.discarded_of_outcomeOf`: the outcome of an expression is not discarded.
- `Expression.resolve_listOf`: the outcome of a list of texts is the sum of their outcomes.
-/

namespace DiceNotation

/-! ## Outcomes that are not discarded -/

namespace Value

/-- A value that is no discarded outcome. -/
def Kept (value : Value) : Prop := ∀ outcome, value = .single outcome → outcome.discarded = false

/-- An outcome that is not discarded is kept. -/
theorem kept_single {outcome : Outcome} (h : outcome.discarded = false) : (single outcome).Kept := by
  rintro _ ⟨⟩
  exact h

/-- Dice and lists are kept. -/
theorem kept_of_shape_ne {value : Value} (h : value.shape ≠ .number) : value.Kept := by
  rintro outcome rfl
  exact absurd rfl h

/-- What is kept is so in brackets. -/
theorem Kept.bracketed {value : Value} (h : value.Kept) : value.bracketed.Kept := by
  cases value with
  | single outcome =>
      rw [Value.bracketed]
      split
      · exact h
      · exact kept_single (h outcome rfl)
  | pool dice => exact h
  | list outcomes => exact h

/-- A total is not discarded, and nor is the outcome of a value that is kept. -/
theorem Kept.collapse {value : Value} (h : value.Kept) {markup : Markup} {outcome : Outcome}
    (hcollapse : value.collapse markup = .ok outcome) : outcome.discarded = false := by
  cases value with
  | single single =>
      cases hcollapse
      exact h outcome rfl
  | pool | list =>
      simp only [Value.collapse, bind_eq_ok_iff] at hcollapse
      obtain ⟨outcomes, -, htotal⟩ := hcollapse
      split at htotal
      · simp at htotal
      · simp only [total, bind_eq_ok_iff] at htotal
        obtain ⟨value, -, heq⟩ := htotal
        cases heq
        rfl

end Value

namespace Expression

variable {table : Table} {markup : Markup}

/-- A score is not discarded. -/
theorem discarded_of_score {score : Score} {isDie : Bool} {entries : List Outcome}
    {outcome : Outcome} (h : score.apply markup isDie entries = .ok outcome) :
    outcome.discarded = false := by
  have hne : entries.isEmpty = false := by simpa using Score.ne_nil_of_apply h
  cases score with
  | groups counted =>
      simp only [Score.apply, Score.matching, hne] at h
      cases counted with
      | true =>
          cases h
          rfl
      | false =>
          obtain ⟨_, -, heq⟩ := bind_eq_ok_iff.mp h
          cases heq
          rfl
  | successes success failure =>
      simp only [Score.apply, Score.counting, hne] at h
      cases h
      rfl

/-- What an expression yields is no discarded outcome. -/
theorem kept_evaluate (e : Expression) {tally later : Tally} {value : Value}
    (h : (evaluate table markup e).run tally = .ok value later) : value.Kept := by
  have hshape := (fits_of_run h).shape_eq
  cases e with
  | dice | customDice | list => exact Value.kept_of_shape_ne (by simp [hshape, shape])
  | number number text =>
      simp only [evaluate] at h
      split at h <;>
      · obtain ⟨_, _, -, heq⟩ := run_bind_eq_ok_iff.mp h
        cases heq
        exact Value.kept_single rfl
  | modified modifier operand =>
      refine Value.kept_of_shape_ne ?_
      rw [hshape]
      cases modifier with
      | explode | reroll => simp [shape]
      | select =>
          rw [shape]
          split <;> simp
  | scored score operand =>
      simp only [evaluate, scoreOf, run_bind_eq_ok_iff, Roll.run_lift_eq_ok_iff] at h
      obtain ⟨_, _, -, value, _, -, entries, _, -, outcome, _, ⟨happly, -⟩, heq⟩ := h
      cases heq
      exact Value.kept_single (discarded_of_score happly)
  | bracket content =>
      simp only [evaluate, run_bind_eq_ok_iff] at h
      obtain ⟨inner, _, hinner, heq⟩ := h
      cases heq
      exact (kept_evaluate content hinner).bracketed
  | unary op operand =>
      simp only [evaluate, run_bind_eq_ok_iff, Roll.run_lift_eq_ok_iff] at h
      obtain ⟨inner, _, hinner, outcome, _, ⟨hcollapse, -⟩, result, _, ⟨hresult, -⟩, heq⟩ := h
      cases heq
      have houtcome := (kept_evaluate operand hinner).collapse hcollapse
      rw [UnaryOp.outcome, bind_eq_ok_iff] at hresult
      obtain ⟨_, -, heq⟩ := hresult
      cases heq
      exact Value.kept_single houtcome
  | binary op left right =>
      simp only [evaluate] at h
      split at h
      · next hpool => exact Value.kept_of_shape_ne (by simp [hshape, hpool])
      · simp only [run_bind_eq_ok_iff, Roll.run_lift_eq_ok_iff] at h
        obtain ⟨_, _, -, _, _, -, _, _, -, _, _, -, result, _, ⟨hresult, -⟩, heq⟩ := h
        cases heq
        rw [BinaryOp.outcome, bind_eq_ok_iff] at hresult
        obtain ⟨_, -, heq⟩ := hresult
        cases heq
        exact Value.kept_single rfl

/-- The outcome of an expression is not discarded. -/
theorem discarded_of_outcomeOf {e : Expression} {tally later : Tally} {outcome : Outcome}
    (h : (outcomeOf table markup e).run tally = .ok outcome later) :
    outcome.discarded = false := by
  obtain ⟨value, hvalue, hcollapse⟩ := run_outcomeOf_eq_ok_iff.mp h
  exact (kept_evaluate e hvalue).collapse hcollapse

/-! ## Entries -/

/-- The entries of a list are evaluated each on its own, in turn. -/
theorem evaluateEntries_eq_mapM (es : List Expression) :
    evaluateEntries table markup es = es.mapM (outcomeOf table markup) := by
  induction es with
  | nil => rfl
  | cons e rest ih => simp [evaluateEntries, outcomeOf, ih]

/-- Entries in brackets have the outcomes that they have on their own, but for the texts. -/
theorem run_mapM_bracket {es : List Expression} {tally later : Tally} {outcomes : List Outcome}
    (h : (es.mapM (outcomeOf table markup)).run tally = .ok outcomes later) :
    ∃ bracketed : List Outcome,
      ((es.map bracket).mapM (outcomeOf table markup)).run tally = .ok bracketed later ∧
      bracketed.map Outcome.share = outcomes.map Outcome.value := by
  induction es generalizing tally outcomes with
  | nil =>
      cases h
      exact ⟨[], rfl, rfl⟩
  | cons e rest ih =>
      obtain ⟨first, tally₁, others, hfirst, hothers, rfl⟩ := run_mapM_cons_eq_ok_iff.mp h
      obtain ⟨text, hbracket⟩ := run_outcomeOf_bracket hfirst
      obtain ⟨bracketed, hrun, hshares⟩ := ih hothers
      refine ⟨{ first with text } :: bracketed, ?_, ?_⟩
      · exact run_mapM_cons_eq_ok_iff.mpr ⟨_, _, _, hbracket, hrun, rfl⟩
      · simp [Outcome.share, discarded_of_outcomeOf hfirst, hshares]

/-- Texts that resolve in turn have expressions, and these have the outcomes of the texts. -/
theorem exists_parse_of_mapM {texts : List Text} (htexts : ∀ text ∈ texts, text.standardize ≠ [])
    {tally later : Tally} {outcomes : List Outcome}
    (h : (texts.mapM (resolve table markup)).run tally = .ok outcomes later) :
    ∃ es : List Expression, List.Forall₂ (fun text e => parse text = .ok (some e)) texts es ∧
      (es.mapM (outcomeOf table markup)).run tally = .ok outcomes later := by
  induction texts generalizing tally outcomes with
  | nil => exact ⟨[], .nil, h⟩
  | cons text rest ih =>
      obtain ⟨htext, htexts⟩ := List.forall_mem_cons.mp htexts
      obtain ⟨first, tally₁, others, hfirst, hothers, rfl⟩ := run_mapM_cons_eq_ok_iff.mp h
      obtain ⟨e, he, hrun⟩ := exists_parse_of_resolve htext hfirst
      obtain ⟨es, hes, hruns⟩ := ih htexts hothers
      exact ⟨e :: es, .cons he hes, run_mapM_cons_eq_ok_iff.mpr ⟨_, _, _, hrun, hruns, rfl⟩⟩

/-! ## Lists -/

/-- The total of outcomes that show integers is the sum of these. -/
theorem collapse_list {outcomes : List Outcome} (hne : outcomes ≠ []) {values : List Int}
    (h : outcomes.map Outcome.share = values.map Number.int) :
    (Value.list outcomes).collapse markup =
      .ok { value := .int values.sum, text := Outcome.listText outcomes Outcome.plus } := by
  simp [Value.collapse, Value.entries, Value.total, h, hne]

/-- The outcome of a list is the sum of those of its entries. -/
theorem run_outcomeOf_list {es : List Expression} {tally later : Tally}
    {outcomes : List Outcome} (hne : outcomes ≠ []) {values : List Int}
    (h : (es.mapM (outcomeOf table markup)).run tally = .ok outcomes later)
    (hvalues : outcomes.map Outcome.share = values.map Number.int) :
    ∃ text, (outcomeOf table markup (.list es)).run tally =
      .ok { value := .int values.sum, text } later := by
  refine ⟨Outcome.listText outcomes Outcome.plus, run_outcomeOf_eq_ok_iff.mpr
    ⟨.list outcomes, ?_, collapse_list hne hvalues⟩⟩
  rw [← evaluateEntries_eq_mapM] at h
  simp [evaluate, h, -bind_pure_comp]

/-- A pool in brackets has the outcome of the pool. -/
theorem run_outcomeOf_pool {e : Expression} (hshape : e.shape = .pool) {tally later : Tally}
    {outcome : Outcome} (h : (outcomeOf table markup e).run tally = .ok outcome later) :
    outcome.kind = .plain ∧ (outcomeOf table markup (.bracket e)).run tally = .ok outcome later := by
  obtain ⟨value, hvalue, hcollapse⟩ := run_outcomeOf_eq_ok_iff.mp h
  obtain ⟨dice, rfl⟩ := exists_pool_of_run hshape hvalue
  refine ⟨?_, run_outcomeOf_eq_ok_iff.mpr ⟨.pool dice, ?_, hcollapse⟩⟩
  · obtain ⟨_, -, -, rfl⟩ := Value.collapse_pool_eq_ok_iff.mp hcollapse
    rfl
  · simp [evaluate, hvalue, -bind_pure_comp]

/-- A list of entries in brackets, also where it is a single pool, has the sum of their
outcomes. -/
theorem run_outcomeOf_listed {es : List Expression} {tally later : Tally}
    {outcomes : List Outcome} (hne : outcomes ≠ []) {values : List Int}
    (h : (es.mapM (outcomeOf table markup)).run tally = .ok outcomes later)
    (hvalues : outcomes.map Outcome.value = values.map Number.int) :
    ∃ e text, listed (es.map .bracket) [] = .ok e ∧
      (outcomeOf table markup e).run tally = .ok { value := .int values.sum, text } later := by
  by_cases hpool : ∃ e, es = [e] ∧ e.shape = .pool
  · obtain ⟨e, rfl, hshape⟩ := hpool
    obtain ⟨outcome, _, _, hrun, hend, rfl⟩ := run_mapM_cons_eq_ok_iff.mp h
    cases hend
    obtain ⟨n, rfl, hvalue⟩ : ∃ n, values = [n] ∧ outcome.value = .int n := by
      obtain ⟨n, rest, rfl, hn, hrest⟩ := List.map_eq_cons_iff.mp hvalues.symm
      exact ⟨n, by simpa using hrest, hn.symm⟩
    obtain ⟨hkind, hbracket⟩ := run_outcomeOf_pool hshape hrun
    refine ⟨.bracket e, outcome.text, by simp [listed, hshape], ?_⟩
    rw [hbracket, ← hkind, List.sum_singleton, ← hvalue, ← discarded_of_outcomeOf hrun]
  · obtain ⟨bracketed, hrun, hshares⟩ := run_mapM_bracket h
    have hbracketed : bracketed ≠ [] := by
      rintro rfl
      simp_all
    obtain ⟨text, hlist⟩ := run_outcomeOf_list hbracketed hrun (hshares.trans hvalues)
    refine ⟨.list (es.map .bracket), text, ?_, hlist⟩
    rcases es with _ | ⟨e, _ | ⟨next, rest⟩⟩
    · rfl
    · have hshape : e.shape ≠ .pool := fun hshape => hpool ⟨e, rfl, hshape⟩
      simp [listed, hshape]
    · rfl

/-- A list of texts is the sum of its entries, resolved in turn on the same tally: where these
have integer values, the list has their sum for its value, a plain one, and leaves the tally as
they do.  A single entry that is a pool is not made a list. -/
theorem resolve_listOf {texts : List Text} (hne : texts ≠ [])
    (htexts : ∀ text ∈ texts, text.standardize ≠ []) {tally later : Tally}
    {outcomes : List Outcome} {values : List Int}
    (h : (texts.mapM (resolve table markup)).run tally = .ok outcomes later)
    (hvalues : outcomes.map Outcome.value = values.map Number.int) :
    (∃ text, (resolve table markup (Text.listOf texts)).run tally =
      .ok { value := .int values.sum, text } later) ∧
    ∀ text e, texts = [text] → parse text = .ok (some e) → e.shape = .pool →
      parse (Text.listOf texts) = .ok (some (.bracket e)) := by
  obtain ⟨es, hes, hruns⟩ := exists_parse_of_mapM htexts h
  have houtcomes : outcomes ≠ [] := by
    obtain ⟨text, rest, rfl⟩ := List.exists_cons_of_ne_nil hne
    obtain ⟨_, _, _, -, -, rfl⟩ := run_mapM_cons_eq_ok_iff.mp h
    simp
  obtain ⟨e, text, hlisted, hrun⟩ := run_outcomeOf_listed houtcomes hruns hvalues
  have hparse := parse_listOf hne htexts hes
  constructor
  · rw [hlisted] at hparse
    exact ⟨text, by rw [run_resolve_of_parse hparse, hrun]⟩
  · rintro text e rfl he hshape
    obtain ⟨f, _, hf, hend, rfl⟩ := List.forall₂_cons_left_iff.mp hes
    cases hend
    obtain rfl : e = f := by simpa using he.symm.trans hf
    rw [hparse]
    simp [listed, hshape, Except.map]

/-- Dice, a list under a selection, and a count of successes in one list. -/
theorem resolve_listOf_dice :
    ∃ text, (resolve halves .plain (Text.listOf [['2', 'd', '6'],
        ['\x7b', '1', ',', '2', '\x7d', 'k', '1'], ['d', '6', '>', '3']])).run {} =
      .ok { value := .int 10, text } { announced := 3, drawn := 3 } := by
  have h : (List.mapM (resolve halves .plain) [['2', 'd', '6'],
      ['\x7b', '1', ',', '2', '\x7d', 'k', '1'], ['d', '6', '>', '3']]).run {} = .ok
        [{ value := .int 8, text := ['(', '[', '4', ']', ' ', '+', ' ', '[', '4', ']', ')'] },
          { value := .int 1, text := ['(', '(', '1', ')', ' ', '+', ' ', '~', '(', '2', ')', '~', ')'] },
          { value := .int 1, text := ['[', '4', ']'], kind := .successes }]
        { announced := 3, drawn := 3 } := by
    with_unfolding_all rfl
  have hvalues : [.int 8, .int 1, .int 1] = [8, 1, 1].map Number.int := rfl
  exact (resolve_listOf (by simp) (by decide) h hvalues).1

end Expression
end DiceNotation

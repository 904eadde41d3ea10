import DiceNotation.Proofs.Dice.Accounts
import DiceNotation.Proofs.Evaluation.Traversal

/-!
# Sessions

Texts may be resolved one after the other on one table: each begins with the tally that the one
before left, whether that one succeeded or failed.  The limit of the table then holds for the
session as a whole.

Main definitions:

- `Expression.session`: texts resolved in turn.

Main results:

- `Expression.accounts_session`: the steps of a session account for their draws.
- `Expression.session_within_limit`: a session draws no more dice than its limit allows.
-/

namespace DiceNotation

namespace Expression

/-! ## Sessions -/

/-- Texts resolved in turn on one table, each from the tally that the one before left. -/
def session (table : Table) : Tally → List (Markup × Text) → List (Attempt Outcome)
  | _, [] => []
  | tally, (markup, text) :: rest =>
    let step := (resolve table markup text).attempt tally
    step :: session table step.tally rest

variable {table : Table} {limit : Int} {tally : Tally}

/-- A text accounts for its draws. -/
theorem accounted_resolve (hlimit : table.limit = some limit) (markup : Markup) (text : Text) :
    Roll.Accounted limit (resolve table markup text) :=
  (Table.alike_accounted hlimit).resolve markup text

/-- Every step of a session accounts for the draws from the first step on. -/
theorem accounts_session (hlimit : table.limit = some limit) (requests : List (Markup × Text)) :
    ∀ step ∈ session table tally requests, tally.Accounts limit step.tally := by
  induction requests generalizing tally with
  | nil => simp [session]
  | cons request rest ih =>
      have hfirst := (accounted_resolve hlimit request.1 request.2).accounts tally
      refine List.forall_mem_cons.mpr ⟨hfirst, ?_⟩
      exact fun step hstep => hfirst.trans (ih step hstep)

/-- As long as every step succeeds, a session has drawn what it announced. -/
theorem balance_session (hlimit : table.limit = some limit) (requests : List (Markup × Text))
    (hstart : tally.announced = tally.drawn) {before after : List (Attempt Outcome)}
    {step : Attempt Outcome} (hsteps : session table tally requests = before ++ step :: after)
    (hok : ∀ done ∈ before ++ [step], ∃ outcome, done.answer = .ok outcome) :
    step.tally.announced = step.tally.drawn := by
  induction requests generalizing tally before with
  | nil => simp [session] at hsteps
  | cons request rest ih =>
      have haccounted := accounted_resolve hlimit request.1 request.2
      rw [session] at hsteps
      cases before with
      | nil =>
          obtain ⟨rfl, -⟩ := List.cons.inj hsteps
          obtain ⟨outcome, houtcome⟩ := hok _ (List.mem_cons_self ..)
          have hbalance := haccounted.balance houtcome
          omega
      | cons first before =>
          obtain ⟨rfl, hlater⟩ := List.cons.inj hsteps
          obtain ⟨outcome, houtcome⟩ := hok _ (List.mem_append_left _ (List.mem_cons_self ..))
          have hbalance := haccounted.balance houtcome
          refine ih (by omega) hlater ?_
          exact fun done hdone => hok done (List.mem_cons_of_mem _ hdone)

/-- Once a step has blamed the limit, no later step draws. -/
theorem pairwise_session (hlimit : table.limit = some limit) (requests : List (Markup × Text)) :
    (session table tally requests).Pairwise fun earlier later =>
      (∃ blamed, earlier.answer = .error (.overBudget blamed)) →
        later.tally.drawn = earlier.tally.drawn := by
  induction requests generalizing tally with
  | nil => exact List.Pairwise.nil
  | cons request rest ih =>
      refine List.pairwise_cons.mpr ⟨?_, ih⟩
      rintro later hlater ⟨blamed, hblamed⟩
      have hpassed := (accounted_resolve hlimit request.1 request.2).passed hblamed
      exact (accounts_session hlimit rest later hlater).drawn_eq hpassed

/-- A session on a table with a limit draws no more dice than the limit, and no die that was not
announced; as long as every step has succeeded, it has drawn just those that were announced; and
once a step has failed for the limit, no later step draws. -/
theorem session_within_limit (source : Source) (limit : Nat) (requests : List (Markup × Text)) :
    let steps := session { source, limit := some limit } {} requests
    (∀ step ∈ steps, step.tally.drawn ≤ limit ∧ step.tally.drawn ≤ step.tally.announced) ∧
    (∀ before step after, steps = before ++ step :: after →
      (∀ done ∈ before ++ [step], ∃ outcome, done.answer = .ok outcome) →
        step.tally.announced = step.tally.drawn) ∧
    steps.Pairwise fun earlier later =>
      (∃ blamed, earlier.answer = .error (.overBudget blamed)) →
        later.tally.drawn = earlier.tally.drawn := by
  intro steps
  refine ⟨?_, ?_, pairwise_session rfl requests⟩
  · intro step hstep
    obtain ⟨-, hdraws, hleft⟩ := accounts_session rfl requests step hstep
    have hnone : ({} : Tally).announced = 0 ∧ ({} : Tally).drawn = 0 := ⟨rfl, rfl⟩
    exact ⟨by omega, by omega⟩
  · intro before step after hsteps hok
    exact balance_session rfl requests rfl hsteps hok

end Expression
end DiceNotation

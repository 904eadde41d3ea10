import DiceNotation.Proofs.Dice.Throws
import DiceNotation.Proofs.Evaluation.Scoring
import DiceNotation.Proofs.Evaluation.Subtraction
import DiceNotation.Proofs.Evaluation.Totals
import DiceNotation.Proofs.Expression.Chains

/-!
# Throws, evaluated

Of a throw under selections and a score only the faces matter that the dice show, and not which die
shows which.  Every selection leaves in play what it leaves of the integers that were in play, and
the score depends on nothing else; which of several equal dice is struck out can be seen in the text
alone.

Main definitions:

- `Value.selected`, `Value.outcomeUnder`: a value under selections, and its outcome under a score.
- `Attempt.SameThrow`: attempts at one throw, with its draws in two orders.
- `Expression.throwUnder`: dice under selections and a score.

Main results:

- `Value.selected_pool`: what selections leave in play of a pool.
- `Value.outcomeUnder_pool`: the outcome of a pool.
- `Expression.permuted_draws`: the order of the draws does not matter.
-/

namespace DiceNotation

/-! ## Selections of dice -/

/-- A value after selections, one after the other. -/
def Value.selected (markup : Markup) (selections : List (Bool × Selector)) (value : Value) :
    Value :=
  selections.foldl (fun value selection => value.select selection.1 selection.2 markup) value

/-- What selections leave of the integers in play, one after the other. -/
def Selector.leftBy (selections : List (Bool × Selector)) (inPlay : Multiset Int) : Multiset Int :=
  selections.foldl (fun inPlay selection => selection.2.leaves selection.1 inPlay) inPlay

namespace Value

/-- What selections leave in play of a pool. -/
theorem selected_pool (markup : Markup) (selections : List (Bool × Selector)) (dice : List Die) :
    ∃ marked, (pool dice).selected markup selections = .pool marked ∧
      marked.map Die.unmarked = dice.map Die.unmarked ∧
      Standing.inPlay (marked.map Die.standing) =
        Selector.leftBy selections (Standing.inPlay (dice.map Die.standing)) := by
  induction selections generalizing dice with
  | nil => exact ⟨dice, rfl, rfl, rfl⟩
  | cons selection rest ih =>
      obtain ⟨first, hfirst, hmarks, hleft⟩ := select_pool markup selection.1 selection.2 dice
      obtain ⟨marked, hmarked, hmarks', hleft'⟩ := ih first
      refine ⟨marked, ?_, hmarks'.trans hmarks, ?_⟩
      · rw [selected, List.foldl_cons, hfirst]
        exact hmarked
      · rw [hleft', hleft]
        rfl

end Value

/-! ## Outcomes of pools -/

namespace Value

/-- The outcome of a value under a score, or its total. -/
def outcomeUnder (markup : Markup) (score : Option Score) (value : Value) : Except Fault Outcome :=
  match score with
  | none => value.collapse markup
  | some score => do
    let entries ← value.entries markup
    score.apply markup true entries

variable {markup : Markup} {dice dice' : List Die}

/-- The outcome of a pool that has outcomes depends only on the integers in play.  The total is what
matching makes of them when it does not count. -/
theorem outcomeUnder_pool {outcomes : List Outcome}
    (houtcomes : Outcome.ofPool dice markup = .ok outcomes)
    (hrolled : ∀ die ∈ dice, die.rolls ≠ []) (hne : dice ≠ []) (score : Option Score) :
    ∃ text, (pool dice).outcomeUnder markup score =
      .ok { value := .int ((score.getD (.groups false)).number
              (Standing.inPlay (dice.map Die.standing)))
            text
            kind := (score.getD (.groups false)).kind } := by
  cases score with
  | none =>
      refine ⟨Outcome.listText outcomes Outcome.plus, ?_⟩
      rw [outcomeUnder, collapse_pool_outcomes houtcomes hrolled hne, Die.sum_shares]
      rfl
  | some score =>
      have hgives := Outcome.gives_ofPool markup hrolled
      rw [houtcomes] at hgives
      have hstands : outcomes.map Outcome.standing = dice.map Die.standing := hgives
      have hsome : outcomes ≠ [] := by
        rintro rfl
        exact hne (List.map_eq_nil_iff.mp hstands.symm)
      have hintegers := Standing.areIntegers_standing.mp (hstands ▸ areIntegers_standing dice)
      obtain ⟨text, htext⟩ := Score.apply_integers hintegers score markup true hsome
      refine ⟨text, ?_⟩
      rw [hstands] at htext
      rw [outcomeUnder, entries, houtcomes]
      exact htext

/-- A pool has no outcome if its dice have none. -/
theorem outcomeUnder_error {fault : Fault} (h : Outcome.ofPool dice markup = .error fault)
    (score : Option Score) : (pool dice).outcomeUnder markup score = .error fault := by
  cases score with
  | none => exact collapse_pool_error h
  | some score => rw [outcomeUnder, entries, h, error_bind]

/-- Dice with the same rolls in two orders have outcomes alike. -/
theorem agree_ofPool (markup : Markup) (hrolled : ∀ die ∈ dice, die.rolls ≠ [])
    (hrolled' : ∀ die ∈ dice', die.rolls ≠ [])
    (hrolls : (dice.map Die.unmarked).Perm (dice'.map Die.unmarked)) :
    Agree (fun _ _ => True) (Outcome.ofPool dice markup) (Outcome.ofPool dice' markup) := by
  have hwritten : (∃ outcomes, Outcome.ofPool dice markup = .ok outcomes) ↔
      ∃ outcomes, Outcome.ofPool dice' markup = .ok outcomes := by
    simp only [Outcome.ofPool_eq_ok_iff, hrolls.mem_iff]
  have hgives := Outcome.gives_ofPool markup hrolled
  have hgives' := Outcome.gives_ofPool markup hrolled'
  revert hwritten hgives hgives'
  cases Outcome.ofPool dice markup <;> cases Outcome.ofPool dice' markup
  · -- No fault but that of a long numeral is found in either pool.
    exact fun _ hgives hgives' => hgives.1.trans hgives'.1.symm
  · exact fun hwritten => by simp at hwritten
  · exact fun hwritten => by simp at hwritten
  · exact fun _ _ _ => trivial

/-- Pools with the same rolls in two orders, and the same integers in play, have outcomes of the
same number. -/
theorem outcomeUnder_of_perm (hrolled : ∀ die ∈ dice, die.rolls ≠ [])
    (hrolls : (dice.map Die.unmarked).Perm (dice'.map Die.unmarked))
    (hinPlay : Standing.inPlay (dice.map Die.standing) = Standing.inPlay (dice'.map Die.standing))
    (score : Option Score) :
    Agree Outcome.SameNumber ((pool dice).outcomeUnder markup score)
      ((pool dice').outcomeUnder markup score) := by
  have hrolled' : ∀ die ∈ dice', die.rolls ≠ [] := by
    intro die hdie
    obtain ⟨other, hother, heq⟩ := List.mem_map.mp
      (hrolls.mem_iff.mpr (List.mem_map_of_mem (f := Die.unmarked) hdie))
    exact congrArg Die.rolls heq ▸ hrolled other hother
  obtain ⟨outcomes, outcomes', houtcomes, houtcomes', -⟩ | ⟨fault, hfault, hfault'⟩ :=
    (agree_ofPool markup hrolled hrolled' hrolls).cases
  · by_cases hne : dice = []
    · subst hne
      obtain rfl : dice' = [] := List.map_eq_nil_iff.mp hrolls.nil_eq.symm
      cases (pool []).outcomeUnder markup score with
      | ok outcome => exact ⟨rfl, rfl⟩
      | error fault => rfl
    · have hne' : dice' ≠ [] := by
        rintro rfl
        exact hne (List.map_eq_nil_iff.mp hrolls.eq_nil)
      obtain ⟨text, htext⟩ := outcomeUnder_pool houtcomes hrolled hne score
      obtain ⟨text', htext'⟩ := outcomeUnder_pool houtcomes' hrolled' hne' score
      rw [htext, htext', hinPlay]
      exact ⟨rfl, rfl⟩
  · rw [outcomeUnder_error hfault, outcomeUnder_error hfault']
    exact agree_error.mpr rfl

end Value

/-! ## Throws -/

/-- Whether two attempts at a throw, which is made with the same draws in two orders, come to the
same.  As many dice are announced.  Where every draw shows a face, both have outcomes of one value
and one kind, or fail with one fault, and leave one tally; where a draw shows none, both fail. -/
structure Attempt.SameThrow (faces : Faces) (draws : List (Option Binary64))
    (first second : Attempt Outcome) : Prop where
  announced_eq : first.tally.announced = second.tally.announced
  shows : (∀ draw ∈ draws, ∃ face, faces.face draw = .ok face) →
    Agree Outcome.SameNumber first.answer second.answer ∧ first.tally = second.tally
  misses : (∃ draw ∈ draws, ∃ fault, faces.face draw = .error fault) →
    (∃ fault, first.answer = .error fault) ∧ ∃ fault, second.answer = .error fault

namespace Expression

variable {table : Table} {markup : Markup}

/-- Dice under selections and a score. -/
def throwUnder (count : Nat) (least greatest : Int) (selections : List (Bool × Selector))
    (score : Option Score) : Expression :=
  ((dice count least greatest).withModifiers
    (selections.map fun selection => .select selection.1 selection.2)).withScore score

/-- Selections of a pool are made on what the pool yields. -/
theorem evaluate_selections (table : Table) (markup : Markup) {e : Expression}
    (hshape : e.shape = .pool) (selections : List (Bool × Selector)) :
    let selecting := e.withModifiers (selections.map fun selection =>
      .select selection.1 selection.2)
    selecting.shape = .pool ∧
      evaluate table markup selecting =
        evaluate table markup e >>= fun value => pure (value.selected markup selections) := by
  induction selections generalizing e with
  | nil => exact ⟨hshape, (bind_pure _).symm⟩
  | cons selection rest ih =>
      have hselected : (modified (.select selection.1 selection.2) e).shape = .pool := by
        rw [shape_select (by simp [hshape]), hshape]
      obtain ⟨hpool, hrest⟩ := ih hselected
      refine ⟨hpool, ?_⟩
      rw [List.map_cons, withModifiers_cons, hrest, evaluate_select (by simp [hshape]), bind_assoc]
      simp only [pure_bind]
      rfl

/-- A score of a pool sees what the pool yields. -/
theorem outcomeOf_withScore {e : Expression} (hshape : e.shape = .pool) (score : Option Score) :
    outcomeOf table markup (e.withScore score) =
      evaluate table markup e >>= fun value => Roll.lift (value.outcomeUnder markup score) := by
  cases score with
  | none => rfl
  | some score =>
      rw [withScore, outcomeOf, evaluate_scored (by simp [hshape]), hshape, bind_assoc]
      congr 1
      funext value
      change (scoreOf markup score true value >>= _) = _
      unfold scoreOf Value.outcomeUnder
      cases value.entries markup with
      | error fault => rfl
      | ok entries =>
          change ((Roll.lift (score.apply markup true entries) >>= _) >>= _) =
            Roll.lift (score.apply markup true entries)
          cases score.apply markup true entries <;> rfl

/-- The outcome of a throw: the dice are announced, rolled, and settled. -/
theorem outcomeOf_throwUnder (count : Nat) (least greatest : Int)
    (selections : List (Bool × Selector)) (score : Option Score) :
    outcomeOf table markup (throwUnder count least greatest selections score) = (do
      table.announce count
      let thrown ← table.rollDice (.range least greatest) count
      Roll.lift (((Value.pool thrown).selected markup selections).outcomeUnder markup score)) := by
  have hdice : (dice count least greatest).shape = .pool := rfl
  obtain ⟨hpool, hevaluate⟩ := evaluate_selections table markup hdice selections
  rw [throwUnder, outcomeOf_withScore hpool, hevaluate, evaluate, rollAnnounced, Int.toNat_natCast]
  simp only [bind_assoc, pure_bind]

/-- Throws that show the same faces in two orders have outcomes of the same number. -/
theorem outcomeUnder_thrown {shown shown' : List Int} (hshown : shown.Perm shown') (faces : Faces)
    (selections : List (Bool × Selector)) (score : Option Score) :
    Agree Outcome.SameNumber
      (((Value.pool (shown.map (Die.thrown faces))).selected markup selections).outcomeUnder markup
        score)
      (((Value.pool (shown'.map (Die.thrown faces))).selected markup selections).outcomeUnder markup
        score) := by
  have hthrown := hshown.map (Die.thrown faces)
  obtain ⟨dice, hdice, hmarks, hleft⟩ :=
    Value.selected_pool markup selections (shown.map (Die.thrown faces))
  obtain ⟨dice', hdice', hmarks', hleft'⟩ :=
    Value.selected_pool markup selections (shown'.map (Die.thrown faces))
  have hinPlay : Standing.inPlay ((shown.map (Die.thrown faces)).map Die.standing) =
      Standing.inPlay ((shown'.map (Die.thrown faces)).map Die.standing) :=
    Multiset.coe_eq_coe.mpr (((hthrown.map Die.standing).filter _).map _)
  rw [hdice, hdice']
  refine Value.outcomeUnder_of_perm ?_ ?_ (by rw [hleft, hleft', hinPlay]) score
  · intro die hdie
    have hmem := List.mem_map_of_mem (f := Die.unmarked) hdie
    rw [hmarks, List.map_map] at hmem
    obtain ⟨face, -, hface⟩ := List.mem_map.mp hmem
    have hrolls : [face] = die.rolls := congrArg Die.rolls hface
    rw [← hrolls]
    exact List.cons_ne_nil _ _
  · rw [hmarks, hmarks']
    exact hthrown.map Die.unmarked

/-- Throws with the same draws in two orders are settled alike. -/
theorem sameThrow_rollDice {table table' : Table} {faces : Faces} {count : Nat} {tally : Tally}
    (hdraws : (table.source.drawsFrom tally.drawn count).Perm
      (table'.source.drawsFrom tally.drawn count))
    (selections : List (Bool × Selector)) (score : Option Score) :
    let settle (thrown : List Die) : Roll Outcome :=
      Roll.lift (((Value.pool thrown).selected markup selections).outcomeUnder markup score)
    Attempt.SameThrow faces (table.source.drawsFrom tally.drawn count)
      ((table.rollDice faces count >>= settle).attempt tally)
      ((table'.rollDice faces count >>= settle).attempt tally) := by
  intro settle
  by_cases hshows : ∀ draw ∈ table.source.drawsFrom tally.drawn count,
      ∃ face, faces.face draw = .ok face
  · obtain ⟨shown, hshown⟩ := exists_mapM_eq_ok_iff.mpr hshows
    obtain ⟨shown', hshown', hperm⟩ := mapM_of_perm hdraws hshown
    have hthrow := Table.attempt_rollDice hshown
    have hthrow' := Table.attempt_rollDice hshown'
    rw [Roll.attempt_bind_of_ok (by rw [hthrow]), Roll.attempt_bind_of_ok (by rw [hthrow']), hthrow,
      hthrow', Roll.attempt_lift, Roll.attempt_lift]
    refine ⟨rfl, fun _ => ⟨outcomeUnder_thrown hperm faces selections score, rfl⟩, ?_⟩
    rintro ⟨draw, hdraw, fault, hfault⟩
    obtain ⟨face, hface⟩ := hshows draw hdraw
    rw [hfault] at hface
    contradiction
  · have hrolls : Roll.Draws count (table.rollDice faces count) := Table.draws_rollDice faces count
    have hrolls' : Roll.Draws count (table'.rollDice faces count) :=
      Table.draws_rollDice faces count
    obtain ⟨draw, hdraw, hmisses⟩ : ∃ draw ∈ table.source.drawsFrom tally.drawn count,
        ¬ ∃ face, faces.face draw = .ok face := by
      simpa using hshows
    obtain ⟨fault, hfault⟩ : ∃ fault, faces.face draw = .error fault := by
      cases hface : faces.face draw with
      | ok face => exact absurd ⟨face, hface⟩ hmisses
      | error fault => exact ⟨fault, rfl⟩
    obtain ⟨first, hfirst⟩ := Table.answer_rollDice_error hdraw hfault
    obtain ⟨second, hsecond⟩ := Table.answer_rollDice_error (hdraws.mem_iff.mp hdraw) hfault
    rw [Roll.attempt_bind_of_error hfirst, Roll.attempt_bind_of_error hsecond]
    refine ⟨?_, fun hall => absurd hall hshows, fun _ => ⟨⟨first, rfl⟩, second, rfl⟩⟩
    exact (hrolls.announced_eq tally).trans (hrolls'.announced_eq tally).symm

/-- The order of the draws of a throw does not matter: under any selections, with a score or without
one, a text of dice has one value and one kind whatever the order of their draws, after as many dice
and draws. -/
theorem permuted_draws {text : Text} {count : Nat} {least greatest : Int}
    {selections : List (Bool × Selector)} {score : Option Score}
    (hparse : parse text = .ok (some (throwUnder count least greatest selections score)))
    (table : Table) (source : Source) (markup : Markup) (tally : Tally)
    (hdraws : (table.source.drawsFrom tally.drawn count).Perm
      (source.drawsFrom tally.drawn count)) :
    Attempt.SameThrow (.range least greatest) (table.source.drawsFrom tally.drawn count)
      ((resolve table markup text).attempt tally)
      ((resolve { table with source } markup text).attempt tally) := by
  have hresolve : ∀ table : Table, (resolve table markup text).attempt tally =
      (outcomeOf table markup (throwUnder count least greatest selections score)).attempt
        tally := by
    intro table
    unfold Roll.attempt
    rw [run_resolve_of_parse hparse]
  have hsame : Table.announce { table with source } count = table.announce count := rfl
  rw [hresolve, hresolve, outcomeOf_throwUnder, outcomeOf_throwUnder, hsame]
  cases hannounce : ((table.announce count).attempt tally).answer with
  | error fault =>
      rw [Roll.attempt_bind_of_error hannounce, Roll.attempt_bind_of_error hannounce]
      exact ⟨rfl, fun _ => ⟨rfl, rfl⟩, fun _ => ⟨⟨fault, rfl⟩, fault, rfl⟩⟩
  | ok _ =>
      have hyields : Yields (table.announce count) tally
          fun _ later => later = Table.counted tally count := Table.yields_announce count tally
      have hcounted := Roll.ends_iff_attempt.mp hyields
      rw [hannounce] at hcounted
      rw [Roll.attempt_bind_of_ok hannounce, Roll.attempt_bind_of_ok hannounce, hcounted]
      have hcountedDraws : (table.source.drawsFrom (Table.counted tally count).drawn count).Perm
          (Table.source { table with source } |>.drawsFrom (Table.counted tally count).drawn
            count) := hdraws
      exact sameThrow_rollDice hcountedDraws selections score

/-- Of five dice the two highest are kept, and which of the two that show `2` is the second of them
depends on the order of the draws. -/
theorem permuted_draws_ties :
    let forth : Source := fun n => some (.ofRat (mkRat (n % 3 : Nat) 4))
    let back : Source := fun n => some (.ofRat (mkRat ((4 - n) % 3 : Nat) 4))
    let text := "5d6kh2>1".toList
    parse text = .ok (some (throwUnder 5 1 6 [(true, .extreme true 2)]
        (some (.successes ⟨.greater, 1⟩ none)))) ∧
      (forth.drawsFrom 0 5).Perm (back.drawsFrom 0 5) ∧
      Attempt.SameThrow (.range 1 6) (forth.drawsFrom 0 5)
        ((resolve { source := forth } .plain text).attempt {})
        ((resolve { source := back } .plain text).attempt {}) ∧
      (resolve { source := forth } .plain text).run {} = .ok
        { value := .int 2, text := "(~[1]~ + [2] + [4] + ~[1]~ + ~[2]~)".toList, kind := .successes }
        { announced := 5, drawn := 5 } ∧
      (resolve { source := back } .plain text).run {} = .ok
        { value := .int 2, text := "([2] + ~[1]~ + [4] + ~[2]~ + ~[1]~)".toList, kind := .successes }
        { announced := 5, drawn := 5 } := by
  intro forth back text
  let written : WrittenDice := {
    count := some (.ofNat 5 (by decide))
    faces := .upTo (.ofNat 6 (by decide)) (by decide)
    modifiers := [.extreme true true (some (.ofNat 2 (by decide)))]
    separate := by simp
    score := some (.successes ⟨.greater, .ofInt 1 (by decide)⟩ none)
    apart := by simp [WrittenModifier.TakesIn] }
  have hparse : parse text = .ok (some (throwUnder 5 1 6 [(true, .extreme true 2)]
      (some (.successes ⟨.greater, 1⟩ none)))) :=
    parse_of_ofLeaf written.isLeafPart_text written.text_ne_nil (ofLeaf_written written)
  have hdraws : (forth.drawsFrom 0 5).Perm (back.drawsFrom 0 5) := by decide +kernel
  refine ⟨hparse, hdraws, ?_, by decide +kernel, by decide +kernel⟩
  exact permuted_draws hparse { source := forth } back .plain {} hdraws

end Expression
end DiceNotation

import DiceNotation.Proofs.Dice.Allowance
import DiceNotation.Proofs.Evaluation.Subtraction
import DiceNotation.Proofs.Expression.Joined

/-!
# Sums of dice, evaluated

Dice that are rolled in two parts are the dice rolled at once: they show the same draws in the same
order.  The parts are announced one after the other, which makes a difference only where a limit or
the source of draws ends the evaluation between them.  Whatever a suffix lays over the sum sees one
pool, so it makes the same of it as of the dice rolled at once.

Main definitions:

- `Attempt.Matches`: attempts with one answer, after the same draws.
- `Expression.Twins`: expressions that cannot be told apart from where an evaluation stands.

Main results:

- `Table.rollDice_add`: dice may be rolled in two parts.
- `Expression.Twins.outcomeOf`: under the same modifiers and score twins have one outcome.
- `Expression.joined_matches_whole`: a sum of dice in curly brackets is the dice rolled at once.
-/

namespace DiceNotation

/-! ## Attempts that match -/

/-- Whether two attempts come to the same answer, a result or a fault, after as many draws, and
leave one tally if they succeed. -/
structure Attempt.Matches {α : Type} (first second : Attempt α) : Prop where
  answer_eq : first.answer = second.answer
  drawn_eq : first.tally.drawn = second.tally.drawn
  tally_eq : ∀ a, first.answer = .ok a → first.tally = second.tally

namespace Attempt

variable {α β : Type}

/-- Every attempt matches itself. -/
theorem matches_self (attempt : Attempt α) : attempt.Matches attempt := ⟨rfl, rfl, fun _ _ => rfl⟩

/-- Attempts that match go on alike. -/
theorem Matches.bind {x y : Roll α} {tally tally' : Tally}
    (h : (x.attempt tally).Matches (y.attempt tally')) (f : α → Roll β) :
    ((x >>= f).attempt tally).Matches ((y >>= f).attempt tally') := by
  cases hanswer : (x.attempt tally).answer with
  | ok a =>
      rw [Roll.attempt_bind_of_ok hanswer, Roll.attempt_bind_of_ok (h.answer_eq.symm.trans hanswer),
        h.tally_eq a hanswer]
      exact matches_self _
  | error fault =>
      rw [Roll.attempt_bind_of_error hanswer,
        Roll.attempt_bind_of_error (h.answer_eq.symm.trans hanswer)]
      exact ⟨rfl, h.drawn_eq, fun _ h => by cases h⟩

end Attempt

/-! ## Dice in two parts -/

namespace Table

variable {table : Table}

/-- Dice may be rolled in two parts. -/
theorem rollDice_add (faces : Faces) (m n : Nat) :
    table.rollDice faces (m + n) = do
      let first ← table.rollDice faces m
      let second ← table.rollDice faces n
      return first ++ second := by
  induction m with
  | zero => simp [rollDice]
  | succ m ih =>
      rw [Nat.succ_add, rollDice, rollDice, ih]
      simp only [bind_assoc, pure_bind, List.cons_append]

/-- Where there is room for the dice, announcing only counts them. -/
theorem attempt_announce_bind {α : Type} {count : Int} {tally : Tally}
    (hroom : ∀ limit, table.limit = some limit → tally.announced + count ≤ limit)
    (f : Unit → Roll α) :
    (table.announce count >>= f).attempt tally = (f ()).attempt (counted tally count) := by
  have hrun : (table.announce count).run tally = .ok () (counted tally count) := by
    cases hlimit : table.limit with
    | none => exact run_announce_of_none hlimit tally count
    | some limit => exact run_announce_of_le hlimit (hroom limit hlimit)
  have hattempt := Roll.attempt_of_run_ok hrun
  rw [Roll.attempt_bind_of_ok (by rw [hattempt]), hattempt]

/-- What dice show does not depend on what else has been announced. -/
theorem repeats_rollDice (faces : Faces) (count : Nat) {tally tally' : Tally}
    (hdrawn : tally.drawn = tally'.drawn) :
    ((table.rollDice faces count).attempt tally).Repeats tally tally'
      ((table.rollDice faces count).attempt tally') := by
  have htracks : Roll.Tracks tally.announced tally'.announced (table.rollDice faces count)
      (table.rollDice faces count) := tracks_rollDice rfl faces count
  have hdraws : Roll.Draws count (table.rollDice faces count) := draws_rollDice faces count
  refine htracks.repeats tally tally' ⟨hdrawn, by omega, by omega⟩ ?_
  have hannounced := hdraws.announced_eq tally'
  omega

end Table

namespace Expression

variable {table : Table} {markup : Markup}

/-! ## Sums of dice -/

/-- The dice of a sum are announced and rolled in two parts. -/
theorem evaluate_sum (m n : Nat) (least greatest : Int) :
    evaluate table markup (.binary .add (.dice m least greatest) (.dice n least greatest)) = do
      table.announce m
      let first ← table.rollDice (.range least greatest) m
      table.announce n
      let second ← table.rollDice (.range least greatest) n
      return .pool (first ++ second) := by
  simp [evaluate, rollAnnounced, shape, Value.dice]

/-- The dice rolled at once show the same draws. -/
theorem evaluate_dice_add (m n : Nat) (least greatest : Int) :
    evaluate table markup (.dice (m + n : Nat) least greatest) = do
      table.announce (m + n : Nat)
      let first ← table.rollDice (.range least greatest) m
      let second ← table.rollDice (.range least greatest) n
      return .pool (first ++ second) := by
  rw [evaluate, rollAnnounced, Int.toNat_natCast, Table.rollDice_add]
  simp only [bind_assoc, pure_bind]

/-- A sum of dice comes to the same as the dice rolled at once, where there is room for all. -/
theorem matches_sum {m n : Nat} (least greatest : Int) {tally : Tally}
    (hroom : ∀ limit, table.limit = some limit → tally.announced + (m + n : Nat) ≤ limit) :
    ((evaluate table markup (.binary .add (.dice m least greatest)
      (.dice n least greatest))).attempt tally).Matches
      ((evaluate table markup (.dice (m + n : Nat) least greatest)).attempt tally) := by
  have hroomFirst : ∀ limit, table.limit = some limit → tally.announced + m ≤ limit := by
    intro limit hlimit
    have hle := hroom limit hlimit
    omega
  rw [evaluate_sum, evaluate_dice_add, Table.attempt_announce_bind hroomFirst,
    Table.attempt_announce_bind hroom]
  generalize hfaces : Faces.range least greatest = faces
  -- The first part shows the same draws, whether or not the second has been announced.
  have hdrawn : (Table.counted tally m).drawn = (Table.counted tally (m + n : Nat)).drawn := rfl
  obtain ⟨hanswer, hsame, hspent⟩ := table.repeats_rollDice faces m hdrawn
  have hdraws : Roll.Draws m (table.rollDice faces m) := Table.draws_rollDice faces m
  have hkept := hdraws.announced_eq (Table.counted tally m)
  cases hdice : ((table.rollDice faces m).attempt (Table.counted tally m)).answer with
  | error fault =>
      rw [Roll.attempt_bind_of_error hdice, Roll.attempt_bind_of_error (hanswer.symm.trans hdice)]
      exact ⟨rfl, hsame, fun _ h => by cases h⟩
  | ok first =>
      rw [Roll.attempt_bind_of_ok hdice, Roll.attempt_bind_of_ok (hanswer.symm.trans hdice)]
      generalize ((table.rollDice faces m).attempt (Table.counted tally m)).tally = later at *
      generalize ((table.rollDice faces m).attempt (Table.counted tally (m + n : Nat))).tally =
        later' at *
      simp only [Table.counted] at hkept hspent
      have hroomSecond : ∀ limit, table.limit = some limit → later.announced + n ≤ limit := by
        intro limit hlimit
        have hle := hroom limit hlimit
        omega
      have htally : Table.counted later n = later' := by
        obtain ⟨announced, drawn⟩ := later
        obtain ⟨announced', drawn'⟩ := later'
        simp only [Table.counted, Tally.mk.injEq] at *
        omega
      rw [Table.attempt_announce_bind hroomSecond, htally]
      exact Attempt.matches_self _

/-! ## Twins -/

/-- Whether two expressions cannot be told apart, from where an evaluation stands: they have one
shape and one title, and come to the same. -/
structure Twins (table : Table) (markup : Markup) (tally : Tally) (e e' : Expression) : Prop where
  shape_eq : e.shape = e'.shape
  title_eq : e.title = e'.title
  evaluates : ((evaluate table markup e).attempt tally).Matches
    ((evaluate table markup e').attempt tally)

/-- Brackets hide all of an expression but its shape and what it comes to. -/
theorem twins_bracket {tally : Tally} {e e' : Expression} (hshape : e.shape = e'.shape)
    (hevaluates : ((evaluate table markup e).attempt tally).Matches
      ((evaluate table markup e').attempt tally)) :
    Twins table markup tally (.bracket e) (.bracket e') where
  shape_eq := by rw [shape_bracket, shape_bracket, hshape]
  title_eq := rfl
  evaluates := by
    rw [evaluate, evaluate]
    exact hevaluates.bind _

namespace Twins

variable {tally : Tally} {e e' : Expression} (h : Twins table markup tally e e')
include h

/-- Twins meet the same demands. -/
theorem demand_eq {owner owner' : Expression} (htitle : owner.title = owner'.title)
    (haccepts : owner.accepts = owner'.accepts) : demand owner e = demand owner' e' := by
  rw [demand, demand, h.shape_eq, h.title_eq, htitle, haccepts]

/-- What asks for an operand, and makes something of what it comes to, does so of twins alike. -/
theorem matches_demand {owner owner' : Expression} (htitle : owner.title = owner'.title)
    (haccepts : owner.accepts = owner'.accepts) (f : Value → Roll Value) :
    ((Roll.lift (demand owner e) >>= fun _ => evaluate table markup e >>= f).attempt tally).Matches
      ((Roll.lift (demand owner' e') >>= fun _ => evaluate table markup e' >>= f).attempt
        tally) := by
  rw [h.demand_eq htitle haccepts]
  cases hdemand : demand owner' e' with
  | ok _ => exact h.evaluates.bind f
  | error fault => exact Attempt.matches_self _

/-- Twins stay twins under a modifier. -/
theorem modified (modifier : Modifier) :
    Twins table markup tally (.modified modifier e) (.modified modifier e') := by
  have htitle : (Expression.modified modifier e).title =
      (Expression.modified modifier e').title := by
    rcases modifier with ⟨explosion, _⟩ | _ | ⟨_, selector⟩
    · cases explosion <;> rfl
    · rfl
    · cases selector <;> rfl
  have haccepts : (Expression.modified modifier e).accepts =
      (Expression.modified modifier e').accepts := by
    cases modifier <;> rfl
  refine ⟨?_, htitle, ?_⟩
  · cases modifier with
    | explode | reroll => rfl
    | select => rw [shape, shape, h.shape_eq]
  · rw [evaluate, evaluate]
    exact h.matches_demand htitle haccepts _

/-- Twins stay twins under a score. -/
theorem scored (score : Score) :
    Twins table markup tally (.scored score e) (.scored score e') := by
  have htitle : (Expression.scored score e).title = (Expression.scored score e').title := by
    cases score <;> rfl
  refine ⟨rfl, htitle, ?_⟩
  rw [evaluate, evaluate, h.shape_eq]
  exact h.matches_demand htitle rfl _

/-- Under the same modifiers and score twins stay twins. -/
theorem under (modifiers : List Modifier) (score : Option Score) :
    Twins table markup tally ((e.withModifiers modifiers).withScore score)
      ((e'.withModifiers modifiers).withScore score) := by
  induction modifiers generalizing e e' with
  | nil =>
      cases score with
      | none => exact h
      | some score => exact h.scored score
  | cons modifier rest ih => exact ih (h.modified modifier)

/-- Twins have one outcome. -/
theorem outcomeOf :
    ((outcomeOf table markup e).attempt tally).Matches
      ((outcomeOf table markup e').attempt tally) :=
  h.evaluates.bind _

end Twins

/-! ## Sums of dice in curly brackets -/

/-- Dice that are added up in curly brackets are the dice rolled at once: with any suffix behind the
list, or none, both texts have one outcome, after the same draws and the same dice, or both fail
with one fault.  The limit has room for all the dice. -/
theorem joined_matches_whole {first second whole : WrittenNumber}
    (hwhole : whole.value = first.value + second.value) (faces : WrittenFaces) {suffix : Text}
    (hsuffix : Outline.leadingSuffix suffix = suffix) (table : Table) (markup : Markup)
    {tally : Tally}
    (hroom : ∀ limit, table.limit = some limit → tally.announced + whole.value ≤ limit) :
    ((resolve table markup (Text.listOf [(WrittenDice.plain first faces).text.plus
      (WrittenDice.plain second faces).text] ++ suffix)).attempt tally).Matches
      ((resolve table markup (Text.listOf [(WrittenDice.plain whole faces).text] ++
        suffix)).attempt tally) := by
  obtain ⟨m, hm⟩ := Int.eq_ofNat_of_zero_le first.value_nonneg
  obtain ⟨n, hn⟩ := Int.eq_ofNat_of_zero_le second.value_nonneg
  have hsum : whole.value = (m + n : Nat) := by omega
  rw [hsum] at hroom
  have htwins : Twins table markup tally
      (.bracket (.binary .add (faces.dice first.value) (faces.dice second.value)))
      (.bracket (faces.dice whole.value)) := by
    rw [hm, hn, hsum]
    refine twins_bracket ?_ ?_
    · rw [shape_add, if_pos ⟨shape_dice _ faces, shape_dice _ faces⟩, shape_dice]
    · cases faces with
      | upTo sides positive => exact matches_sum 1 sides.value hroom
      | fudge => exact matches_sum (-1) 1 hroom
  unfold resolve
  rw [parse_listOf_plus first second faces hsuffix, parse_listOf_dice whole faces hsuffix]
  cases overlay suffix with
  | error fault => exact Attempt.matches_self _
  | ok laid => exact (htwins.under laid.1 laid.2).outcomeOf

/-- Of three dice, for which the limit has just room, the two highest are kept. -/
theorem joined_matches_whole_highest :
    let table : Table := { source := fun n => some (.ofRat (mkRat n 4)), limit := some 3 }
    Outline.leadingSuffix ['k', 'h', '2'] = ['k', 'h', '2'] ∧
      (WrittenNumber.ofNat 3 (by decide)).value =
        (WrittenNumber.ofNat 2 (by decide)).value + (WrittenNumber.ofNat 1 (by decide)).value ∧
      (∀ limit, table.limit = some limit → (0 : Int) + 3 ≤ limit) ∧
      ((resolve table .plain "\x7b2d6+1d6\x7dkh2".toList).attempt {}).Matches
        ((resolve table .plain "\x7b3d6\x7dkh2".toList).attempt {}) ∧
      (resolve table .plain "\x7b2d6+1d6\x7dkh2".toList).run {} = .ok
        { value := .int 6, text := "(~[1]~ + [2] + [4])".toList } { announced := 3, drawn := 3 } := by
  intro table
  have hsuffix : Outline.leadingSuffix ['k', 'h', '2'] = ['k', 'h', '2'] := rfl
  have hwhole : (WrittenNumber.ofNat 3 (by decide)).value =
      (WrittenNumber.ofNat 2 (by decide)).value + (WrittenNumber.ofNat 1 (by decide)).value := by
    decide
  have hroom : ∀ limit, table.limit = some limit → (0 : Int) + 3 ≤ limit := by
    rintro _ ⟨⟩
    decide
  refine ⟨hsuffix, hwhole, hroom, ?_, by decide +kernel⟩
  exact joined_matches_whole hwhole (.upTo (.ofNat 6 (by decide)) (by decide)) hsuffix table .plain
    hroom

end Expression
end DiceNotation

import DiceNotation.Proofs.Dice.Explosions
import DiceNotation.Proofs.Evaluation.Compounding
import DiceNotation.Proofs.Evaluation.Subtraction
import DiceNotation.Proofs.Evaluation.Turns
import DiceNotation.Proofs.Outcome.Pools

/-!
# Kinds of explosions, evaluated

The same dice explode alike in all three kinds of explosions.  Regular and penetrating explosions
come to the same, but that the total of the latter is less by the number of dice that joined.  A
single die that compounds comes to the total of its regular explosion; its text shows the sum, which
the text of the regular explosion does not, and so it cannot be written when the sum is too long.
No other source and no other limit makes a difference.

Main definitions:

- `Attempt.Agrees`: attempts that come to related results and leave one tally.
- `WrittenDice.exploding`: dice that explode, as they are written.
- `Outcome.CompoundsTo`: how a compounding explosion ends where the regular one ends in some way.
- `Expression.highRun`: a table on which dice with two faces explode as often as they should.

Main results:

- `Expression.agree_penetrating`, `Expression.agree_compounding`: what explosions yield.
- `Expression.parse_exploding`: what is read of dice that explode.
- `Expression.explosions_agree`: the three kinds of explosions of the same dice.
- `Expression.compounding_sum_too_long`: a die of which only the regular explosion can be written.
-/

namespace DiceNotation

/-! ## Attempts -/

/-- Whether two attempts leave one tally and come to results that are related, or to one fault. -/
structure Attempt.Agrees {α β : Type} (R : α → β → Prop) (first : Attempt α)
    (second : Attempt β) : Prop where
  tally_eq : first.tally = second.tally
  answers : Agree R first.answer second.answer

namespace Roll

variable {α β : Type} {R : α → β → Prop} {x : Roll α} {y : Roll β}

/-- What agrees from every tally agrees from one. -/
theorem Agree.attempt (h : Agree R x y) (tally : Tally) :
    (x.attempt tally).Agrees R (y.attempt tally) := by
  have hrun := h tally
  unfold Roll.attempt
  revert hrun
  cases x.run tally <;> cases y.run tally
  · exact fun hrun => ⟨hrun.2, hrun.1⟩
  · exact False.elim
  · exact False.elim
  · exact fun hrun => ⟨hrun.2, hrun.1⟩

end Roll

/-! ## What dice show -/

namespace Die

variable {least : Int} {off : List Int} {count : Nat} {dice dice' : List Die} {die die' grown : Die}

/-- A die that was rolled once has a roll. -/
theorem IsRolledOnce.rolls_ne_nil (h : die.IsRolledOnce least) : die.rolls ≠ [] := by
  obtain ⟨roll, hroll, -⟩ := h.rolls
  rw [hroll]
  exact List.cons_ne_nil _ _

/-- So does one that follows it. -/
theorem Follows.rolls_ne_nil (h : Follows least off die die') : die'.rolls ≠ [] := by
  rw [h.rolls_eq]
  exact fun hnil => h.rolled.rolls_ne_nil (List.append_eq_nil_iff.mp hnil).1

/-- With nothing taken off a die follows itself. -/
theorem IsRolledOnce.follows_self (h : die.IsRolledOnce least) : Follows least [] die die :=
  ⟨h, rfl, rfl, (List.append_nil _).symm⟩

/-- Pools that grow alike have as many dice. -/
theorem GrownAlike.length_eq (h : GrownAlike least off count dice dice') :
    dice'.length = dice.length := by
  obtain ⟨kept, kept', joined, joined', rfl, rfl, -, hkept, hjoined⟩ := h
  rw [List.length_append, List.length_append, hkept.length_eq, hjoined.length_eq]

/-- So one of them is empty just when the other is. -/
theorem GrownAlike.eq_nil_iff (h : GrownAlike least off count dice dice') :
    dice' = [] ↔ dice = [] := by
  rw [← List.length_eq_zero_iff, h.length_eq, List.length_eq_zero_iff]

/-- Of pools that follow each other, the first was rolled once and the second follows it. -/
theorem mem_of_follows (h : List.Forall₂ (Follows least off) dice dice') :
    (∀ die ∈ dice, die.IsRolledOnce least) ∧ ∀ die' ∈ dice', ∃ die, Follows least off die die' := by
  induction h with
  | nil => simp
  | cons hdie _ ih =>
      obtain ⟨hrest, hrest'⟩ := ih
      exact ⟨List.forall_mem_cons.mpr ⟨hdie.rolled, hrest⟩,
        List.forall_mem_cons.mpr ⟨⟨_, hdie⟩, hrest'⟩⟩

/-- The dice of pools that have grown in step. -/
theorem GrownAlike.mem (h : GrownAlike least [] count dice dice') :
    (∀ die ∈ dice, die.IsRolledOnce least) ∧
      ∀ die' ∈ dice', ∃ die off, Follows least off die die' ∧ (off = [] ∨ off = [-1]) := by
  obtain ⟨kept, kept', joined, joined', rfl, rfl, -, hkept, hjoined⟩ := h
  obtain ⟨hfirst, hfirst'⟩ := mem_of_follows hkept
  obtain ⟨hsecond, hsecond'⟩ := mem_of_follows hjoined
  refine ⟨List.forall_mem_append.mpr ⟨hfirst, hsecond⟩, List.forall_mem_append.mpr ⟨?_, ?_⟩⟩
  · exact fun die' hdie' => (hfirst' die' hdie').imp fun die hdie => ⟨[], hdie, .inl rfl⟩
  · exact fun die' hdie' => (hsecond' die' hdie').imp fun die hdie => ⟨[-1], hdie, .inr rfl⟩

/-- A die that has grown has a roll. -/
theorem GrownBy.rolls_ne_nil (h : GrownBy least [] dice grown) : grown.rolls ≠ [] := by
  obtain ⟨die, rest, rfl⟩ := List.exists_cons_of_ne_nil h.dice_ne_nil
  rw [h.rolls_eq, List.nil_append, List.flatMap_cons]
  exact fun hnil => (h.rolled die (List.mem_cons_self ..)).rolls_ne_nil
    (List.append_eq_nil_iff.mp hnil).1

/-- A die that follows another has its value and what was taken off. -/
theorem value_follows (h : Follows least off die die') : die'.value = die.value + off.sum := by
  rw [value, value, h.rolls_eq, List.sum_append]

/-- So the total differs by what was taken off each die. -/
theorem sum_shares_follows (h : List.Forall₂ (Follows least off) dice dice') :
    (shares dice').sum = (shares dice).sum + dice.length * off.sum := by
  induction h with
  | nil => simp [shares]
  | @cons die die' rest rest' hdie _ ih =>
      have hlive' : die'.discarded = false := hdie.discarded_eq.trans hdie.rolled.live
      simp only [shares, List.map_cons, List.sum_cons, hdie.rolled.live, hlive', value_follows hdie,
        Bool.false_eq_true, if_false, List.length_cons, Nat.cast_succ, Int.add_mul] at ih ⊢
      linarith

/-- The second of two pools that have grown in step shows less by the number of dice that joined. -/
theorem GrownAlike.sum_shares (h : GrownAlike least [] count dice dice') :
    (shares dice').sum = (shares dice).sum - (dice.length - count) := by
  obtain ⟨kept, kept', joined, joined', rfl, rfl, hcount, hkept, hjoined⟩ := h
  have hfirst := sum_shares_follows hkept
  have hsecond := sum_shares_follows hjoined
  simp only [shares, List.map_append, List.sum_append, List.length_append] at hfirst hsecond ⊢
  simp only [List.sum_nil, List.sum_cons] at hfirst hsecond
  push_cast
  omega

/-- What follows a die that was rolled once is not long. -/
theorem Follows.not_isLong (h : Follows least off die die') (hleast : least.natAbs ≤ 1)
    (hoff : off = [] ∨ off = [-1]) : ¬ die'.IsLong := by
  obtain ⟨roll, hroll, hnear⟩ := h.rolled.rolls
  have hpast := Binary64.two_le_past
  have hlimit : 1 * (2 * Binary64.past) < 10 ^ Numeral.digitLimit :=
    Numeral.past_mul_lt (Nat.pow_pos (by decide))
  unfold IsLong
  rw [value_follows h, value, h.rolls_eq, hroll]
  generalize Binary64.past = past at *
  generalize 10 ^ Numeral.digitLimit = limit at *
  rcases hoff with rfl | rfl <;> simp <;> omega

/-- A die that has grown by a pool shows what the pool shows. -/
theorem GrownBy.value_eq (h : GrownBy least [] dice grown) : grown.value = (shares dice).sum := by
  have hshares : shares dice = dice.map value :=
    List.map_congr_left fun die hdie => by rw [(h.rolled die hdie).live]; rfl
  rw [value, h.rolls_eq, hshares, List.nil_append, List.flatMap_def, List.sum_flatten, List.map_map]
  rfl

/-- A die that has grown by others adds up to the same total. -/
theorem GrownBy.sum_shares (h : GrownBy least [] dice grown) :
    (shares [grown]).sum = (shares dice).sum := by
  simp [shares, h.live, h.value_eq]

/-- What dice show that were rolled once is near their number. -/
theorem natAbs_sum_shares_le (hdice : ∀ die ∈ dice, die.IsRolledOnce least)
    (hleast : least.natAbs ≤ 1) :
    (shares dice).sum.natAbs ≤ dice.length * (2 * Binary64.past) := by
  have hpast := Binary64.two_le_past
  induction dice with
  | nil => simp [shares]
  | cons die rest ih =>
      obtain ⟨hdie, hrest⟩ := List.forall_mem_cons.mp hdice
      obtain ⟨roll, hroll, hnear⟩ := hdie.rolls
      have hvalue : die.value = roll := by simp [value, hroll]
      have hmore := ih hrest
      simp only [shares, List.map_cons, List.sum_cons, hdie.live, Bool.false_eq_true, if_false,
        hvalue, List.length_cons, Nat.succ_mul] at hmore ⊢
      omega

/-- A die that has grown by a pool is long only if its value is. -/
theorem GrownBy.value_long (h : GrownBy least [] dice grown) (hleast : least.natAbs ≤ 1)
    (hlong : grown.IsLong) : 10 ^ Numeral.digitLimit ≤ grown.value.natAbs := by
  rcases hlong with ⟨roll, hroll, hlong⟩ | hlong
  · rw [h.rolls_eq, List.nil_append] at hroll
    obtain ⟨die, hdie, hroll⟩ := List.mem_flatMap.mp hroll
    have hrolled := h.rolled die hdie
    exact absurd (.inl ⟨roll, hroll, hlong⟩) (hrolled.follows_self.not_isLong hleast (.inl rfl))
  · exact hlong

/-- A pool of which the sum is too long has very many dice. -/
theorem GrownBy.many (h : GrownBy least [] dice grown) (hleast : least.natAbs ≤ 1)
    (hlong : 10 ^ Numeral.digitLimit ≤ (shares dice).sum.natAbs) :
    10 ^ Numeral.spareDigits < dice.length := by
  refine Nat.lt_of_not_le fun hfew => ?_
  have hshort := Numeral.past_mul_lt hfew
  have hnear := natAbs_sum_shares_le h.rolled hleast
  omega

end Die

/-! ## Totals -/

namespace Value

open Die

variable {markup : Markup} {least : Int} {count : Nat} {dice dice' : List Die} {grown : Die}

/-- The total of dice that were rolled once. -/
theorem collapse_rolledOnce (markup : Markup) (hdice : ∀ die ∈ dice, die.IsRolledOnce least)
    (hleast : least.natAbs ≤ 1) (hne : dice ≠ []) :
    ∃ text, (pool dice).collapse markup = .ok { value := .int (shares dice).sum, text } := by
  refine collapse_pool_written markup (fun die hdie => ⟨(hdice die hdie).rolls_ne_nil, ?_⟩) hne
  exact (hdice die hdie).follows_self.not_isLong hleast (.inl rfl)

/-- The total of a penetrating explosion is less by the number of dice that joined. -/
theorem collapse_penetrating (h : GrownAlike least [] count dice dice')
    (hleast : least.natAbs ≤ 1) :
    Agree (fun outcome outcome' => outcome'.kind = outcome.kind ∧
      Outcome.LessBy (dice.length - count) outcome outcome')
      ((pool dice).collapse markup) ((pool dice').collapse markup) := by
  by_cases hne : dice = []
  · rw [h.eq_nil_iff.mpr hne, hne]
    exact agree_error.mpr rfl
  · -- Neither pool has a die with a long number, so both can be written.
    have hne' : dice' ≠ [] := fun hnil => hne (h.eq_nil_iff.mp hnil)
    obtain ⟨hrolled, hfollows⟩ := h.mem
    obtain ⟨text, htext⟩ : ∃ text, (pool dice).collapse markup =
        .ok { value := .int (shares dice).sum, text } :=
      collapse_rolledOnce markup hrolled hleast hne
    obtain ⟨text', htext'⟩ : ∃ text', (pool dice').collapse markup =
        .ok { value := .int (shares dice').sum, text := text' } := by
      refine collapse_pool_written markup (fun die' hdie' => ?_) hne'
      obtain ⟨die, off, hfollow, hoff⟩ := hfollows die' hdie'
      exact ⟨hfollow.rolls_ne_nil, hfollow.not_isLong hleast hoff⟩
    rw [htext, htext', h.sum_shares]
    exact ⟨rfl, _, rfl, rfl, rfl⟩

/-- The total of a compounding die is that of the pool that it has grown by. -/
theorem collapse_compounding (markup : Markup) (h : GrownBy least [] dice grown)
    (hleast : least.natAbs ≤ 1) (hshort : (shares dice).sum.natAbs < 10 ^ Numeral.digitLimit) :
    ∃ text, (pool [grown]).collapse markup = .ok { value := .int (shares dice).sum, text } := by
  have hwritten : grown.IsWritten := by
    refine ⟨h.rolls_ne_nil, fun hlong => ?_⟩
    have hvalue := h.value_long hleast hlong
    rw [h.value_eq] at hvalue
    exact Nat.not_lt.mpr hvalue hshort
  have hcollapse := collapse_pool_written markup (List.forall_mem_singleton.mpr hwritten)
    (List.cons_ne_nil _ _)
  rwa [h.sum_shares] at hcollapse

/-- A compounding die has no total if that of the pool is too long to be written, for it would have
to be written behind the rolls of the die. -/
theorem collapse_compounding_long (h : GrownBy least [] dice grown)
    (hlong : 10 ^ Numeral.digitLimit ≤ (shares dice).sum.natAbs) :
    (pool [grown]).collapse markup = .error .numeralTooLong := by
  have hgrown : grown.IsLong := .inr (by rwa [h.value_eq])
  exact collapse_pool_long markup (List.forall_mem_singleton.mpr h.rolls_ne_nil)
    ⟨grown, List.mem_singleton_self _, hgrown⟩

end Value

/-- Whether the number of an outcome is an integer that is too long to be written. -/
def Outcome.IsLong (outcome : Outcome) : Prop :=
  ∃ n, outcome.value = .int n ∧ 10 ^ Numeral.digitLimit ≤ n.natAbs

/-- Whether a compounding explosion ends as it should where the regular one ends with `regular`: in
the same fault, or with the same number; only that it has a fault if the number is too long. -/
def Outcome.CompoundsTo (regular compounding : Except Fault Outcome) : Prop :=
  match regular with
  | .error fault => compounding = .error fault
  | .ok outcome =>
    (outcome.IsLong → compounding = .error .numeralTooLong) ∧
      (¬ outcome.IsLong → ∃ other, compounding = .ok other ∧ outcome.SameNumber other)

/-- Dice of a count and faces that explode, perhaps at a point, without a score. -/
def WrittenDice.exploding (count : WrittenNumber) (faces : WrittenFaces) (explosion : Explosion)
    (point : Option WrittenPoint) : WrittenDice where
  count := some count
  faces := faces
  modifiers := [.explode explosion point]
  separate := List.isChain_singleton _
  score := none
  apart := by simp

namespace Expression

open Die

/-! ## Explosions -/

/-- Dice that explode. -/
def exploding (explosion : Explosion) (condition : Option Condition) (count : Nat)
    (least greatest : Int) : Expression :=
  .modified (.explode explosion condition) (.dice count least greatest)

variable {table : Table} {markup : Markup} {condition : Option Condition} {count : Nat}
  {least greatest : Int}

/-- Dice that explode are announced and rolled, and then explode. -/
theorem evaluate_exploding (explosion : Explosion) :
    evaluate table markup (exploding explosion condition count least greatest) = (do
      table.announce count
      let thrown ← table.rollDice (.range least greatest) count
      return .pool (← table.explode explosion condition thrown)) := by
  have hdemand : demand (exploding explosion condition count least greatest)
      (.dice count least greatest) = .ok () := rfl
  have hlift : (Roll.lift (.ok ()) : Roll Unit) = pure () := rfl
  rw [exploding] at hdemand ⊢
  rw [evaluate, evaluate, hdemand, hlift, rollAnnounced, Int.toNat_natCast]
  simp only [pure_bind, bind_assoc]
  rfl

/-- Explosions yield what they make of dice that were rolled once. -/
theorem agree_exploding {R : List Die → List Die → Prop} {first second : Explosion}
    (h : ∀ thrown : List Die, thrown.length = count → (∀ die ∈ thrown, die.IsRolledOnce least) →
      Roll.Agree R (table.explode first condition thrown) (table.explode second condition thrown)) :
    Roll.Agree (fun value value' => ∃ dice dice', value = .pool dice ∧ value' = .pool dice' ∧
        R dice dice')
      (evaluate table markup (exploding first condition count least greatest))
      (evaluate table markup (exploding second condition count least greatest)) := by
  have hthrown := Roll.agree_of_yields (Table.yields_rollDice table least greatest count)
  rw [evaluate_exploding, evaluate_exploding]
  refine (Roll.agree_eq _).bind fun _ _ _ => hthrown.bind ?_
  rintro thrown _ ⟨rfl, hlength, hrolled⟩
  refine (h _ hlength hrolled).bind fun dice dice' hdice => ?_
  exact Roll.agree_pure ⟨dice, dice', rfl, rfl, hdice⟩

/-- Regular and penetrating explosions yield pools that have grown in step. -/
theorem agree_penetrating (table : Table) (markup : Markup) (condition : Option Condition)
    (count : Nat) (least greatest : Int) :
    Roll.Agree (fun value value' => ∃ dice dice', value = .pool dice ∧ value' = .pool dice' ∧
        GrownAlike least [] count dice dice')
      (evaluate table markup (exploding .regular condition count least greatest))
      (evaluate table markup (exploding .penetrating condition count least greatest)) := by
  refine agree_exploding ?_
  rintro thrown rfl hrolled
  exact Table.agree_explode_penetrating hrolled

/-- A compounding explosion yields a die that has grown by the pool of the regular one. -/
theorem agree_compounding (table : Table) (markup : Markup) (condition : Option Condition)
    (least greatest : Int) :
    Roll.Agree (fun value value' => ∃ dice dice', value = .pool dice ∧ value' = .pool dice' ∧
        ∃ grown, dice' = [grown] ∧ GrownBy least [] dice grown)
      (evaluate table markup (exploding .regular condition 1 least greatest))
      (evaluate table markup (exploding .compounding condition 1 least greatest)) := by
  refine agree_exploding ?_
  intro thrown hlength hrolled
  obtain ⟨die, rfl⟩ := List.length_eq_one_iff.mp hlength
  exact Table.agree_explode_compounding (List.forall_mem_singleton.mp hrolled)

/-- A regular explosion announces the dice that it yields. -/
theorem announced_exploding {tally : Tally} {dice : List Die}
    (h : ((evaluate table markup (exploding .regular condition count least greatest)).attempt
      tally).answer = .ok (.pool dice)) :
    ((evaluate table markup (exploding .regular condition count least greatest)).attempt
      tally).tally.announced - tally.announced - count = dice.length - count := by
  have hroll : (exploding .regular condition count least greatest).Rollable := by
    simp [exploding, Rollable]
  have hplain : (exploding .regular condition count least greatest).Uncompounded := by
    simp [exploding, Uncompounded]
  obtain ⟨_, hvalue, hturn⟩ :=
    yields_iff.mp (inTurn_evaluate rfl hroll hplain tally) _ _ (Roll.run_of_answer_ok h)
  cases hvalue
  have hannounced := hturn.announced
  omega

/-- The outcome of an expression is collapsed without rolling. -/
theorem attempt_outcomeOf (e : Expression) (tally : Tally) :
    (outcomeOf table markup e).attempt tally =
      ⟨((evaluate table markup e).attempt tally).answer >>= fun value => value.collapse markup,
        ((evaluate table markup e).attempt tally).tally⟩ :=
  Roll.attempt_bind_lift ..

/-- A penetrating explosion ends as the regular one does, but for what is taken off. -/
theorem agrees_penetrating (hleast : least.natAbs ≤ 1) (tally : Tally) :
    let regular := (outcomeOf table markup
      (exploding .regular condition count least greatest)).attempt tally
    let joined := regular.tally.announced - tally.announced - count
    regular.Agrees (fun regular penetrating =>
        penetrating.kind = regular.kind ∧ Outcome.LessBy joined regular penetrating)
      ((outcomeOf table markup (exploding .penetrating condition count least greatest)).attempt
        tally) := by
  intro regular joined
  simp only [regular, joined, attempt_outcomeOf]
  have hyields := (agree_penetrating table markup condition count least greatest).attempt tally
  refine ⟨hyields.tally_eq, ?_⟩
  obtain ⟨_, _, hregular, hother, dice, dice', rfl, rfl, hgrown⟩ | ⟨fault, hregular, hother⟩ :=
    hyields.answers.cases
  · rw [announced_exploding hregular, hregular, hother, ok_bind, ok_bind]
    exact Value.collapse_penetrating hgrown hleast
  · rw [hregular, hother]
    exact agree_error.mpr rfl

/-- A compounding explosion of a single die ends as the regular one does, unless its sum is too
long; so many dice have joined then. -/
theorem agrees_compounding (hleast : least.natAbs ≤ 1) (tally : Tally) :
    let regular := (outcomeOf table markup
      (exploding .regular condition 1 least greatest)).attempt tally
    let compounding := (outcomeOf table markup
      (exploding .compounding condition 1 least greatest)).attempt tally
    let joined := regular.tally.announced - tally.announced - 1
    regular.tally = compounding.tally ∧
      Outcome.CompoundsTo regular.answer compounding.answer ∧
      ∀ outcome, regular.answer = .ok outcome → outcome.IsLong →
        10 ^ Numeral.spareDigits ≤ joined := by
  intro regular compounding joined
  simp only [joined, regular, compounding, attempt_outcomeOf]
  have hyields := (agree_compounding table markup condition least greatest).attempt tally
  refine ⟨hyields.tally_eq, ?_⟩
  obtain ⟨_, _, hregular, hother, dice, _, rfl, rfl, grown, rfl, hgrown⟩ |
    ⟨fault, hregular, hother⟩ := hyields.answers.cases
  · have hjoined := announced_exploding hregular
    rw [Nat.cast_one] at hjoined
    obtain ⟨text, htotal⟩ := Value.collapse_rolledOnce markup hgrown.rolled hleast
      hgrown.dice_ne_nil
    rw [hjoined, hregular, hother, ok_bind, ok_bind, htotal]
    refine ⟨⟨?_, ?_⟩, ?_⟩
    · rintro ⟨_, ⟨⟩, hlong⟩
      exact Value.collapse_compounding_long hgrown hlong
    · intro hshort
      obtain ⟨text', htotal'⟩ := Value.collapse_compounding markup hgrown hleast
        (Nat.lt_of_not_le fun hlong => hshort ⟨_, rfl, hlong⟩)
      exact ⟨_, htotal', rfl, rfl⟩
    · rintro _ ⟨⟩ ⟨_, ⟨⟩, hlong⟩
      have hmany : (10 ^ Numeral.spareDigits : Int) < dice.length := by
        exact_mod_cast hgrown.many hleast hlong
      omega
  · rw [hregular, hother]
    exact ⟨rfl, by simp⟩

/-! ## Written dice that explode -/

/-- What is read of dice that explode, in each of the three kinds and with or without a point. -/
theorem parse_exploding (written : WrittenNumber) (faces : WrittenFaces)
    (point : Option WrittenPoint) :
    ∃ (count : Nat) (least greatest : Int), written.value = count ∧ least.natAbs ≤ 1 ∧
      ∀ explosion, parse (WrittenDice.exploding written faces explosion point).text =
        .ok (some (exploding explosion (point.map WrittenPoint.condition) count least
          greatest)) := by
  obtain ⟨count, hcount⟩ := Int.eq_ofNat_of_zero_le written.value_nonneg
  have hread : ∀ explosion, parse (WrittenDice.exploding written faces explosion point).text =
      .ok (some (WrittenDice.exploding written faces explosion point).expression) :=
    fun explosion => parse_of_ofLeaf (WrittenDice.isLeafPart_text _) (WrittenDice.text_ne_nil _)
      (ofLeaf_written _)
  simp only [hread, exploding]
  cases faces with
  | upTo sides positive => exact ⟨count, 1, sides.value, hcount, by decide, fun _ => hcount ▸ rfl⟩
  | fudge => exact ⟨count, -1, 1, hcount, by decide, fun _ => hcount ▸ rfl⟩

/-! ## Long runs of high draws -/

/-- A table on which dice with two faces show the higher one `count` times and then the lower one,
and are announced so often and once more at most. -/
def highRun (count : Nat) : Table where
  source n := some (.ofRat (mkRat (if n < count then 1 else 0 : Nat) 2))
  limit := some (count + 1)

/-- A further roll of a die with two faces shows the higher one until the run is over. -/
theorem run_addAnnounced_highRun {count drawn : Nat} (hdrawn : drawn ≤ count) {die : Die}
    (hfaces : die.faces = .range 1 2) :
    ((highRun count).addAnnounced die).run { announced := drawn, drawn } =
      .ok (die.addResult (if drawn < count then 2 else 1))
        { announced := drawn + 1, drawn := drawn + 1 } := by
  have hannounce : ((highRun count).announce 1).run { announced := drawn, drawn } =
      .ok () { announced := drawn + 1, drawn } :=
    Table.run_announce_of_le rfl (by simp only; omega)
  have hplace : Table.place (.ofRat (mkRat (if drawn < count then 1 else 0 : Nat) 2)) 1 2 =
      .ok (if drawn < count then 2 else 1) := by
    split
    · decide +kernel
    · decide +kernel
  rw [Table.addAnnounced, Table.addRoll, hfaces, EStateM.run_bind, hannounce]
  simp only [Table.drawFace, Table.draw, EStateM.run_bind, Table.run_nextDraw, highRun, hplace]
  rfl

/-- A die that shows its higher face grows on until the run is over. -/
theorem run_compoundDie_highRun {count drawn left : Nat} (hleft : drawn + left = count) {die : Die}
    (hfaces : die.faces = .range 1 2) (hlast : die.rolls.getLast? = some 2) :
    ((highRun count).compoundDie none 2 (left + 2) die).run { announced := drawn, drawn } =
      .ok (die.extended (List.replicate left 2 ++ [1]))
        { announced := count + 1, drawn := count + 1 } := by
  have hexplodes : explodes none 2 2 = true := by decide
  have hrests : explodes none 2 1 = false := by decide
  induction left generalizing drawn die with
  | zero =>
      obtain rfl : drawn = count := hleft
      have hstarted : ({ die with exploded := true } : Die).faces = .range 1 2 := hfaces
      have hgrow := run_addAnnounced_highRun (le_refl drawn) hstarted
      rw [if_neg (lt_irrefl _)] at hgrow
      rw [Table.compoundDie_succ, hlast]
      simp only [hexplodes, Bool.not_true, Bool.false_eq_true, if_false, EStateM.run_bind, hgrow]
      rw [Table.compoundDie_succ]
      simp [addResult, hrests, extended]
  | succ left ih =>
      have hlt : drawn < count := by omega
      have hstarted : ({ die with exploded := true } : Die).faces = .range 1 2 := hfaces
      have hgrow := run_addAnnounced_highRun hlt.le hstarted
      rw [if_pos hlt] at hgrow
      let grown := ({ die with exploded := true } : Die).addResult 2
      have hfaces' : grown.faces = .range 1 2 := hfaces
      have hlast' : grown.rolls.getLast? = some 2 := by simp [grown, addResult]
      have hleft' : drawn + 1 + left = count := by omega
      have hrest := ih hleft' hfaces' hlast'
      rw [extended_addResult] at hrest
      rw [Table.compoundDie_succ, hlast]
      simp only [hexplodes, Bool.not_true, Bool.false_eq_true, if_false, EStateM.run_bind, hgrow]
      exact_mod_cast hrest

/-- A compounding explosion of a single die is one of a die that is announced and rolled. -/
theorem evaluate_exploding_single (table : Table) (markup : Markup) (least greatest : Int) :
    evaluate table markup (exploding .compounding condition 1 least greatest) = (do
      let die ← table.addAnnounced { faces := .range least greatest }
      return .pool (← table.explode .compounding condition [die])) := by
  rw [evaluate_exploding, Nat.cast_one]
  simp [Table.addAnnounced, Table.rollDice, bind_assoc, -bind_pure_comp]

/-- What a compounding explosion of a die with two faces yields on a long run. -/
theorem run_evaluate_highRun (count : Nat) (markup : Markup) :
    ∃ grown, (evaluate (highRun (count + 1)) markup (exploding .compounding none 1 1 2)).run {} =
        .ok (.pool [grown]) { announced := count + 2, drawn := count + 2 } ∧
      grown.value = 2 * (count + 1) + 1 := by
  let first : Die := { faces := .range 1 2, rolls := [2] }
  have hfirst : ((highRun (count + 1)).addAnnounced { faces := .range 1 2 }).run {} =
      .ok first { announced := 1, drawn := 1 } := by
    have hrun := run_addAnnounced_highRun (Nat.zero_le (count + 1)) (rfl :
      ({ faces := .range 1 2 } : Die).faces = .range 1 2)
    rwa [if_pos (Nat.succ_pos count)] at hrun
  have hrounds : (highRun (count + 1)).rounds.run { announced := 1, drawn := 1 } =
      .ok (count + 2) { announced := 1, drawn := 1 } := by
    have hrun : (highRun (count + 1)).rounds.run { announced := 1, drawn := 1 } = _ :=
      Table.run_rounds rfl _
    have hleft : (((count + 1 : Nat) : Int) + 1 - 1).toNat + 1 = count + 2 := by omega
    rwa [hleft] at hrun
  have hgrown : ((highRun (count + 1)).compoundDie none 2 (count + 2) first).run
      { announced := 1, drawn := 1 } =
      .ok (first.extended (List.replicate count 2 ++ [1]))
        { announced := count + 2, drawn := count + 2 } :=
    run_compoundDie_highRun (Nat.add_comm 1 count) rfl rfl
  refine ⟨first.extended (List.replicate count 2 ++ [1]), ?_, ?_⟩
  · rw [evaluate_exploding_single, EStateM.run_bind, hfirst]
    simp only [Table.explode_compounding_singleton (rfl : first.faces = .range 1 2) rfl,
      EStateM.run_bind, hrounds, hgrown]
    rfl
  · simp [extended, value, first]
    omega

/-- The three kinds of explosions of the same dice, on the same table.  A penetrating explosion
ends as the regular one does, after the same dice and draws, and the number that it comes to is less
by one for each die that joined.  Behind a single die a compounding explosion yields the same sum as
the regular one after the same dice and draws, or has the same fault; and it comes to the same
number, unless so many dice joined that the sum is too long for the text of the die. -/
theorem explosions_agree (count : WrittenNumber) (faces : WrittenFaces)
    (point : Option WrittenPoint) (table : Table) (markup : Markup) (tally : Tally) :
    let text := fun explosion => (WrittenDice.exploding count faces explosion point).text
    let yielded := fun explosion => (evaluateText table markup (text explosion)).attempt tally
    let ended := fun explosion => (resolve table markup (text explosion)).attempt tally
    let joined := (ended .regular).tally.announced - tally.announced - count.value
    (ended .regular).Agrees (fun regular penetrating =>
        penetrating.kind = regular.kind ∧ Outcome.LessBy joined regular penetrating)
      (ended .penetrating) ∧
    (count.value = 1 →
      (yielded .regular).Agrees (fun regular compounding =>
          (shares compounding.dice).sum = (shares regular.dice).sum)
        (yielded .compounding) ∧
      (ended .regular).tally = (ended .compounding).tally ∧
      Outcome.CompoundsTo (ended .regular).answer (ended .compounding).answer ∧
      ∀ outcome, (ended .regular).answer = .ok outcome → outcome.IsLong →
        10 ^ Numeral.spareDigits ≤ joined) := by
  intro text yielded ended joined
  obtain ⟨n, least, greatest, hn, hleast, hparse⟩ := parse_exploding count faces point
  have hyielded : ∀ explosion, yielded explosion =
      (evaluate table markup (exploding explosion (point.map WrittenPoint.condition) n least
        greatest)).attempt tally := by
    intro explosion
    simp only [yielded, text, evaluateText, hparse]
    rfl
  have hended : ∀ explosion, ended explosion =
      (outcomeOf table markup (exploding explosion (point.map WrittenPoint.condition) n least
        greatest)).attempt tally := by
    intro explosion
    simp only [ended, text, resolve_of_parse (hparse explosion)]
  simp only [joined, hyielded, hended, hn]
  refine ⟨agrees_penetrating hleast tally, fun hone => ?_⟩
  obtain rfl : n = 1 := by exact_mod_cast hone
  have hcompounding := agree_compounding table markup (point.map WrittenPoint.condition) least
    greatest
  refine ⟨(hcompounding.imp ?_).attempt tally, agrees_compounding hleast tally⟩
  rintro _ _ ⟨dice, _, rfl, rfl, grown, rfl, hgrown⟩
  exact hgrown.sum_shares

/-- A die shows `6`, `5` and `4`, and two of the rolls are greater than four. -/
theorem explosions_agree_twice :
    let count : WrittenNumber := .ofNat 1 (by decide)
    let faces : WrittenFaces := .upTo (.ofNat 6 (by decide)) (by decide)
    let point : WrittenPoint := .compared ⟨.greater, .ofInt 4 (by decide)⟩
    let table : Table := {
      source := fun n => some (.ofRat (mkRat (15 - 3 * n : Nat) 16))
      limit := some 3 }
    let text := fun explosion => (WrittenDice.exploding count faces explosion point).text
    let yielded := fun explosion => (evaluateText table .plain (text explosion)).attempt {}
    count.value = 1 ∧ text .regular = "1d6!>4".toList ∧ text .compounding = "1d6!!>4".toList ∧
      text .penetrating = "1d6!p>4".toList ∧
      (yielded .regular).Agrees (fun regular compounding =>
          (shares compounding.dice).sum = (shares regular.dice).sum)
        (yielded .compounding) ∧
      (resolve table .plain (text .regular)).run {} = .ok
        { value := .int 15, text := "([6] + [5] + [4])".toList } { announced := 3, drawn := 3 } ∧
      (resolve table .plain (text .penetrating)).run {} = .ok
        { value := .int 13, text := "([6] + [5-1=4] + [4-1=3])".toList }
        { announced := 3, drawn := 3 } ∧
      (resolve table .plain (text .compounding)).run {} = .ok
        { value := .int 15, text := "[6+5+4=15]".toList } { announced := 3, drawn := 3 } := by
  intro count faces point table text yielded
  have hone : count.value = 1 := WrittenNumber.value_ofNat 1 _
  have hyielded := ((explosions_agree count faces (some point) table .plain {}).2 hone).1
  refine ⟨hone, rfl, rfl, rfl, hyielded, ?_, ?_, ?_⟩
  · decide +kernel
  · decide +kernel
  · decide +kernel

/-- A die with two faces shows the higher one so often, and then the lower one, that no text can
show the sum.  Its regular explosion comes to a number, and its compounding one to none, after the
same dice and draws. -/
theorem compounding_sum_too_long :
    let table := highRun (10 ^ Numeral.digitLimit)
    ∃ outcome later,
      (resolve table .plain "1d2!".toList).run {} = .ok outcome later ∧
      (resolve table .plain "1d2!!".toList).run {} = .error .numeralTooLong later := by
  intro table
  obtain ⟨count, hcount⟩ : ∃ count, 10 ^ Numeral.digitLimit = count + 1 :=
    Nat.exists_eq_add_one_of_ne_zero (Nat.pow_pos (by decide)).ne'
  obtain ⟨grown, hgrown, hvalue⟩ := run_evaluate_highRun count .plain
  let written := fun explosion => WrittenDice.exploding (.ofNat 1 (by decide))
    (.upTo (.ofNat 2 (by decide)) (by decide)) explosion none
  have hparse : ∀ explosion, parse (written explosion).text =
      .ok (some (exploding explosion none 1 1 2)) := fun explosion =>
    parse_of_ofLeaf (written explosion).isLeafPart_text (written explosion).text_ne_nil
      (ofLeaf_written _)
  have hregular : parse "1d2!".toList = .ok (some (exploding .regular none 1 1 2)) :=
    hparse .regular
  have hcompounding : parse "1d2!!".toList = .ok (some (exploding .compounding none 1 1 2)) :=
    hparse .compounding
  have hagree := agree_compounding (highRun (count + 1)) .plain none 1 2 {}
  rw [hgrown] at hagree
  cases hrun : (evaluate (highRun (count + 1)) .plain (exploding .regular none 1 1 2)).run {} with
  | error fault later => simp [hrun] at hagree
  | ok value later =>
      rw [hrun] at hagree
      obtain ⟨⟨dice, _, rfl, ⟨⟩, _, ⟨⟩, hgrownBy⟩, rfl⟩ := hagree
      obtain ⟨text, htotal⟩ : ∃ text, (Value.pool dice).collapse .plain =
          .ok { value := .int (shares dice).sum, text } :=
        Value.collapse_rolledOnce .plain hgrownBy.rolled (by decide) hgrownBy.dice_ne_nil
      have hlong : (Value.pool [grown]).collapse .plain = .error .numeralTooLong := by
        refine Value.collapse_compounding_long hgrownBy ?_
        rw [← hgrownBy.value_eq, hvalue, hcount]
        omega
      simp only [table]
      rw [hcount, resolve_of_parse hregular, resolve_of_parse hcompounding, outcomeOf, outcomeOf,
        EStateM.run_bind, EStateM.run_bind, hrun, hgrown]
      simp only [htotal, hlong]
      exact ⟨_, _, rfl, rfl⟩

end Expression
end DiceNotation

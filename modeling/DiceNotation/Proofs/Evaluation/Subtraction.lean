import DiceNotation.Proofs.Dice.Agreement
import DiceNotation.Proofs.Evaluation.Formula
import DiceNotation.Proofs.Evaluation.Scoring
import DiceNotation.Proofs.Expression.Subtraction

/-!
# Numbers taken from dice and from lists, evaluated

A single pool in curly brackets is that pool, so a suffix makes the same of it as of dice that
stand alone, and a `-` and a number behind either should subtract the number.  It does so behind
dice, whatever is written behind them.  Behind a list it does so if the suffix ends with a digit;
behind a letter the `-` is read as part of the suffix, and nothing is subtracted.

Main definitions:

- `Outcome.SameNumber`, `Outcome.LessBy`: outcomes of one value and kind, and outcomes of which
  one is less by a number.

Main results:

- `Expression.agree_less`: a number that is taken from integers is subtracted.
- `Expression.outcomeOf_on_bracket`: a suffix makes the same of a pool in brackets.
- `Expression.minus_subtracts_iff`: the suffixes behind which a `-` subtracts.
-/

namespace DiceNotation

/-! ## Integers -/

namespace Outcome

/-- Whether an outcome is an integer. -/
def IsInteger (outcome : Outcome) : Prop := ∃ n, outcome.value = .int n

/-- Dice are written as outcomes with integers. -/
theorem isInteger_ofPool {dice : List Die} {markup : Markup} {outcomes : List Outcome}
    (h : ofPool dice markup = .ok outcomes) : ∀ outcome ∈ outcomes, outcome.IsInteger := by
  have hmade := mapM_eq_ok_iff.mp h
  clear h
  induction hmade with
  | nil => simp
  | cons hfirst _ ih =>
      rw [Die.outcome, bind_eq_ok_iff] at hfirst
      obtain ⟨text, -, heq⟩ := hfirst
      cases heq
      exact List.forall_mem_cons.mpr ⟨⟨_, rfl⟩, ih⟩

end Outcome

namespace Score

/-- A score of integers is an integer. -/
theorem isInteger_apply {score : Score} {markup : Markup} {isDie : Bool} {entries : List Outcome}
    (hentries : ∀ entry ∈ entries, entry.IsInteger) {outcome : Outcome}
    (h : score.apply markup isDie entries = .ok outcome) : outcome.IsInteger := by
  obtain ⟨text, htext⟩ := apply_integers hentries score markup isDie (ne_nil_of_apply h)
  rw [h] at htext
  cases htext
  exact ⟨_, rfl⟩

end Score

namespace Expression

variable {table : Table} {markup : Markup}

/-! ## Dice under a suffix -/

/-- What dice yield under a suffix is an integer. -/
theorem isInteger_on {s : ListSuffix} {count least greatest : Int} {tally later : Tally}
    {outcome : Outcome}
    (h : (outcomeOf table markup (s.on (.dice count least greatest))).run tally =
      .ok outcome later) :
    outcome.IsInteger := by
  obtain ⟨value, hvalue, hcollapse⟩ := run_outcomeOf_eq_ok_iff.mp h
  cases s with
  | ofSelection selection =>
      have hpool :
          (Expression.modified selection.modifier (.dice count least greatest)).shape = .pool := by
        cases selection <;> simp [UnsignedSelection.modifier, shape]
      obtain ⟨dice, rfl⟩ := exists_pool_of_run hpool hvalue
      obtain ⟨_, -, -, rfl⟩ := Value.collapse_pool_eq_ok_iff.mp hcollapse
      exact ⟨_, rfl⟩
  | ofScore score =>
      rw [ListSuffix.on, evaluate] at hvalue
      simp only [scoreOf, run_bind_eq_ok_iff, Roll.run_lift_eq_ok_iff] at hvalue
      obtain ⟨_, _, -, value, _, hdice, entries, _, ⟨hentries, -⟩, _, _, ⟨happly, -⟩, heq⟩ := hvalue
      cases heq
      cases hcollapse
      obtain ⟨dice, rfl⟩ := exists_pool_of_run rfl hdice
      exact Score.isInteger_apply (Outcome.isInteger_ofPool hentries) happly

variable (table markup) in
/-- A pool in brackets is the pool. -/
theorem evaluate_bracket_dice (count least greatest : Int) :
    evaluate table markup (.bracket (.dice count least greatest)) =
      evaluate table markup (.dice count least greatest) := by
  simp [evaluate, rollAnnounced, Value.bracketed, -bind_pure_comp]

/-- A suffix makes the same of a pool in brackets. -/
theorem outcomeOf_on_bracket (s : ListSuffix) (count least greatest : Int) :
    outcomeOf table markup (s.on (.bracket (.dice count least greatest))) =
      outcomeOf table markup (s.on (.dice count least greatest)) := by
  have hbracket := evaluate_bracket_dice table markup count least greatest
  cases s with
  | ofSelection selection =>
      have hdemand : ∀ operand : Expression, operand.shape = .pool →
          demand (.modified selection.modifier operand) operand = .ok () := by
        intro operand hshape
        cases selection <;> simp [demand, accepts, UnsignedSelection.modifier, hshape]
      unfold outcomeOf ListSuffix.on
      rw [evaluate, evaluate, hbracket, hdemand _ (by simp [shape]),
        hdemand _ (by simp [shape])]
  | ofScore score =>
      have hdemand : ∀ operand : Expression, operand.shape = .pool →
          demand (.scored score.score operand) operand = .ok () := by
        intro operand hshape
        simp [demand, accepts, hshape]
      unfold outcomeOf ListSuffix.on
      rw [evaluate, evaluate, hbracket, hdemand _ (by simp [shape]),
        hdemand _ (by simp [shape]), shape_bracket]

end Expression

/-! ## Differences -/

namespace Outcome

/-- Whether two outcomes have one value and one kind. -/
structure SameNumber (a b : Outcome) : Prop where
  value : a.value = b.value
  kind : a.kind = b.kind

/-- Whether an outcome is a plain integer, less by a number than another. -/
def LessBy (n : Int) (whole rest : Outcome) : Prop :=
  ∃ m, whole.value = .int m ∧ rest.value = .int (m - n) ∧ rest.kind = .plain

end Outcome

namespace Roll

/-- Whether a run succeeds. -/
def succeeds {α : Type} (x : Roll α) (tally : Tally) : Bool :=
  match x.run tally with
  | .ok .. => true
  | .error .. => false

/-- Of two computations that agree, both succeed or none. -/
theorem Agree.succeeds_eq {α β : Type} {R : α → β → Prop} {x : Roll α} {y : Roll β}
    (h : Agree R x y) (tally : Tally) : x.succeeds tally = y.succeeds tally := by
  have hrun := h tally
  unfold succeeds
  revert hrun
  cases x.run tally <;> cases y.run tally <;> simp

/-- Two computations that agree with a third agree as their results do. -/
theorem Agree.of_common {α β γ : Type} {R : α → β → Prop} {S : α → γ → Prop} {T : β → γ → Prop}
    {x : Roll α} {y : Roll β} {z : Roll γ} (hy : Agree R x y) (hz : Agree S x z)
    (hT : ∀ a b c, R a b → S a c → T b c) : Agree T y z := by
  intro tally
  have hy := hy tally
  have hz := hz tally
  revert hy hz
  cases x.run tally <;> cases y.run tally <;> cases z.run tally
  · rintro ⟨hR, rfl⟩ ⟨hS, rfl⟩
    exact ⟨hT _ _ _ hR hS, rfl⟩
  · exact fun _ => False.elim
  · exact False.elim
  · exact fun _ => False.elim
  · exact fun _ => False.elim
  · exact False.elim
  · exact fun _ => False.elim
  · rintro ⟨rfl, rfl⟩ ⟨rfl, rfl⟩
    exact ⟨rfl, rfl⟩

end Roll

/-- What is less by the same number is the same number. -/
theorem Outcome.LessBy.sameNumber {n : Int} {whole a b : Outcome} (ha : LessBy n whole a)
    (hb : LessBy n whole b) : SameNumber a b := by
  obtain ⟨m, hm, hvalue, hkind⟩ := ha
  obtain ⟨m', hm', hvalue', hkind'⟩ := hb
  obtain rfl : m = m' := by simpa using hm.symm.trans hm'
  exact ⟨hvalue.trans hvalue'.symm, hkind.trans hkind'.symm⟩

namespace Expression

/-- A text that is read as an expression has the outcome of the expression. -/
theorem resolve_of_parse {text : Text} {e : Expression} (h : parse text = .ok (some e)) :
    resolve table markup text = outcomeOf table markup e := by
  rw [resolve, h]
  rfl

/-- A number that is taken from integers is subtracted. -/
theorem agree_less {e : Expression}
    (h : ∀ tally later outcome, (outcomeOf table markup e).run tally = .ok outcome later →
      outcome.IsInteger) (number : WrittenNumber) :
    Roll.Agree (Outcome.LessBy number.value) (outcomeOf table markup e)
      (outcomeOf table markup
        (.binary .subtract e (.number (.int number.value) (Numeral.ofInt number.value)))) := by
  intro tally
  rw [outcomeOf_binary (by simp [shape]), EStateM.run_bind]
  cases hrun : (outcomeOf table markup e).run tally with
  | error fault later => exact ⟨rfl, rfl⟩
  | ok outcome later =>
      obtain ⟨m, hm⟩ := h tally later outcome hrun
      have hplain : outcome.kind.shared .plain = .plain := by cases outcome.kind <;> rfl
      simp [run_outcomeOf_number number.write_value, BinaryOp.outcome, hm, hplain, Outcome.LessBy]

variable (table markup) in
/-- What is taken from dice is subtracted. -/
theorem agree_dice_less (count sides number : WrittenNumber) (positive : 1 ≤ sides.value)
    {s : ListSuffix} (hstart : ¬ s.StartsWithDigit) :
    Roll.Agree (Outcome.LessBy number.value)
      (outcomeOf table markup (s.on (.dice count.value 1 sides.value)))
      (resolve table markup ((diceText count sides ++ s.text).less number.text)) := by
  rw [resolve_of_parse (parse_dice_less count sides number positive hstart)]
  exact agree_less (fun _ _ _ => isInteger_on) number

variable (table markup) in
/-- So is what is taken from a list under a suffix that ends with a digit. -/
theorem agree_listOf_less (count sides number : WrittenNumber) (positive : 1 ≤ sides.value)
    {s : ListSuffix} (hend : s.EndsWithDigit) :
    Roll.Agree (Outcome.LessBy number.value)
      (outcomeOf table markup (s.on (.dice count.value 1 sides.value)))
      (resolve table markup ((Text.listOf [diceText count sides] ++ s.text).less number.text)) := by
  rw [resolve_of_parse (parse_listOf_less count sides number positive hend), ← outcomeOf_on_bracket]
  refine agree_less ?_ number
  rw [outcomeOf_on_bracket]
  exact fun _ _ _ => isInteger_on

end Expression

/-! ## Suffixes behind which nothing is subtracted -/

namespace WrittenNumber

/-- One may be written with as many digits as are read. -/
theorem exists_longOne : ∃ n : WrittenNumber, n.value = 1 ∧ n.text.length = Numeral.digitLimit := by
  have hvalue : ∀ zeros : Nat, Nat.ofDigitChars 10 (List.replicate zeros '0' ++ ['1']) 0 = 1 := by
    intro zeros
    induction zeros with
    | zero => rfl
    | succ zeros ih => simpa [List.replicate_succ, Nat.ofDigitChars_cons] using ih
  obtain ⟨zeros, hzeros⟩ : ∃ zeros, zeros + 1 = Numeral.digitLimit := ⟨4299, rfl⟩
  have hlength : (List.replicate zeros '0' ++ ['1']).length = Numeral.digitLimit := by simpa
  have hdigits : ∀ c ∈ List.replicate zeros '0' ++ ['1'], c.isDigit = true := by
    refine List.forall_mem_append.mpr ⟨fun c hc => ?_, List.all_eq_true.mp rfl⟩
    rw [List.eq_of_mem_replicate hc]
    rfl
  obtain ⟨hliteral, htext, hsigned⟩ := Leaf.isLiteral_of_digits (by simp) hdigits
  refine ⟨⟨⟨_, hliteral, by rw [htext, hlength]⟩, hsigned⟩, ?_, hlength⟩
  rw [WrittenInteger.value, Numeral.value, hsigned, htext, hvalue]
  rfl

end WrittenNumber

namespace Expression

/-- Behind a letter that ends the suffix of a list, a `-` does not subtract. -/
theorem succeeds_of_letter {s : ListSuffix}
    (h : (∃ keep highest, s = .ofSelection (.extreme keep highest none)) ∨
      ∃ counted, s = .ofScore (.groups counted)) :
    (resolve halves .plain
      ((Text.listOf [['1', 'd', '6']] ++ s.text).less ['1'])).succeeds {} = false ∧
    (resolve halves .plain (Text.less (['1', 'd', '6'] ++ s.text) ['1'])).succeeds {} = true := by
  rcases h with ⟨keep, highest, rfl⟩ | ⟨counted, rfl⟩
  · cases keep <;> cases highest <;> exact ⟨rfl, by with_unfolding_all rfl⟩
  · cases counted <;> exact ⟨rfl, by with_unfolding_all rfl⟩

/-- One die that counts what it may has an outcome. -/
theorem succeeds_successes (success : Condition) (failure : Option Condition) :
    (outcomeOf halves .plain (.scored (.successes success failure) (.dice 1 1 1))).succeeds {} =
      true := by
  have hdice : (evaluate halves .plain (.dice 1 1 1)).run {} =
      .ok (.pool [{ faces := .range 1 1, rolls := [1] }]) { announced := 1, drawn := 1 } := by
    with_unfolding_all rfl
  have hentries : Outcome.ofPool [{ faces := .range 1 1, rolls := [1] }] .plain =
      .ok [{ value := .int 1, text := ['[', '1', ']'] }] := rfl
  have hdemand :
      demand (.scored (.successes success failure) (.dice 1 1 1)) (.dice 1 1 1) = .ok () := by
    simp [demand, accepts, shape]
  unfold Roll.succeeds outcomeOf
  rw [evaluate, hdemand]
  simp [hdice, scoreOf, Value.entries, hentries, Score.apply, Score.counting]

/-- Digits behind the sides of a die are more of them, and too many if the sides are long; behind a
list they are not. -/
theorem succeeds_of_startsWithDigit {s : ListSuffix} (hstart : s.StartsWithDigit)
    (hend : s.EndsWithDigit) {count sides : WrittenNumber} (hcount : count.value = 1)
    (hsides : sides.value = 1) (hlong : sides.text.length = Numeral.digitLimit)
    (number : WrittenNumber) :
    (resolve halves .plain
      ((Text.listOf [diceText count sides] ++ s.text).less number.text)).succeeds {} = true ∧
    (resolve halves .plain ((diceText count sides ++ s.text).less number.text)).succeeds {} =
      false := by
  have hagree := agree_listOf_less halves .plain count sides number (Int.le_of_eq hsides.symm) hend
  constructor
  · obtain ⟨target, failure, rfl⟩ := ListSuffix.exists_target hstart
    rw [← hagree.succeeds_eq, hcount, hsides]
    exact succeeds_successes _ _
  · rw [Roll.succeeds, resolve, parse_diceText_less, ofLeaf_tooLong count sides hlong hstart]
    rfl

/-- Where a `-` and a number stand behind dice in curly brackets with a suffix, and behind the same
dice and suffix without brackets, either both texts fail with one fault or both have one value and
kind on the same draws, and the number is subtracted.  So it is for all numbers and on every table
exactly if the suffix ends with a digit and does not begin with one. -/
theorem minus_subtracts_iff (s : ListSuffix) :
    (∀ count sides number : WrittenNumber, 1 ≤ sides.value → ∀ (table : Table) (markup : Markup),
      Roll.Agree Outcome.SameNumber
        (resolve table markup ((Text.listOf [diceText count sides] ++ s.text).less number.text))
        (resolve table markup ((diceText count sides ++ s.text).less number.text)) ∧
      Roll.Agree (Outcome.LessBy number.value)
        (resolve table markup (diceText count sides ++ s.text))
        (resolve table markup ((diceText count sides ++ s.text).less number.text))) ↔
      s.EndsWithDigit ∧ ¬ s.StartsWithDigit := by
  constructor
  · intro h
    have hend : s.EndsWithDigit := by
      refine s.endsWithDigit_or.resolve_right fun hletter => ?_
      have hagree := (h (.ofNat 1 (by decide)) (.ofNat 6 (by decide)) (.ofNat 1 (by decide))
        (by decide) halves .plain).1
      obtain ⟨hlist, hdice⟩ := succeeds_of_letter hletter
      have hsucceeds : false = true := hlist.symm.trans ((hagree.succeeds_eq {}).trans hdice)
      contradiction
    refine ⟨hend, fun hstart => ?_⟩
    obtain ⟨sides, hsides, hlong⟩ := WrittenNumber.exists_longOne
    have hagree := (h (.ofNat 1 (by decide)) sides (.ofNat 1 (by decide))
      (Int.le_of_eq hsides.symm) halves .plain).1
    obtain ⟨hlist, hdice⟩ := succeeds_of_startsWithDigit hstart hend
      (WrittenNumber.value_ofNat 1 (by decide)) hsides hlong (.ofNat 1 (by decide))
    have hsucceeds : true = false := hlist.symm.trans ((hagree.succeeds_eq {}).trans hdice)
    contradiction
  · rintro ⟨hend, hstart⟩ count sides number positive table markup
    have hdice := agree_dice_less table markup count sides number positive hstart
    refine ⟨(agree_listOf_less table markup count sides number positive hend).of_common hdice
      fun _ _ _ => Outcome.LessBy.sameNumber, ?_⟩
    rwa [resolve_of_parse (parse_dice count sides positive hstart)]

/-- Behind `>3`, which ends with a digit, one is subtracted. -/
theorem minus_subtracts_above :
    Roll.Agree Outcome.SameNumber (resolve halves .plain "\x7b4d6\x7d>3-1".toList)
        (resolve halves .plain "4d6>3-1".toList) ∧
      (resolve halves .plain "4d6>3".toList).succeeds {} = true ∧
      Roll.Agree (Outcome.LessBy 1) (resolve halves .plain "4d6>3".toList)
        (resolve halves .plain "4d6>3-1".toList) := by
  have hsubtracts := (minus_subtracts_iff
    (.ofScore (.successes ⟨some .greater, .ofNat 3 (by decide)⟩ none))).mpr
    ⟨⟨'3', rfl, rfl⟩, by rintro ⟨c, ⟨⟩, hdigit⟩; simp [Comparison.mark] at hdigit⟩
    (.ofNat 4 (by decide)) (.ofNat 6 (by decide)) (.ofNat 1 (by decide)) (by decide) halves .plain
  exact ⟨hsubtracts.1, by with_unfolding_all rfl, hsubtracts.2⟩

/-- Behind `m` and `kh` the `-` is read as part of the suffix, and what stands in curly brackets is
no expression, where the same dice without brackets have an outcome. -/
theorem minus_behind_letter :
    (resolve halves .plain "\x7b4d6\x7dm-1".toList).run {} =
        .error (.malformed (.unexpectedCharacter '-') (some 1)) {} ∧
      (resolve halves .plain "4d6m-1".toList).run {} = .ok
        { value := .int 15
          text := "([4] + [4] + [4] + [4]) - 1".toList } { announced := 4, drawn := 4 } ∧
      (resolve halves .plain "\x7b4d6\x7dkh-1".toList).run {} =
        .error (.malformed .negativeSelection (some 3)) {} ∧
      (resolve halves .plain "4d6kh-1".toList).succeeds {} = true := by
  refine ⟨rfl, ?_, rfl, ?_⟩ <;> with_unfolding_all rfl

end Expression
end DiceNotation

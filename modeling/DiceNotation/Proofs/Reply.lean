import DiceNotation.Proofs.Evaluation.Safety
import DiceNotation.Reply

/-!
# Failures of replies

A reply turns the faults that are the user's into messages.  What is left are numbers out of
range where no arithmetic was asked for: a numeral that is too long, or an integer too large
to be drawn from or added up as a binary64 number.

Main results:

- `Reply.ends_receipt`: how the receipt of a roll ends.
- `Reply.message_error_iff`: exactly the faults of the receipt that are numbers out of range
  remain faults of the message.
-/

namespace DiceNotation

/-- The number of an outcome can be shown, unless it is too long. -/
theorem Outcome.gives_render (outcome : Outcome) :
    Gives outcome.render (fun _ => True) Fault.IsOfNumbers := by
  have hplain : ∀ value : Number, Gives value.plainText (fun _ => True) Fault.IsOfNumbers := by
    intro value
    cases value with
    | int n => exact Numeral.gives_write n
    | real x =>
        rw [Number.plainText]
        split
        · split
          · exact Numeral.gives_write _
          · trivial
        · trivial
  unfold render
  exact (hplain _).bind fun _ _ _ => trivial

namespace Fault

/-- The faults that are foreseen and not the user's are numbers out of range. -/
theorem IsForeseen.report?_eq_none_iff {fault : Fault} (h : fault.IsForeseen) :
    fault.report? = none ↔ fault = .numeralTooLong ∨ fault = .unguarded .tooLarge := by
  cases fault with
  | unguarded cause =>
      cases cause with
      | tooLarge => simp [report?]
      | _ => exact h.elim
  | malformed | impossible | overBudget | numeralTooLong => simp [report?]
  | _ => exact h.elim

end Fault

namespace Reply

/-- A receipt ends in a fault of the user's or in a number out of range, if it does not
succeed. -/
theorem ends_receipt (settings : Settings) {source : Source} (hsource : source.IsUnit)
    (text : Text) (tally : Tally) :
    Ends (receipt settings source text) tally (fun _ _ => True)
      fun fault _ => fault.IsForeseen := by
  unfold receipt
  refine (Expression.ends_resolve .markdown hsource rfl text tally).bind ?_
  intro outcome later _
  rw [ends_bind, Roll.lift, ends_ofExcept]
  exact outcome.gives_render.imp (fun _ _ _ => trivial) fun _ h => h.isForeseen

/-- Only a fault without a report passes through the body of a message. -/
theorem body_error_iff (settings : Settings) (source : Source) (text : Text) (tally tally' : Tally)
    (fault : Fault) :
    (body settings source text).run tally = .error fault tally' ↔
      (receipt settings source text).run tally = .error fault tally' ∧ fault.report? = none := by
  rw [EStateM.run, body, EStateM.run]
  cases hreceipt : receipt settings source text tally with
  | ok receipt later => simp
  | error other later =>
      dsimp only
      cases hreport : other.report? with
      | some report =>
          simp only [reduceCtorEq, false_iff, not_and, EStateM.Result.error.injEq]
          rintro ⟨rfl, -⟩
          simp [hreport]
      | none =>
          simp only [EStateM.Result.error.injEq, iff_self_and, and_imp]
          rintro rfl -
          exact hreport

/-- A message fails exactly where its receipt meets a numeral that is too long or an integer
that is too large outside of all arithmetic of the text, and with the same fault. -/
theorem message_error_iff (settings : Settings) {source : Source} (hsource : source.IsUnit)
    (command text : Text) (tally tally' : Tally) (fault : Fault) :
    (message settings source command text).run tally = .error fault tally' ↔
      (receipt settings source text).run tally = .error fault tally' ∧
        (fault = .numeralTooLong ∨ fault = .unguarded .tooLarge) := by
  have hbody : (message settings source command text).run tally = .error fault tally' ↔
      (body settings source text).run tally = .error fault tally' := by
    unfold message fullMessage
    rw [EStateM.run_bind, EStateM.run_bind]
    cases (body settings source text).run tally <;> simp
  rw [hbody, body_error_iff]
  refine and_congr_right fun hreceipt => ?_
  have hends := ends_receipt settings hsource text tally
  unfold Ends at hends
  rw [hreceipt] at hends
  exact hends.report?_eq_none_iff

/-- A source on which every draw is one half. -/
def steadySource : Source := fun _ => some Number.half

theorem isUnit_steadySource : steadySource.IsUnit :=
  fun _ => ⟨Number.half, 1 / 2, rfl, by decide +kernel, by decide +kernel, by decide +kernel⟩

/-- A list of one and a half and a power of two has no receipt, as it is added up outside of
all arithmetic of its text. -/
theorem receipt_list_fails :
    steadySource.IsUnit ∧
      (receipt {} steadySource "\x7b1.5,2^1024\x7d".toList).run {} =
        .error (.unguarded .tooLarge) {} ∧
      (Fault.unguarded .tooLarge = .numeralTooLong ∨
        Fault.unguarded .tooLarge = .unguarded .tooLarge) :=
  ⟨isUnit_steadySource, (message_error_iff {} isUnit_steadySource "roll".toList
    "\x7b1.5,2^1024\x7d".toList {} {} (.unguarded .tooLarge)).mp (by decide +kernel)⟩

/-- Nor has it a message. -/
theorem message_list_fails :
    steadySource.IsUnit ∧
      (message {} steadySource "roll".toList "\x7b1.5,2^1024\x7d".toList).run {} =
        .error (.unguarded .tooLarge) {} :=
  ⟨isUnit_steadySource, by decide +kernel⟩

end Reply
end DiceNotation

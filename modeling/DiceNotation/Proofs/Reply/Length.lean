import DiceNotation.Proofs.Reply

/-!
# The length of replies

A reply that is too long is cut where an ellipsis still fits.  A limit shorter than the
ellipsis leaves no such place: the cut is then counted from the end of the reply, which takes
off less than the ellipsis adds.

Main results:

- `Reply.length_shorten_le_iff`: a shortened message keeps within a limit exactly if the limit
  has room for the ellipsis or for the message.
- `Reply.length_message_le_iff`: replies keep within their limit exactly if it has room for the
  ellipsis, and a reply that fits is sent as it is.
- `Reply.message_past_limit`: a reply that is longer than its limit.
-/

namespace DiceNotation
namespace Reply

variable {settings : Settings} {source : Source} {command text reply : Text}
  {tally later : Tally}

/-- A message that is too long keeps within the limit if the ellipsis does. -/
theorem length_shorten_le_iff (message : Text) (limit : Int) :
    ((shorten message limit).length : Int) ≤ limit ↔
      3 ≤ limit ∨ (message.length : Int) ≤ limit := by
  by_cases hfits : (message.length : Int) ≤ limit
  · rw [shorten_of_le hfits]
    simp only [hfits, or_true]
  · have hlength : (shorten message limit).length = (message.cutAt (limit - 3)).length + 3 := by
      rw [shorten, if_pos (Int.not_le.mp hfits), List.length_append]
      rfl
    rw [hlength]
    by_cases hroom : 3 ≤ limit
    · obtain ⟨kept, hkept⟩ := Int.eq_ofNat_of_zero_le (Int.sub_nonneg_of_le hroom)
      have hcut : (message.cutAt (limit - 3)).length ≤ kept := by
        rw [hkept, Text.cutAt_natCast]
        exact List.length_take_le ..
      omega
    · omega

/-- The header alone is longer than the ellipsis. -/
theorem lt_length_header (command text : Text) : 3 < (header command text).length := by
  have hmark : "> `/".toList.length = 4 := rfl
  have hfront : "> `/".toList ++ command <+: header command text :=
    ((List.prefix_append ..).trans (List.prefix_append ..)).trans (List.prefix_append ..)
  have hlength := hfront.length_le
  rw [List.length_append, hmark] at hlength
  omega

/-- A reply is the full message, shortened. -/
theorem run_message_eq_ok_iff :
    (message settings source command text).run tally = .ok reply later ↔
      ∃ full, (fullMessage settings source command text).run tally = .ok full later ∧
        shorten full settings.maxLength = reply := by
  simp only [message, run_bind_eq_ok_iff, EStateM.run_pure, EStateM.Result.ok.injEq]
  constructor
  · rintro ⟨full, middle, hfull, hshort, rfl⟩
    exact ⟨full, hfull, hshort⟩
  · rintro ⟨full, hfull, hshort⟩
    exact ⟨full, later, hfull, hshort, rfl⟩

/-- The full message begins with its header. -/
theorem lt_length_fullMessage {full : Text}
    (h : (fullMessage settings source command text).run tally = .ok full later) :
    3 < full.length := by
  simp only [fullMessage, run_bind_eq_ok_iff, EStateM.run_pure, EStateM.Result.ok.injEq] at h
  obtain ⟨body, -, -, rfl, -⟩ := h
  have hheader := lt_length_header command text
  rw [List.length_append]
  omega

/-- A reply is the full message where that fits.  It keeps within the limit exactly if the
limit is no shorter than the ellipsis. -/
theorem length_message_le_iff
    (h : (message settings source command text).run tally = .ok reply later) :
    ∃ full, (fullMessage settings source command text).run tally = .ok full later ∧
      ((full.length : Int) ≤ settings.maxLength → reply = full) ∧
      ((reply.length : Int) ≤ settings.maxLength ↔ 3 ≤ settings.maxLength) := by
  obtain ⟨full, hfull, rfl⟩ := run_message_eq_ok_iff.mp h
  have hlong := lt_length_fullMessage hfull
  refine ⟨full, hfull, shorten_of_le, ?_⟩
  rw [length_shorten_le_iff]
  omega

/-- A limit of twenty characters falls into the header. -/
theorem length_message_le_iff_cut :
    (message { maxLength := 20 } steadySource "roll".toList "1 + 1".toList).run {} =
        .ok "> `/roll input:1+...".toList {} ∧
      ∃ full, (fullMessage { maxLength := 20 } steadySource "roll".toList "1 + 1".toList).run {} =
          .ok full {} ∧
        ((full.length : Int) ≤ 20 → "> `/roll input:1+...".toList = full) ∧
        (("> `/roll input:1+...".toList.length : Int) ≤ 20 ↔ (3 : Int) ≤ 20) := by
  have hreply : (message { maxLength := 20 } steadySource "roll".toList "1 + 1".toList).run {} =
      .ok "> `/roll input:1+...".toList {} := by decide +kernel
  exact ⟨hreply, length_message_le_iff hreply⟩

/-- Where a reply may have no character at all, three are cut from its end, and the ellipsis
takes their place. -/
theorem message_past_limit :
    (message { maxLength := 0 } steadySource "roll".toList "1".toList).run {} =
        .ok "> `/roll input:1`\n**Result: 1**\n>>...".toList {} ∧
      ¬ ("> `/roll input:1`\n**Result: 1**\n>>...".toList.length : Int) ≤ 0 :=
  ⟨by decide +kernel, by decide⟩

end Reply
end DiceNotation

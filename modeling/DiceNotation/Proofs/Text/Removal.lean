import DiceNotation.Text.Basic
import Mathlib.Data.List.Infix

/-!
# Removing a mark

One pass from the left removes every occurrence of a mark from a text.  What stood on either
side of an occurrence may close up to a new one, as `aabb` does where `ab` is removed; but a
mark that is a run of one character leaves less than a mark of each longer run, with other
characters on either side of what is left.

Main results:

- `Text.mark_induction`: a text is read mark by mark, and character by character elsewhere.
- `Text.exists_parts`: what is left is what stood before, between and behind the marks.
- `Text.not_infix_without_run`: no run is left where runs are removed.
- `Text.without_append_run`: a run at the end is removed whatever it is joined to.
-/

namespace DiceNotation
namespace Text

variable {mark text : Text}

/-! ## Reading mark by mark -/

/-- Characters that belong to an occurrence already met are passed over. -/
theorem withoutFrom_append (mark met rest : Text) :
    withoutFrom mark met.length (met ++ rest) = without rest mark := by
  induction met with
  | nil => rfl
  | cons c met ih => simpa [withoutFrom] using ih

/-- A mark at the front is removed. -/
theorem without_append (hmark : mark ≠ []) (rest : Text) :
    without (mark ++ rest) mark = without rest mark := by
  obtain ⟨c, others, rfl⟩ := List.exists_cons_of_ne_nil hmark
  have hfront : (c :: others).isPrefixOf (c :: (others ++ rest)) = true :=
    List.isPrefixOf_iff_prefix.mpr (List.prefix_append (c :: others) rest)
  rw [without, List.cons_append, withoutFrom, if_pos hfront, List.length_cons,
    Nat.add_sub_cancel, withoutFrom_append]

/-- Where no mark begins, the character stays. -/
theorem without_cons {c : Char} {rest : Text} (h : ¬ mark <+: c :: rest) :
    without (c :: rest) mark = c :: without rest mark := by
  rw [without, withoutFrom, if_neg (mt List.isPrefixOf_iff_prefix.mp h), without]

/-- No mark begins with another character than its first. -/
theorem without_cons_of_ne {first c : Char} {others rest : Text} (h : first ≠ c) :
    without (c :: rest) (first :: others) = c :: without rest (first :: others) :=
  without_cons fun hfront => h (List.cons_prefix_cons.mp hfront).1

/-- A text is read from the left, by whole marks where there are any. -/
@[elab_as_elim]
theorem mark_induction (hmark : mark ≠ []) {motive : Text → Prop} (nil : motive [])
    (marked : ∀ rest, motive rest → motive (mark ++ rest))
    (plain : ∀ c rest, ¬ mark <+: c :: rest → motive rest → motive (c :: rest))
    (text : Text) : motive text := by
  have hlength : 0 < mark.length := List.length_pos_iff.mpr hmark
  induction hn : text.length using Nat.strong_induction_on generalizing text with
  | _ n ih =>
      cases text with
      | nil => exact nil
      | cons c rest =>
          by_cases hfront : mark <+: c :: rest
          · obtain ⟨others, hothers⟩ := hfront
            have hshorter : others.length < n := by
              rw [← hn, ← hothers, List.length_append]
              omega
            rw [← hothers]
            exact marked others (ih others.length hshorter others rfl)
          · exact plain c rest hfront (ih rest.length (by simp [← hn]) rest rfl)

/-- A text without any mark loses nothing. -/
theorem without_eq_self (h : ¬ mark <:+: text) : without text mark = text := by
  induction text with
  | nil => rfl
  | cons c rest ih =>
      rw [List.infix_cons_iff, not_or] at h
      rw [without_cons h.1, ih h.2]

/-- What is left of a text are its parts before, between and behind marks. -/
theorem exists_parts (hmark : mark ≠ []) (text : Text) :
    ∃ parts, parts ≠ [] ∧ joinedBy mark parts = text ∧ parts.flatten = without text mark := by
  induction text using mark_induction hmark with
  | nil => exact ⟨[[]], by simp, rfl, rfl⟩
  | marked rest ih =>
      obtain ⟨parts, hne, hjoined, hflat⟩ := ih
      obtain ⟨part, others, rfl⟩ := List.exists_cons_of_ne_nil hne
      exact ⟨[] :: part :: others, by simp, by simp [joinedBy, hjoined],
        by simpa [without_append hmark] using hflat⟩
  | plain c rest hnot ih =>
      obtain ⟨parts, hne, hjoined, hflat⟩ := ih
      obtain ⟨part, others, rfl⟩ := List.exists_cons_of_ne_nil hne
      refine ⟨(c :: part) :: others, by simp, ?_, ?_⟩
      · rw [← hjoined]
        cases others <;> simp [joinedBy]
      · simpa [without_cons hnot] using hflat

/-- A text less a mark of one character. -/
theorem without_singleton (text : Text) (c : Char) : text.without [c] = text.filter (· ≠ c) := by
  induction text using mark_induction (List.cons_ne_nil c []) with
  | nil => rfl
  | marked rest ih =>
      rw [without_append (List.cons_ne_nil c []), ih]
      simp
  | plain d rest hnot ih =>
      have hd : d ≠ c := by
        rintro rfl
        exact hnot (List.prefix_append [d] rest)
      rw [without_cons hnot, ih]
      simp [hd]

/-! ## Runs of one character -/

section Runs

variable {c : Char} {n : Nat}

/-- Removing runs makes no run at the front longer that is shorter than they are. -/
theorem prefix_of_prefix_without {length : Nat} (hlength : length ≤ n)
    (h : List.replicate length c <+: without text (List.replicate n c)) :
    List.replicate length c <+: text := by
  induction text generalizing length with
  | nil => exact h
  | cons d rest ih =>
      by_cases hfront : List.replicate n c <+: d :: rest
      · have hwithin : List.replicate length c <+: List.replicate n c :=
          List.prefix_replicate_iff.mpr ⟨by simpa using hlength, by simp⟩
        exact hwithin.trans hfront
      · rw [without_cons hfront] at h
        cases length with
        | zero => exact List.nil_prefix
        | succ shorter =>
            rw [List.replicate_succ, List.cons_prefix_cons] at h ⊢
            exact ⟨h.1, ih (by omega) h.2⟩

/-- Where runs are removed, what is left holds no such run. -/
theorem not_infix_without_run (hn : 0 < n) (text : Text) :
    ¬ List.replicate n c <:+: without text (List.replicate n c) := by
  have hmark : List.replicate n c ≠ [] := mt (List.replicate_eq_nil_iff c).mp hn.ne'
  induction text using mark_induction hmark with
  | nil => simpa [without_nil] using hmark
  | marked rest ih => rwa [without_append hmark]
  | plain d rest hnot ih =>
      intro h
      have hkept := h
      rw [without_cons hnot, List.infix_cons_iff] at hkept
      rcases hkept with hfront | hbehind
      · rw [← without_cons hnot] at hfront
        exact hnot (prefix_of_prefix_without le_rfl hfront)
      · exact ih hbehind

/-- A run at the end is removed whatever it is joined to: with shorter runs before it, the
one that is met first leaves as much as was there. -/
theorem without_append_run (hn : 0 < n) (text : Text) :
    without (text ++ List.replicate n c) (List.replicate n c) =
      without text (List.replicate n c) := by
  have hmark : List.replicate n c ≠ [] := mt (List.replicate_eq_nil_iff c).mp hn.ne'
  induction text using mark_induction hmark with
  | nil => simpa using without_append hmark []
  | marked rest ih => rw [List.append_assoc, without_append hmark, without_append hmark, ih]
  | plain d rest hnot ih =>
      by_cases hfront : List.replicate n c <+: d :: rest ++ List.replicate n c
      · have htext : d :: rest <+: d :: rest ++ List.replicate n c := List.prefix_append ..
        have hshort : (d :: rest).length ≤ (List.replicate n c).length := by
          refine le_of_not_ge fun hlong => hnot ?_
          exact List.prefix_of_prefix_length_le hfront htext hlong
        have hrun : d :: rest = List.replicate (d :: rest).length c :=
          (List.prefix_replicate_iff.mp
            (List.prefix_of_prefix_length_le htext hfront hshort)).2
        have hswap : d :: rest ++ List.replicate n c = List.replicate n c ++ (d :: rest) := by
          rw [hrun, List.replicate_append_replicate, List.replicate_append_replicate,
            Nat.add_comm]
        rw [hswap, without_append hmark]
      · rw [List.cons_append] at hfront ⊢
        rw [without_cons hfront, ih, without_cons hnot]

end Runs

end Text
end DiceNotation

import DiceNotation.Text.Standard

/-!
# Words

Letters are lowered word by word, and a bracket ends a word.  So text on either side of a
bracket is brought into standard form on its own.

Main definitions:

- `Text.endsWord`: the characters that end a word and are lower case themselves.

Main results:

- `Text.lowerCase_append_cons`: everything about parts in lower case follows from this.
- `Text.standardize_append_cons`: the parts of a text are standardized one by one.
-/

namespace DiceNotation
namespace Text

/-- A character that ends a word, and stays as it is in lower case. -/
def endsWord (c : Char) : Bool :=
  !inRanges caseIgnorableRanges c.toNat && !inRanges casedRanges c.toNat &&
    c != capitalSigma && lowerChar c == [c]

section Words

variable {c : Char} {before older s t : Text}

/-! ## Looking past the end of a word -/

/-- Looking for a cased character never goes past the end of a word. -/
theorem beginsCased_append_cons (hc : endsWord c = true) :
    beginsCased (s ++ c :: t) = beginsCased s := by
  simp only [endsWord, Bool.and_eq_true, Bool.not_eq_true'] at hc
  obtain ⟨⟨⟨hignorable, hcased⟩, -⟩, -⟩ := hc
  induction s with
  | nil => simp [beginsCased, hignorable, hcased]
  | cons d rest ih =>
      by_cases hd : inRanges caseIgnorableRanges d.toNat = true
      · simpa [beginsCased, hd] using ih
      · simp [beginsCased, hd]

/-- What follows the end of a word has no bearing on what stands before it. -/
theorem lowerAfter_append_cons (hc : endsWord c = true) :
    lowerAfter before (s ++ c :: t) =
      lowerAfter before s ++ c :: lowerAfter (c :: s.reverse ++ before) t := by
  induction s generalizing before with
  | nil =>
      simp only [endsWord, Bool.and_eq_true, bne_iff_ne, beq_iff_eq] at hc
      obtain ⟨⟨-, hsigma⟩, hlower⟩ := hc
      simp [lowerAfter, hsigma, hlower]
  | cons d rest ih =>
      have hlook : lowerSigma before (rest ++ c :: t) = lowerSigma before rest := by
        rw [lowerSigma, lowerSigma, beginsCased_append_cons hc]
      rw [List.cons_append, lowerAfter, lowerAfter, ih, hlook]
      simp

/-- What stands before the end of a word has no bearing on what follows it. -/
theorem lowerAfter_older (hc : endsWord c = true) :
    lowerAfter (before ++ c :: older) t = lowerAfter before t := by
  induction t generalizing before with
  | nil => rfl
  | cons d rest ih =>
      have hlook : lowerSigma (before ++ c :: older) rest = lowerSigma before rest := by
        rw [lowerSigma, lowerSigma, beginsCased_append_cons hc]
      rw [lowerAfter, lowerAfter, hlook, ← List.cons_append, ih]

/-! ## Parts -/

/-- A text in lower case is its parts in lower case, cut where words end. -/
theorem lowerCase_append_cons (hc : endsWord c = true) :
    lowerCase (s ++ c :: t) = lowerCase s ++ c :: lowerCase t := by
  have hafter : lowerAfter (c :: (s.reverse ++ [])) t = lowerAfter [] t := by
    rw [← List.nil_append (c :: (s.reverse ++ [])), lowerAfter_older hc]
  rw [lowerCase, lowerAfter_append_cons hc, List.cons_append, hafter, lowerCase, lowerCase]

/-- The standard form of a text is that of its parts, cut where words end. -/
theorem standardize_append_cons (hc : endsWord c = true) (hblank : isBlank c = false) :
    standardize (s ++ c :: t) = standardize s ++ c :: standardize t := by
  have hunspaced : unspaced (s ++ c :: t) = unspaced s ++ c :: unspaced t := by
    simp [unspaced, hblank]
  rw [standardize, hunspaced, lowerCase_append_cons hc, standardize, standardize]

/-- Brackets and commas end any word. -/
theorem standardize_append_bracket (hc : c ∈ ['(', ')', '\x7b', ',', '\x7d']) :
    standardize (s ++ c :: t) = standardize s ++ c :: standardize t := by
  have hends : ['(', ')', '\x7b', ',', '\x7d'].all (fun c => endsWord c && !isBlank c) = true := by
    decide +kernel
  have hboth := List.all_eq_true.mp hends c hc
  simp only [Bool.and_eq_true, Bool.not_eq_true'] at hboth
  exact standardize_append_cons hboth.1 hboth.2

/-- The standard form is taken on either side of a bracket that opens. -/
theorem standardize_append_openBracket :
    standardize (s ++ '(' :: t) = standardize s ++ '(' :: standardize t :=
  standardize_append_bracket (by simp)

/-- So it is for a bracket that closes. -/
theorem standardize_append_closeBracket :
    standardize (s ++ ')' :: t) = standardize s ++ ')' :: standardize t :=
  standardize_append_bracket (by simp)

/-! ## Texts in standard form -/

/-- A character that standard form leaves alone, wherever it stands. -/
def isStandard (c : Char) : Bool :=
  !isBlank c && c != capitalSigma && lowerChar c == [c]

/-- A text in standard form is in lower case. -/
theorem lowerAfter_of_isStandard (h : ∀ c ∈ t, isStandard c = true) : lowerAfter before t = t := by
  induction t generalizing before with
  | nil => rfl
  | cons c rest ih =>
      obtain ⟨hc, hrest⟩ := List.forall_mem_cons.mp h
      simp only [isStandard, Bool.and_eq_true, bne_iff_ne, beq_iff_eq] at hc
      rw [lowerAfter, if_neg hc.1.2, hc.2, ih hrest, List.singleton_append]

/-- A text of such characters is in standard form. -/
theorem standardize_of_isStandard (h : ∀ c ∈ t, isStandard c = true) : standardize t = t := by
  have hunspaced : unspaced t = t := by
    refine List.filter_eq_self.mpr fun c hc => ?_
    have hstandard := h c hc
    simp only [isStandard, Bool.and_eq_true] at hstandard
    exact hstandard.1.1
  rw [standardize, hunspaced, lowerCase, lowerAfter_of_isStandard h]

end Words
end Text
end DiceNotation

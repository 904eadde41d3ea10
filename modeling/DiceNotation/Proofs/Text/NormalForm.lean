import DiceNotation.Evaluation.Basic
import DiceNotation.Proofs.Text.Words
import Mathlib.Data.Nat.Bitwise

/-!
# Normal form

Standard form takes the blanks out of a text and lowers its letters.  That nothing is left to
do a second time rests on the whole table of letters: no lower-case partner may be blank, or
have a partner of its own.

Main definitions:

- `Text.partnerCodes`, `Text.unstableCodes`: what standard form puts in, and what it takes out.
- `Text.Respaced`: texts that differ only in where blanks stand.

Main results:

- `Text.isStandard_of_mem_standardize`: standard form leaves nothing to be removed or lowered.
- `Text.standardize_eq_self_iff`: what texts are in standard form.
- `Expression.standard_form_normal`: standard form is a normal form, and a text is rolled as
  its standard form is.
-/

namespace DiceNotation
namespace Text

/-! ## Sets of code points -/

/-- The code points of a list as the bits of one number. -/
def codeSet (codes : List Nat) : Nat := codes.foldr (fun code set => 2 ^ code ||| set) 0

/-- The bits of a set of codes are its members. -/
theorem testBit_codeSet {codes : List Nat} {code : Nat} :
    (codeSet codes).testBit code = true ↔ code ∈ codes := by
  induction codes with
  | nil => simp [codeSet]
  | cons first others ih =>
      rw [codeSet, List.foldr_cons, ← codeSet, Nat.testBit_or, Bool.or_eq_true, ih,
        Nat.testBit_two_pow, decide_eq_true_eq, List.mem_cons, eq_comm]

/-- Lists without a common bit have no common code point. -/
theorem disjoint_of_codeSet {codes others : List Nat} (h : codeSet codes &&& codeSet others = 0) :
    codes.Disjoint others := by
  intro code hcode hother
  have hbit : (codeSet codes &&& codeSet others).testBit code = true := by
    rw [Nat.testBit_and, testBit_codeSet.mpr hcode, testBit_codeSet.mpr hother, Bool.and_self]
  rw [h, Nat.zero_testBit] at hbit
  exact Bool.false_ne_true hbit

/-! ## The table of letters -/

namespace CaseRun

/-- The code points of a run. -/
def members (run : CaseRun) : List Nat :=
  List.range' run.first ((run.last - run.first) / run.step + 1) run.step

/-- The code point that lies `shift` further than one of the run. -/
def partner (run : CaseRun) (code : Nat) : Nat := (code + run.shift).toNat

/-- A run has the codes it covers. -/
theorem mem_members {run : CaseRun} {code : Nat} (h : run.covers code = true) :
    code ∈ run.members := by
  simp only [covers, Bool.and_eq_true, decide_eq_true_eq, beq_iff_eq] at h
  obtain ⟨⟨hfirst, hlast⟩, hstep⟩ := h
  refine List.mem_range'.mpr ⟨(code - run.first) / run.step, ?_, ?_⟩
  · exact Nat.lt_succ_of_le (Nat.div_le_div_right (by omega))
  · rw [Nat.mul_div_cancel' (Nat.dvd_of_mod_eq_zero hstep)]
    omega

end CaseRun

/-- The code points of several ranges. -/
def rangeCodes (ranges : List (Nat × Nat)) : List Nat :=
  ranges.flatMap fun range => List.range' range.1 (range.2 + 1 - range.1)

/-- Ranges have the codes they cover. -/
theorem mem_rangeCodes {ranges : List (Nat × Nat)} {code : Nat}
    (h : inRanges ranges code = true) : code ∈ rangeCodes ranges := by
  obtain ⟨range, hrange, hwithin⟩ := List.any_eq_true.mp h
  simp only [Bool.and_eq_true, decide_eq_true_eq] at hwithin
  exact List.mem_flatMap.mpr ⟨range, hrange, List.mem_range'.mpr
    ⟨code - range.1, by omega, by omega⟩⟩

/-- The code points of the lower-case partners. -/
def partnerCodes : List Nat := caseRuns.flatMap fun run => run.members.map run.partner

/-- The code points of the characters that standard form removes or replaces. -/
def unstableCodes : List Nat :=
  dottedCapitalI.toNat :: (rangeCodes blankRanges ++ caseRuns.flatMap CaseRun.members)

/-- No partner is blank or has a partner.  Neither has the character that stands for a code
point without one. -/
theorem disjoint_partnerCodes : (0 :: partnerCodes).Disjoint unstableCodes :=
  disjoint_of_codeSet (by decide +kernel)

/-! ## Characters in standard form -/

/-- A character stays as it is if it is not blank and has no partner. -/
theorem isStandard_of_find? {c : Char} (hblank : isBlank c = false) (hdotted : c ≠ dottedCapitalI)
    (hfind : caseRuns.find? (·.covers c.toNat) = none) : isStandard c = true := by
  have hsigma : c ≠ capitalSigma := by
    rintro rfl
    exact absurd hfind (by decide)
  have hlower : lowerChar c = [c] := by rw [lowerChar, if_neg hdotted, simpleLower, hfind]
  simp [isStandard, hblank, hsigma, hlower]

/-- A character that is in none of the tables is in standard form. -/
theorem isStandard_of_not_mem {c : Char} (h : c.toNat ∉ unstableCodes) : isStandard c = true := by
  simp only [unstableCodes, List.mem_cons, List.mem_append, not_or] at h
  obtain ⟨hdotted, hblank, hmember⟩ := h
  refine isStandard_of_find? ?_ (fun hc => hdotted (by rw [hc])) ?_
  · exact Bool.eq_false_iff.mpr (mt mem_rangeCodes hblank)
  · refine List.find?_eq_none.mpr fun run hrun hcovers => hmember ?_
    exact List.mem_flatMap.mpr ⟨run, hrun, CaseRun.mem_members hcovers⟩

/-- The partner of a character is in standard form. -/
theorem isStandard_partner {run : CaseRun} {code : Nat} (hrun : run ∈ caseRuns)
    (hcovers : run.covers code = true) : isStandard (Char.ofNat (run.partner code)) = true := by
  have hpartner : run.partner code ∈ partnerCodes :=
    List.mem_flatMap.mpr ⟨run, hrun, List.mem_map_of_mem (CaseRun.mem_members hcovers)⟩
  refine isStandard_of_not_mem fun hunstable => disjoint_partnerCodes ?_ hunstable
  by_cases hvalid : (run.partner code).isValidChar
  · have hcode : (Char.ofNat (run.partner code)).toNat = run.partner code :=
      congrArg Char.toNat (dif_pos hvalid)
    rw [hcode]
    exact List.mem_cons_of_mem 0 hpartner
  · have hcode : (Char.ofNat (run.partner code)).toNat = 0 :=
      congrArg Char.toNat (dif_neg hvalid)
    rw [hcode]
    exact List.mem_cons_self

/-- The lower case of a character that is not blank is in standard form. -/
theorem isStandard_of_mem_lowerChar {c d : Char} (hblank : isBlank c = false)
    (h : d ∈ lowerChar c) : isStandard d = true := by
  rw [lowerChar] at h
  split at h
  · have hdotted : ['i', combiningDot].all isStandard = true := by decide +kernel
    exact List.all_eq_true.mp hdotted d h
  · rename_i hdotted
    rw [List.mem_singleton.mp h, simpleLower]
    split
    · rename_i run hfind
      exact isStandard_partner (List.mem_of_find?_eq_some hfind)
        (List.find?_some (p := fun run => CaseRun.covers run c.toNat) hfind)
    · rename_i hfind
      exact isStandard_of_find? hblank hdotted hfind

/-- Either small sigma is in standard form. -/
theorem isStandard_lowerSigma (before after : Text) :
    isStandard (lowerSigma before after) = true := by
  have hsigmas : [Char.ofNat 0x3C2, Char.ofNat 0x3C3].all isStandard = true := by decide +kernel
  refine List.all_eq_true.mp hsigmas _ ?_
  rw [lowerSigma]
  split <;> simp

/-! ## Texts in standard form -/

section Texts

variable {c : Char} {before text other : Text}

/-- Lower case leaves nothing to lower, whatever stands before. -/
theorem isStandard_of_mem_lowerAfter (htext : ∀ c ∈ text, isBlank c = false)
    (h : c ∈ lowerAfter before text) : isStandard c = true := by
  induction text generalizing before with
  | nil => exact absurd h List.not_mem_nil
  | cons d rest ih =>
      obtain ⟨hd, hrest⟩ := List.forall_mem_cons.mp htext
      rw [lowerAfter, List.mem_append] at h
      rcases h with hlowered | hbehind
      · split at hlowered
        · rw [List.mem_singleton.mp hlowered]
          exact isStandard_lowerSigma before rest
        · exact isStandard_of_mem_lowerChar hd hlowered
      · exact ih hrest hbehind

/-- Standard form leaves nothing to remove and nothing to lower. -/
theorem isStandard_of_mem_standardize (h : c ∈ standardize text) : isStandard c = true := by
  have hunspaced : ∀ d ∈ unspaced text, isBlank d = false := by
    intro d hd
    simpa using (List.mem_filter.mp hd).2
  exact isStandard_of_mem_lowerAfter hunspaced h

/-- A second time, standard form changes nothing. -/
@[simp]
theorem standardize_standardize (text : Text) :
    standardize (standardize text) = standardize text :=
  standardize_of_isStandard fun _ hc => isStandard_of_mem_standardize hc

/-- The texts in standard form are those of characters that standard form leaves alone. -/
theorem standardize_eq_self_iff : standardize text = text ↔ ∀ c ∈ text, isStandard c = true := by
  constructor
  · intro h c hc
    rw [← h] at hc
    exact isStandard_of_mem_standardize hc
  · exact standardize_of_isStandard

/-! ## Spacing -/

/-- Texts that differ only in where blanks stand: read side by side, they have the same
characters but for blanks, which stand in one of them alone. -/
inductive Respaced : Text → Text → Prop where
  | nil : Respaced [] []
  | both (c : Char) {text other : Text} (rest : Respaced text other) :
      Respaced (c :: text) (c :: other)
  | left {c : Char} {text other : Text} (blank : isBlank c = true) (rest : Respaced text other) :
      Respaced (c :: text) other
  | right {c : Char} {text other : Text} (blank : isBlank c = true) (rest : Respaced text other) :
      Respaced text (c :: other)

/-- Texts with other blanks are the same without them. -/
theorem Respaced.unspaced_eq (h : Respaced text other) : unspaced text = unspaced other := by
  induction h with
  | nil => rfl
  | both c rest ih =>
      simp only [unspaced, List.filter_cons] at ih ⊢
      rw [ih]
  | left blank rest ih => simpa [unspaced, blank] using ih
  | right blank rest ih => simpa [unspaced, blank] using ih

/-- Blanks may stand in front of either text. -/
theorem Respaced.blanks_right {blanks : Text} (hblanks : ∀ c ∈ blanks, isBlank c = true)
    (h : Respaced text other) : Respaced text (blanks ++ other) := by
  induction blanks with
  | nil => exact h
  | cons c rest ih =>
      obtain ⟨hc, hrest⟩ := List.forall_mem_cons.mp hblanks
      exact .right hc (ih hrest)

/-- Texts are the same but for their spacing if what is not blank is the same. -/
theorem respaced_iff : Respaced text other ↔ unspaced text = unspaced other := by
  refine ⟨Respaced.unspaced_eq, fun h => ?_⟩
  induction text generalizing other with
  | nil =>
      have hblanks : ∀ c ∈ other, isBlank c = true := by
        simpa using List.filter_eq_nil_iff.mp h.symm
      simpa using Respaced.nil.blanks_right hblanks
  | cons c rest ih =>
      by_cases hc : isBlank c = true
      · exact .left hc (ih (by simpa [unspaced, hc] using h))
      · have hkept : unspaced other = c :: unspaced rest := by
          rw [← h]
          simp [unspaced, hc]
        obtain ⟨blanks, behind, rfl, hblanks, -, hbehind⟩ := List.filter_eq_cons_iff.mp hkept
        exact (Respaced.both c (ih hbehind.symm)).blanks_right (by simpa using hblanks)

instance decidableRespaced (text other : Text) : Decidable (Respaced text other) :=
  decidable_of_iff _ respaced_iff.symm

end Texts
end Text

/-! ## Expressions in standard form -/

namespace Expression

/-- A text is read as its standard form is. -/
theorem parse_standardize (text : Text) : parse text.standardize = parse text := by
  rw [parse, Text.standardize_standardize, parse]

/-- Standard form is a normal form: it is in standard form itself, as are all texts without
blanks and letters that have a lower case; it is the same for texts that differ only in their
spacing; and it is rolled as the text is. -/
theorem standard_form_normal (table : Table) (markup : Markup) :
    (∀ text : Text, text.standardize.standardize = text.standardize) ∧
      (∀ text : Text, text.standardize = text ↔ ∀ c ∈ text, Text.isStandard c = true) ∧
      (∀ text other, Text.Respaced text other → text.standardize = other.standardize) ∧
      ∀ text : Text, resolve table markup text.standardize = resolve table markup text := by
  refine ⟨Text.standardize_standardize, fun _ => Text.standardize_eq_self_iff, ?_, ?_⟩
  · exact fun _ _ h => Text.standardize_congr h.unspaced_eq
  · intro text
    rw [resolve, parse_standardize, resolve]

/-- A capital sigma ends the word `ΑΣ` but not the word `ΑΣΑ`, and which of them is meant
does not depend on blanks. -/
theorem standard_form_normal_sigma :
    Text.Respaced "\u0391\u03A3 \u0391".toList "\u0391\u03A3\u0391 ".toList ∧
      Text.standardize "\u0391\u03A3 \u0391".toList = "\u03B1\u03C3\u03B1".toList ∧
      Text.standardize "\u0391\u03A3 \u0391".toList =
        Text.standardize "\u0391\u03A3\u0391 ".toList := by
  have hspaced : Text.Respaced "\u0391\u03A3 \u0391".toList "\u0391\u03A3\u0391 ".toList := by
    decide +kernel
  exact ⟨hspaced, by decide +kernel,
    (standard_form_normal { source := fun _ => none } .plain).2.2.1 _ _ hspaced⟩

end Expression
end DiceNotation

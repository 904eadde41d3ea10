import DiceNotation.Proofs.Outcome.Pools
import DiceNotation.Proofs.Text.Removal
import Mathlib.Data.List.SplitBy

/-!
# Reading audit texts back

The plain audit text of a pool shows the rolls of every die and whether the die is struck out, and
both can be read back from it.  The words of the text that hold a square bracket are the dice; a
word that holds a tilde is struck out; and what stands in it before an equals sign falls apart into
rolls before each sign.  So the text also tells the total of the pool.

Main definitions:

- `Die.Display`: what the text of a die shows.
- `Die.Display.ofWord`, `Die.Display.ofText`: what is read from a word, and from a text.
- `Die.Display.total`: the sum of the rolls that are not struck out.

Main results:

- `Die.ofRolls_spelled`: the rolls of a die are read back.
- `Die.isWord_text`: so is the text of a die.
- `Outcome.ofText_listText`: so is that of a pool.
- `Value.pools_agree_of_text`: pools of one text show the same, and have one total.
-/

namespace DiceNotation

namespace Numeral

/-- A numeral has a text. -/
theorem ofInt_ne_nil (n : Int) : ofInt n ≠ [] := by
  unfold ofInt
  split
  · exact List.cons_ne_nil _ _
  · exact Nat.toDigits_ne_nil

/-- A numeral is made of digits and perhaps a `-`. -/
theorem mem_ofInt {n : Int} {c : Char} (hc : c ∈ ofInt n) : c = '-' ∨ c.isDigit = true := by
  have hdigit (h : c ∈ Nat.toDigits 10 n.natAbs) : c.isDigit = true :=
    Nat.isDigit_of_mem_toDigits (by decide) (by decide) h
  unfold ofInt at hc
  split at hc
  · exact (List.mem_cons.mp hc).imp_right hdigit
  · exact .inr (hdigit hc)

end Numeral

namespace Die

/-! ## What a text shows -/

/-- What the text of a die shows of it. -/
structure Display where
  rolls : List Int
  struck : Bool
deriving Repr, DecidableEq

/-- The rolls of a die, and whether it is struck out. -/
def display (die : Die) : Display := { rolls := die.rolls, struck := die.discarded }

namespace Display

/-- The signs that may stand before a roll. -/
def isSign (c : Char) : Bool := c == '+' || c == '-'

/-- The roll of a numeral, which may have a `+` as well. -/
def ofRoll (piece : Text) : Int := Numeral.value (piece.filter (· ≠ '+'))

/-- The rolls in a text, each but the first from a sign on, up to an equals sign. -/
def ofRolls (text : Text) : List Int :=
  ((text.takeWhile (· ≠ '=')).splitBy fun _ c => !isSign c).map ofRoll

/-- The die of a word. -/
def ofWord (word : Text) : Display :=
  { rolls := ofRolls (word.filter fun c => c ∉ ['~', '[', ']'])
    struck := word.contains '~' }

/-- The dice of a text: the words in it that hold a square bracket. -/
def ofText (text : Text) : List Display :=
  (((text.filter fun c => c ∉ ['(', ')']).splitOn ' ').filter (·.contains '[')).map ofWord

/-- The sum of the rolls that are not struck out. -/
def total (shown : List Display) : Int :=
  ((shown.filter (!·.struck)).map fun die => die.rolls.sum).sum

end Display

/-- The total of a pool is that of what it shows. -/
theorem total_display (dice : List Die) :
    Display.total (dice.map display) = (shares dice).sum := by
  unfold Display.total shares
  induction dice with
  | nil => rfl
  | cons die rest ih =>
      cases hdiscarded : die.discarded with
      | true => simpa [display, hdiscarded] using ih
      | false => simpa [display, hdiscarded, value] using ih

/-! ## Rolls -/

/-- A further roll, with its sign. -/
def spelled (roll : Int) : Text :=
  (if roll < 0 then '-' else '+') :: Nat.toDigits 10 roll.natAbs

section Rolls

variable {c : Char} {roll : Int}

/-- A roll is spelled with its sign. -/
theorem spelled_eq (roll : Int) :
    spelled roll = if roll < 0 then Numeral.ofInt roll else '+' :: Numeral.ofInt roll := by
  unfold spelled Numeral.ofInt
  split <;> rfl

/-- No digit is a sign. -/
theorem isSign_of_mem_toDigits {n : Nat} (hc : c ∈ Nat.toDigits 10 n) :
    Display.isSign c = false := by
  have hdigit := Nat.isDigit_of_mem_toDigits (by decide) (by decide) hc
  rw [Display.isSign, Bool.or_eq_false_iff, beq_eq_false_iff_ne, beq_eq_false_iff_ne]
  constructor
  · rintro rfl
    contradiction
  · rintro rfl
    contradiction

/-- An integer is read back from its numeral. -/
theorem ofRoll_ofInt (n : Int) : Display.ofRoll (Numeral.ofInt n) = n := by
  have hplus : (Numeral.ofInt n).filter (· ≠ '+') = Numeral.ofInt n := by
    refine List.filter_eq_self.mpr fun c hc => ?_
    rw [decide_eq_true_iff]
    rintro rfl
    exact absurd (Numeral.mem_ofInt hc) (by decide)
  rw [Display.ofRoll, hplus, Numeral.value_ofInt]

/-- A roll is read back as it is spelled. -/
theorem ofRoll_spelled (roll : Int) : Display.ofRoll (spelled roll) = roll := by
  rw [spelled_eq]
  split
  · exact ofRoll_ofInt roll
  · have hread := ofRoll_ofInt roll
    rw [Display.ofRoll] at hread ⊢
    simpa using hread

/-- A text falls apart before every sign in it but one at its front. -/
theorem isChain_numeral (front : Text) (hfront : front.length ≤ 1) (n : Nat) :
    (front ++ Nat.toDigits 10 n).IsChain fun _ d => !Display.isSign d := by
  refine List.Pairwise.isChain (List.pairwise_append.mpr ⟨?_, ?_, ?_⟩)
  · match front, hfront with
    | [], _ => exact .nil
    | [_], _ => exact List.pairwise_singleton _ _
  · refine List.pairwise_of_forall_mem_list fun _ _ d hd => ?_
    simp [isSign_of_mem_toDigits hd]
  · intro _ _ d hd
    simp [isSign_of_mem_toDigits hd]

/-- The rolls of a die fall apart. -/
theorem splitBy_spelled (first : Int) (rest : List Int) :
    (Numeral.ofInt first ++ (rest.map spelled).flatten).splitBy (fun _ d => !Display.isSign d) =
      Numeral.ofInt first :: rest.map spelled := by
  have hfirst := Numeral.ofInt_ne_nil first
  have hbreak (before : Text) (hbefore : before ≠ []) (roll : Int) :
      ∃ (_ : before ≠ []) (hroll : spelled roll ≠ []),
        (!Display.isSign ((spelled roll).head hroll)) = false := by
    refine ⟨hbefore, List.cons_ne_nil _ _, ?_⟩
    simp only [spelled, List.head_cons]
    split <;> rfl
  rw [← List.flatten_cons]
  refine List.splitBy_flatten ?_ ?_ (List.Pairwise.isChain ?_)
  · simp [spelled, hfirst]
  · refine List.forall_mem_cons.mpr ⟨?_, List.forall_mem_map.mpr fun roll _ => ?_⟩
    · unfold Numeral.ofInt
      split
      · exact isChain_numeral ['-'] (by simp) _
      · exact isChain_numeral [] (by simp) _
    · exact isChain_numeral [_] (by simp) _
  · refine List.pairwise_cons.mpr ⟨List.forall_mem_map.mpr fun roll _ => hbreak _ hfirst roll, ?_⟩
    refine List.pairwise_map.mpr (List.pairwise_of_forall_mem_list fun before _ roll _ => ?_)
    exact hbreak _ (List.cons_ne_nil _ _) roll

/-- A numeral is made of digits and a sign. -/
theorem sign_or_digit_of_mem {n : Int} (hc : c ∈ Numeral.ofInt n) :
    Display.isSign c = true ∨ c.isDigit = true := by
  rcases Numeral.mem_ofInt hc with rfl | hdigit
  · exact .inl rfl
  · exact .inr hdigit

/-- Rolls are made of signs and digits. -/
theorem mem_spelled {first : Int} {rest : List Int}
    (hc : c ∈ Numeral.ofInt first ++ (rest.map spelled).flatten) :
    Display.isSign c = true ∨ c.isDigit = true := by
  rcases List.mem_append.mp hc with hc | hc
  · exact sign_or_digit_of_mem hc
  · obtain ⟨piece, hpiece, hc⟩ := List.mem_flatten.mp hc
    obtain ⟨roll, -, rfl⟩ := List.mem_map.mp hpiece
    rw [spelled_eq] at hc
    split at hc
    · exact sign_or_digit_of_mem hc
    · rcases List.mem_cons.mp hc with rfl | hc
      · exact .inl rfl
      · exact sign_or_digit_of_mem hc

/-- The rolls of a die are read back, whatever stands behind an equals sign. -/
theorem ofRolls_spelled (first : Int) (rest : List Int) {sum : Text}
    (hsum : ∀ c ∈ sum.head?, c = '=') :
    Display.ofRolls (Numeral.ofInt first ++ (rest.map spelled).flatten ++ sum) = first :: rest := by
  have htake : (Numeral.ofInt first ++ (rest.map spelled).flatten ++ sum).takeWhile (· ≠ '=') =
      Numeral.ofInt first ++ (rest.map spelled).flatten := by
    rw [List.takeWhile_append_of_pos]
    · cases sum with
      | nil => simp
      | cons c sum => simp [hsum c rfl]
    · intro c hc
      have hchars := mem_spelled hc
      rw [decide_eq_true_iff]
      rintro rfl
      exact absurd hchars (by decide)
  rw [Display.ofRolls, htake, splitBy_spelled, List.map_cons, ofRoll_ofInt, List.map_map]
  congr 1
  exact (List.map_congr_left fun roll _ => ofRoll_spelled roll).trans (List.map_id rest)

end Rolls

/-! ## Texts of dice -/

/-- A roll is written as it is spelled. -/
theorem rollText_eq (roll : Int) :
    Gives (rollText roll) (fun text => text = spelled roll) fun _ => True := by
  unfold rollText Numeral.write
  split
  · trivial
  · exact (spelled_eq roll).symm

/-- The text of the rolls of a die. -/
theorem bareText_eq {die : Die} {bare : Text} (h : die.bareText = .ok bare) :
    ∃ first rest sum, die.rolls = first :: rest ∧
      bare = ['['] ++ Numeral.ofInt first ++ (rest.map spelled).flatten ++ sum ++ [']'] ∧
      (sum = [] ∨ sum = '=' :: Numeral.ofInt die.value) := by
  have hwrite {n : Int} {text : Text} (h : Numeral.write n = .ok text) :
      text = Numeral.ofInt n := by
    unfold Numeral.write at h
    split at h
    · contradiction
    · exact (Except.ok.inj h).symm
  unfold bareText at h
  split at h
  · contradiction
  · next first rest hrolls =>
      simp only [bind_eq_ok_iff] at h
      obtain ⟨head, hhead, tail, htail, hsum⟩ := h
      have htails : tail = rest.map spelled := by
        have hgives : Gives (rest.mapM rollText) (fun texts => texts = rest.map spelled)
            fun _ => True :=
          Gives.mapM (P := fun read texts => texts = read.map spelled) rfl
            fun read made roll _ hmade => (rollText_eq roll).imp
              (fun text _ htext => by simp [hmade, htext]) fun _ h => h
        rw [htail] at hgives
        exact hgives
      rw [hwrite hhead, htails] at hsum
      split at hsum
      · exact ⟨first, rest, [], hrolls, (Except.ok.inj hsum).symm, .inl rfl⟩
      · rw [sumText, bind_assoc, bind_eq_ok_iff] at hsum
        obtain ⟨numeral, hnumeral, hsum⟩ := hsum
        rw [hwrite hnumeral] at hsum
        exact ⟨first, rest, _, hrolls, (Except.ok.inj hsum).symm, .inr rfl⟩

/-- What stands in the square brackets of a die. -/
theorem exists_inside {die : Die} {bare : Text} (h : die.bareText = .ok bare) :
    ∃ inside, bare = ['['] ++ inside ++ [']'] ∧ Display.ofRolls inside = die.rolls ∧
      ∀ c ∈ inside, Display.isSign c = true ∨ c.isDigit = true ∨ c = '=' := by
  obtain ⟨first, rest, sum, hrolls, rfl, hsum⟩ := bareText_eq h
  refine ⟨Numeral.ofInt first ++ (rest.map spelled).flatten ++ sum, by simp, ?_, ?_⟩
  · rw [hrolls, ofRolls_spelled]
    rcases hsum with rfl | rfl <;> simp
  · intro c hc
    rcases List.mem_append.mp hc with hc | hc
    · exact (mem_spelled hc).imp_right .inl
    · rcases hsum with rfl | rfl
      · contradiction
      · rcases List.mem_cons.mp hc with rfl | hc
        · exact .inr (.inr rfl)
        · exact (sign_or_digit_of_mem hc).imp_right .inl

/-- What stands on both sides of the text of a die. -/
def edge (die : Die) : Text := if die.discarded then ['~'] else []

/-- The edge of a die is made of marks. -/
theorem mem_edge {die : Die} {c : Char} (hc : c ∈ die.edge) : c = '~' := by
  unfold edge at hc
  split at hc
  · exact List.mem_singleton.mp hc
  · contradiction

/-- The text of a die has brackets around its rolls, and edges around these. -/
theorem exists_span {die : Die} {text : Text} (h : die.text .plain = .ok text) :
    ∃ inside, text = die.edge ++ (['['] ++ inside ++ [']']) ++ die.edge ∧
      Display.ofRolls inside = die.rolls ∧
      ∀ c ∈ inside, Display.isSign c = true ∨ c.isDigit = true ∨ c = '=' := by
  rw [Die.text, bind_eq_ok_iff] at h
  obtain ⟨bare, hbare, htext⟩ := h
  obtain ⟨inside, rfl, hrolls, hinside⟩ := exists_inside hbare
  refine ⟨inside, ?_, hrolls, hinside⟩
  have htilde : ∀ c ∈ inside, c ≠ '~' := by
    rintro c hc rfl
    exact absurd (hinside _ hc) (by decide)
  simp only [Markup.exploded_plain, ite_self, pure_eq_ok, Except.ok.injEq] at htext
  rw [← htext, edge]
  split
  · simpa [Markup.plain, Markup.struck, Text.without_singleton] using htilde
  · simp

/-- A word of a text that is not one of its separators. -/
structure IsWord (text : Text) : Prop where
  bracketed : '[' ∈ text
  solid : ∀ c ∈ text, c ≠ ' ' ∧ c ≠ '(' ∧ c ≠ ')'

/-- The text of a die, struck out or not, is a word that shows it. -/
theorem isWord_text {die : Die} {text : Text} (h : die.text .plain = .ok text) :
    IsWord text ∧ Display.ofWord text = die.display := by
  obtain ⟨inside, rfl, hrolls, hinside⟩ := exists_span h
  have hne {d : Char} (hd : ¬ (Display.isSign d = true ∨ d.isDigit = true ∨ d = '=')) :
      ∀ c ∈ inside, c ≠ d := by
    rintro c hc rfl
    exact hd (hinside c hc)
  constructor
  · refine ⟨by simp, fun c hc => ?_⟩
    have hplace : c = '~' ∨ c = '[' ∨ c = ']' ∨ c ∈ inside := by
      simp only [List.mem_append, List.mem_singleton] at hc
      have hedge : c ∈ die.edge → c = '~' := mem_edge
      tauto
    rcases hplace with rfl | rfl | rfl | hc
    · decide
    · decide
    · decide
    · exact ⟨hne (by decide) c hc, hne (by decide) c hc, hne (by decide) c hc⟩
  · have hstruck : (die.edge ++ (['['] ++ inside ++ [']']) ++ die.edge).contains '~' =
        die.discarded := by
      have htilde : '~' ∉ inside := fun hmem => hne (by decide) '~' hmem rfl
      cases hdiscarded : die.discarded <;> simp [edge, hdiscarded, htilde]
    have hedge : die.edge.filter (fun c => c ∉ ['~', '[', ']']) = [] :=
      List.filter_eq_nil_iff.mpr fun c hc => by simp [mem_edge hc]
    have hkept : inside.filter (fun c => c ∉ ['~', '[', ']']) = inside := by
      refine List.filter_eq_self.mpr fun c hc => ?_
      simp [hne (d := '~') (by decide) c hc, hne (d := '[') (by decide) c hc,
        hne (d := ']') (by decide) c hc]
    rw [Display.ofWord, hstruck, display, ← hrolls, List.filter_append, List.filter_append,
      List.filter_append, List.filter_append, hedge, hkept]
    simp

end Die

/-! ## Texts of pools -/

/-- A character of joined words is one of theirs, or of the separator. -/
theorem Text.mem_joinedBy {separator : Text} {words : List Text} {c : Char}
    (hc : c ∈ joinedBy separator words) : c ∈ separator ∨ ∃ word ∈ words, c ∈ word := by
  induction words with
  | nil => contradiction
  | cons word rest ih =>
      cases rest with
      | nil => exact .inr ⟨word, List.mem_cons_self, hc⟩
      | cons next rest =>
          rw [joinedBy] at hc
          rcases List.mem_append.mp hc with hc | hc
          · rcases List.mem_append.mp hc with hc | hc
            · exact .inr ⟨word, List.mem_cons_self, hc⟩
            · exact .inl hc
          · rcases ih hc with hc | ⟨other, hother, hc⟩
            · exact .inl hc
            · exact .inr ⟨other, List.mem_cons_of_mem _ hother, hc⟩

namespace Outcome

open Die

/-- Words are found again between the separators. -/
theorem splitOn_joinedBy {words : List Text} (h : ∀ word ∈ words, IsWord word) (hne : words ≠ []) :
    ((Text.joinedBy plus words).splitOn ' ').filter (·.contains '[') = words := by
  induction words with
  | nil => contradiction
  | cons word rest ih =>
      obtain ⟨hword, hrest⟩ := List.forall_mem_cons.mp h
      have hspace : ' ' ∉ word := fun hmem => (hword.solid ' ' hmem).1 rfl
      cases rest with
      | nil =>
          rw [Text.joinedBy_singleton, List.splitOn_eq_singleton hspace]
          simp [hword.bracketed]
      | cons next rest =>
          have hsplit : (Text.joinedBy plus (word :: next :: rest)).splitOn ' ' =
              word :: ['+'] :: (Text.joinedBy plus (next :: rest)).splitOn ' ' := by
            have hshape : Text.joinedBy plus (word :: next :: rest) =
                word ++ ' ' :: (['+'] ++ ' ' :: Text.joinedBy plus (next :: rest)) := by
              simp [Text.joinedBy, plus]
            rw [hshape, List.splitOn_append_cons_self_of_not_mem hspace,
              List.splitOn_append_cons_self_of_not_mem (by decide)]
          rw [hsplit, List.filter_cons_of_pos (by simpa using hword.bracketed),
            List.filter_cons_of_neg (by decide), ih hrest (List.cons_ne_nil _ _)]

/-- The brackets around the text of a list go, and no other characters. -/
theorem filter_listText {outcomes : List Outcome} (h : ∀ outcome ∈ outcomes, IsWord outcome.text) :
    (listText outcomes plus).filter (fun c => c ∉ ['(', ')']) =
      Text.joinedBy plus (outcomes.map text) := by
  have hjoined : (Text.joinedBy plus (outcomes.map text)).filter (fun c => c ∉ ['(', ')']) =
      Text.joinedBy plus (outcomes.map text) := by
    refine List.filter_eq_self.mpr fun c hc => ?_
    rcases Text.mem_joinedBy hc with hc | ⟨word, hword, hc⟩
    · rcases List.mem_cons.mp hc with rfl | hc
      · rfl
      · simp only [List.mem_cons, List.not_mem_nil, or_false] at hc
        rcases hc with rfl | rfl <;> rfl
    · obtain ⟨outcome, houtcome, rfl⟩ := List.mem_map.mp hword
      obtain ⟨-, hopen, hclose⟩ := (h outcome houtcome).solid c hc
      simp [hopen, hclose]
  match outcomes with
  | [] => rfl
  | [outcome] => exact hjoined
  | first :: second :: rest =>
      have hlist : listText (first :: second :: rest) plus =
          ['('] ++ Text.joinedBy plus ((first :: second :: rest).map text) ++ [')'] := rfl
      rw [hlist, List.filter_append, List.filter_append, hjoined]
      simp

/-- The words of a pool show its dice. -/
theorem isWord_ofPool {dice : List Die} {outcomes : List Outcome}
    (h : ofPool dice .plain = .ok outcomes) :
    (∀ outcome ∈ outcomes, IsWord outcome.text) ∧
      (outcomes.map text).map Display.ofWord = dice.map display := by
  have hgives : Gives (ofPool dice .plain) (fun outcomes =>
      (∀ outcome ∈ outcomes, IsWord outcome.text) ∧
        (outcomes.map text).map Display.ofWord = dice.map display) fun _ => True := by
    refine Gives.mapM (P := fun dice outcomes => (∀ outcome ∈ outcomes, IsWord outcome.text) ∧
      (outcomes.map text).map Display.ofWord = dice.map display) (by simp) ?_
    rintro read made die - ⟨hmade, hshown⟩
    unfold Die.outcome
    cases htext : die.text .plain with
    | error fault => trivial
    | ok text =>
        obtain ⟨hword, hdie⟩ := isWord_text htext
        refine ⟨?_, ?_⟩
        · exact List.forall_mem_append.mpr ⟨hmade, List.forall_mem_singleton.mpr hword⟩
        · simp only [List.map_append, hshown, List.map_cons, List.map_nil, hdie]
  rw [h] at hgives
  exact hgives

/-- The text of a pool shows its dice. -/
theorem ofText_listText {dice : List Die} {outcomes : List Outcome}
    (h : ofPool dice .plain = .ok outcomes) (hne : outcomes ≠ []) :
    Display.ofText (listText outcomes plus) = dice.map display := by
  obtain ⟨hwords, hshown⟩ := isWord_ofPool h
  rw [Display.ofText, filter_listText hwords,
    splitOn_joinedBy (List.forall_mem_map.mpr hwords) (by simpa using hne), hshown]

example : Display.ofText "([-3+0-1=-4] + ~[6]~)".toList =
    [{ rolls := [-3, 0, -1], struck := false }, { rolls := [6], struck := true }] := by
  decide +kernel

end Outcome

namespace Value

open Die

/-- A pool that has been rolled, and has no number too long to be written, has outcomes; its text
shows its dice, and what it shows adds up to the total. -/
theorem exists_readback {dice : List Die} (hne : dice ≠ []) (hrolled : ∀ die ∈ dice, die.rolls ≠ [])
    (hshort : ∀ die ∈ dice, ¬ die.IsLong) :
    ∃ outcomes, Outcome.ofPool dice .plain = .ok outcomes ∧
      Display.ofText (Outcome.listText outcomes Outcome.plus) = dice.map display ∧
      (pool dice).collapse .plain = .ok
        { value := .int (Display.total
            (Display.ofText (Outcome.listText outcomes Outcome.plus)))
          text := Outcome.listText outcomes Outcome.plus } := by
  have hgives := Outcome.gives_ofPool .plain hrolled
  cases houtcomes : Outcome.ofPool dice .plain with
  | error fault =>
      rw [houtcomes] at hgives
      obtain ⟨-, die, hdie, hlong⟩ := hgives
      exact absurd hlong (hshort die hdie)
  | ok outcomes =>
      rw [houtcomes, gives_ok] at hgives
      have hsome : outcomes ≠ [] := by
        rintro rfl
        exact hne (List.map_eq_nil_iff.mp hgives.symm)
      have hread := Outcome.ofText_listText houtcomes hsome
      refine ⟨outcomes, rfl, hread, ?_⟩
      rw [collapse_pool_outcomes houtcomes hrolled hne, hread, total_display]

/-- Pools of dice that have been rolled, none with a number too long to be written, whose texts are
the same in plain markup have the same rolls, die by die, and the same dice discarded.  The total of
such a pool is the sum of the rolls that its text shows on the dice that are not struck out. -/
theorem pools_agree_of_text {dice dice' : List Die} (hne : dice ≠ []) (hne' : dice' ≠ [])
    (hrolled : ∀ die ∈ dice, die.rolls ≠ []) (hrolled' : ∀ die ∈ dice', die.rolls ≠ [])
    (hshort : ∀ die ∈ dice, ¬ die.IsLong) (hshort' : ∀ die ∈ dice', ¬ die.IsLong) :
    ∃ outcomes outcomes', Outcome.ofPool dice .plain = .ok outcomes ∧
      Outcome.ofPool dice' .plain = .ok outcomes' ∧
      (Outcome.listText outcomes Outcome.plus = Outcome.listText outcomes' Outcome.plus →
        List.Forall₂ (fun die die' => die.rolls = die'.rolls ∧ die.discarded = die'.discarded)
            dice dice' ∧
          (pool dice).collapse .plain = (pool dice').collapse .plain) ∧
      (pool dice).collapse .plain = .ok
        { value := .int (Display.total
            (Display.ofText (Outcome.listText outcomes Outcome.plus)))
          text := Outcome.listText outcomes Outcome.plus } := by
  obtain ⟨outcomes, houtcomes, hread, hcollapse⟩ := exists_readback hne hrolled hshort
  obtain ⟨outcomes', houtcomes', hread', hcollapse'⟩ := exists_readback hne' hrolled' hshort'
  refine ⟨outcomes, outcomes', houtcomes, houtcomes', fun htext => ⟨?_, ?_⟩, hcollapse⟩
  · rw [htext, hread'] at hread
    have hshown : List.Forall₂ (fun die die' => die.display = die'.display) dice dice' := by
      rw [← List.forall₂_map_left_iff (f := display) (R := fun shown die' => shown = display die'),
        ← List.forall₂_map_right_iff (f := display) (R := Eq), List.forall₂_eq_eq_eq, hread]
    exact hshown.imp fun die die' h => Display.mk.inj h
  · rw [hcollapse, hcollapse', htext]

/-- Two pools of dice with other faces, of which one has exploded and the other has not, with the
text `([-3+0-1=-4] + ~[6+2=8]~)`. -/
theorem pools_agree_of_text_faces :
    let dice : List Die := [{ faces := .range (-3) 6, rolls := [-3, 0, -1] },
      { faces := .range 1 6, rolls := [6, 2], discarded := true, exploded := true }]
    let dice' : List Die := [{ faces := .listed [-3, 0, -1], rolls := [-3, 0, -1] },
      { faces := .range 2 8, rolls := [6, 2], discarded := true }]
    (dice ≠ [] ∧ dice' ≠ [] ∧ (∀ die ∈ dice, die.rolls ≠ []) ∧ (∀ die ∈ dice', die.rolls ≠ []) ∧
      (∀ die ∈ dice, ¬ die.IsLong) ∧ ∀ die ∈ dice', ¬ die.IsLong) ∧
    (Outcome.ofPool dice .plain).map (Outcome.listText · Outcome.plus) =
      .ok "([-3+0-1=-4] + ~[6+2=8]~)".toList ∧
    List.Forall₂ (fun die die' => die.rolls = die'.rolls ∧ die.discarded = die'.discarded)
      dice dice' ∧
    (pool dice).collapse .plain = (pool dice').collapse .plain ∧
    (pool dice).collapse .plain = .ok
      { value := .int (-4), text := "([-3+0-1=-4] + ~[6+2=8]~)".toList } := by
  intro dice dice'
  have hshort : ∀ die ∈ dice, ¬ die.IsLong := by
    unfold Die.IsLong
    decide +kernel
  have hshort' : ∀ die ∈ dice', ¬ die.IsLong := by
    unfold Die.IsLong
    decide +kernel
  have hrolled : ∀ die ∈ dice, die.rolls ≠ [] := by decide
  have hrolled' : ∀ die ∈ dice', die.rolls ≠ [] := by decide
  have hne : dice ≠ [] := List.cons_ne_nil _ _
  have hne' : dice' ≠ [] := List.cons_ne_nil _ _
  have hsame : Outcome.ofPool dice .plain = Outcome.ofPool dice' .plain := by decide +kernel
  have htext : (Outcome.ofPool dice .plain).map (Outcome.listText · Outcome.plus) =
      .ok "([-3+0-1=-4] + ~[6+2=8]~)".toList := by decide +kernel
  obtain ⟨outcomes, outcomes', houtcomes, houtcomes', hagree, htotal⟩ :=
    pools_agree_of_text hne hne' hrolled hrolled' hshort hshort'
  have heq : outcomes = outcomes' := by
    rw [houtcomes, houtcomes'] at hsame
    exact Except.ok.inj hsame
  have hlist : Outcome.listText outcomes Outcome.plus = "([-3+0-1=-4] + ~[6+2=8]~)".toList := by
    rw [houtcomes] at htext
    exact Except.ok.inj htext
  have hread : Display.total (Display.ofText "([-3+0-1=-4] + ~[6+2=8]~)".toList) = -4 := by
    decide +kernel
  obtain ⟨hdice, hcollapse⟩ := hagree (by rw [heq])
  rw [hlist, hread] at htotal
  exact ⟨⟨hne, hne', hrolled, hrolled', hshort, hshort'⟩, htext, hdice, hcollapse, htotal⟩

end Value
end DiceNotation

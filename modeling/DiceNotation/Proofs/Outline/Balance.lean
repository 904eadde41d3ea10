import DiceNotation.Proofs.Expression.Parsing

/-!
# Balance

A text with an outline is balanced: each round or curly bracket that opens in it is closed
by one of its own kind, after balanced text, and commas stand directly inside curly
brackets.  Balance is a grammar here; a stack of the open brackets recognises it, and the
surroundings of a walk are such a stack.  A text that is refused for a bracket is not balanced.

Main definitions:

- `Outline.Balanced`: the grammar of balanced texts.
- `Outline.openBrackets`: the brackets that are open behind a text, innermost first.
- `Surroundings.kinds`: the brackets that are open around a walk.
- `Fault.BlamesBrackets`: the faults of a bracket, a comma or the end that should not be there.

Main results:

- `Outline.balanced_iff`: the balanced texts are those that leave no bracket open.
- `Outline.openBrackets_of_walk`: a walk has open what is open behind the text it has read.
- `Outline.balanced_of_ofText`: texts with an outline are balanced.
- `Outline.not_balanced_of_blamesBrackets`: a text at fault for a bracket is not.
-/

namespace DiceNotation

/-- The faults of a bracket, a comma or the end at a place where it should not be. -/
def Fault.BlamesBrackets : Fault → Prop
  | .malformed .strayTerminator (some _) => True
  | .malformed .bracketNotClosed (some _) => True
  | _ => False

namespace Outline

/-! ## Balanced texts -/

/-- The kinds of brackets. -/
inductive Bracket where
  | round
  | curly
deriving Repr, DecidableEq

namespace Bracket

/-- The character that opens a bracket. -/
def opener : Bracket → Char
  | .round => '('
  | .curly => '\x7b'

/-- The character that closes a bracket. -/
def closer : Bracket → Char
  | .round => ')'
  | .curly => '\x7d'

end Bracket

/-- The balanced texts, where `around` is the innermost bracket around the text, if any. -/
inductive Balanced : (around : Option Bracket) → Text → Prop where
  | nil {around : Option Bracket} : Balanced around []
  | plain {around : Option Bracket} {c : Char} {rest : Text} (hc : isBracket c = false)
      (hrest : Balanced around rest) : Balanced around (c :: rest)
  | comma {rest : Text} (hrest : Balanced (some .curly) rest) :
      Balanced (some .curly) (',' :: rest)
  | enclosed {around : Option Bracket} (kind : Bracket) {inside rest : Text}
      (hinside : Balanced (some kind) inside) (hrest : Balanced around rest) :
      Balanced around (kind.opener :: (inside ++ kind.closer :: rest))

/-- The brackets that are open behind a character, unless it closes or divides another
bracket than the innermost one. -/
def openAfter (opened : List Bracket) (c : Char) : Option (List Bracket) :=
  match c, opened with
  | '(', _ => some (.round :: opened)
  | '\x7b', _ => some (.curly :: opened)
  | ')', .round :: outer => some outer
  | '\x7d', .curly :: outer => some outer
  | ',', .curly :: outer => some (.curly :: outer)
  | c, _ => if isBracket c then none else some opened

/-- The brackets that are open behind a text, innermost first. -/
def openBrackets (text : Text) : Option (List Bracket) := text.foldlM openAfter []

section OpenAfter

variable {opened later : List Bracket} {c : Char}

/-- A bracket that opens is the innermost. -/
@[simp]
theorem openAfter_opener (kind : Bracket) :
    openAfter opened kind.opener = some (kind :: opened) := by
  cases kind <;> rfl

/-- It closes with its own closing character. -/
@[simp]
theorem openAfter_closer (kind : Bracket) :
    openAfter (kind :: opened) kind.closer = some opened := by
  cases kind <;> rfl

@[simp]
theorem openAfter_comma : openAfter (.curly :: opened) ',' = some (.curly :: opened) := rfl

/-- Other characters open and close nothing. -/
theorem openAfter_plain (hc : isBracket c = false) : openAfter opened c = some opened := by
  unfold openAfter
  split <;> simp_all [isBracket]

/-- A character that may stand at its place opens a bracket, closes the innermost one,
divides it, or is none of the brackets. -/
theorem openAfter_cases (h : openAfter opened c = some later) :
    (∃ kind : Bracket, c = kind.opener ∧ later = kind :: opened) ∨
      (∃ kind : Bracket, c = kind.closer ∧ opened = kind :: later) ∨
      (c = ',' ∧ opened.head? = some .curly ∧ later = opened) ∨
      (isBracket c = false ∧ later = opened) := by
  unfold openAfter at h
  split at h
  · exact .inl ⟨.round, rfl, (Option.some.inj h).symm⟩
  · exact .inl ⟨.curly, rfl, (Option.some.inj h).symm⟩
  · exact .inr (.inl ⟨.round, rfl, by rw [Option.some.inj h]⟩)
  · exact .inr (.inl ⟨.curly, rfl, by rw [Option.some.inj h]⟩)
  · exact .inr (.inr (.inl ⟨rfl, rfl, (Option.some.inj h).symm⟩))
  · split at h
    · contradiction
    · next hc => exact .inr (.inr (.inr ⟨by simpa using hc, (Option.some.inj h).symm⟩))

end OpenAfter

/-- Past a balanced text the same brackets are open as before it. -/
theorem Balanced.foldlM_openAfter {around : Option Bracket} {text : Text}
    (h : Balanced around text) {opened : List Bracket} (haround : opened.head? = around) :
    text.foldlM openAfter opened = some opened := by
  induction h generalizing opened with
  | nil => rfl
  | plain hc hrest ih => simp [openAfter_plain hc, ih haround]
  | comma hrest ih =>
      obtain ⟨outer, rfl⟩ := List.head?_eq_some_iff.mp haround
      simp [ih haround]
  | enclosed kind hinside hrest ihinside ihrest =>
      have hopened : (kind :: opened).head? = some kind := rfl
      simp [List.foldlM_append, ihinside hopened, ihrest haround]

/-- The texts that close the open brackets, innermost first, with balanced text before each
closing and behind the last. -/
inductive Closes : List Bracket → Text → Prop where
  | done {text : Text} (h : Balanced none text) : Closes [] text
  | close {kind : Bracket} {outer : List Bracket} {inside rest : Text}
      (hinside : Balanced (some kind) inside) (hrest : Closes outer rest) :
      Closes (kind :: outer) (inside ++ kind.closer :: rest)

/-- What keeps balanced text balanced in front of it keeps text closing what is open. -/
theorem Closes.prepend {opened : List Bracket} {text : Text} (front : Text)
    (h : Closes opened text)
    (hfront : ∀ inside, Balanced opened.head? inside → Balanced opened.head? (front ++ inside)) :
    Closes opened (front ++ text) := by
  cases h with
  | done h => exact .done (hfront _ h)
  | close hinside hrest =>
      rw [← List.append_assoc]
      exact .close (hfront _ hinside) hrest

/-- A text that leaves nothing open closes what was open before it. -/
theorem closes_of_foldlM {opened : List Bracket} {text : Text}
    (h : text.foldlM openAfter opened = some []) : Closes opened text := by
  induction text generalizing opened with
  | nil =>
      obtain rfl := Option.some.inj h
      exact .done .nil
  | cons c rest ih =>
      rw [List.foldlM_cons, Option.bind_eq_bind, Option.bind_eq_some_iff] at h
      obtain ⟨later, hlater, hrest⟩ := h
      have hcloses := ih hrest
      rcases openAfter_cases hlater with
        ⟨kind, rfl, rfl⟩ | ⟨kind, rfl, rfl⟩ | ⟨rfl, hhead, rfl⟩ | ⟨hc, rfl⟩
      · -- the text up to where the new bracket closes becomes one enclosed piece
        cases hcloses with
        | @close _ _ inside after hinside hafter =>
            have hprepend := hafter.prepend (kind.opener :: (inside ++ [kind.closer]))
              fun more hmore => by simpa using Balanced.enclosed kind hinside hmore
            simpa using hprepend
      · exact .close .nil hcloses
      · refine hcloses.prepend [','] fun inside hinside => ?_
        rw [hhead] at hinside ⊢
        exact .comma hinside
      · exact hcloses.prepend [c] fun inside hinside => .plain hc hinside

/-- The balanced texts are those that leave no bracket open. -/
theorem balanced_iff {text : Text} : Balanced none text ↔ openBrackets text = some [] := by
  constructor
  · exact fun h => h.foldlM_openAfter rfl
  · intro h
    cases closes_of_foldlM h with
    | done hbalanced => exact hbalanced

instance decidableBalanced (text : Text) : Decidable (Balanced none text) :=
  decidable_of_iff _ balanced_iff.symm

example : ¬ Balanced none "\x7b1,(2,3)\x7d".toList := by decide

/-- Before a comma of a balanced text, the innermost open bracket is a curly one. -/
theorem Balanced.curly_of_comma {before after : Text}
    (h : Balanced none (before ++ ',' :: after)) :
    ∃ outer, openBrackets before = some (.curly :: outer) := by
  have hopen := balanced_iff.mp h
  rw [openBrackets, List.foldlM_append, Option.bind_eq_bind, Option.bind_eq_some_iff] at hopen
  obtain ⟨opened, hbefore, hrest⟩ := hopen
  rw [List.foldlM_cons, Option.bind_eq_bind, Option.bind_eq_some_iff] at hrest
  obtain ⟨later, hcomma, -⟩ := hrest
  rcases openAfter_cases hcomma with
    ⟨kind, hc, -⟩ | ⟨kind, hc, -⟩ | ⟨-, hhead, -⟩ | ⟨hc, -⟩
  · cases kind <;> simp [Bracket.opener] at hc
  · cases kind <;> simp [Bracket.closer] at hc
  · obtain ⟨outer, rfl⟩ := List.head?_eq_some_iff.mp hhead
    exact ⟨outer, hbefore⟩
  · simp [isBracket] at hc

/-! ## Walks -/

/-- The brackets that are open around a walk, innermost first. -/
def Surroundings.kinds : Surroundings → List Bracket
  | .top => []
  | .bracket _ outer _ => .round :: outer.kinds
  | .list _ outer _ => .curly :: outer.kinds

/-- No bracket is open at the top only. -/
theorem Surroundings.kinds_eq_nil_iff {surroundings : Surroundings} :
    surroundings.kinds = [] ↔ surroundings = .top := by
  cases surroundings <;> simp [kinds]

section Walks

variable {walk walk' : Walk} {c : Char}

/-- A move opens and closes brackets as its character does. -/
theorem openAfter_of_move (h : walk.Move c walk') :
    openAfter walk.surroundings.kinds c = some walk'.surroundings.kinds := by
  cases h with
  | openBracket hbefore => rfl
  | openList hfunction hbefore => rfl
  | closeBracket hopen hcontent => rw [hopen]; rfl
  | endEntry hopen hcontent => rw [hopen]; rfl
  | closeList hopen hcontent => rw [hopen]; rfl
  | take hc => exact openAfter_plain hc

/-- A step opens and closes the brackets that its character does. -/
theorem openAfter_of_step (h : walk.step c = .ok walk') :
    openAfter walk.surroundings.kinds c = some walk'.surroundings.kinds := by
  rcases Walk.step_eq_ok_iff.mp h with ⟨list, -, hc, rfl⟩ | ⟨-, hmove⟩
  · refine openAfter_plain ?_
    -- a bracket would have ended the suffix
    by_contra hbracket
    rw [continuesSuffix_of_isBracket (by simpa using hbracket)] at hc
    contradiction
  · simpa using openAfter_of_move hmove

/-- A walk has open what is open behind the text it has read. -/
theorem openBrackets_of_walk {text : Text} (h : text.foldlM Walk.step {} = .ok walk) :
    openBrackets text = some walk.surroundings.kinds := by
  refine foldlM_induction (P := fun read walk => openBrackets read = some walk.surroundings.kinds)
    ?_ rfl h
  intro read walk c walk' hread hstep
  rw [openBrackets] at hread ⊢
  simp [List.foldlM_append, hread, openAfter_of_step hstep]

end Walks

/-- A text that has an outline is balanced, round and curly brackets each closed by their own
kind, and the innermost bracket around every comma of it is a curly one. -/
theorem balanced_of_ofText {text : Text} {outline : Outline} (h : ofText text = .ok outline) :
    Balanced none text ∧
      ∀ before after, text = before ++ ',' :: after →
        ∃ outer, openBrackets before = some (.curly :: outer) := by
  obtain ⟨content, ⟨walk, hwalk, htop, -⟩, -⟩ := ofText_eq_ok_iff.mp h
  have hbalanced : Balanced none text := by
    rw [balanced_iff, openBrackets_of_walk hwalk, htop, Surroundings.kinds]
  refine ⟨hbalanced, ?_⟩
  rintro before after rfl
  exact hbalanced.curly_of_comma

/-- A list in a round bracket in a list, with suffixes and commas. -/
theorem balanced_of_ofText_nested :
    (∃ outline, ofText "\x7b(1+\x7b2,3d6\x7dkh1)*3,4\x7dl1".toList = .ok outline) ∧
      Balanced none "\x7b(1+\x7b2,3d6\x7dkh1)*3,4\x7dl1".toList ∧
      ∀ before after, "\x7b(1+\x7b2,3d6\x7dkh1)*3,4\x7dl1".toList = before ++ ',' :: after →
        ∃ outer, openBrackets before = some (.curly :: outer) := by
  have hok : (ofText "\x7b(1+\x7b2,3d6\x7dkh1)*3,4\x7dl1".toList).isOk = true := by decide +kernel
  cases houtline : ofText "\x7b(1+\x7b2,3d6\x7dkh1)*3,4\x7dl1".toList with
  | ok outline => exact ⟨⟨outline, rfl⟩, balanced_of_ofText houtline⟩
  | error fault =>
      rw [houtline] at hok
      contradiction

/-! ## Faults of brackets -/

section Faults

variable {walk : Walk} {c : Char}

/-- What a bracket or an entry holds is not blamed on brackets. -/
theorem not_blamesBrackets_content :
    Gives walk.content (fun _ => True) fun fault => ¬ fault.BlamesBrackets :=
  gives_content (fun cause _ => by cases cause <;> exact id) walk

/-- Nor are elements with the text behind them. -/
theorem not_blamesBrackets_elementsWith (elements : List Outline) (buffer : Text) :
    Gives (elementsWith elements buffer) (fun _ => True) fun fault => ¬ fault.BlamesBrackets :=
  gives_elementsWith (fun cause _ => by cases cause <;> exact id) elements buffer

/-- A bracket or an entry is at fault for its end only where no such bracket is open. -/
theorem openAfter_of_close (hc : c = ')' ∨ c = '\x7d' ∨ c = ',') :
    Gives (walk.close c) (fun _ => True) fun fault =>
      fault.BlamesBrackets → openAfter walk.surroundings.kinds c = none := by
  have hcontent : Gives walk.content (fun _ => True) fun fault =>
      fault.BlamesBrackets → openAfter walk.surroundings.kinds c = none :=
    not_blamesBrackets_content.imp (fun _ _ _ => trivial) fun _ hnot h => absurd h hnot
  unfold Walk.close
  split
  · next hopen =>
      intro _
      rcases hc with rfl | rfl | rfl <;> rw [hopen] <;> rfl
  · next hopen =>
      split
      · next hterminator =>
          intro _
          rcases hc with rfl | rfl | rfl
          · exact absurd rfl hterminator
          · rw [hopen]; rfl
          · rw [hopen]; rfl
      · exact hcontent.bind fun _ _ _ => trivial
  · next hopen =>
      split
      · next hterminator =>
          intro _
          rw [hterminator, hopen]
          rfl
      · refine hcontent.bind fun content _ _ => ?_
        dsimp only
        split <;> trivial

/-- A step that blames the brackets is at a character that closes none of them. -/
theorem openAfter_of_pass :
    Gives (walk.pass c) (fun _ => True) fun fault =>
      fault.BlamesBrackets → openAfter walk.surroundings.kinds c = none := by
  have hbefore (buffer : Text) : Gives (elementsWith walk.elements buffer) (fun _ => True)
      fun fault => fault.BlamesBrackets → openAfter walk.surroundings.kinds c = none :=
    (not_blamesBrackets_elementsWith _ _).imp (fun _ _ _ => trivial) fun _ hnot h => absurd h hnot
  unfold Walk.pass
  split
  · unfold Walk.openBracket
    exact (hbefore _).bind fun _ _ _ => trivial
  · split
    · unfold Walk.openList
      dsimp only
      split
      · exact False.elim
      · exact (hbefore _).bind fun _ _ _ => trivial
    · split
      · next hc => exact openAfter_of_close hc
      · trivial

/-- A step is at fault for a bracket only if its character should not stand there. -/
theorem openAfter_of_step_error :
    Gives (walk.step c) (fun _ => True) fun fault =>
      fault.BlamesBrackets → openAfter walk.surroundings.kinds c = none := by
  unfold Walk.step
  split
  · exact openAfter_of_pass
  · split
    · trivial
    · rw [← Walk.settle_surroundings]
      exact openAfter_of_pass

end Faults

/-- A text that is at fault for a bracket, a comma or its end is not balanced. -/
theorem not_balanced_of_blamesBrackets {text : Text} {fault : Fault}
    (h : ofText text = .error fault) (hblames : fault.BlamesBrackets) : ¬ Balanced none text := by
  suffices hgives : Gives (ofText text) (fun _ => True) fun fault =>
      fault.BlamesBrackets → openBrackets text ≠ some [] by
    rw [h] at hgives
    exact fun hbalanced => hgives hblames (balanced_iff.mp hbalanced)
  unfold ofText
  refine Gives.bind (Q := fun _ => True) (Gives.foldlM_reached ?_) fun walk hwalk _ => ?_
  · intro read walk c rest htext hwalk
    refine openAfter_of_step_error.imp (fun _ _ _ => trivial) fun fault hstep hblames => ?_
    rw [htext, openBrackets, List.foldlM_append, ← openBrackets, openBrackets_of_walk hwalk]
    simp [hstep hblames]
  · have hopen := openBrackets_of_walk hwalk
    unfold Walk.finish
    dsimp only
    split
    · exact (not_blamesBrackets_content.imp (fun _ _ _ => trivial) fun _ hnot hblames =>
        absurd hblames hnot).bind fun _ _ _ => trivial
    · next htop =>
        intro _ hclosed
        rw [hopen, Option.some.injEq, Surroundings.kinds_eq_nil_iff] at hclosed
        exact htop (by simpa using hclosed)

end Outline
end DiceNotation

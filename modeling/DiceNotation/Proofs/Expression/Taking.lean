import DiceNotation.Proofs.Expression.Loops
import DiceNotation.Proofs.Expression.Written

/-!
# Dice as they are read

A reader of what is written takes all of it, whatever lies behind, as long as what follows does
not begin with more of the same.

Main definitions:

- `Leaf.Takes`: a reader takes a text in front of another, and makes something of it.
- `Leaf.EndsInteger`, `Leaf.EndsExplosion`, `Leaf.EndsModifiers`, `WrittenModifier.EndsAt`: texts
  that do not go on with an integer, with a point of an explosion, with a modifier, or with more of
  one.
- `Leaf.ShowsConditions`: texts that are read as conditions.

Main results:

- `Leaf.Takes.bind`: a chain of readers takes one text after the other.
- `Leaf.Repeats.takes`: so does a loop of the texts of its items.
- `Leaf.takes_readModifiers`: modifiers are taken to the last, if none continues the one before and
  nothing continues the last.
- `Leaf.takes_readLeaf`: written dice are taken as the expression they show.
-/

namespace DiceNotation
namespace Leaf

variable {α β : Type}

/-! ## Taking -/

/-- Whether a reader takes just `text` in front of `rest`, and makes `a` of it. -/
def Takes (reader : Reader α) (text rest : Text) (a : α) : Prop :=
  ∀ behind past, reader.run ⟨behind, text ++ rest, past⟩ =
    .ok a ⟨text.reverse ++ behind, rest, past⟩

section Steps

variable {text rest : Text} {a : α} {b : β}

/-- What has been taken to the end is the result of a text. -/
theorem Takes.on {reader : Reader α} (h : Takes reader text [] a) : reader.on text = .ok a := by
  have hrun := h [] 0
  rw [List.append_nil] at hrun
  rw [Reader.on, Cursor.ofText, hrun]

theorem takes_pure : Takes (pure a) [] rest a := fun _ _ => rfl

theorem takes_lift_ok : Takes (lift (.ok a)) [] rest a := fun _ _ => rfl

/-- One reader takes the front of a text and the next what is behind it. -/
theorem Takes.bind {reader : Reader α} {f : α → Reader β} {more : Text}
    (h : Takes reader text (more ++ rest) a) (hf : Takes (f a) more rest b) :
    Takes (reader >>= f) (text ++ more) rest b := by
  intro behind past
  rw [EStateM.run_bind, List.append_assoc, h behind past, List.reverse_append, List.append_assoc]
  exact hf _ past

/-- A chain that takes the rest of the text. -/
theorem Takes.bind_end {reader : Reader α} {f : α → Reader β} {more : Text}
    (h : Takes reader text more a) (hf : Takes (f a) more [] b) :
    Takes (reader >>= f) (text ++ more) [] b := by
  refine Takes.bind ?_ hf
  rwa [List.append_nil]

/-- What is made of a text, with nothing taken any more. -/
theorem Takes.map {reader : Reader α} {f : α → Reader β} (h : Takes reader text rest a)
    (hf : Takes (f a) [] rest b) : Takes (reader >>= f) text rest b := by
  have hbind : Takes (reader >>= f) (text ++ []) rest b := Takes.bind h hf
  rwa [List.append_nil] at hbind

/-- A look at the next character takes nothing, and goes on with what it shows. -/
theorem takes_peek {f : Option Char → Reader β} (next : Option Char)
    (hnext : (text ++ rest).head? = next) (h : Takes (f next) text rest b) :
    Takes (peek >>= f) text rest b := by
  subst hnext
  exact fun behind past => h behind past

/-- So it is for a look at the character behind the next. -/
theorem takes_peekSecond {f : Option Char → Reader β} (next : Option Char)
    (hnext : (text ++ rest).tail.head? = next) (h : Takes (f next) text rest b) :
    Takes (peekSecond >>= f) text rest b := by
  subst hnext
  exact fun behind past => h behind past

/-- Counting what is ahead takes nothing, and goes on with the count. -/
theorem takes_remaining {f : Nat → Reader β} (h : Takes (f (text ++ rest).length) text rest b) :
    Takes (remaining >>= f) text rest b :=
  fun behind past => h behind past

/-- A skipped character is taken. -/
theorem takes_skip {c : Char} {f : Unit → Reader β} (h : Takes (f ()) text rest b) :
    Takes (skip >>= f) (c :: text) rest b := by
  intro behind past
  have hrest := h (c :: behind) past
  simpa [Cursor.next] using hrest

/-- A taken character is passed on. -/
theorem takes_take {c : Char} {f : Option Char → Reader β} (h : Takes (f (some c)) text rest b) :
    Takes (take >>= f) (c :: text) rest b := by
  intro behind past
  have hrest := h (c :: behind) past
  simpa [Cursor.next, Cursor.head?] using hrest

theorem takes_requireEnd : Takes requireEnd [] [] () := fun _ _ => rfl

/-- A loop takes the texts of its items, if its step takes each of them in front of the others and
stops behind the last. -/
theorem Repeats.takes {ι : Type} {loop : Nat → Reader (List α)} {step : Reader (Option α)}
    (h : Repeats loop step) {shown : ι → Text} {value : ι → α} {items : List ι}
    (htake : ∀ before item after, items = before ++ item :: after →
      Takes step (shown item) (after.flatMap shown ++ rest) (some (value item)))
    (hstop : Takes step [] rest none) {fuel : Nat} (hfuel : items.length ≤ fuel) :
    Takes (loop fuel) (items.flatMap shown) rest (items.map value) := by
  induction fuel generalizing items with
  | zero =>
      obtain rfl : items = [] := List.length_eq_zero_iff.mp (by omega)
      rw [h.zero]
      exact takes_pure
  | succ fuel ih =>
      rw [h.succ]
      cases items with
      | nil => exact hstop.map takes_pure
      | cons item more =>
          have hlater : Takes (loop fuel) (more.flatMap shown) rest (more.map value) :=
            ih (fun before next after hmore =>
              htake (item :: before) next after (by rw [hmore, List.cons_append]))
              (by simpa using hfuel)
          exact (htake [] item more rfl).bind (hlater.map takes_pure)

end Steps

/-! ## Numbers and conditions -/

/-- Whether a text does not go on with an integer. -/
def EndsInteger (rest : Text) : Prop := ∀ c ∈ rest.head?, isIntegerCharacter c = false

theorem endsInteger_nil : EndsInteger [] := by simp [EndsInteger]

/-- A written integer is read where no integer goes on. -/
theorem takes_readInteger (n : WrittenInteger) {rest : Text} (h : EndsInteger rest) :
    Takes readInteger n.text rest n.value := by
  have hnumeral : Takes readNumeral n.text rest n.text :=
    fun behind past => run_readNumeral n.literal h behind past
  refine hnumeral.map ?_
  rw [n.read_text]
  exact takes_lift_ok

/-- A written integer begins as integers do. -/
theorem head?_integer (n : WrittenInteger) (rest : Text) :
    ∃ c, (n.text ++ rest).head? = some c ∧ isIntegerCharacter c = true := by
  cases htext : n.text with
  | nil => exact absurd htext (Outline.isOperand_of_isLiteral n.literal).ne_nil
  | cons c text =>
      have hc := Outline.mem_of_isLiteral n.literal (c := c) (by simp [htext])
      exact ⟨c, rfl, by simpa [isIntegerCharacter] using hc⟩

/-- No mark of a comparison belongs to an integer. -/
theorem isIntegerCharacter_mark (comparison : Comparison) :
    isIntegerCharacter comparison.mark = false := by
  cases comparison <;> rfl

/-- A mark of a comparison begins a condition. -/
theorem isConditionCharacter_mark (comparison : Comparison) :
    isConditionCharacter comparison.mark = true := by
  cases comparison <;> rfl

/-- A written condition is read where no integer goes on. -/
theorem takes_readCondition (c : WrittenCondition) {rest : Text} (h : EndsInteger rest) :
    Takes readCondition c.text rest c.condition := by
  unfold readCondition
  refine takes_peek (some c.comparison.mark) rfl ?_
  rw [if_neg (by simp [isIntegerCharacter_mark])]
  refine takes_take ?_
  dsimp only
  rw [Comparison.ofMark?_mark]
  exact (takes_readInteger c.target h).map takes_pure

/-- A number alone is a condition of equality. -/
theorem takes_readCondition_number (n : WrittenNumber) {rest : Text} (h : EndsInteger rest) :
    Takes readCondition n.text rest ⟨.equal, n.value⟩ := by
  obtain ⟨d, hhead, hd⟩ := head?_integer n.toWrittenInteger rest
  unfold readCondition
  refine takes_peek (some d) hhead ?_
  rw [if_pos (by simpa using hd)]
  exact (takes_readInteger n.toWrittenInteger h).map takes_pure

/-- Texts that begin as conditions do, and are read as conditions where no integer goes on. -/
structure ShowsConditions {κ : Type} (shown : κ → Text) (condition : κ → Condition) : Prop where
  head : ∀ c rest, ∃ d, (shown c ++ rest).head? = some d ∧ isConditionCharacter d = true
  takes : ∀ c {rest}, EndsInteger rest → Takes readCondition (shown c) rest (condition c)

/-- Written conditions show their conditions. -/
theorem shows_written : ShowsConditions WrittenCondition.text WrittenCondition.condition where
  head c _ := ⟨c.comparison.mark, rfl, isConditionCharacter_mark c.comparison⟩
  takes c _ h := takes_readCondition c h

/-- A number begins as conditions do. -/
theorem head?_number (n : WrittenNumber) (rest : Text) :
    ∃ d, (n.text ++ rest).head? = some d ∧ isConditionCharacter d = true := by
  obtain ⟨d, hhead, hd⟩ := head?_integer n.toWrittenInteger rest
  exact ⟨d, hhead, by simp [isConditionCharacter, hd]⟩

/-- Written points show their conditions. -/
theorem shows_point : ShowsConditions WrittenPoint.text WrittenPoint.condition where
  head point rest := by
    cases point with
    | compared c => exact shows_written.head c rest
    | alone n => exact head?_number n rest
  takes point _ h := by
    cases point with
    | compared c => exact takes_readCondition c h
    | alone n => exact takes_readCondition_number n h

/-- A condition is read where one is shown. -/
theorem ShowsConditions.takes_readCondition? {κ : Type} {shown : κ → Text} {condition : κ → Condition}
    (hshown : ShowsConditions shown condition) (c : κ) {rest : Text} (h : EndsInteger rest) :
    Takes readCondition? (shown c) rest (some (condition c)) := by
  obtain ⟨d, hhead, hd⟩ := hshown.head c rest
  unfold readCondition?
  refine takes_peek (some d) hhead ?_
  rw [if_pos (by simpa using hd)]
  exact (hshown.takes c h).map takes_pure

/-- A character that begins a condition is none that does not. -/
theorem ne_of_isConditionCharacter {c d : Char} (hc : isConditionCharacter c = true)
    (hd : isConditionCharacter d = false) : c ≠ d := by
  rintro rfl
  simp [hc] at hd

/-- The mark of a comparison is no other character. -/
theorem mark_ne {c : Char} (h : Outline.isComparison c = false) (comparison : Comparison) :
    comparison.mark ≠ c := by
  rintro rfl
  cases comparison <;> simp [Comparison.mark, Outline.isComparison] at h

/-! ## Chains of conditions -/

/-- The first of a chain of conditions stands behind its mark. -/
theorem chainText_cons (mark : Text) (c : WrittenCondition) (more : List WrittenCondition) :
    chainText mark (c :: more) = mark ++ (c.text ++ chainText mark more) := by
  rw [chainText, List.flatMap_cons, List.append_assoc, chainText]

/-- A chain is as long as it has items. -/
theorem length_le_flatMap {κ : Type} {item : κ → Text} (hitem : ∀ c, item c ≠ []) (items : List κ) :
    items.length ≤ (items.flatMap item).length := by
  induction items with
  | nil => exact Nat.zero_le _
  | cons c more ih =>
      have hpos := List.length_pos_iff.mpr (hitem c)
      simp only [List.flatMap_cons, List.length_append, List.length_cons]
      omega

/-- Every condition of a chain takes a character at least. -/
theorem length_le_chainText (mark : Text) (conditions : List WrittenCondition) :
    conditions.length ≤ (chainText mark conditions).length :=
  length_le_flatMap (fun c => by simp [WrittenCondition.text]) conditions

/-- An integer ends before any other character. -/
theorem endsInteger_cons {c : Char} (hc : isIntegerCharacter c = false) (text : Text) :
    EndsInteger (c :: text) := by
  simpa [EndsInteger] using hc

/-- An integer ends before the mark of a reroll. -/
theorem endsInteger_rerollMark (once : Bool) (later : Text) :
    EndsInteger (rerollMark once ++ later) := by
  cases once with
  | false => exact endsInteger_cons rfl _
  | true => exact endsInteger_cons rfl _

/-- An integer ends before the mark of a selection. -/
theorem endsInteger_selectMark (keep : Bool) (later : Text) :
    EndsInteger ([selectMark keep] ++ later) := by
  cases keep with
  | false => exact endsInteger_cons rfl _
  | true => exact endsInteger_cons rfl _

/-- An integer ends before items that each end one, if it ends behind them. -/
theorem endsInteger_flatMap {κ : Type} {item : κ → Text}
    (hitem : ∀ c later, EndsInteger (item c ++ later)) (items : List κ) {rest : Text}
    (hrest : EndsInteger rest) : EndsInteger (items.flatMap item ++ rest) := by
  cases items with
  | nil => exact hrest
  | cons c more =>
      rw [List.flatMap_cons, List.append_assoc]
      exact hitem c _

/-- An integer ends before more conditions of a reroll. -/
theorem endsInteger_rerolls (once : Bool) (conditions : List WrittenCondition) {rest : Text}
    (hrest : EndsInteger rest) : EndsInteger (chainText (rerollMark once) conditions ++ rest) := by
  refine endsInteger_flatMap (fun c later => ?_) conditions hrest
  rw [List.append_assoc]
  exact endsInteger_rerollMark once _

/-- An integer ends before more conditions of a selection. -/
theorem endsInteger_selections {κ : Type} (shown : κ → Text) (keep : Bool) (conditions : List κ)
    {rest : Text} (hrest : EndsInteger rest) :
    EndsInteger ((conditions.flatMap fun c => selectMark keep :: shown c) ++ rest) :=
  endsInteger_flatMap (fun c later => endsInteger_selectMark keep (shown c ++ later)) conditions
    hrest

/-! ## Explosions -/

/-- Whether a text does not go on with more of an explosion: behind a point with more of its integer,
and behind none with a point, or with a second mark where there is one only. -/
def EndsExplosion (explosion : Explosion) (point : Option WrittenPoint) (rest : Text) : Prop :=
  match point with
  | some _ => EndsInteger rest
  | none => ∀ c ∈ rest.head?,
      isConditionCharacter c = false ∧ (explosion = .regular → c ≠ '!' ∧ c ≠ 'p')

/-- A point is read where there is one. -/
theorem takes_readPoint {explosion : Explosion} {point : Option WrittenPoint} {rest : Text}
    (h : EndsExplosion explosion point rest) :
    Takes readCondition? (pointText point) rest (point.map WrittenPoint.condition) := by
  cases point with
  | some point => exact shows_point.takes_readCondition? point h
  | none =>
      have hnone : rest.head?.any isConditionCharacter = false :=
        (Option.any_eq_false ..).mpr fun c hc => (h c hc).1
      unfold readCondition?
      refine takes_peek rest.head? rfl ?_
      rw [if_neg (by simp [hnone])]
      exact takes_pure

/-- Behind the mark of a regular explosion stands no other mark of an explosion. -/
theorem head?_pointText_ne {point : Option WrittenPoint} {rest : Text}
    (h : EndsExplosion .regular point rest) :
    (pointText point ++ rest).head? ≠ some '!' ∧ (pointText point ++ rest).head? ≠ some 'p' := by
  cases point with
  | some point =>
      obtain ⟨d, hhead, hd⟩ := shows_point.head point rest
      have hbang : d ≠ '!' := ne_of_isConditionCharacter hd rfl
      have hp : d ≠ 'p' := ne_of_isConditionCharacter hd rfl
      change (point.text ++ rest).head? ≠ _ ∧ (point.text ++ rest).head? ≠ _
      rw [hhead]
      simp [hbang, hp]
  | none =>
      constructor
      · exact fun hhead => ((h '!' hhead).2 rfl).1 rfl
      · exact fun hhead => ((h 'p' hhead).2 rfl).2 rfl

/-- An explosion is read with its point, if there is one. -/
theorem takes_readExplosion {explosion : Explosion} {point : Option WrittenPoint} {rest : Text}
    (h : EndsExplosion explosion point rest) :
    Takes readExplosion (explosion.mark ++ pointText point) rest
      (.explode explosion (point.map WrittenPoint.condition)) := by
  have hpoint := takes_readPoint h
  unfold readExplosion
  cases explosion with
  | regular =>
      obtain ⟨hbang, hp⟩ := head?_pointText_ne h
      change Takes _ ('!' :: pointText point) rest _
      refine takes_take ?_
      rw [if_neg (by simp)]
      refine takes_peek _ rfl ?_
      simp only [hbang, hp, if_false, ne_eq, not_true_eq_false]
      exact hpoint.map takes_pure
  | compounding =>
      change Takes _ ('!' :: '!' :: pointText point) rest _
      refine takes_take ?_
      rw [if_neg (by simp)]
      refine takes_peek (some '!') rfl ?_
      refine takes_skip ?_
      exact hpoint.map takes_pure
  | penetrating =>
      change Takes _ ('!' :: 'p' :: pointText point) rest _
      refine takes_take ?_
      rw [if_neg (by simp)]
      refine takes_peek (some 'p') rfl ?_
      refine takes_skip ?_
      exact hpoint.map takes_pure

/-! ## Rerolls -/

/-- Whether a text does not go on with a condition of a reroll. -/
def EndsReroll (once : Bool) (rest : Text) : Prop :=
  rest.head? = some 'r' → (rest.tail.head? == some 'o') ≠ once

/-- A further condition of a reroll is told by the mark before it. -/
theorem takes_readRerollCondition? (once : Bool) (c : WrittenCondition) {rest : Text}
    (hrest : EndsInteger rest) :
    Takes (readRerollCondition? once) (rerollMark once ++ c.text) rest (some c.condition) := by
  have hcondition := (takes_readCondition c hrest).map (f := fun c => pure (some c)) takes_pure
  unfold readRerollCondition?
  cases once with
  | false =>
      change Takes _ ('r' :: c.text) rest _
      refine takes_peek (some 'r') rfl ?_
      rw [if_neg (by simp)]
      refine takes_peekSecond (some c.comparison.mark) rfl ?_
      rw [if_neg (by simpa using mark_ne rfl c.comparison)]
      exact takes_skip hcondition
  | true =>
      change Takes _ ('r' :: 'o' :: c.text) rest _
      refine takes_peek (some 'r') rfl ?_
      rw [if_neg (by simp)]
      refine takes_peekSecond (some 'o') rfl ?_
      rw [if_neg (by simp)]
      refine takes_skip ?_
      exact takes_skip hcondition

/-- A reroll of the other kind may follow; the reader tells by the `o`. -/
theorem takes_readRerollCondition?_none {once : Bool} {rest : Text} (hends : EndsReroll once rest) :
    Takes (readRerollCondition? once) [] rest none := by
  unfold readRerollCondition?
  refine takes_peek rest.head? rfl ?_
  by_cases hr : rest.head? = some 'r'
  · rw [if_neg (by simp [hr])]
    refine takes_peekSecond rest.tail.head? rfl ?_
    rw [if_pos (by simpa using hends hr)]
    exact takes_pure
  · rw [if_pos (by simpa using hr)]
    exact takes_pure

/-- Further conditions of a reroll are read to the last. -/
theorem takes_readRerollConditions (once : Bool) (more : List WrittenCondition) {rest : Text}
    (hrest : EndsInteger rest) (hends : EndsReroll once rest) {fuel : Nat}
    (hfuel : more.length ≤ fuel) :
    Takes (readRerollConditions once fuel) (chainText (rerollMark once) more) rest
      (more.map WrittenCondition.condition) := by
  refine (repeats_readRerollConditions once).takes ?_ (takes_readRerollCondition?_none hends) hfuel
  intro before c after _
  have hnext := endsInteger_rerolls once after hrest
  exact takes_readRerollCondition? once c hnext

/-- A written reroll is read with all its conditions. -/
theorem takes_readReroll (once : Bool) (first : WrittenCondition) (more : List WrittenCondition)
    {rest : Text} (hrest : EndsInteger rest) (hends : EndsReroll once rest) :
    Takes readReroll (chainText (rerollMark once) (first :: more)) rest
      (.reroll ((first :: more).map WrittenCondition.condition) once) := by
  have hnext := endsInteger_rerolls once more hrest
  have hmore : Takes (do
      let condition ← readCondition
      let more ← readRerollConditions once (← remaining)
      return Modifier.reroll (condition :: more) once)
      (first.text ++ chainText (rerollMark once) more) rest
      (.reroll ((first :: more).map WrittenCondition.condition) once) := by
    refine (takes_readCondition first hnext).bind (takes_remaining ?_)
    refine (takes_readRerollConditions once more hrest hends ?_).map takes_pure
    have hlength := length_le_chainText (rerollMark once) more
    rw [List.length_append]
    omega
  unfold readReroll
  rw [chainText_cons]
  cases once with
  | false =>
      change Takes _ ('r' :: (first.text ++ chainText (rerollMark false) more)) rest _
      refine takes_take ?_
      rw [if_neg (by simp)]
      refine takes_peek (some first.comparison.mark) rfl ?_
      have hmark : (some first.comparison.mark == some 'o') = false := by
        simpa using mark_ne rfl first.comparison
      simp only [hmark]
      exact hmore
  | true =>
      change Takes _ ('r' :: 'o' :: (first.text ++ chainText (rerollMark true) more)) rest _
      refine takes_take ?_
      rw [if_neg (by simp)]
      refine takes_peek (some 'o') rfl ?_
      refine takes_skip ?_
      exact hmore

/-! ## Selections -/

/-- Whether a text does not go on with a condition of a selection. -/
def EndsSelect (keep : Bool) (rest : Text) : Prop :=
  rest.head? = some (selectMark keep) →
    rest.tail.head? = some 'h' ∨ rest.tail.head? = some 'l'

/-- A selection by size may follow, with the same mark. -/
theorem takes_readSelectCondition?_none {keep : Bool} {rest : Text} (hends : EndsSelect keep rest) :
    Takes (readSelectCondition? (selectMark keep)) [] rest none := by
  unfold readSelectCondition?
  refine takes_peek rest.head? rfl ?_
  by_cases hmark : rest.head? = some (selectMark keep)
  · rw [if_neg (by simp [hmark])]
    refine takes_peekSecond rest.tail.head? rfl ?_
    rw [if_pos (hends hmark)]
    exact takes_pure
  · rw [if_pos (by simpa using hmark)]
    exact takes_pure

section Conditions

variable {κ : Type} {shown : κ → Text} {condition : κ → Condition}
  (hshown : ShowsConditions shown condition) (keep : Bool)
include hshown

/-- A further condition of a selection is told by the mark before it. -/
theorem takes_readSelectCondition? (c : κ) {rest : Text} (hrest : EndsInteger rest) :
    Takes (readSelectCondition? (selectMark keep)) (selectMark keep :: shown c) rest
      (some (condition c)) := by
  obtain ⟨d, hhead, hd⟩ := hshown.head c rest
  have hh : d ≠ 'h' := ne_of_isConditionCharacter hd rfl
  have hl : d ≠ 'l' := ne_of_isConditionCharacter hd rfl
  unfold readSelectCondition?
  refine takes_peek (some (selectMark keep)) rfl ?_
  rw [if_neg (by simp)]
  refine takes_peekSecond (some d) hhead ?_
  rw [if_neg (by simp [hh, hl])]
  refine takes_skip ?_
  exact (hshown.takes c hrest).map takes_pure

/-- Further conditions of a selection are read to the last. -/
theorem takes_readSelectConditions (more : List κ) {rest : Text} (hrest : EndsInteger rest)
    (hends : EndsSelect keep rest) {fuel : Nat} (hfuel : more.length ≤ fuel) :
    Takes (readSelectConditions (selectMark keep) fuel)
      (more.flatMap fun c => selectMark keep :: shown c) rest (more.map condition) := by
  refine (repeats_readSelectConditions _).takes ?_ (takes_readSelectCondition?_none hends) hfuel
  intro before c after _
  exact takes_readSelectCondition? hshown keep c (endsInteger_selections shown keep after hrest)

/-- A written selection by conditions is read with all of them. -/
theorem takes_readSelection_meeting (first : κ) (more : List κ) {rest : Text}
    (hrest : EndsInteger rest) (hends : EndsSelect keep rest) :
    Takes readSelection ((first :: more).flatMap fun c => selectMark keep :: shown c) rest
      (.select keep (.meeting ((first :: more).map condition))) := by
  have hnext := endsInteger_selections shown keep more hrest
  have hlength : more.length ≤ (more.flatMap fun c => selectMark keep :: shown c).length :=
    length_le_flatMap (by simp) more
  have hothers : ∀ {fuel}, more.length ≤ fuel → Takes (readSelectConditions (selectMark keep) fuel)
      (more.flatMap fun c => selectMark keep :: shown c) rest (more.map condition) :=
    takes_readSelectConditions hshown keep more hrest hends
  rw [List.flatMap_cons]
  generalize (more.flatMap fun c => selectMark keep :: shown c) = later at *
  obtain ⟨d, hhead, hd⟩ := hshown.head first (later ++ rest)
  have hh : d ≠ 'h' := ne_of_isConditionCharacter hd rfl
  have hl : d ≠ 'l' := ne_of_isConditionCharacter hd rfl
  have hmore : Takes (do
      let condition ← readCondition
      let more ← readSelectConditions (selectMark keep) (← remaining)
      return Modifier.select keep (.meeting (condition :: more)))
      (shown first ++ later) rest (.select keep (.meeting ((first :: more).map condition))) := by
    refine (hshown.takes first hnext).bind (takes_remaining ?_)
    refine (hothers ?_).map takes_pure
    rw [List.length_append]
    omega
  unfold readSelection
  change Takes _ (selectMark keep :: (shown first ++ later)) rest _
  refine takes_take ?_
  rw [if_neg (by cases keep <;> simp [selectMark])]
  refine takes_peek (some d) (by rwa [List.append_assoc]) ?_
  rw [if_neg (by simp [hh, hl])]
  cases keep with
  | false => exact hmore
  | true => exact hmore

end Conditions

/-- A count is read where there is one, and is one where there is none. -/
theorem takes_count {β : Type} {f : Int → Reader β} {b : β} (count : Option WrittenNumber)
    {rest : Text} (hrest : EndsInteger rest) (hf : Takes (f (countValue count)) [] rest b) :
    Takes (peek >>= fun next =>
      if next.any isIntegerCharacter then readInteger >>= f else pure 1 >>= f)
      (countText count) rest b := by
  cases count with
  | some count =>
      obtain ⟨c, hhead, hc⟩ := head?_integer count.toWrittenInteger rest
      refine takes_peek (some c) hhead ?_
      rw [if_pos (by simpa using hc)]
      exact (takes_readInteger count.toWrittenInteger hrest).map hf
  | none =>
      have hnone : rest.head?.any isIntegerCharacter = false := (Option.any_eq_false ..).mpr hrest
      refine takes_peek rest.head? rfl ?_
      rw [if_neg (by simp [hnone])]
      exact takes_pure.map hf

/-- A selection by size is read with its count, or as of one if there is none. -/
theorem takes_readSelection_extreme (keep highest : Bool) (count : Option WrittenNumber)
    {rest : Text} (hrest : EndsInteger rest) :
    Takes readSelection (selectMark keep :: (if highest then 'h' else 'l') :: countText count) rest
      (.select keep (.extreme highest (countValue count))) := by
  unfold readSelection
  refine takes_take ?_
  rw [if_neg (by cases keep <;> simp [selectMark])]
  refine takes_peek (some (if highest then 'h' else 'l')) rfl ?_
  rw [if_pos (by cases highest <;> simp)]
  refine takes_skip ?_
  refine takes_count count hrest ?_
  dsimp only
  rw [if_neg (Int.not_lt.mpr (countValue_nonneg count))]
  cases keep <;> cases highest <;> exact takes_pure

end Leaf

/-! ## Modifiers -/

namespace WrittenModifier

open Leaf

/-- Whether a text does not go on with more of a modifier. -/
def EndsAt : WrittenModifier → Text → Prop
  | explode explosion point, rest => EndsExplosion explosion point rest
  | reroll once _ _, rest => EndsInteger rest ∧ EndsReroll once rest
  | meeting keep _ _, rest => EndsInteger rest ∧ EndsSelect keep rest
  | extreme _ _ _, rest => EndsInteger rest

end WrittenModifier

namespace Leaf

/-- A selection is read as a modifier. -/
theorem Takes.selection {keep : Bool} {text rest : Text} {modifier : Modifier}
    (h : Takes readSelection (selectMark keep :: text) rest modifier) :
    Takes readModifier? (selectMark keep :: text) rest (some modifier) := by
  unfold readModifier?
  refine takes_peek (some (selectMark keep)) rfl ?_
  cases keep with
  | false => exact h.map takes_pure
  | true => exact h.map takes_pure

/-- A modifier is read, if what follows is not more of it. -/
theorem takes_readModifier? (m : WrittenModifier) {rest : Text} (h : m.EndsAt rest) :
    Takes readModifier? m.text rest (some m.modifier) := by
  cases m with
  | explode explosion point =>
      unfold readModifier?
      refine takes_peek (some '!') (by cases explosion <;> rfl) ?_
      exact (takes_readExplosion h).map takes_pure
  | reroll once first more =>
      unfold readModifier?
      refine takes_peek (some 'r') (by cases once <;> rfl) ?_
      exact (takes_readReroll once first more h.1 h.2).map takes_pure
  | meeting keep first more =>
      exact (takes_readSelection_meeting shows_written keep first more h.1 h.2).selection
  | extreme keep highest count => exact (takes_readSelection_extreme keep highest count h).selection

/-- The characters with which modifiers begin. -/
def modifierMarks : Text := ['!', 'r', 'k', 'd']

/-- Whether a text does not go on with a modifier. -/
def EndsModifiers (rest : Text) : Prop := ∀ c ∈ rest.head?, c ∉ modifierMarks

/-- Where no modifier goes on, none is read. -/
theorem takes_readModifier?_none {rest : Text} (h : EndsModifiers rest) :
    Takes readModifier? [] rest none := by
  have hne : ∀ c ∈ modifierMarks, rest.head? ≠ some c := fun c hc hhead => h c hhead hc
  have hbang := hne '!' (by decide)
  have hr := hne 'r' (by decide)
  have hk := hne 'k' (by decide)
  have hd := hne 'd' (by decide)
  unfold readModifier?
  refine takes_peek rest.head? rfl ?_
  rw [if_neg hbang, if_neg hr, if_neg (by simp [hk, hd])]
  exact takes_pure

/-- An integer ends before a written modifier. -/
theorem endsInteger_text (m : WrittenModifier) (rest : Text) : EndsInteger (m.text ++ rest) := by
  cases m with
  | explode explosion c => cases explosion <;> exact endsInteger_cons rfl _
  | reroll once first more => cases once <;> exact endsInteger_cons rfl _
  | meeting keep first more => cases keep <;> exact endsInteger_cons rfl _
  | extreme keep highest count => cases keep <;> exact endsInteger_cons rfl _

/-- Only another chain of the kind goes on with conditions of a reroll. -/
theorem endsReroll_text {once : Bool} {m : WrittenModifier}
    (h : ∀ first more, m ≠ .reroll once first more) (rest : Text) :
    EndsReroll once (m.text ++ rest) := by
  intro hhead
  cases m with
  | explode explosion c =>
      cases explosion <;> simp [WrittenModifier.text, Explosion.mark] at hhead
  | reroll once' first more =>
      have hmark : first.comparison.mark ≠ 'o' := mark_ne rfl _
      cases once <;> cases once'
      · exact absurd rfl (h first more)
      · simp [WrittenModifier.text, chainText_cons, rerollMark]
      · simp [WrittenModifier.text, chainText_cons, rerollMark, WrittenCondition.text, hmark]
      · exact absurd rfl (h first more)
  | meeting keep first more =>
      cases keep <;> simp [WrittenModifier.text, chainText_cons, selectMark] at hhead
  | extreme keep highest count =>
      cases keep <;> simp [WrittenModifier.text, selectMark] at hhead

/-- Only another chain of the kind goes on with conditions of a selection. -/
theorem endsSelect_text {keep : Bool} {m : WrittenModifier}
    (h : ∀ first more, m ≠ .meeting keep first more) (rest : Text) :
    EndsSelect keep (m.text ++ rest) := by
  intro hhead
  cases m with
  | explode explosion c =>
      cases explosion <;> cases keep <;>
        simp [WrittenModifier.text, Explosion.mark, selectMark] at hhead
  | reroll once first more =>
      cases once <;> cases keep <;>
        simp [WrittenModifier.text, chainText_cons, rerollMark, selectMark] at hhead
  | meeting keep' first more =>
      cases keep <;> cases keep'
      · exact absurd rfl (h first more)
      · simp [WrittenModifier.text, chainText_cons, selectMark] at hhead
      · simp [WrittenModifier.text, chainText_cons, selectMark] at hhead
      · exact absurd rfl (h first more)
  | extreme keep' highest count => cases highest <;> simp [WrittenModifier.text]

/-- Only an explosion goes on with the mark of one. -/
theorem endsExplosion_text {explosion : Explosion} {point : Option WrittenPoint}
    {next : WrittenModifier} (h : ¬ (WrittenModifier.explode explosion point).Continues next)
    (rest : Text) : EndsExplosion explosion point (next.text ++ rest) := by
  cases point with
  | some point => exact endsInteger_text next rest
  | none =>
      intro c hc
      cases next with
      | explode explosion' point' =>
          obtain rfl : '!' = c := by cases explosion' <;> exact Option.some.inj hc
          refine ⟨rfl, ?_⟩
          rintro rfl
          exact absurd trivial h
      | reroll once first more =>
          obtain rfl : 'r' = c := by cases once <;> exact Option.some.inj hc
          exact ⟨rfl, fun _ => by decide⟩
      | meeting keep first more =>
          obtain rfl : selectMark keep = c := Option.some.inj hc
          cases keep <;> exact ⟨rfl, fun _ => by decide⟩
      | extreme keep highest count =>
          obtain rfl : selectMark keep = c := Option.some.inj hc
          cases keep <;> exact ⟨rfl, fun _ => by decide⟩

/-- Behind a modifier that it does not continue, a modifier ends it. -/
theorem endsAt_text {m next : WrittenModifier} (h : ¬ m.Continues next) (rest : Text) :
    m.EndsAt (next.text ++ rest) := by
  have hinteger := endsInteger_text next rest
  cases m with
  | explode explosion point => exact endsExplosion_text h rest
  | extreme keep highest count => exact hinteger
  | reroll once first more =>
      refine ⟨hinteger, endsReroll_text ?_ rest⟩
      rintro first' more' rfl
      exact h rfl
  | meeting keep first more =>
      refine ⟨hinteger, endsSelect_text ?_ rest⟩
      rintro first' more' rfl
      exact h rfl

/-- Modifiers are read to the last of them, if none continues the one before and what follows
continues none. -/
theorem takes_readModifiers (modifiers : List WrittenModifier)
    (hseparate : modifiers.IsChain fun first second => ¬ first.Continues second) {rest : Text}
    (hlast : ∀ last ∈ modifiers.getLast?, last.EndsAt rest) (hmodifiers : EndsModifiers rest)
    {fuel : Nat} (hfuel : modifiers.length ≤ fuel) :
    Takes (readModifiers fuel) (modifiers.flatMap WrittenModifier.text) rest
      (modifiers.map WrittenModifier.modifier) := by
  refine repeats_readModifiers.takes ?_ (takes_readModifier?_none hmodifiers) hfuel
  rintro before m after rfl
  have hchain := hseparate.right_of_append
  -- What follows is the next modifier, or else what stands behind all of them.
  have hends : m.EndsAt (after.flatMap WrittenModifier.text ++ rest) := by
    cases after with
    | nil => exact hlast m (by simp)
    | cons next after =>
        rw [List.flatMap_cons, List.append_assoc]
        exact endsAt_text (List.isChain_cons_cons.mp hchain).1 _
  exact takes_readModifier? m hends

/-! ## Scores -/

/-- What is written for a score goes on with neither an integer nor a modifier. -/
theorem ends_scoreText (score : Option WrittenScore) :
    EndsInteger (scoreText score) ∧ EndsModifiers (scoreText score) := by
  have hcondition : ∀ (c : WrittenCondition) (rest : Text),
      EndsInteger (c.text ++ rest) ∧ EndsModifiers (c.text ++ rest) := by
    intro c rest
    refine ⟨endsInteger_cons (isIntegerCharacter_mark _) _, ?_⟩
    intro d hd
    obtain rfl : c.comparison.mark = d := Option.some.inj hd
    cases c.comparison <;> decide
  cases score with
  | none => simp [scoreText, EndsInteger, EndsModifiers]
  | some score =>
      cases score with
      | groups counted =>
          cases counted <;>
            simp [scoreText, WrittenScore.text, EndsInteger, EndsModifiers, modifierMarks,
              isIntegerCharacter]
      | successes success failure =>
          cases failure with
          | none =>
              have hends := hcondition success []
              rwa [List.append_nil] at hends
          | some failure => exact hcondition success ('f' :: failure.text)

/-- A score that a modifier does not take for its point ends the modifier. -/
theorem endsAt_scoreText {m : WrittenModifier} {score : Option WrittenScore}
    (h : ∀ written ∈ score, ¬ m.TakesIn written) : m.EndsAt (scoreText score) := by
  obtain ⟨hinteger, hmodifiers⟩ := ends_scoreText score
  cases m with
  | extreme keep highest count => exact hinteger
  | reroll once first more =>
      exact ⟨hinteger, fun hhead => absurd (by decide) (hmodifiers 'r' hhead)⟩
  | meeting keep first more =>
      refine ⟨hinteger, fun hhead => absurd ?_ (hmodifiers _ hhead)⟩
      cases keep <;> decide
  | explode explosion point =>
      cases point with
      | some point => exact hinteger
      | none =>
          intro c hc
          rcases score with _ | counted | ⟨success, failure⟩
          · cases hc
          · obtain rfl : 'm' = c := by cases counted <;> exact Option.some.inj hc
            exact ⟨rfl, fun _ => by decide⟩
          · exact absurd trivial (h _ rfl)

/-- Successes are counted behind a condition, and failures behind the mark of failure. -/
theorem takes_readScore?_successes {κ : Type} {shown : κ → Text} {condition : κ → Condition}
    (hshown : ShowsConditions shown condition) (success : κ) (failure : Option κ) :
    Takes readScore? (shown success ++ (failure.map fun c => 'f' :: shown c).getD []) []
      (some (.successes (condition success) (failure.map condition))) := by
  unfold readScore?
  obtain ⟨d, hhead, hd⟩ :=
    hshown.head success ((failure.map fun c => 'f' :: shown c).getD [] ++ [])
  have hm : d ≠ 'm' := ne_of_isConditionCharacter hd rfl
  refine takes_peek (some d) (by rwa [List.append_assoc]) ?_
  rw [if_neg (by simpa using hm), if_pos (by simpa using hd)]
  cases failure with
  | none => exact (hshown.takes success endsInteger_nil).bind_end (takes_peek none rfl takes_pure)
  | some failure =>
      refine (hshown.takes success (endsInteger_cons rfl _)).bind_end ?_
      refine takes_peek (some 'f') rfl ?_
      refine takes_skip ?_
      exact (hshown.takes failure endsInteger_nil).map takes_pure

/-- A score is read to the end of the text. -/
theorem takes_readScore? (score : Option WrittenScore) :
    Takes readScore? (scoreText score) [] (score.map WrittenScore.score) := by
  rcases score with _ | counted | ⟨success, failure⟩
  · exact takes_peek none rfl takes_pure
  · cases counted with
    | false =>
        change Takes _ ['m'] [] _
        refine takes_peek (some 'm') rfl ?_
        refine takes_skip ?_
        exact takes_peek none rfl takes_pure
    | true =>
        change Takes _ ['m', 't'] [] _
        refine takes_peek (some 'm') rfl ?_
        refine takes_skip ?_
        refine takes_peek (some 't') rfl ?_
        exact takes_skip takes_pure
  · have hsuccesses := takes_readScore?_successes shows_written success failure
    cases failure with
    | none => rwa [Option.map_none, Option.getD_none, List.append_nil] at hsuccesses
    | some failure => exact hsuccesses

/-! ## Dice -/

/-- Written faces are read as dice of the count in front of them. -/
theorem takes_readDie (count : Int) (faces : WrittenFaces) {rest : Text}
    (hrest : EndsInteger rest) :
    Takes (readDie count) ('d' :: faces.text) rest (faces.dice count) := by
  unfold readDie
  refine takes_take ?_
  dsimp only
  rw [if_neg (by simp)]
  cases faces with
  | upTo sides positive =>
      obtain ⟨c, hhead, hc⟩ := head?_integer sides.toWrittenInteger rest
      refine takes_peek (some c) hhead ?_
      dsimp only
      rw [if_pos hc]
      refine (takes_readInteger sides.toWrittenInteger hrest).map ?_
      rw [if_neg (Int.not_lt.mpr positive)]
      exact takes_pure
  | fudge =>
      refine takes_peek (some 'f') rfl ?_
      dsimp only
      rw [if_neg (by decide), if_pos rfl]
      exact takes_skip takes_pure

/-- Every modifier is written as a character at least. -/
theorem length_le_modifiersText (modifiers : List WrittenModifier) :
    modifiers.length ≤ (modifiers.flatMap WrittenModifier.text).length := by
  induction modifiers with
  | nil => exact Nat.zero_le _
  | cons m more ih =>
      have hpos : 0 < m.text.length := by
        cases m with
        | explode explosion c => cases explosion <;> simp [WrittenModifier.text, Explosion.mark]
        | reroll once first more =>
            cases once <;> simp [WrittenModifier.text, chainText_cons, rerollMark]
        | meeting keep first more => simp [WrittenModifier.text, chainText_cons]
        | extreme keep highest count => simp [WrittenModifier.text]
      simp only [List.flatMap_cons, List.length_append, List.length_cons]
      omega

/-- Behind the count, dice are read to the end of the text, as their modifiers and score are. -/
theorem takes_readDice_parts {count : Int} (hcount : 0 ≤ count) (faces : WrittenFaces)
    {shown scored : Text} {modifiers : List Modifier} {score : Option Score}
    (hends : EndsInteger (shown ++ scored))
    (hmodifiers : Takes (readModifiers (shown ++ scored).length) shown scored modifiers)
    (hscore : Takes readScore? scored [] score) :
    Takes (readDice count) ('d' :: (faces.text ++ (shown ++ scored))) []
      (((faces.dice count).withModifiers modifiers).withScore score) := by
  unfold readDice
  rw [if_neg (Int.not_lt.mpr hcount)]
  refine (takes_readDie count faces hends).bind_end ?_
  refine takes_remaining ?_
  rw [List.append_nil]
  refine hmodifiers.bind_end ?_
  refine hscore.map ?_
  exact takes_requireEnd.map takes_pure

/-- A count is taken, and then the dice behind it are read. -/
theorem run_readLeaf_count (count : WrittenNumber) (later behind : Text) (past : Nat) :
    readLeaf.run ⟨behind, count.text ++ 'd' :: later, past⟩ =
      (readDice count.value).run ⟨count.text.reverse ++ behind, 'd' :: later, past⟩ := by
  obtain ⟨c, hhead, hc⟩ := head?_integer count.toWrittenInteger ('d' :: later)
  have hnumeral := run_readNumeral count.literal (endsInteger_cons (c := 'd') rfl later) behind past
  have hne : c ≠ 'd' := by
    rintro rfl
    simp [isIntegerCharacter] at hc
  simp [readLeaf, Cursor.requireMore, Cursor.head?, hhead, hne, hnumeral, count.read_text,
    -bind_pure_comp]

/-- A leaf that begins with a count is read as dice of that count. -/
theorem takes_readLeaf_count (count : WrittenNumber) {later : Text} {e : Expression}
    (h : Takes (readDice count.value) ('d' :: later) [] e) :
    Takes readLeaf (count.text ++ 'd' :: later) [] e := by
  intro behind past
  have hdice := h (count.text.reverse ++ behind) past
  rw [List.append_nil] at hdice ⊢
  rw [run_readLeaf_count, hdice, List.reverse_append, List.append_assoc]

/-- Dice without a count are read as one. -/
theorem takes_readLeaf_one {later : Text} {e : Expression}
    (h : Takes (readDice 1) ('d' :: later) [] e) : Takes readLeaf ('d' :: later) [] e := by
  intro behind past
  have hdice := h behind past
  rw [List.append_nil] at hdice ⊢
  rw [← hdice]
  rfl

/-- Written dice are read behind their count. -/
theorem takes_readDice (w : WrittenDice) :
    Takes (readDice (countValue w.count))
      ('d' :: (w.faces.text ++ (w.modifiers.flatMap WrittenModifier.text ++ scoreText w.score))) []
      w.expression := by
  obtain ⟨hinteger, hmodifiers⟩ := ends_scoreText w.score
  have hfaces : EndsInteger (w.modifiers.flatMap WrittenModifier.text ++ scoreText w.score) := by
    cases w.modifiers with
    | nil => exact hinteger
    | cons m more =>
        rw [List.flatMap_cons, List.append_assoc]
        exact endsInteger_text m _
  have hfuel : w.modifiers.length ≤
      (w.modifiers.flatMap WrittenModifier.text ++ scoreText w.score).length := by
    have hlength := length_le_modifiersText w.modifiers
    rw [List.length_append]
    omega
  have hlast : ∀ last ∈ w.modifiers.getLast?, last.EndsAt (scoreText w.score) :=
    fun last hlast => endsAt_scoreText (w.apart last hlast)
  exact takes_readDice_parts (countValue_nonneg w.count) w.faces hfaces
    (takes_readModifiers w.modifiers w.separate hlast hmodifiers hfuel) (takes_readScore? w.score)

/-- Written dice are read as the expression they show. -/
theorem takes_readLeaf (w : WrittenDice) : Takes readLeaf w.text [] w.expression := by
  have hdice := takes_readDice w
  obtain ⟨count, faces, modifiers, separate, score, apart⟩ := w
  cases count with
  | none => exact takes_readLeaf_one hdice
  | some count => exact takes_readLeaf_count count hdice

end Leaf
end DiceNotation

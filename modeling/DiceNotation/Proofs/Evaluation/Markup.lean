import DiceNotation.Proofs.Expression.Legible
import DiceNotation.Proofs.Sorting.Keys

/-!
# Markup and evaluation

Markup has no part in a roll.  The same text on the same table comes to the same end whatever
the markup: the same value of the same kind, or the same fault, after the same dice and draws.
The two audit texts differ in marks only.

The two runs are followed side by side.  What they have yielded at any place differs in the texts
of outcomes only, so that whatever looks at values, at what is discarded, or at whether there is a
text goes the same way in both.

Main results:

- `Score.agree_apply`, `Value.Renders.select`: scores and selections do not look at texts.
- `Expression.agree_evaluate`: the two evaluations of a legible expression agree.
- `Expression.resolve_agree`: so do the outcomes of every text.
-/

namespace DiceNotation

open Markup

/-! ## Scores -/

namespace Score

variable {plain marked : Outcome} {plains markeds : List Outcome}

/-- Groups of outcomes that show one trail. -/
abbrev GroupsRender : List (List Outcome) → List (List Outcome) → Prop :=
  List.Forall₂ (List.Forall₂ Outcome.Renders)

/-- Outcomes of one trail go to groups of one trail. -/
theorem insertGroup_renders {groups groups' : List (List Outcome)}
    (h : GroupsRender groups groups') (hentry : plain.Renders marked) :
    GroupsRender (insertGroup groups plain) (insertGroup groups' marked) := by
  induction h with
  | nil => exact .cons (.cons hentry .nil) .nil
  | @cons group group' rest rest' hgroup hrest ih =>
      have hhead : (group.head?.any fun first => first.value.eqv plain.value) =
          group'.head?.any fun first => first.value.eqv marked.value := by
        cases hgroup with
        | nil => rfl
        | cons hfirst _ => simp [hfirst.value, hentry.value]
      rw [insertGroup, insertGroup, hhead]
      split
      · exact .cons (List.rel_append hgroup (.cons hentry .nil)) hrest
      · exact .cons hgroup ih

/-- Equal values come together whatever their texts. -/
theorem groupsOf_renders (h : List.Forall₂ Outcome.Renders plains markeds) :
    GroupsRender (groupsOf plains) (groupsOf markeds) := by
  have hstep : Relator.LiftFun GroupsRender (Relator.LiftFun Outcome.Renders GroupsRender)
      insertGroup insertGroup :=
    fun _ _ hgroups _ _ hentry => insertGroup_renders hgroups hentry
  exact List.rel_foldl hstep .nil h

/-- Groups of one trail are ranked alike. -/
theorem smallerGroup_of_renders (a b a' b' : List Outcome)
    (ha : List.Forall₂ Outcome.Renders a a') (hb : List.Forall₂ Outcome.Renders b b') :
    smallerGroup a b = smallerGroup a' b' := by
  rw [smallerGroup, smallerGroup, ha.length_eq, hb.length_eq]
  cases ha with
  | nil => rfl
  | cons hfirst _ =>
      cases hb with
      | nil => rfl
      | cons hother _ => simp [hfirst.value, hother.value]

/-- The groups come in the same order whatever their texts. -/
theorem rankedGroups_renders (h : List.Forall₂ Outcome.Renders plains markeds) :
    GroupsRender (rankedGroups plains) (rankedGroups markeds) := by
  have hlive : List.Forall₂ Outcome.Renders (plains.filter fun entry => !entry.discarded)
      (markeds.filter fun entry => !entry.discarded) :=
    List.rel_filter (fun _ _ hentry => by simp [hentry.discarded]) h
  have hcomparable := Outcome.map_eq_of_renders (f := fun entry => !entry.value.isNan)
    (fun _ _ hentry => by rw [hentry.value]) hlive
  have hall := congrArg (fun flags : List Bool => flags.all id) hcomparable
  simp only [List.all_map, Function.id_comp] at hall
  simp only [rankedGroups, hall]
  exact Sorting.forall₂_descending smallerGroup_of_renders _ (groupsOf_renders hlive)

/-- Matching outcomes of one trail gives one trail. -/
theorem agree_matching (counted : Bool) (h : List.Forall₂ Outcome.Renders plains markeds) :
    Agree Outcome.Renders (matching counted plains) (matching counted markeds) := by
  have hempty : plains.isEmpty = markeds.isEmpty := by cases h <;> rfl
  have hgroups := rankedGroups_renders h
  have hdiscarded : List.Forall₂ Outcome.Renders (plains.filter Outcome.discarded)
      (markeds.filter Outcome.discarded) :=
    List.rel_filter (fun _ _ hentry => by simp [hentry.discarded]) h
  have htext := Outcome.listText_renders (List.rel_append (List.rel_flatten hgroups) hdiscarded)
  have hseveral : ((rankedGroups plains).filter fun group => group.length > 1).length =
      ((rankedGroups markeds).filter fun group => group.length > 1).length := by
    refine (List.rel_filter (fun _ _ hgroup => ?_) hgroups).length_eq
    simp [hgroup.length_eq]
  have hvalues := Outcome.map_eq_of_renders (fun _ _ hentry => hentry.value)
    (List.rel_flatten hgroups)
  cases counted with
  | true =>
      simp only [matching, hempty, if_true, hseveral]
      split
      · exact agree_error.mpr rfl
      · exact ⟨rfl, rfl, rfl, htext⟩
  | false =>
      simp only [matching, hempty, Bool.false_eq_true, if_false, hvalues]
      split
      · exact agree_error.mpr rfl
      · refine (agree_eq _).bind ?_
        rintro value _ rfl
        exact ⟨rfl, rfl, rfl, htext⟩

/-- Marks of scores show one trail. -/
theorem Mark.renders_show (mark : Mark) (isDie : Bool) (h : plain.Renders marked) :
    (mark.show .plain isDie plain).Renders (mark.show .markdown isDie marked) := by
  have hscores : ∀ c ∈ ['_', '_'], isMark c = true := List.all_eq_true.mp rfl
  have hstar : ∀ c ∈ ['*'], isMark c = true := List.all_eq_true.mp rfl
  cases mark with
  | success => exact ⟨h.value, h.kind, h.discarded, h.text.aroundDie hscores isDie⟩
  | failure => exact ⟨h.value, h.kind, h.discarded, h.text.aroundDie hstar isDie⟩
  | neither => exact h

/-- Counting outcomes of one trail gives one trail. -/
theorem agree_counting (success : Condition) (failure : Option Condition) (isDie : Bool)
    (h : List.Forall₂ Outcome.Renders plains markeds) :
    Agree Outcome.Renders (counting success failure .plain isDie plains)
      (counting success failure .markdown isDie markeds) := by
  have hempty : plains.isEmpty = markeds.isEmpty := by cases h <;> rfl
  have hmarks := Outcome.map_eq_of_renders (f := markOf success failure)
    (fun _ _ hentry => by rw [markOf, markOf, hentry.discarded, hentry.value]) h
  have hshown : ∀ marks : List Mark, List.Forall₂ Outcome.Renders
      (List.zipWith (fun mark entry => mark.show .plain isDie entry) marks plains)
      (List.zipWith (fun mark entry => mark.show .markdown isDie entry) marks markeds) := by
    intro marks
    have hcomm : ∀ (markup : Markup) (entries : List Outcome),
        List.zipWith (fun mark entry => Mark.show mark markup isDie entry) marks entries =
          List.zipWith (fun entry mark => Mark.show mark markup isDie entry) entries marks :=
      fun _ _ => List.zipWith_comm
    rw [hcomm, hcomm]
    exact Outcome.zipWith_renders (fun mark _ _ hentry => Mark.renders_show mark isDie hentry) h _
  unfold counting
  rw [hempty, hmarks]
  split
  · exact agree_error.mpr rfl
  · exact ⟨rfl, rfl, rfl, Outcome.listText_renders (hshown _)⟩

/-- A score does not look at texts. -/
theorem agree_apply (score : Score) (isDie : Bool)
    (h : List.Forall₂ Outcome.Renders plains markeds) :
    Agree Outcome.Renders (score.apply .plain isDie plains)
      (score.apply .markdown isDie markeds) := by
  cases score with
  | groups counted => exact agree_matching counted h
  | successes success failure => exact agree_counting success failure isDie h

end Score

/-! ## Selections -/

/-- A selection does not look at texts. -/
theorem Value.Renders.select {plain marked : Value} (h : plain.Renders marked) (keep : Bool)
    (selector : Selector) :
    (plain.select keep selector .plain).Renders (marked.select keep selector .markdown) := by
  cases h with
  | single h => exact .single h
  | pool dice => exact .pool _
  | list h =>
      have hstandings := Outcome.map_eq_of_renders (f := Outcome.standing)
        (fun _ _ hentry => by rw [Outcome.standing, Outcome.standing, hentry.value,
          hentry.discarded]) h
      rw [Value.select, Value.select, hstandings]
      refine .list (Outcome.zipWith_renders (fun discard plain marked hentry => ?_) h _)
      cases discard with
      | false => exact hentry
      | true => exact hentry.discard

/-! ## Operations -/

/-- The name of a function has no marks. -/
theorem UnaryOp.agree_outcome (op : UnaryOp) {plain marked : Outcome}
    (h : plain.Renders marked) : Agree Outcome.Renders (op.outcome plain) (op.outcome marked) := by
  have hname : ∀ c ∈ op.name ++ ['('], isOrdinary c = true := by
    cases op <;> exact List.all_eq_true.mp rfl
  have hclose : ∀ c ∈ [')'], isOrdinary c = true := List.all_eq_true.mp rfl
  rw [UnaryOp.outcome, UnaryOp.outcome, h.value]
  refine (agree_eq _).bind ?_
  rintro value _ rfl
  exact ⟨rfl, h.kind, h.discarded, ((Markup.Renders.self hname).append h.text).append (.self hclose)⟩

/-- An operator on outcomes of one trail gives one trail. -/
theorem BinaryOp.agree_outcome (op : BinaryOp) {left left' right right' : Outcome}
    (hleft : left.Renders left') (hright : right.Renders right') :
    Agree Outcome.Renders (op.outcome .plain left right) (op.outcome .markdown left' right') := by
  have hsymbol : op.symbol = ['*'] ∨ ∀ c ∈ op.symbol, isOrdinary c = true := by
    cases op with
    | multiply => exact .inl rfl
    | _ => exact .inr (List.all_eq_true.mp rfl)
  have hspace : ∀ c ∈ [' '], isOrdinary c = true := List.all_eq_true.mp rfl
  rw [BinaryOp.outcome, BinaryOp.outcome, hleft.value, hright.value, hleft.kind, hright.kind]
  refine (agree_eq _).bind ?_
  rintro value _ rfl
  refine ⟨rfl, rfl, rfl, ?_⟩
  exact (((hleft.text.append (.self hspace)).append (.operator op.symbol hsymbol)).append
    (.self hspace)).append hright.text

/-! ## Evaluation -/

namespace Expression

variable {table : Table}

/-- Rolled dice are of one trail. -/
theorem agree_rollAnnounced (count : Int) (faces : Faces) :
    Roll.Agree Value.Renders (rollAnnounced table count faces)
      (rollAnnounced table count faces) := by
  unfold rollAnnounced
  refine (Roll.agree_eq _).bind fun _ _ _ => (Roll.agree_eq _).bind ?_
  rintro dice _ rfl
  exact Roll.agree_pure (.pool dice)

/-- A modifier does not look at texts. -/
theorem agree_modify (modifier : Modifier) {plain marked : Value} (h : plain.Renders marked) :
    Roll.Agree Value.Renders (modify table .plain modifier plain)
      (modify table .markdown modifier marked) := by
  cases modifier with
  | explode explosion condition =>
      rw [modify, modify, h.dice_eq]
      refine (Roll.agree_eq _).bind ?_
      rintro dice _ rfl
      exact Roll.agree_pure (.pool dice)
  | reroll conditions once =>
      rw [modify, modify, h.dice_eq]
      refine (Roll.agree_eq _).bind ?_
      rintro dice _ rfl
      exact Roll.agree_pure (.pool dice)
  | select keep selector => exact Roll.agree_pure (h.select keep selector)

/-- Scores of values of one trail are of one trail. -/
theorem agree_scoreOf (score : Score) (isDie : Bool) {plain marked : Value}
    (h : plain.Renders marked) :
    Roll.Agree Value.Renders (scoreOf .plain score isDie plain)
      (scoreOf .markdown score isDie marked) := by
  unfold scoreOf
  refine (Roll.agree_lift h.entries).bind fun plains markeds hentries => ?_
  refine (Roll.agree_lift (score.agree_apply isDie hentries)).bind fun plain marked houtcome => ?_
  exact Roll.agree_pure (.single houtcome)

mutual

/-- The two evaluations of a legible expression agree. -/
theorem agree_evaluate {e : Expression} (h : e.Legible) :
    Roll.Agree Value.Renders (evaluate table .plain e) (evaluate table .markdown e) := by
  cases e with
  | dice count least greatest =>
      unfold evaluate
      exact agree_rollAnnounced count _
  | customDice count faces =>
      unfold evaluate
      exact agree_rollAnnounced count _
  | number value text =>
      rw [Legible] at h
      unfold evaluate
      rw [if_neg (by simpa using h.1)]
      exact Roll.agree_pure (.single ⟨rfl, rfl, rfl, .self h.2⟩)
  | modified modifier operand =>
      rw [Legible] at h
      unfold evaluate
      refine (Roll.agree_eq _).bind fun _ _ _ => ?_
      exact (agree_evaluate h).bind fun _ _ hvalue => agree_modify modifier hvalue
  | scored score operand =>
      rw [Legible] at h
      unfold evaluate
      refine (Roll.agree_eq _).bind fun _ _ _ => ?_
      exact (agree_evaluate h).bind fun _ _ hvalue => agree_scoreOf score _ hvalue
  | bracket content =>
      rw [Legible] at h
      unfold evaluate
      exact (agree_evaluate h).bind fun _ _ hvalue => Roll.agree_pure hvalue.bracketed
  | list entries =>
      rw [Legible] at h
      unfold evaluate
      exact (agree_evaluateEntries h).bind fun _ _ hentries => Roll.agree_pure (.list hentries)
  | unary op operand =>
      rw [Legible] at h
      unfold evaluate
      refine (agree_evaluate h).bind fun _ _ hvalue => ?_
      refine (Roll.agree_lift hvalue.collapse).bind fun _ _ houtcome => ?_
      refine (Roll.agree_lift (op.agree_outcome houtcome)).bind fun _ _ hresult => ?_
      exact Roll.agree_pure (.single hresult)
  | binary op left right =>
      rw [Legible] at h
      unfold evaluate
      split
      · refine (agree_evaluate h.1).bind fun _ _ hfirst => ?_
        refine (agree_evaluate h.2).bind fun _ _ hsecond => ?_
        rw [hfirst.dice_eq, hsecond.dice_eq]
        exact Roll.agree_pure (.pool _)
      · refine (agree_evaluate h.1).bind fun _ _ hfirst => ?_
        refine (Roll.agree_lift hfirst.collapse).bind fun _ _ hleft => ?_
        refine (agree_evaluate h.2).bind fun _ _ hsecond => ?_
        refine (Roll.agree_lift hsecond.collapse).bind fun _ _ hright => ?_
        refine (Roll.agree_lift (op.agree_outcome hleft hright)).bind fun _ _ hresult => ?_
        exact Roll.agree_pure (.single hresult)

/-- Entries are evaluated to outcomes of one trail. -/
theorem agree_evaluateEntries {entries : List Expression} (h : AllLegible entries) :
    Roll.Agree (List.Forall₂ Outcome.Renders) (evaluateEntries table .plain entries)
      (evaluateEntries table .markdown entries) := by
  cases entries with
  | nil => exact Roll.agree_pure .nil
  | cons entry rest =>
      rw [AllLegible] at h
      unfold evaluateEntries
      refine (agree_evaluate h.1).bind fun _ _ hvalue => ?_
      refine (Roll.agree_lift hvalue.collapse).bind fun _ _ houtcome => ?_
      refine (agree_evaluateEntries h.2).bind fun _ _ hothers => ?_
      exact Roll.agree_pure (.cons houtcome hothers)

end

/-- Markup has no part in a roll.  With either markup a text has the same value of the same kind,
or the same fault, after the same dice and draws, and the two audit texts show the same trail. -/
theorem resolve_agree (table : Table) (text : Text) :
    Roll.Agree
      (fun plain marked => plain.value = marked.value ∧ plain.kind = marked.kind ∧
        unmarked marked.text = unstruck plain.text)
      (resolve table .plain text) (resolve table .markdown text) := by
  unfold resolve
  cases hparse : parse text with
  | error fault => exact Roll.agree_lift (x := .error fault) (y := .error fault) (agree_error.mpr rfl)
  | ok e? =>
      cases e? with
      | none => exact Roll.agree_pure ⟨rfl, rfl, rfl⟩
      | some e =>
          refine (agree_evaluate (legible_of_parse hparse)).bind fun _ _ hvalue => ?_
          refine (Roll.agree_lift hvalue.collapse).imp fun plain marked houtcome => ?_
          exact ⟨houtcome.value, houtcome.kind, houtcome.text.shown.unmarked_eq⟩

end Expression
end DiceNotation

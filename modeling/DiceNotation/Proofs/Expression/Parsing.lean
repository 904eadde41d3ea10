import DiceNotation.Proofs.Expression.Reading
import DiceNotation.Proofs.Outline.Parts

/-!
# Parsing

A text is read as a well-formed expression, or its fault is a malformation or a numeral
that is too long.  As leaves and suffixes stand in the text, so do the places of all faults and all
long numerals.

Main definitions:

- `Fault.IsUnreadable`: the faults of texts that cannot be read.
- `Expression.IsFaultOf`: the faults of a leaf or suffix that is read on its own.

Main results:

- `Outline.gives_ofText`: texts whose outline is not found are malformed, at places in them.
- `Expression.gives_parse`: what texts are read as.
-/

namespace DiceNotation

/-- Whether a fault is that of a text that cannot be read. -/
def Fault.IsUnreadable : Fault → Prop
  | .malformed .. => True
  | .numeralTooLong => True
  | _ => False

/-- Whether a fault is a malformation. -/
def Fault.IsMalformation : Fault → Prop
  | .malformed .. => True
  | _ => False

/-- A fault in a text is that of a text that cannot be read. -/
theorem Leaf.Blames.isUnreadable {text : Text} {fault : Fault} (h : Blames text fault) :
    fault.IsUnreadable := by
  cases fault with
  | malformed | numeralTooLong => trivial
  | _ => exact h.elim

/-- What is wrong with a part of a text is wrong with the text. -/
theorem Leaf.Blames.mono {part text : Text} {fault : Fault} (h : Blames part fault)
    (hpart : part <:+: text) : Blames text fault := by
  have hlength := hpart.length_le
  cases fault with
  | malformed cause place? =>
      cases place? with
      | none => trivial
      | some place =>
          refine ⟨h.1, Int.le_trans h.2 ?_⟩
          exact_mod_cast hlength
  | numeralTooLong =>
      obtain ⟨front, back, rfl⟩ := hpart
      obtain ⟨before, digits, after, rfl, hdigits, hlong⟩ := h
      exact ⟨front ++ before, digits, after ++ back, by simp, hdigits, hlong⟩
  | _ => exact h.elim

/-! ## Outlines -/

namespace Outline

section Outlines

variable {E : Fault → Prop} (hE : ∀ cause, ¬ cause.IsStray → E (.malformed cause none))
include hE

/-- What holds of a level below holds of operators that group to the left. -/
theorem gives_chain {operators : Text} {operand : Text → Except Fault Outline}
    (h : ∀ text, Gives (operand text) (fun _ => True) E) (before : Outline)
    (pieces : List Piece) :
    Gives (chain operators operand before pieces) (fun _ => True) E := by
  fun_induction chain operators operand before pieces with
  | case1 => trivial
  | case2 => exact hE _ id
  | case3 => trivial
  | case4 before piece symbol next rest hsymbol ih =>
      exact (h next.text).bind fun right _ _ => ih right

/-- A level fails with the faults of its operands, or is malformed. -/
theorem gives_level {operators : Text} {operand : Text → Except Fault Outline}
    (h : ∀ text, Gives (operand text) (fun _ => True) E) (pieces : List Piece) :
    Gives (level operators operand pieces) (fun _ => True) E := by
  unfold level
  split
  · trivial
  · split
    · exact gives_chain hE h _ _
    · exact (h _).bind fun first _ _ => gives_chain hE h first _

/-- Arithmetic is read, or is malformed. -/
theorem gives_ofMath (text : Text) (afterGroup : Bool) :
    Gives (ofMath text afterGroup) (fun _ => True) E :=
  gives_level hE (fun _ => gives_level hE (fun _ => gives_ok.mpr trivial) _) _

/-- Elements with the text behind them are read, or malformed. -/
theorem gives_elementsWith (elements : List Outline) (buffer : Text) :
    Gives (elementsWith elements buffer) (fun _ => True) E := by
  unfold elementsWith
  split
  · trivial
  · exact (gives_ofMath hE _ _).bind fun _ _ _ => trivial

/-- Linking fails with a malformation only. -/
theorem gives_link (elements : List Outline) : Gives (link elements) (fun _ => True) E := by
  unfold link
  rw [gives_bind]
  refine (Gives.foldlM (P := fun _ => True) trivial ?_).imp (fun _ _ _ => trivial) fun _ h => h
  intro linked element _ _
  unfold linkNext
  split
  · trivial
  · split
    · trivial
    · split
      · trivial
      · trivial
      · exact hE _ id

/-- Taking the content of a bracket or an entry fails with a malformation only. -/
theorem gives_content (walk : Walk) : Gives walk.content (fun _ => True) E := by
  unfold Walk.content
  refine (gives_elementsWith hE _ _).bind ?_
  intro elements _ _
  refine (gives_link hE elements).bind ?_
  intro linked _ _
  split
  · exact hE _ id
  · trivial

variable {walk : Walk} (hplace : ∀ cause, ¬ cause.IsStray → E (walk.fault cause))
include hplace

/-- A step outside a suffix fails at the place of its character, if at any. -/
theorem gives_pass (c : Char) : Gives (walk.pass c) (fun _ => True) E := by
  unfold Walk.pass
  split
  · unfold Walk.openBracket
    exact (gives_elementsWith hE _ _).bind fun _ _ _ => trivial
  · split
    · unfold Walk.openList
      dsimp only
      split
      · exact hplace _ id
      · exact (gives_elementsWith hE _ _).bind fun _ _ _ => trivial
    · split
      · unfold Walk.close
        split
        · exact hplace _ id
        · split
          · exact hplace _ id
          · exact (gives_content hE walk).bind fun _ _ _ => trivial
        · split
          · exact hplace _ id
          · refine (gives_content hE walk).bind ?_
            intro content _ _
            dsimp only
            split <;> trivial
      · trivial

/-- A step fails at the place of its character, if at any. -/
theorem gives_step (c : Char) : Gives (walk.step c) (fun _ => True) E := by
  unfold Walk.step
  split
  · exact gives_pass hE hplace c
  · split
    · trivial
    · refine gives_pass hE ?_ c
      simpa [Walk.fault] using hplace

/-- The end of a walk fails at its place, if at all. -/
theorem gives_finish : Gives walk.finish (fun _ => True) E := by
  unfold Walk.finish
  dsimp only
  split
  · exact (gives_content hE _).bind fun _ _ _ => trivial
  · change E (walk.settle.fault .bracketNotClosed)
    simpa [Walk.fault] using hplace .bracketNotClosed id

omit hplace in
/-- An outline that is not found is at fault at a place that a walk has come to, if at any, and
never for a character that was not expected. -/
theorem gives_ofText_of {text : Text}
    (hplace : ∀ (read : Text) (walk : Walk), read.foldlM Walk.step {} = .ok walk →
      read.length ≤ text.length → ∀ cause, ¬ cause.IsStray → E (walk.fault cause)) :
    Gives (ofText text) (fun _ => True) E := by
  unfold ofText
  have hrun : Gives (text.foldlM Walk.step {}) (fun _ => True) E := by
    refine Gives.foldlM_reached ?_
    intro read walk c rest htext hwalk
    exact gives_step hE (hplace read walk hwalk (by simp [htext])) c
  refine hrun.bind ?_
  intro walk hwalk _
  exact gives_finish hE (hplace text walk hwalk (Nat.le_refl _))

end Outlines

/-- A text whose outline is not found is malformed, at a place in it if at any; the leaves and
suffixes of the outline stand in the text. -/
theorem gives_ofText (text : Text) :
    Gives (ofText text) (fun outline => outline.PartOf text)
      fun fault => fault.IsMalformation ∧ Leaf.Blames text fault := by
  have hends : Gives (ofText text) (fun _ => True)
      fun fault => fault.IsMalformation ∧ Leaf.Blames text fault := by
    refine gives_ofText_of (fun _ _ => ⟨trivial, trivial⟩) ?_
    intro read walk hwalk hlength cause _
    have hread := place_of_walk hwalk
    refine ⟨trivial, ?_⟩
    change (0 : Int) ≤ walk.place ∧ (walk.place : Int) ≤ text.length
    omega
  exact hends.imp (fun outline houtline _ => partOf_ofText houtline) fun _ h => h

/-- No outline is missed for a character that was not expected. -/
theorem not_isStray_ofText (text : Text) :
    Gives (ofText text) (fun _ => True) fun fault => ¬ fault.IsStray :=
  gives_ofText_of (fun _ h => h) fun _ _ _ _ _ h => h

end Outline

/-! ## Expressions -/

namespace Expression

/-- A name is that of a function with a meaning. -/
theorem ofName?_ne_undefined {name : Text} {op : UnaryOp} (h : UnaryOp.ofName? name = some op) :
    op ≠ .undefined := by
  have hmem := List.mem_of_find?_eq_some h
  rintro rfl
  simp at hmem

/-- A symbol is that of an operator with a meaning. -/
theorem ofSymbol?_ne_undefined {symbol : Text} {op : BinaryOp}
    (h : BinaryOp.ofSymbol? symbol = some op) : op ≠ .undefined := by
  have hmem := List.mem_of_find?_eq_some h
  rintro rfl
  simp at hmem

/-- Whether a fault is that of a leaf or of a suffix that is read on its own. -/
def IsFaultOf (part : Text) (fault : Fault) : Prop :=
  ofLeaf part = .error fault ∨ ∃ operand : Expression, operand.withSuffix part = .error fault

section Parts

variable {E : Fault → Prop}

/-- Well-formed entries make a well-formed list, with any suffix that is read. -/
theorem gives_listed {entries : List Expression} (h : AllWellFormed entries) {suffix : Text}
    (hsuffix : ∀ fault, IsFaultOf suffix fault → Leaf.Finds suffix fault → E fault) :
    Gives (listed entries suffix) WellFormed E := by
  have hread : ∀ operand : Expression, operand.WellFormed → operand.shape ≠ .number →
      Gives (operand.withSuffix suffix) WellFormed E := by
    intro operand hoperand hshape
    exact (gives_withSuffix hoperand hshape suffix).imp_error fun fault heq =>
      hsuffix fault (.inr ⟨operand, heq⟩)
  have hlist : Gives ((Expression.list entries).withSuffix suffix) WellFormed E :=
    hread _ (by rwa [WellFormed]) (by simp [shape])
  unfold listed
  split
  · next entry =>
      split
      · next hshape =>
          rw [AllWellFormed] at h
          exact hread _ h.1 (by simp [hshape])
      · exact hlist
  · exact hlist

/-- Well-formed entries make a well-formed bracket or list. -/
theorem gives_ofGroup (hE : ∀ cause, ¬ cause.IsStray → E (.malformed cause none))
    {enclosure : Enclosure} {entries : List Expression} (h : AllWellFormed entries)
    (hsuffix : ∀ fault, IsFaultOf enclosure.suffix fault → Leaf.Finds enclosure.suffix fault →
      E fault) :
    Gives (ofGroup enclosure entries) WellFormed E := by
  unfold ofGroup
  split
  · exact gives_listed h hsuffix
  · split
    · next content =>
        rw [AllWellFormed] at h
        unfold enclosed
        split
        · rw [gives_ok, WellFormed]
          exact h.1
        · split
          · next op hop =>
              rw [gives_ok, WellFormed]
              exact ⟨ofName?_ne_undefined hop, h.1⟩
          · exact hE _ id
    · exact hE _ id

mutual

/-- An outline is read as a well-formed expression, or a fault is found in one of its parts. -/
theorem gives_ofOutline (hE : ∀ cause, ¬ cause.IsStray → E (.malformed cause none))
    {outline : Outline}
    (hparts : ∀ part, outline.HasPart part →
      ∀ fault, IsFaultOf part fault → Leaf.Finds part fault → E fault) :
    Gives (ofOutline outline) WellFormed E := by
  cases outline with
  | empty => exact hE _ id
  | leaf part =>
      rw [ofOutline]
      split
      · exact hE _ id
      · exact (gives_ofLeaf part).imp_error fun fault heq => hparts part rfl fault (.inl heq)
  | math symbol left right =>
      rw [ofOutline]
      split
      · exact hE _ id
      · split
        · exact hE _ id
        · next op hop =>
            refine (gives_ofOutline hE fun part h => hparts part (.inl h)).bind ?_
            intro first _ hfirst
            refine (gives_ofOutline hE fun part h => hparts part (.inr h)).bind ?_
            intro second _ hsecond
            rw [pure_eq_ok, gives_ok, WellFormed]
            exact ⟨ofSymbol?_ne_undefined hop, hfirst, hsecond⟩
  | group enclosure elements =>
      rw [ofOutline, gives_bind]
      refine (gives_ofOutlines hE fun part h => hparts part (.inr h)).imp ?_ fun _ h => h
      exact fun _ _ h => gives_ofGroup hE h (hparts _ (.inl rfl))

/-- So are several. -/
theorem gives_ofOutlines (hE : ∀ cause, ¬ cause.IsStray → E (.malformed cause none))
    {outlines : List Outline}
    (hparts : ∀ part, Outline.AnyHasPart part outlines →
      ∀ fault, IsFaultOf part fault → Leaf.Finds part fault → E fault) :
    Gives (ofOutlines outlines) AllWellFormed E := by
  cases outlines with
  | nil => exact gives_ok.mpr (by rw [AllWellFormed]; trivial)
  | cons element rest =>
      rw [ofOutlines, gives_bind]
      refine (gives_ofOutline hE fun part h => hparts part (.inl h)).imp ?_ fun _ h => h
      intro first _ hfirst
      refine (gives_ofOutlines hE fun part h => hparts part (.inr h)).bind ?_
      intro others _ hothers
      rw [pure_eq_ok, gives_ok, AllWellFormed]
      exact ⟨hfirst, hothers⟩

end

end Parts

/-- A text is read as a well-formed expression, if there is any text, or a fault is found in it. -/
theorem gives_parse (text : Text) :
    Gives (parse text) (fun e? => ∀ e ∈ e?, e.WellFormed) (Leaf.Blames text.standardize) := by
  unfold parse parseStandard
  rw [gives_bind]
  refine (Outline.gives_ofText _).imp ?_ fun _ h => h.2
  intro outline _ hpart
  split
  · exact gives_ok.mpr (by simp)
  · refine (gives_ofOutline (fun _ _ => trivial) ?_).bind ?_
    · exact fun part h fault _ hfault => hfault.blames.mono (h.isInfix hpart)
    · intro e _ he
      exact gives_ok.mpr (by simpa using he)

end Expression
end DiceNotation

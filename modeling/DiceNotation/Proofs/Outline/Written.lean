import DiceNotation.Proofs.Outline.Moves

/-!
# Text without brackets, written again

The outline of text without brackets stands for just that text, so text that is not empty
has an outline that is not an empty slot.

Main results:

- `Outline.level_induction`: what holds of operands and is kept by operators.
- `Outline.written_ofMath`: the outline of text without brackets stands for that text.
- `Outline.isEmpty_ofMath`: it is an empty slot only if there is no text.
-/

namespace DiceNotation
namespace Outline

/-! ## Levels -/

section Levels

variable {operators : Text} {operand : Text → Except Fault Outline}

/-- The symbol of a piece is its whole text. -/
theorem Piece.text_of_symbol? {piece : Piece} {symbol : Char}
    (h : piece.symbol? operators = some symbol) : piece.text = [symbol] := by
  unfold Piece.symbol? at h
  split at h
  · next c htext =>
      split at h
      · cases h
        exact htext
      · simp at h
  · simp at h

/-- The symbol of a piece is one of the level. -/
theorem Piece.mem_of_symbol? {piece : Piece} {symbol : Char}
    (h : piece.symbol? operators = some symbol) : symbol ∈ operators := by
  unfold Piece.symbol? at h
  split at h
  · split at h
    · next hc =>
        cases h
        simpa using hc
    · simp at h
  · simp at h

section Induction

variable {P : Outline → Text → Prop} (hempty : P .empty [])
  (hmath : ∀ symbol ∈ operators, ∀ left right s t, P left s → P right t →
    P (.math [symbol] left right) (s ++ [symbol] ++ t))
  (hoperand : ∀ text outline, operand text = .ok outline → P outline text)

include hempty hmath hoperand

/-- What holds of operands and their texts, and is kept by operators, holds of a chain. -/
theorem chain_induction {pieces : List Piece} {before outline : Outline} {text : Text}
    (hbefore : P before text) (h : chain operators operand before pieces = .ok outline) :
    P outline (text ++ Piece.texts pieces) := by
  fun_induction chain operators operand before pieces generalizing text with
  | case1 before =>
      cases h
      simpa using hbefore
  | case2 => simp at h
  | case3 before piece symbol hsymbol =>
      cases h
      have hnext := hmath symbol (Piece.mem_of_symbol? hsymbol) _ _ _ _ hbefore hempty
      simpa [Piece.text_of_symbol? hsymbol] using hnext
  | case4 before piece symbol next rest hsymbol ih =>
      rw [bind_eq_ok_iff] at h
      obtain ⟨right, hright, hrest⟩ := h
      have hnext := hmath symbol (Piece.mem_of_symbol? hsymbol) _ _ _ _ hbefore
        (hoperand _ _ hright)
      simpa [Piece.text_of_symbol? hsymbol] using ih right hnext hrest

/-- What holds of operands and their texts, and is kept by operators, holds of a level. -/
theorem level_induction {pieces : List Piece} {outline : Outline}
    (h : level operators operand pieces = .ok outline) : P outline (Piece.texts pieces) := by
  cases pieces with
  | nil =>
      cases h
      exact hempty
  | cons piece rest =>
      rw [level] at h
      split at h
      · have hchain := chain_induction hempty hmath hoperand hempty h
        simpa using hchain
      · rw [bind_eq_ok_iff] at h
        obtain ⟨first, hfirst, hrest⟩ := h
        exact chain_induction hempty hmath hoperand (hoperand _ _ hfirst) hrest

end Induction

/-- A level is written as its pieces, if its operands are. -/
theorem written_level (hoperand : ∀ text outline, operand text = .ok outline →
      outline.written = text) {pieces : List Piece} {outline : Outline}
    (h : level operators operand pieces = .ok outline) :
    outline.written = Piece.texts pieces :=
  level_induction (P := fun outline text => outline.written = text) written_empty
    (fun _ _ _ _ _ _ hleft hright => by rw [written_math, hleft, hright]) hoperand h

end Levels

/-! ## The levels together -/

/-- Products are written as they were. -/
theorem written_products {text : Text} {outline : Outline}
    (h : products text = .ok outline) : outline.written = text := by
  rw [products] at h
  rw [written_level _ h, texts_pieces]
  rintro text outline h
  cases h
  exact written_powers text

/-- The outline of text without brackets stands for that text. -/
theorem written_ofMath {text : Text} {afterGroup : Bool} {outline : Outline}
    (h : ofMath text afterGroup = .ok outline) : outline.written = text := by
  rw [ofMath] at h
  rw [written_level (fun _ _ => written_products) h, texts_pieces]

/-- Arithmetic with a text is no empty slot. -/
theorem isEmpty_ofMath {text : Text} {afterGroup : Bool} {outline : Outline}
    (h : ofMath text afterGroup = .ok outline) (htext : text ≠ []) :
    outline.isEmpty = false := by
  cases outline with
  | empty =>
      have hwritten := written_ofMath h
      rw [written_empty] at hwritten
      exact absurd hwritten.symm htext
  | leaf | math | group => rfl

end Outline
end DiceNotation

import DiceNotation.Fault
import DiceNotation.Outline.Basic

/-!
# Precedence

The outline of text without brackets.  `^` binds tightest and groups to the right; then
`*`, `/` and `%`, and last `+` and `-`, group to the left.  Text that starts or ends with
an operator leaves a slot empty there.

A `-` is the sign of a number where an operator stands before it, or nothing at all.

Main definitions:

- `Outline.isSign`: whether a `-` is a sign, seen from the character before it.
- `Outline.pieces`: text cut at the operators of one level.
- `Outline.ofMath`: the outline of text without brackets.

Main results:

- `Outline.texts_pieces`: cutting keeps every character in its place.
- `Outline.written_powers`: so does the outline of powers.
-/

namespace DiceNotation
namespace Outline

/-! ## Signs -/

/-- The characters after which a `-` is a sign. -/
def operatorCharacters : Text := ['+', '-', '*', '/', '%', '^', '<', '>', '=']

/-- Whether a `-` after `previous` is the sign of a number.  At the front of a text it is,
unless a bracket stands before the text: then it subtracts from the bracket. -/
def isSign (afterGroup : Bool) (previous : Option Char) : Bool :=
  match previous with
  | none => !afterGroup
  | some c => operatorCharacters.contains c

/-- Whether the character at `place` of a text is a `-` that is a sign; the place may be
counted from the end. -/
def isSignAt (text : Text) (place : Int) (afterGroup : Bool) : Except Fault Bool :=
  match Text.atPlace? text place with
  | none => .error .noSuchPlace
  | some c =>
    if c ≠ '-' then .ok false
    else if place = 0 then .ok (isSign afterGroup none)
    else match Text.atPlace? text (place - 1) with
      | none => .error .noSuchPlace
      | some previous => .ok (isSign afterGroup (some previous))

/-! ## Pieces -/

/-- What text falls into at the operators of one level. -/
inductive Piece where
  | operator (symbol : Char)
  | operand (text : Text)
deriving Repr, DecidableEq

namespace Piece

/-- The text of a piece. -/
def text : Piece → Text
  | .operator symbol => [symbol]
  | .operand text => text

/-- The operator a piece reads as.  An operand that is nothing but a sign reads as an
operator too. -/
def symbol? (operators : Text) (piece : Piece) : Option Char :=
  match piece.text with
  | [c] => if operators.contains c then some c else none
  | _ => none

/-- Put a character in front of the pieces, as part of an operand. -/
def glue (c : Char) : List Piece → List Piece
  | .operand text :: rest => .operand (c :: text) :: rest
  | rest => .operand [c] :: rest

/-- The text of all pieces, one after the other. -/
def texts (pieces : List Piece) : Text := pieces.flatMap text

@[simp]
theorem texts_nil : texts [] = [] := rfl

@[simp]
theorem texts_cons (piece : Piece) (rest : List Piece) :
    texts (piece :: rest) = piece.text ++ texts rest := rfl

@[simp]
theorem texts_glue (c : Char) (pieces : List Piece) : texts (glue c pieces) = c :: texts pieces := by
  unfold glue
  split <;> simp [text]

end Piece

/-- Text cut at the operators of one level; a sign does not cut.  `previous` is the
character before the text. -/
def pieces (operators : Text) (sign : Option Char → Bool) : Option Char → Text → List Piece
  | _, [] => []
  | previous, c :: rest =>
    let later := pieces operators sign (some c) rest
    if operators.contains c && !(c == '-' && sign previous) then .operator c :: later
    else Piece.glue c later

/-- Cutting keeps every character in its place. -/
theorem texts_pieces (operators : Text) (sign : Option Char → Bool) (previous : Option Char)
    (text : Text) : Piece.texts (pieces operators sign previous text) = text := by
  induction text generalizing previous with
  | nil => rfl
  | cons c rest ih =>
      simp only [pieces]
      split <;> simp [Piece.text, ih]

/-! ## Left-grouping levels -/

/-- The rest of a level: operator and operand in turn, each operator taking all that stands
before it as its left side. -/
def chain (operators : Text) (operand : Text → Except Fault Outline) :
    Outline → List Piece → Except Fault Outline
  | before, [] => .ok before
  | before, piece :: rest =>
    match piece.symbol? operators, rest with
    | none, _ => .error (.malformed (.operatorExpected piece.text) none)
    | some symbol, [] => .ok (.math [symbol] before .empty)
    | some symbol, next :: rest => do
      let right ← operand next.text
      chain operators operand (.math [symbol] before right) rest

/-- One level of operators that group to the left, over the level `operand` below it. -/
def level (operators : Text) (operand : Text → Except Fault Outline) :
    List Piece → Except Fault Outline
  | [] => .ok .empty
  | piece :: rest =>
    if (piece.symbol? operators).isSome then chain operators operand .empty (piece :: rest)
    else do
      let first ← operand piece.text
      chain operators operand first rest

/-! ## Powers -/

/-- Put a character in front of the leftmost operand of a power. -/
def pushLeft (c : Char) : Outline → Outline
  | .leaf text => .leaf (c :: text)
  | .math symbol left right => .math symbol (pushLeft c left) right
  | _ => .leaf [c]

/-- The outline of text whose only operator is `^`. -/
def powers : Text → Outline
  | [] => .empty
  | c :: rest => if c = '^' then .math ['^'] .empty (powers rest) else pushLeft c (powers rest)

/-- Everything below a product: leaves and powers of leaves. -/
def IsPower : Outline → Prop
  | .empty => True
  | .leaf _ => True
  | .math _ left right => IsPower left ∧ IsPower right
  | .group .. => False

theorem isPower_pushLeft (c : Char) : ∀ {t : Outline}, IsPower t → IsPower (pushLeft c t)
  | .empty, _ => trivial
  | .leaf _, _ => trivial
  | .math _ _ _, h => ⟨isPower_pushLeft c h.1, h.2⟩

theorem isPower_powers (text : Text) : IsPower (powers text) := by
  induction text with
  | nil => trivial
  | cons c rest ih =>
      unfold powers
      split
      · exact ⟨trivial, ih⟩
      · exact isPower_pushLeft c ih

theorem written_pushLeft (c : Char) :
    ∀ {t : Outline}, IsPower t → (pushLeft c t).written = c :: t.written
  | .empty, _ => by simp [pushLeft]
  | .leaf _, _ => by simp [pushLeft]
  | .math _ _ _, h => by simp [pushLeft, written_pushLeft c h.1]

/-- The outline of powers stands for the text it was made of. -/
@[simp]
theorem written_powers (text : Text) : (powers text).written = text := by
  induction text with
  | nil => simp [powers]
  | cons c rest ih =>
      unfold powers
      split
      · next h => simp [ih, h]
      · simp [written_pushLeft c (isPower_powers rest), ih]

/-! ## The levels together -/

/-- The outline of text without sums. -/
def products (text : Text) : Except Fault Outline :=
  level ['*', '/', '%'] (fun operand => .ok (powers operand))
    (pieces ['*', '/', '%'] (fun _ => false) none text)

/-- The outline of text without brackets, which follows a group if `afterGroup`. -/
def ofMath (text : Text) (afterGroup : Bool) : Except Fault Outline :=
  level ['+', '-'] products (pieces ['+', '-'] (isSign afterGroup) none text)

end Outline
end DiceNotation

import DiceNotation.Text.Basic

/-!
# Blank characters

The characters that may stand anywhere in an expression without a meaning: the Unicode
property *White_Space* together with the four information separators.

Main results:

- `Text.unspaced_append`, `Text.unspaced_unspaced`: removing blanks works part by part and
  has no more to do a second time.
-/

namespace DiceNotation
namespace Text

/-- Code points of the blank characters, as ranges with both ends included. -/
def blankRanges : List (Nat × Nat) :=
  [(0x09, 0x0D), (0x1C, 0x20), (0x85, 0x85), (0xA0, 0xA0), (0x1680, 0x1680),
   (0x2000, 0x200A), (0x2028, 0x2029), (0x202F, 0x202F), (0x205F, 0x205F),
   (0x3000, 0x3000)]

/-- Whether a code point lies in one of the ranges. -/
def inRanges (ranges : List (Nat × Nat)) (code : Nat) : Bool :=
  ranges.any fun range => range.1 ≤ code && code ≤ range.2

/-- A character without a meaning of its own. -/
def isBlank (c : Char) : Bool := inRanges blankRanges c.toNat

/-- A text less its blank characters. -/
def unspaced (text : Text) : Text := text.filter fun c => !isBlank c

@[simp]
theorem unspaced_nil : unspaced [] = [] := rfl

@[simp]
theorem unspaced_append (s t : Text) : unspaced (s ++ t) = unspaced s ++ unspaced t :=
  List.filter_append ..

@[simp]
theorem unspaced_unspaced (t : Text) : unspaced (unspaced t) = unspaced t := by
  simp [unspaced]

end Text
end DiceNotation

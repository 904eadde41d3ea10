import DiceNotation.Text.LowerCase

/-!
# Standard form

An expression means the same whatever its spacing and letter case.  Its standard form has
no blanks and is in lower case: ` 4D6 kh3 ` and `4d6kh3` share theirs.
-/

namespace DiceNotation
namespace Text

/-- The standard form: blanks are removed first, then letters are lowered, so that a word
ends where the unspaced text ends it. -/
def standardize (text : Text) : Text := lowerCase (unspaced text)

@[simp]
theorem standardize_nil : standardize [] = [] := rfl

/-- Where the blanks stand is of no account. -/
theorem standardize_congr {s t : Text} (h : unspaced s = unspaced t) :
    standardize s = standardize t := by
  simp [standardize, h]

end Text
end DiceNotation

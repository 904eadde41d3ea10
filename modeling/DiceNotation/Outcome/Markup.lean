import DiceNotation.Text.Basic

/-!
# Markup

The audit text of a roll marks what was discarded, what exploded, and what counted as a success or
a failure.  Nothing is marked in it but by the functions of a markup, which may be any functions of
texts.  Two markups are at hand: plain markup marks only what was discarded, and Markdown marks the
dice that exploded or counted too.

Main definitions:

- `Markup`: how the texts of an audit text are marked.
- `Markup.plain`, `Markup.markdown`: the markups at hand.
- `Dialect`: which of the two it is.

Main results:

- `Markup.struck_nil`: nothing is not marked.
- `Markup.exploded_plain`, `Markup.operator_plain`: plain markup leaves text as it is.
-/

namespace DiceNotation

/-- How an audit text is marked: discarded text, the text of what exploded or counted as a success
or a failure, which is a die or not, and operators. -/
structure Markup where
  discarded : Text → Text
  exploded : Text → Bool → Text
  success : Text → Bool → Text
  failure : Text → Bool → Text
  operator : Text → Text

namespace Markup

/-! ## Marks -/

/-- Text between two marks; no text has no marks. -/
def between (mark text : Text) : Text := if text.isEmpty then [] else mark ++ text ++ mark

/-- Text between two marks that do not nest: those inside it are removed. -/
def struck (mark text : Text) : Text :=
  if text.isEmpty then [] else mark ++ text.without mark ++ mark

/-- The text of a die between two marks; what is no die has none. -/
def aroundDie (mark text : Text) (isDie : Bool) : Text := if isDie then between mark text else text

/-! ## Markups at hand -/

/-- Plain markup: only what was discarded is marked. -/
def plain : Markup where
  discarded := struck ['~']
  exploded text _ := text
  success text _ := text
  failure text _ := text
  operator symbol := symbol

/-- Markdown; a star must be escaped in it. -/
def markdown : Markup where
  discarded := struck ['~', '~']
  exploded := aroundDie ['*', '*']
  success := aroundDie ['_', '_']
  failure := aroundDie ['*']
  operator symbol := if symbol = ['*'] then ['\\', '*'] else symbol

/-- No text has no marks around it. -/
@[simp]
theorem struck_nil (mark : Text) : struck mark [] = [] := rfl

/-- Plain markup leaves what exploded as it is. -/
@[simp]
theorem exploded_plain (text : Text) (isDie : Bool) : plain.exploded text isDie = text := rfl

/-- Plain markup leaves successes as they are. -/
@[simp]
theorem success_plain (text : Text) (isDie : Bool) : plain.success text isDie = text := rfl

/-- Plain markup leaves failures as they are. -/
@[simp]
theorem failure_plain (text : Text) (isDie : Bool) : plain.failure text isDie = text := rfl

/-- Plain markup leaves operators as they are. -/
@[simp]
theorem operator_plain (symbol : Text) : plain.operator symbol = symbol := rfl

end Markup

/-- One of the markups at hand. -/
inductive Dialect where
  | plain
  | markdown
deriving Repr, DecidableEq

namespace Dialect

/-- The markup of a dialect. -/
def markup : Dialect → Markup
  | plain => .plain
  | markdown => .markdown

/-- The mark around what was discarded. -/
def strike : Dialect → Text
  | plain => ['~']
  | markdown => ['~', '~']

/-- Discarded text stands between two marks. -/
theorem discarded_markup (dialect : Dialect) (text : Text) :
    dialect.markup.discarded text = Markup.struck dialect.strike text := by
  cases dialect <;> rfl

end Dialect
end DiceNotation

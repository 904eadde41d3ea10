import DiceNotation.Outcome.Markup
import DiceNotation.Proofs.Text.Removal

/-!
# Struck-out text

What is discarded may hold text that was discarded before.  Its marks are removed first, so
that one pair of marks stands around the whole.

Main results:

- `Markup.without_struck`: marks around a text are removed with the marks inside it.
- `Markup.discarded_once`: marks never stand inside marks, and text that is discarded again
  stays as it is.
-/

namespace DiceNotation
namespace Markup

/-- The mark is a run of tildes. -/
theorem strike_eq (dialect : Dialect) :
    ∃ n, 0 < n ∧ dialect.strike = List.replicate n '~' := by
  cases dialect with
  | plain => exact ⟨1, by decide, rfl⟩
  | markdown => exact ⟨2, by decide, rfl⟩

/-- There is a mark. -/
theorem strike_ne_nil (dialect : Dialect) : dialect.strike ≠ [] := by
  cases dialect <;> simp [Dialect.strike]

/-- Text that there is stands between two marks when it is discarded, without the marks in it. -/
theorem struck_of_ne_nil (mark : Text) {text : Text} (h : text ≠ []) :
    struck mark text = mark ++ text.without mark ++ mark := by
  rw [struck, if_neg (by simpa using h)]

/-- Marks around a text are removed with the marks inside it. -/
theorem without_struck (dialect : Dialect) (text : Text) :
    (dialect.strike ++ text ++ dialect.strike).without dialect.strike =
      text.without dialect.strike := by
  obtain ⟨n, hn, hstrike⟩ := strike_eq dialect
  rw [List.append_assoc, Text.without_append (strike_ne_nil dialect), hstrike,
    Text.without_append_run hn]

/-- No mark is left where marks are removed. -/
theorem not_infix_without (dialect : Dialect) (text : Text) :
    ¬ dialect.strike <:+: text.without dialect.strike := by
  obtain ⟨n, hn, hstrike⟩ := strike_eq dialect
  rw [hstrike]
  exact Text.not_infix_without_run hn text

/-- Discarded text stands between two marks that hold no mark: it is put together from what
stood before, between and behind the marks of the text.  To discard it again changes nothing. -/
theorem discarded_once (dialect : Dialect) (text : Text) :
    dialect.markup.discarded (dialect.markup.discarded text) = dialect.markup.discarded text ∧
      (text ≠ [] → ∃ parts, Text.joinedBy dialect.strike parts = text ∧
        dialect.markup.discarded text = dialect.strike ++ parts.flatten ++ dialect.strike ∧
        ¬ dialect.strike <:+: parts.flatten) := by
  simp only [dialect.discarded_markup]
  refine ⟨?_, fun hne => ?_⟩
  · by_cases hne : text = []
    · rw [hne, struck_nil, struck_nil]
    · have hstruck : dialect.strike ++ text.without dialect.strike ++ dialect.strike ≠ [] := by
        simp [strike_ne_nil dialect]
      rw [struck_of_ne_nil _ hne, struck_of_ne_nil _ hstruck, without_struck,
        Text.without_eq_self (not_infix_without dialect text)]
  · obtain ⟨parts, -, hjoined, hflat⟩ := Text.exists_parts (strike_ne_nil dialect) text
    refine ⟨parts, hjoined, ?_, ?_⟩
    · rw [struck_of_ne_nil _ hne, hflat]
    · rw [hflat]
      exact not_infix_without dialect text

/-- Of runs of three, two and five tildes in Markdown, the two odd ones leave a tilde each,
and neither of them makes up a mark with the marks around it. -/
theorem discarded_once_oddRuns :
    Markup.markdown.discarded "~~~a~~b~~~~~".toList = "~~~ab~~~".toList ∧
      "~~~a~~b~~~~~".toList ≠ [] ∧
      ∃ parts, Text.joinedBy Dialect.markdown.strike parts = "~~~a~~b~~~~~".toList ∧
        Markup.markdown.discarded "~~~a~~b~~~~~".toList =
          Dialect.markdown.strike ++ parts.flatten ++ Dialect.markdown.strike ∧
        ¬ Dialect.markdown.strike <:+: parts.flatten :=
  ⟨rfl, by decide, (discarded_once .markdown "~~~a~~b~~~~~".toList).2 (by decide)⟩

end Markup
end DiceNotation

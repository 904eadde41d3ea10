import DiceNotation.Proofs.Outline.Budget

/-!
# The order of a text

An outline stands for all of its text, but not always in the order of the text.  It does so just
if all neighbours that are linked meet at an empty slot.  Where two of them do not, one is put
into a slot further along, as the bracket is in `(3)1+*2`.

Main results:

- `Outline.perm_ofText`: no text is lost and none is added.
- `Outline.written_ofText_eq_iff`: when the outline of a text stands for that text.
-/

namespace DiceNotation
namespace Outline

/-! ## No text is lost -/

section Perm

variable {operand outline filled : Outline}

/-- What is put between two texts moves from behind the second of them. -/
theorem perm_insert (front inserted back : Text) :
    (front ++ (inserted ++ back)).Perm (front ++ (back ++ inserted)) :=
  List.perm_append_comm.append_left front

/-- What fills a slot adds its text. -/
theorem Fills.perm (h : Fills operand outline filled) :
    filled.written.Perm (outline.written ++ operand.written) := by
  induction h with
  | left symbol right => simpa using perm_insert [] operand.written (symbol ++ right.written)
  | right symbol left => simp
  | @withinLeft symbol right left taken _ ih =>
      have htaken := ih.append_right (symbol ++ right.written)
      have hmoved := perm_insert left.written operand.written (symbol ++ right.written)
      simp only [written_math, List.append_assoc] at htaken hmoved ⊢
      exact htaken.trans hmoved
  | withinRight symbol left _ ih =>
      have htaken := ih.append_left (left.written ++ symbol)
      simpa using htaken

/-- Linking loses no text and adds none. -/
theorem perm_link {elements linked : List Outline} (h : link elements = .ok linked)
    (hone : linked.length ≤ 1) : (elementsWritten linked).Perm (elementsWritten elements) := by
  have hlink := link_induction
    (P := fun elements outline => outline.written.Perm (elementsWritten elements))
    (fun element => by simp)
    (fun read previous element filled hprevious htakes => by
      rw [elementsWritten_append, elementsWritten_cons, elementsWritten_nil, List.append_nil]
      rcases htakes.fills with hfills | hfills
      · exact hfills.perm.trans (hprevious.append_right _)
      · exact (hfills.perm.trans List.perm_append_comm).trans (hprevious.append_right _))
    h hone
  rcases hlink with ⟨rfl, rfl⟩ | ⟨outline, rfl, houtline⟩
  · exact List.Perm.refl _
  · simpa using houtline

end Perm

section Text

variable {text : Text} {outline : Outline}

/-- A walk loses no text and adds none, if no entry is empty. -/
theorem perm_of_walk {read : Text} {walk : Walk} (hfilled : EntriesFilled read)
    (hwalk : read.foldlM Walk.step {} = .ok walk) : walk.written.Perm read := by
  refine walk_induction (P := fun read walk => EntriesFilled read → walk.written.Perm read) ?_ ?_
    hwalk hfilled
  · exact fun _ => List.Perm.refl _
  · intro read walk c walk' hwalk ih hstep hfilled
    rcases entriesFilled_append_singleton.mp hfilled with ⟨hread, hlast⟩
    rcases written_step (placed_of_walk hwalk) (solid_of_walk hwalk) hlast hstep with
      ⟨-, hwritten⟩ | ⟨-, elements, content, hgathered, hlinked, hlength, hwritten⟩
    · rw [hwritten]
      exact (ih hread).append_right [c]
    · have hlink := (perm_link hlinked hlength).append_left walk.surroundings.written
      rw [← written_of_gathered hgathered] at hlink
      rw [hwritten]
      exact (hlink.trans (ih hread)).append_right [c]

/-- The outline of a text stands for all characters of the text and no others. -/
theorem perm_ofText (h : ofText text = .ok outline) (hfilled : EntriesFilled text) :
    outline.written.Perm text := by
  rcases ofText_eq_ok_iff.mp h with ⟨content, ⟨walk, hwalk, htop, hcontent⟩, rfl⟩
  rcases Walk.content_eq_ok_iff.mp hcontent with ⟨elements, hgathered, hlinked, hlength⟩
  have hlink := perm_link hlinked hlength
  have hwritten := written_of_gathered hgathered
  rw [htop, Surroundings.written, List.nil_append] at hwritten
  rw [← hwritten] at hlink
  rw [written_head? hlength]
  exact hlink.trans (perm_of_walk hfilled hwalk)

/-! ## The order of the text -/

/-- The outline of a text stands for its characters, and it stands for the text itself just if
all neighbours that are linked in it meet at an empty slot. -/
theorem written_ofText_eq_iff (h : ofText text = .ok outline) (hfilled : EntriesFilled text) :
    outline.written.Perm text ∧ (outline.written = text ↔ NeighboursMeet text) := by
  refine ⟨perm_ofText h hfilled, ?_⟩
  have hwritten := written_ofText h hfilled
  constructor
  · intro heq
    by_contra hmeets
    by_cases hgaps : GapFree text
    · exact (hwritten.2 hgaps hmeets).ne heq.symm
    · exact written_ne_of_gap h hgaps heq
  · exact hwritten.1

/-- The bracket of `(1+2)*3` meets the operator behind it. -/
theorem neighboursMeet_product :
    EntriesFilled "(1+2)*3".toList ∧ ∃ outline, ofText "(1+2)*3".toList = .ok outline ∧
      outline.written.Perm "(1+2)*3".toList ∧
        outline.written = "(1+2)*3".toList ∧ NeighboursMeet "(1+2)*3".toList := by
  have hfilled : EntriesFilled "(1+2)*3".toList := by decide
  let outline : Outline :=
    .math ['*'] (.group { terminator := some [')'] } [.math ['+'] (.leaf ['1']) (.leaf ['2'])])
      (.leaf ['3'])
  have houtline : ofText "(1+2)*3".toList = .ok outline := rfl
  have hwritten : outline.written = "(1+2)*3".toList := rfl
  have horder := written_ofText_eq_iff houtline hfilled
  exact ⟨hfilled, outline, houtline, horder.1, hwritten, horder.2.mp hwritten⟩

/-- The bracket of `(3)1+*2` is put into the slot behind `1+`. -/
theorem exists_written_ne :
    ∃ text outline, EntriesFilled text ∧ ofText text = .ok outline ∧
      text = "(3)1+*2".toList ∧ outline.written = "1+(3)*2".toList ∧ outline.written ≠ text :=
  ⟨"(3)1+*2".toList,
    .math ['+'] (.leaf ['1'])
      (.math ['*'] (.group { terminator := some [')'] } [.leaf ['3']]) (.leaf ['2'])),
    by decide, rfl, rfl, rfl, by decide⟩

end Text
end Outline
end DiceNotation

import DiceNotation.Proofs.Expression.Parsing

/-!
# Characters that were not expected

A character that was not expected is met where a leaf or the suffix of a list should end, or where
the faces of a die should stand.  The place that is given for it counts from the front of that leaf
or suffix, and not from the front of the text in which the leaf or suffix was found.

Main results:

- `Malformation.eq_of_sentence`: no other malformation is reported in the same words.
- `Expression.gives_stray`: the place is that of the character in a leaf or suffix.
- `Expression.place_of_stray`: the character stands so many places behind the front of the leaf or
  suffix, wherever in the text that is.
-/

namespace DiceNotation

/-! ## Words -/

section Words

variable {first last : List Char} {c : Char}

/-- Words around a part are the same words only if they have the same characters. -/
theorem append_eq_of_words {first' last' : List Char} {middle : String}
    (h : String.ofList first ++ middle ++ String.ofList last =
      String.ofList first' ++ toString c ++ String.ofList last') :
    first ++ (middle.toList ++ last) = first' ++ c :: last' := by
  have hlist := congrArg String.toList h
  simpa [toString] using hlist

/-- A message is put together from its words around the character. -/
theorem eq_append_of_words {whole : List Char}
    (h : String.ofList whole = String.ofList first ++ toString c ++ String.ofList last) :
    whole = first ++ c :: last := by
  have hlist := congrArg String.toList h
  simpa [toString] using hlist

end Words

/-- No other malformation is reported in the words for a character that was not expected. -/
theorem Malformation.eq_of_sentence {cause : Malformation} {c : Char}
    (h : cause.sentence = s!"Unexpected character '{c}'.") : cause = .unexpectedCharacter c := by
  -- The equations of `sentence` tell all its sentences apart, which is slow.
  delta Malformation.sentence at h
  cases cause with
  | unexpectedCharacter found => simpa [toString] using append_eq_of_words h
  | notAnInteger found => simpa [toString] using append_eq_of_words h
  | unexpectedEnd | signInsideInteger | signWithoutDigits | malformedDecimal | negativeDiceCount
  | noFaces | negativeSelection | expressionExpected | notOneExpression | operandConflict
  | bracketNotClosed | strayTerminator | unlinkedElements => simpa using eq_append_of_words h
  | _ => simpa using append_eq_of_words h

/-- The report of a stray character is that of no other fault. -/
theorem Fault.eq_of_report? {fault : Fault} {c : Char}
    (h : fault.report? = some ⟨"SYNTAX_ERROR", s!"Unexpected character '{c}'."⟩) :
    ∃ place?, fault = .malformed (.unexpectedCharacter c) place? := by
  cases fault with
  | malformed cause place? =>
      have hsentence := congrArg Report.sentence (Option.some.inj h)
      exact ⟨place?, by rw [Malformation.eq_of_sentence hsentence]⟩
  | _ => simp [Fault.report?] at h

/-! ## Places -/

namespace Expression

/-- If a text cannot be read for a character that was not expected, its outline has a leaf or suffix
that cannot be read on its own for the same, and has the character at the place that is given. -/
theorem gives_stray (text : Text) :
    Gives (parse text) (fun _ => True) fun fault => fault.IsStray →
      ∃ outline part, Outline.ofText text.standardize = .ok outline ∧ outline.HasPart part ∧
        IsFaultOf part fault ∧ Leaf.Points part fault := by
  unfold parse parseStandard
  rw [gives_bind]
  refine (Outline.not_isStray_ofText _).imp ?_ fun _ hnot hstray => absurd hstray hnot
  intro outline houtline _
  split
  · trivial
  · refine (gives_ofOutline (fun _ hnot hstray => absurd hstray hnot) ?_).bind fun _ _ _ => trivial
    exact fun part hpart _ hof hfault _ => ⟨outline, part, houtline, hpart, hof, hfault.points⟩

/-- The place that is given for a character that was not expected is its place in a leaf or suffix,
the same that is given if the leaf or suffix is read on its own.  It is a place of the text, but the
character stands as many places further on as there are in front of the leaf or suffix. -/
theorem place_of_stray {text : Text} {fault : Fault} {c : Char} (h : parse text = .error fault)
    (hreport : fault.report? = some ⟨"SYNTAX_ERROR", s!"Unexpected character '{c}'."⟩) :
    ∃ outline front before after back,
      Outline.ofText text.standardize = .ok outline ∧
      outline.HasPart (before ++ c :: after) ∧
      IsFaultOf (before ++ c :: after) fault ∧
      text.standardize = front ++ (before ++ c :: after) ++ back ∧
      fault.place? = some (before.length : Int) ∧
      before.length < text.standardize.length ∧
      text.standardize[front.length + before.length]? = some c ∧
      (front = [] ∨ outline = .leaf text.standardize →
        text.standardize[before.length]? = some c) := by
  obtain ⟨place?, rfl⟩ := Fault.eq_of_report? hreport
  have hgives := gives_stray text
  rw [h] at hgives
  obtain ⟨outline, part, houtline, hpart, hof, before, after, rfl, rfl⟩ := hgives trivial
  obtain ⟨front, back, htext⟩ := hpart.isInfix (Outline.partOf_ofText houtline)
  have hstands : text.standardize[front.length + before.length]? = some c := by
    simp [← htext]
  have hlength := congrArg List.length htext
  simp only [List.length_append, List.length_cons] at hlength
  refine ⟨outline, front, before, after, back, houtline, hpart, hof, htext.symm, rfl,
    by omega, hstands, ?_⟩
  rintro (rfl | rfl)
  · simpa using hstands
  · have hwhole : text.standardize = before ++ c :: after := hpart
    simp [hwhole]

/-- In `(2dx)` the `x` stands at place 2 of `2dx`, with one place more in front. -/
theorem place_of_stray_inBrackets :
    parse "(2dx)".toList = .error (.malformed (.unexpectedCharacter 'x') (some 2)) ∧
      ∃ outline front before after back,
        Outline.ofText (Text.standardize "(2dx)".toList) = .ok outline ∧
        outline.HasPart (before ++ 'x' :: after) ∧
        Text.standardize "(2dx)".toList = front ++ (before ++ 'x' :: after) ++ back ∧
        before.length = 2 ∧ front.length = 1 := by
  have hparse : parse "(2dx)".toList =
      .error (.malformed (.unexpectedCharacter 'x') (some 2)) := rfl
  obtain ⟨outline, front, before, after, back, houtline, hpart, -, htext, hplace, -, hstands, -⟩ :=
    place_of_stray hparse rfl
  have hbefore : before.length = 2 := by exact_mod_cast (Option.some.inj hplace).symm
  refine ⟨hparse, outline, front, before, after, back, houtline, hpart, htext, hbefore, ?_⟩
  -- The text has no other `x`.
  have honly : ∀ place < 5, (Text.standardize "(2dx)".toList)[place]? = some 'x' →
      place = 3 := by decide
  have hlength : (Text.standardize "(2dx)".toList).length = 5 := rfl
  have hlt := (List.getElem?_eq_some_iff.mp hstands).1
  have hthree := honly _ (hlength ▸ hlt) hstands
  omega

/-- Behind an operator the place is not that of the character: in `1+2x` it is that of the `+`. -/
theorem place_behind_operator :
    ∃ fault, parse "1+2x".toList = .error fault ∧
      fault.report? = some ⟨"SYNTAX_ERROR", "Unexpected character 'x'."⟩ ∧
      fault.place? = some 1 ∧
      (Text.standardize "1+2x".toList)[1]? = some '+' ∧
      (Text.standardize "1+2x".toList)[3]? = some 'x' :=
  ⟨.malformed (.unexpectedCharacter 'x') (some 1), rfl, rfl, rfl, rfl, rfl⟩

end Expression
end DiceNotation

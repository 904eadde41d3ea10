import DiceNotation.Proofs.Outline.Spelling

/-!
# Operands

A text shows where its operands start: at the first character that is no operator, behind an
operator or at the front of something.  Counted are these starts, the brackets and lists among
them, and the characters of list suffixes.

What is counted in a text depends on the order of its parts.  An operand that follows directly
on another adds nothing, and a list suffix is only one behind its list.

Main definitions:

- `Outline.Scan`: where a reader of a text stands.
- `Outline.Scan.count`: what a reader counts.
- `Outline.operands`: what there is to count in an outline.

Main results:

- `Outline.operands_le_count`: in the text of an outline at least that much is counted.
- `Outline.Plain.count_written`: in text without brackets just that much.
- `Outline.operands_link`: linking changes nothing about what there is to count.
-/

namespace DiceNotation
namespace Outline

open Text (isOperator)

/-- Where a reader of a text stands: before an operand, in or behind one, or in the suffix of
a list. -/
inductive Scan where
  | before
  | behind
  | suffix (last : Option Char)

namespace Scan

/-- Where a reader stands behind a character that belongs to no suffix. -/
def behindChar (c : Char) : Scan :=
  if isOperator c || c == '(' || c == '\x7b' || c == ',' then .before
  else if c = '\x7d' then .suffix none
  else .behind

/-- Where a reader stands one character on. -/
def next : Scan → Char → Scan
  | .suffix last, c => if continuesSuffix last c then .suffix (some c) else behindChar c
  | _, c => behindChar c

/-- What a reader counts at a character: the start of an operand, or a suffix going on. -/
def counted : Scan → Char → Nat
  | .before, c => if isOperator c || isCloser c then 0 else 1
  | .behind, _ => 0
  | .suffix last, c => if continuesSuffix last c then 1 else 0

/-- Where a reader stands at the end of a text. -/
def run (scan : Scan) (text : Text) : Scan := text.foldl next scan

/-- What a reader counts in a text. -/
def count : Scan → Text → Nat
  | _, [] => 0
  | scan, c :: rest => scan.counted c + count (scan.next c) rest

section Count

variable {scan : Scan} {c : Char} {text more : Text}

@[simp]
theorem run_nil : scan.run [] = scan := rfl

@[simp]
theorem run_cons : scan.run (c :: text) = (scan.next c).run text := rfl

/-- A reader of one text after another goes on from where it stands. -/
theorem run_append : scan.run (text ++ more) = (scan.run text).run more := List.foldl_append

@[simp]
theorem count_nil : scan.count [] = 0 := rfl

@[simp]
theorem count_cons : scan.count (c :: text) = scan.counted c + (scan.next c).count text := rfl

/-- What is counted in one text after another depends on where the first ends. -/
theorem count_append : scan.count (text ++ more) = scan.count text + (scan.run text).count more := by
  induction text generalizing scan with
  | nil => simp
  | cons c rest ih => simp [ih, Nat.add_assoc]

@[simp]
theorem next_before : before.next c = behindChar c := rfl

@[simp]
theorem next_behind : behind.next c = behindChar c := rfl

/-- A suffix goes on, or ends like anything else. -/
@[simp]
theorem next_suffix (last : Option Char) : (suffix last).next c =
    if continuesSuffix last c then .suffix (some c) else behindChar c := rfl

/-! ## Readers at different places -/

/-- Behind an operand less is counted than before one, by one operand at most. -/
theorem count_behind_le (text : Text) :
    count .behind text ≤ count .before text ∧ count .before text ≤ count .behind text + 1 := by
  cases text with
  | nil => simp
  | cons c rest =>
      simp only [count_cons, next_before, next_behind, counted]
      split <;> omega

/-- In a suffix no less is counted than behind an operand. -/
theorem count_behind_le_suffix (last : Option Char) (text : Text) :
    count .behind text ≤ count (.suffix last) text := by
  induction text generalizing last with
  | nil => simp
  | cons c rest ih =>
      simp only [count_cons, next_behind, next_suffix, counted]
      split
      · -- Only a minus sign is an operator that continues a suffix.
        have hrest := ih (some c)
        have hbehind := (count_behind_le rest).2
        have hplace : behindChar c = .before ∨ behindChar c = .behind := by
          unfold behindChar
          split
          · exact .inl rfl
          · split
            · next hc =>
                have hends := continuesSuffix_of_isBracket (c := c) (by simp [isBracket, hc]) last
                simp_all
            · exact .inr rfl
        rcases hplace with hplace | hplace <;> rw [hplace] <;> omega
      · omega

/-- No reader counts much less than one who stands before an operand. -/
theorem count_before_le (scan : Scan) (text : Text) :
    count .before text ≤ scan.count text + 1 := by
  cases scan with
  | before => omega
  | behind => exact (count_behind_le text).2
  | suffix last =>
      have hbehind := (count_behind_le text).2
      have hsuffix := count_behind_le_suffix last text
      omega

/-- An operator puts a reader before an operand. -/
theorem count_before_le_operator (hc : isOperator c = true) (scan : Scan) (text : Text) :
    count .before text ≤ scan.count (c :: text) := by
  have hplace : behindChar c = .before := by simp [behindChar, hc]
  cases scan with
  | before | behind => simp [counted, hc, hplace]
  | suffix last =>
      simp only [count_cons, next_suffix, counted]
      split
      · have hsuffix := count_before_le (.suffix (some c)) text
        omega
      · simp [hplace]

/-- A bracket ends any suffix. -/
theorem next_of_isBracket (hc : isBracket c = true) (scan : Scan) :
    scan.next c = behindChar c := by
  cases scan with
  | before | behind => rfl
  | suffix last => simp [continuesSuffix_of_isBracket hc]

/-- Nothing starts at a closing character. -/
theorem counted_of_isCloser (hc : isCloser c = true) (scan : Scan) : scan.counted c = 0 := by
  cases scan with
  | before => simp [counted, hc]
  | behind => rfl
  | suffix last => simp [counted, continuesSuffix_of_isBracket (isBracket_of_isCloser hc)]

/-- Behind a comma a reader stands before an operand. -/
theorem count_comma (scan : Scan) : scan.count (',' :: text) = count .before text := by
  rw [count_cons, counted_of_isCloser rfl, next_of_isBracket rfl, Nat.zero_add]
  rfl

/-- Behind a list a reader stands in its suffix. -/
theorem count_closeList (scan : Scan) : scan.count ('\x7d' :: text) = count (.suffix none) text := by
  rw [count_cons, counted_of_isCloser rfl, next_of_isBracket rfl, Nat.zero_add]
  rfl

/-- A list counts once, and a reader stands before its first operand. -/
theorem count_openList (text : Text) :
    count .before ('\x7b' :: text) = 1 + count .before text := rfl

end Count
end Scan

/-! ## Outlines -/

mutual

/-- What there is to count in an outline: its operands, with its brackets and lists among them,
and the characters of its list suffixes. -/
def operands : Outline → Nat
  | .empty => 0
  | .leaf text => Scan.count .before text
  | .math _ left right => left.operands + right.operands
  | .group enclosure elements =>
    if enclosure.isList then
      1 + entriesOperands elements + Scan.count (.suffix none) enclosure.suffix
    else 1 + elementsOperands elements

/-- What there is to count in the entries of a list. -/
def entriesOperands : List Outline → Nat
  | [] => 0
  | .group _ elements :: rest => elementsOperands elements + entriesOperands rest
  | other :: rest => other.operands + entriesOperands rest

/-- What there is to count in the elements of a group. -/
def elementsOperands : List Outline → Nat
  | [] => 0
  | element :: rest => element.operands + elementsOperands rest

end

@[simp]
theorem operands_empty : operands .empty = 0 := by rw [operands]

@[simp]
theorem operands_leaf (text : Text) : operands (.leaf text) = Scan.count .before text := by
  rw [operands]

@[simp]
theorem operands_math (symbol : Text) (left right : Outline) :
    operands (.math symbol left right) = left.operands + right.operands := by rw [operands]

@[simp]
theorem elementsOperands_nil : elementsOperands [] = 0 := by rw [elementsOperands]

@[simp]
theorem elementsOperands_cons (element : Outline) (rest : List Outline) :
    elementsOperands (element :: rest) = element.operands + elementsOperands rest := by
  rw [elementsOperands]

/-- What there is to count in elements adds up. -/
@[simp]
theorem elementsOperands_append (elements more : List Outline) :
    elementsOperands (elements ++ more) = elementsOperands elements + elementsOperands more := by
  induction elements with
  | nil => simp
  | cons element rest ih => simp [ih, Nat.add_assoc]

/-- So it does in entries. -/
theorem entriesOperands_append (entries content : List Outline) (terminator : Option Text) :
    entriesOperands (entries ++ [.group { terminator } content]) =
      entriesOperands entries + elementsOperands content := by
  induction entries with
  | nil => simp [entriesOperands]
  | cons entry rest ih => cases entry <;> simp [entriesOperands, ih, Nat.add_assoc]

/-! ## The text of an outline -/

/-- A bracket counts once, with the name of its function. -/
theorem count_function {function : Text} (h : function = [] ∨ function ∈ functionNames) :
    Scan.count .before (function ++ ['(']) = 1 ∧
      ∀ scan : Scan, scan.run (function ++ ['(']) = .before := by
  have hrun : ∀ scan : Scan, scan.run (function ++ ['(']) = .before := by
    intro scan
    rw [Scan.run_append, Scan.run_cons, Scan.run_nil, Scan.next_of_isBracket rfl]
    rfl
  refine ⟨?_, hrun⟩
  rcases h with rfl | h
  · rfl
  · simp only [functionNames, List.mem_cons, List.not_mem_nil, or_false] at h
    rcases h with rfl | rfl | rfl | rfl <;> rfl

mutual

/-- In the text of an outline no less is counted than there is to count. -/
theorem operands_le_count (outline : Outline) (h : outline.Proper) :
    outline.operands ≤ Scan.count .before outline.written := by
  cases outline with
  | empty => simp
  | leaf text => simp
  | math symbol left right =>
      rcases h with ⟨⟨c, hc, rfl⟩, hleft, hright⟩
      have hleft := operands_le_count left hleft
      have hright := operands_le_count right hright
      have hoperator :=
        Scan.count_before_le_operator hc (Scan.before.run left.written) right.written
      rw [operands_math, written_math, List.append_assoc, Scan.count_append, List.singleton_append]
      omega
  | group enclosure elements =>
      rcases h with ⟨hfunction, hcontent⟩
      rw [operands, written]
      by_cases hlist : enclosure.isList = true
      · rw [if_pos hlist] at hcontent
        have hentries := entriesOperands_le_count elements hcontent enclosure.suffix
        simp only [hlist, if_true, List.append_assoc, List.nil_append, Scan.count_openList,
          List.cons_append]
        omega
      · rw [if_neg hlist] at hcontent
        have helements := elementsOperands_le_count elements hcontent
        rcases count_function hfunction with ⟨hname, hrun⟩
        simp only [hlist, Bool.false_eq_true, if_false, Scan.count_append, hname, hrun]
        omega

/-- So it is for the content of a bracket or an entry. -/
theorem elementsOperands_le_count (elements : List Outline) (h : ContentProper elements) :
    elementsOperands elements ≤ Scan.count .before (elementsWritten elements) := by
  match elements, h with
  | [], _ => simp
  | [element], h => simpa using operands_le_count element h

/-- So it is for the entries of a list, the suffix of the list included. -/
theorem entriesOperands_le_count (entries : List Outline) (h : EntriesProper entries)
    (suffix : Text) :
    entriesOperands entries + Scan.count (.suffix none) suffix ≤
      Scan.count .before (Text.joinedBy [','] (entriesWritten entries) ++ '\x7d' :: suffix) := by
  match entries, h with
  | [], _ =>
      rw [entriesOperands, entriesWritten, Text.joinedBy, List.nil_append, Scan.count_closeList]
      omega
  | [.group enclosure content], h =>
      have hcontent := elementsOperands_le_count content h.1
      simp only [entriesOperands, entriesWritten, Text.joinedBy, Scan.count_append,
        Scan.count_closeList]
      omega
  | .group enclosure content :: .group enclosure' content' :: rest, h =>
      have hcontent := elementsOperands_le_count content h.1
      have hrest := entriesOperands_le_count (.group enclosure' content' :: rest) h.2 suffix
      rw [entriesWritten] at hrest
      rw [entriesOperands, entriesWritten, entriesWritten, Text.joinedBy, List.append_assoc,
        List.append_assoc, Scan.count_append, List.singleton_append, Scan.count_comma]
      omega

end

/-! ## Text without brackets -/

namespace Scan

/-- Whether a reader stands in no suffix. -/
def Outside : Scan → Prop
  | .suffix _ => False
  | _ => True

variable {scan : Scan} {c : Char} {text : Text}

/-- No reader comes into a suffix where no list closes. -/
theorem outside_run (h : scan.Outside) (htext : '\x7d' ∉ text) : (scan.run text).Outside := by
  induction text generalizing scan with
  | nil => exact h
  | cons c rest ih =>
      rw [List.mem_cons, not_or] at htext
      refine ih ?_ htext.2
      have hnext : scan.next c = behindChar c := by
        cases scan with
        | before | behind => rfl
        | suffix => exact h.elim
      rw [hnext, behindChar, if_neg (Ne.symm htext.1)]
      split <;> trivial

/-- Nowhere outside a suffix is more counted than before an operand. -/
theorem count_le_before (h : scan.Outside) : scan.count text ≤ count .before text := by
  cases scan with
  | before => exact Nat.le_refl _
  | behind => exact (count_behind_le text).1
  | suffix => exact h.elim

/-- Behind an operator a reader stands before an operand. -/
theorem count_operator (h : scan.Outside) (hc : isOperator c = true) :
    scan.count (c :: text) = count .before text := by
  have hplace : behindChar c = .before := by simp [behindChar, hc]
  cases scan with
  | before => simp [counted, hc, hplace]
  | behind => simp [counted, hplace]
  | suffix => exact h.elim

/-- Behind an operand, the start of another is not counted. -/
theorem count_behind_cons (hoperator : isOperator c = false) (hbracket : isBracket c = false) :
    count .behind (c :: text) + 1 = count .before (c :: text) := by
  have hcloser : isCloser c = false := by
    by_contra hc
    rw [isBracket_of_isCloser (by simpa using hc)] at hbracket
    exact Bool.false_ne_true hbracket.symm
  simp [counted, hoperator, hcloser, Nat.add_comm]

end Scan

/-- In text without brackets just that is counted that there is to count. -/
theorem Plain.count_written {outline : Outline} (h : outline.Plain)
    (hwritten : '\x7d' ∉ outline.written) :
    Scan.count .before outline.written = outline.operands := by
  induction outline using Plain.induct with
  | case1 => simp
  | case2 text => simp
  | case3 symbol left right ihleft ihright =>
      rcases h with ⟨⟨c, hc, rfl⟩, hleft, hright⟩
      simp only [written_math, List.mem_append, not_or] at hwritten
      rcases hwritten with ⟨⟨hleftWritten, -⟩, hrightWritten⟩
      have hscan : (Scan.before.run left.written).Outside :=
        Scan.outside_run trivial hleftWritten
      rw [written_math, List.append_assoc, Scan.count_append, List.singleton_append,
        Scan.count_operator hscan hc, ihleft hleft hleftWritten, ihright hright hrightWritten,
        operands_math]
  | case4 => exact h.elim

/-! ## Linked elements -/

section Linked

variable {operand outline filled : Outline}

/-- What fills a slot is counted with the rest. -/
theorem Fills.operands (h : Fills operand outline filled) :
    filled.operands = outline.operands + operand.operands := by
  induction h with
  | left symbol right => simp [Nat.add_comm]
  | right symbol left => simp
  | withinLeft symbol right _ ih => simp [ih, Nat.add_right_comm]
  | withinRight symbol left _ ih => simp [ih, Nat.add_assoc]

/-- Linking changes nothing about what there is to count. -/
theorem operands_link {elements linked : List Outline} (h : link elements = .ok linked)
    (hone : linked.length ≤ 1) : elementsOperands linked = elementsOperands elements := by
  have hlink := link_induction
    (P := fun elements outline => outline.operands = elementsOperands elements)
    (fun element => by simp)
    (fun read previous element filled hprevious htakes => by
      rw [elementsOperands_append, elementsOperands_cons, elementsOperands_nil, ← hprevious]
      rcases htakes.fills with hfills | hfills
      · rw [hfills.operands, Nat.add_zero]
      · rw [hfills.operands, Nat.add_comm, Nat.add_zero])
    h hone
  rcases hlink with ⟨rfl, rfl⟩ | ⟨outline, rfl, houtline⟩
  · rfl
  · simp [houtline]

end Linked
end Outline
end DiceNotation

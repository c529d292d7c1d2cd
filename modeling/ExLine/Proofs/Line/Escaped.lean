import ExLine.Proofs.Line.Names
import ExLine.Proofs.Line.Padding
import ExLine.Proofs.Line.Segment

/-!
Contract: arguments that are written with a backslash before every character.

Owns:
- `Arguments.Escaped`, an argument with the blanks in front of it, and
  `Arguments.written`, the text of several;
- for each reader of an argument text, that it takes such a text as it is:
  `split_escaped` (no separator and no marker in it), `trim_escaped` (no blank
  at its end goes) and `words_escaped` (its words are the arguments).

Does not own: what carries the text from one command to the next
(`ExLine.Proofs.Engine.Handover`).

The readers of bytes see a backslash, the first byte of a character, and maybe
more bytes. Only the first of them is escaped; the others are above the ASCII
ones, and no reader gives them a meaning.
-/

set_option autoImplicit false

namespace ExLine

open Bytes

namespace Arguments

/-- The characters with a backslash before each. -/
def escape (chars : List Char) : List Char :=
  chars.flatMap fun char => ['\\', char]

/-- An argument and the blanks in front of it. -/
structure Escaped where
  gap : List Char
  chars : List Char
  someGap : gap ≠ []
  blank : ∀ char ∈ gap, Chars.isBlank char
  someChars : chars ≠ []

/-- The arguments as they stand on a line, each after its blanks. -/
def written (arguments : List Escaped) : List Char :=
  arguments.flatMap fun argument => argument.gap ++ escape argument.chars

/-- The argument text of a line, which starts with the first argument. -/
def escapedText : List Escaped → List Char
  | [] => []
  | first :: others => escape first.chars ++ written others

/-- The arguments that are meant. -/
def meant (arguments : List Escaped) : List String :=
  arguments.map fun argument => String.ofList argument.chars

theorem encode_escape_cons (char : Char) (chars : List Char) :
    Utf8.encode (escape (char :: chars))
      = Byte.backslash :: (String.utf8EncodeChar char ++ Utf8.encode (escape chars)) :=
  rfl

theorem blank_encode
    {gap : List Char}
    (blank : ∀ char ∈ gap, Chars.isBlank char) :
    ∀ byte ∈ Utf8.encode gap, Byte.isBlank byte := by
  intro byte member
  obtain ⟨char, inGap, inside⟩ := List.mem_flatMap.mp member
  obtain ⟨only, shape, blankByte⟩ := Utf8.encodeChar_of_isBlank (blank char inGap)
  rw [shape] at inside
  exact List.mem_singleton.mp inside ▸ blankByte

/-! ## Separators and markers -/

section Separators

variable {mode : TailMode}

theorem passes_escape (chars : List Char) :
    Segment.Passes mode none none (Utf8.encode (escape chars)) := by
  induction chars with
  | nil => exact .nil
  | cons char chars inductionHypothesis =>
    obtain ⟨lead, others, shape, high⟩ := Utf8.encodeChar_eq_cons char
    have first : Segment.Passes mode none none [Byte.backslash, lead] :=
      .escaped fun _ => Segment.scan_escape
    have more : Segment.Passes mode none none others := by
      refine .bytes fun byte member => .byte fun _ => Segment.scan_plain ?_
      have wide := high byte member
      simp only [Segment.isSyntax, Bool.or_eq_false_iff, beq_eq_false_iff_ne]
      refine ⟨⟨⟨⟨?_, ?_⟩, ?_⟩, ?_⟩, ?_⟩ <;> rintro rfl <;> exact absurd wide (by decide)
    rw [encode_escape_cons, shape]
    exact first.append (more.append inductionHypothesis)

theorem passes_written (arguments : List Escaped) :
    Segment.Passes mode none none (Utf8.encode (written arguments)) := by
  induction arguments with
  | nil => exact .nil
  | cons argument others inductionHypothesis =>
    have shape : Utf8.encode (written (argument :: others)) = Utf8.encode argument.gap
        ++ (Utf8.encode (escape argument.chars) ++ Utf8.encode (written others)) := by
      show Utf8.encode ((argument.gap ++ escape argument.chars) ++ written others) = _
      rw [List.append_assoc, Utf8.encode_append, Utf8.encode_append]
    have blanks : Segment.Passes mode none none (Utf8.encode argument.gap) :=
      .blanks (blank_encode argument.blank)
    rw [shape]
    exact blanks.append ((passes_escape _).append inductionHypothesis)

/-- Nothing in escaped arguments separates, and nothing is a marker. -/
theorem split_escaped (arguments : List Escaped) :
    Segment.split mode (Utf8.encode (escapedText arguments))
      = .ok ⟨Utf8.encode (escapedText arguments), false, none⟩ := by
  apply Segment.Passes.split
  cases arguments with
  | nil => exact .nil
  | cons first others =>
    rw [escapedText, Utf8.encode_append]
    exact (passes_escape _).append (passes_written others)

end Separators

/-! ## Blanks at the end -/

/-- Nothing after an escaped character is escaped. -/
theorem escapesNext_escape (chars : List Char) :
    escapesNext false (Utf8.encode (escape chars)) = false := by
  induction chars with
  | nil => rfl
  | cons char chars inductionHypothesis =>
    obtain ⟨lead, others, shape, high⟩ := Utf8.encodeChar_eq_cons char
    have noBackslash : Byte.backslash ∉ others := by
      intro member
      exact absurd (high _ member) (by decide)
    rw [encode_escape_cons, shape]
    show escapesNext false (others ++ Utf8.encode (escape chars)) = false
    rw [escapesNext_append, escapesNext_of_noBackslash noBackslash]
    exact inductionHypothesis

/-- A text stays as it is if its last byte is no blank, or escaped. -/
theorem trim_concat
    {before : Bytes}
    {last : UInt8}
    (kept : Byte.isBlank last = false ∨ escapesNext false before = true) :
    trim (before ++ [last]) = before ++ [last] := by
  have stops : (Byte.isBlank last
      && (before.reverse.takeWhile (· == Byte.backslash)).length % 2 == 0) = false := by
    rcases kept with noBlank | escaped
    · rw [noBlank, Bool.false_and]
    · have odd := escapesNext_reverse before.reverse
      rw [List.reverse_reverse, escaped] at odd
      have isOdd := beq_iff_eq.mp odd.symm
      rw [isOdd]
      exact Bool.and_false _
  unfold trim
  rw [List.reverse_append, List.reverse_singleton, List.singleton_append, dropUnescapedBlanks]
  simp only [stops, Bool.false_eq_true, if_false]
  rw [List.reverse_cons, List.reverse_reverse]

/-- The last character of an escaped text is escaped, whatever it is. -/
theorem trim_escape
    {before : Bytes}
    {chars : List Char}
    (nonempty : chars ≠ [])
    (unescaped : escapesNext false before = false) :
    trim (before ++ Utf8.encode (escape chars)) = before ++ Utf8.encode (escape chars) := by
  obtain ⟨front, last, rfl⟩ : ∃ front last, chars = front ++ [last] :=
    ⟨_, _, (List.dropLast_concat_getLast nonempty).symm⟩
  have lastAlone : Utf8.encode (escape [last])
      = [Byte.backslash] ++ String.utf8EncodeChar last := by
    rw [encode_escape_cons]
    exact congrArg (Byte.backslash :: ·) (List.append_nil _)
  have shape : before ++ Utf8.encode (escape (front ++ [last]))
      = before ++ Utf8.encode (escape front) ++ [Byte.backslash] ++ String.utf8EncodeChar last := by
    have halves : escape (front ++ [last]) = escape front ++ escape [last] := List.flatMap_append
    rw [halves, Utf8.encode_append, lastAlone]
    simp only [List.append_assoc]
  have escapes : escapesNext false (before ++ Utf8.encode (escape front) ++ [Byte.backslash])
      = true := by
    rw [escapesNext_append, escapesNext_append, unescaped, escapesNext_escape]
    rfl
  rw [shape]
  obtain ⟨lead, others, shapeLast, high⟩ := Utf8.encodeChar_eq_cons last
  rw [shapeLast]
  by_cases alone : others = []
  · rw [alone]
    exact trim_concat (.inr escapes)
  · -- The last byte belongs to a longer character, and is no blank.
    obtain ⟨middle, final, rfl⟩ : ∃ middle final, others = middle ++ [final] :=
      ⟨_, _, (List.dropLast_concat_getLast alone).symm⟩
    have wide := high final (List.mem_append_right _ List.mem_cons_self)
    have noBlank : Byte.isBlank final = false := by
      simp only [Byte.isBlank, Bool.or_eq_false_iff, beq_eq_false_iff_ne]
      constructor <;> rintro rfl <;> exact absurd wide (by decide)
    rw [← List.cons_append, ← List.append_assoc]
    exact trim_concat (.inl noBlank)

theorem trim_written
    {before : Bytes}
    (arguments : List Escaped)
    (unescaped : escapesNext false before = false)
    (alone : trim before = before) :
    trim (before ++ Utf8.encode (written arguments))
      = before ++ Utf8.encode (written arguments) := by
  induction arguments generalizing before with
  | nil =>
    show trim (before ++ []) = before ++ []
    rwa [List.append_nil]
  | cons argument others inductionHypothesis =>
    have shape : before ++ Utf8.encode (written (argument :: others))
        = before ++ Utf8.encode argument.gap ++ Utf8.encode (escape argument.chars)
          ++ Utf8.encode (written others) := by
      show before ++ Utf8.encode ((argument.gap ++ escape argument.chars) ++ written others) = _
      simp only [Utf8.encode_append, List.append_assoc]
    have gapUnescaped : escapesNext false (before ++ Utf8.encode argument.gap) = false := by
      rw [escapesNext_append, unescaped, escapesNext_blanks (blank_encode argument.blank)]
    rw [shape]
    apply inductionHypothesis
    · rw [escapesNext_append, gapUnescaped, escapesNext_escape]
    · exact trim_escape argument.someChars gapUnescaped

theorem trim_escaped (arguments : List Escaped) :
    trim (Utf8.encode (escapedText arguments)) = Utf8.encode (escapedText arguments) := by
  cases arguments with
  | nil => rfl
  | cons first others =>
    rw [escapedText, Utf8.encode_append]
    exact trim_written others (escapesNext_escape _) (@trim_escape [] _ first.someChars rfl)

/-! ## Words -/

section Words

variable (rules : WordRules)

theorem words_backslash (inWord : Bool) (char : Char) (rest : List Char) :
    words rules none inWord ('\\' :: char :: rest)
      = (words rules none true rest).map (prepend [char]) := by
  have piece : readPiece rules none '\\' (char :: rest) = (.text [char], rest) := by
    unfold readPiece
    simp [Chars.isBlank]
  rw [words]
  split <;> rename_i found <;> rw [piece] at found <;> cases found
  rfl

theorem words_blank (inWord : Bool) {char : Char} (blank : Chars.isBlank char) (rest : List Char) :
    words rules none inWord (char :: rest)
      = (words rules none false rest).map fun found =>
          if inWord then [] :: found else found := by
  have piece : readPiece rules none char rest = (.gap, rest) := by
    unfold readPiece
    simp [blank]
  rw [words]
  split <;> rename_i found <;> rw [piece] at found <;> cases found
  rfl

theorem words_gap
    {gap : List Char}
    (blank : ∀ char ∈ gap, Chars.isBlank char)
    (rest : List Char) :
    words rules none false (gap ++ rest) = words rules none false rest := by
  induction gap with
  | nil => rfl
  | cons char gap inductionHypothesis =>
    rw [List.cons_append, words_blank rules false (blank char List.mem_cons_self),
      inductionHypothesis fun other member => blank other (List.mem_cons_of_mem _ member)]
    cases words rules none false rest <;> rfl

/-- An escaped argument is read as one word, or as the rest of one. -/
theorem words_escape
    {chars : List Char}
    (nonempty : chars ≠ [])
    (inWord : Bool)
    (rest : List Char) :
    words rules none inWord (escape chars ++ rest)
      = (words rules none true rest).map (prepend chars) := by
  induction chars generalizing inWord with
  | nil => exact absurd rfl nonempty
  | cons char chars inductionHypothesis =>
    show words rules none inWord ('\\' :: char :: (escape chars ++ rest)) = _
    rw [words_backslash]
    cases chars with
    | nil => rfl
    | cons next chars =>
      rw [inductionHypothesis (List.cons_ne_nil _ _) true]
      cases words rules none true rest with
      | error quote => rfl
      | ok found => cases found <;> rfl

/-- After a word, the arguments that follow are the other words. -/
theorem words_written (arguments : List Escaped) :
    words rules none true (written arguments)
      = .ok ([] :: arguments.map fun argument => argument.chars) := by
  induction arguments with
  | nil =>
    show words rules none true [] = _
    rw [words]
    rfl
  | cons argument others inductionHypothesis =>
    obtain ⟨blank, gap, shape⟩ := List.exists_cons_of_ne_nil argument.someGap
    have blanks := argument.blank
    rw [shape] at blanks
    show words rules none true ((argument.gap ++ escape argument.chars) ++ written others) = _
    rw [shape, List.append_assoc, List.cons_append,
      words_blank rules true (blanks blank List.mem_cons_self),
      words_gap rules (fun char member => blanks char (List.mem_cons_of_mem _ member)),
      words_escape rules argument.someChars, inductionHypothesis]
    simp [Except.map, prepend]

/-- The words of escaped arguments are the arguments, by any rules. -/
theorem words_escaped (arguments : List Escaped) :
    split rules (Utf8.encode (escapedText arguments)) = .ok (meant arguments) := by
  have found : words rules none false (escapedText arguments)
      = .ok (arguments.map fun argument => argument.chars) := by
    cases arguments with
    | nil =>
      show words rules none false [] = _
      rw [words]
      rfl
    | cons first others =>
      rw [escapedText, words_escape rules first.someChars, words_written]
      simp [Except.map, prepend]
  unfold split decode
  rw [Utf8.decode_encode]
  simp only [liftError, bind, Except.bind, String.toList_ofList, found]
  simp [meant, pure, Except.pure]

end Words

/-! ## Lines with escaped arguments -/

/-- An argument text starts with no blank. -/
theorem skipBlanks_escaped
    {gap : Bytes}
    (blank : ∀ byte ∈ gap, Byte.isBlank byte)
    (arguments : List Escaped) :
    (gap ++ Utf8.encode (escapedText arguments)).skipBlanks
      = Utf8.encode (escapedText arguments) := by
  unfold skipBlanks
  rw [List.dropWhile_append_of_pos blank]
  cases arguments with
  | nil => rfl
  | cons first others =>
    obtain ⟨char, chars, shape⟩ := List.exists_cons_of_ne_nil first.someChars
    rw [escapedText, shape]
    rfl

/-- The head of a name with escaped arguments after it. -/
theorem read_escaped
    {name : String}
    {gap : List Char}
    (callable : Head.IsCallable name)
    (blank : ∀ char ∈ gap, Chars.isBlank char)
    (apart : gap ≠ [])
    (arguments : List Escaped) :
    Head.read (Utf8.encode (name.toList ++ (gap ++ escapedText arguments)))
      = .ok (.command ⟨none, name, false, Utf8.encode (escapedText arguments)⟩) := by
  have blankBytes := blank_encode blank
  have ends : EndsWord (Utf8.encode (gap ++ escapedText arguments)) := by
    obtain ⟨char, others, rfl⟩ := List.exists_cons_of_ne_nil apart
    obtain ⟨byte, shape, blankByte⟩ := Utf8.encodeChar_of_isBlank (blank char List.mem_cons_self)
    rw [List.cons_append, Utf8.encode_cons, shape]
    intro first isFirst
    cases isFirst
    exact blankByte
  have read := Head.read_before_blank callable callable.named ends
  rw [List.nil_append, Utf8.encode_append, skipBlanks_escaped blankBytes] at read
  rw [Utf8.encode_append, Utf8.encode_append]
  exact read

end Arguments

end ExLine

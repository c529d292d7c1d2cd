import ExLine.Line.Arguments
import ExLine.Proofs.Line.Head

/-!
Contract: the blanks around an argument text, as characters.

Owns:
- `Chars.Spaced`, texts with blanks between them;
- `Chars.trimBlanks`, a text without the blanks around it;
- `Arguments.trim_encode`, by which trimming bytes trims the characters that
  they encode.

Does not own: the words of an argument text.

The bytes are trimmed from their end, so both trims are compared on reversed
texts, one character at a time.
-/

set_option autoImplicit false

namespace ExLine

namespace Chars

/-- A text that holds the items as they are written, in order, with one or more
blanks between each two. -/
inductive Spaced {α : Type} (written : α → List Char) : List α → List Char → Prop where
  | nil : Spaced written [] []
  | one (item : α) : Spaced written [item] (written item)
  | cons
      (item : α)
      {next : α}
      {items : List α}
      {gap line : List Char}
      (someGap : gap ≠ [])
      (blank : ∀ char ∈ gap, isBlank char)
      (others : Spaced written (next :: items) line) :
      Spaced written (item :: next :: items) (written item ++ gap ++ line)

/-- Drops blanks at the front of a reversed text, up to the first that an odd
number of backslashes escapes. -/
def dropUnescapedBlanks : List Char → List Char
  | [] => []
  | char :: before =>
    let backslashes := (before.takeWhile (· == '\\')).length
    if isBlank char && backslashes % 2 == 0 then dropUnescapedBlanks before
    else char :: before

/-- The text without the blanks around it; an escaped blank at its end
stays. -/
def trimBlanks (chars : List Char) : List Char :=
  (dropUnescapedBlanks (chars.dropWhile isBlank).reverse).reverse

theorem mem_dropUnescapedBlanks
    {char : Char}
    {chars : List Char}
    (member : char ∈ chars)
    (noBlank : isBlank char = false) :
    char ∈ dropUnescapedBlanks chars := by
  induction chars with
  | nil => cases member
  | cons first before inductionHypothesis =>
    unfold dropUnescapedBlanks
    simp only
    split
    · rename_i dropped
      rcases List.mem_cons.mp member with rfl | member
      · simp [noBlank] at dropped
      · exact inductionHypothesis member
    · exact member

/-- A text that is more than blanks is not trimmed away. -/
theorem trimBlanks_ne_nil
    {chars : List Char}
    (nonblank : chars.all isBlank = false) :
    trimBlanks chars ≠ [] := by
  obtain ⟨char, member, notBlank⟩ := List.all_eq_false.mp nonblank
  have noBlank : isBlank char = false := Bool.eq_false_iff.mpr notBlank
  have started : char ∈ chars.dropWhile isBlank := by
    rw [← List.takeWhile_append_dropWhile (p := isBlank) (l := chars)] at member
    rcases List.mem_append.mp member with blank | later
    · have isBlank := List.all_eq_true.mp List.all_takeWhile char blank
      rw [noBlank] at isBlank
      cases isBlank
    · exact later
  have kept := mem_dropUnescapedBlanks (List.mem_reverse.mpr started) noBlank
  exact List.ne_nil_of_mem (List.mem_reverse.mpr kept)

/-- The text without the blanks after it; an escaped blank stays. -/
def trimEnd (chars : List Char) : List Char :=
  (dropUnescapedBlanks chars.reverse).reverse

theorem mem_of_mem_trimEnd {char : Char} {chars : List Char} (member : char ∈ trimEnd chars) :
    char ∈ chars := by
  have sublist : (dropUnescapedBlanks chars.reverse).Sublist chars.reverse := by
    generalize chars.reverse = reversed
    induction reversed with
    | nil => exact List.Sublist.refl _
    | cons first before inductionHypothesis =>
      unfold dropUnescapedBlanks
      simp only
      split
      · exact inductionHypothesis.cons first
      · exact List.Sublist.refl _
  exact List.mem_reverse.mp (sublist.subset (List.mem_reverse.mp member))

/-- Trimming stops at the latest at a character that is neither a blank nor a
backslash. -/
theorem trimEnd_append_cons
    {stop : Char}
    (noBlank : isBlank stop = false)
    (noBackslash : stop ≠ '\\')
    (before chars : List Char) :
    trimEnd (before ++ stop :: chars) = before ++ stop :: trimEnd chars := by
  have stops (reversed rest : List Char) :
      dropUnescapedBlanks (reversed ++ stop :: rest)
        = dropUnescapedBlanks reversed ++ stop :: rest := by
    induction reversed with
    | nil =>
      show dropUnescapedBlanks (stop :: rest) = stop :: rest
      rw [dropUnescapedBlanks, noBlank]
      rfl
    | cons first reversed inductionHypothesis =>
      have sameCount : ((reversed ++ stop :: rest).takeWhile (· == '\\')).length
          = (reversed.takeWhile (· == '\\')).length := by
        rw [List.takeWhile_append]
        split
        · rename_i all
          rw [List.takeWhile_cons_of_neg (by simpa using noBackslash), List.append_nil, all]
        · rfl
      rw [List.cons_append, dropUnescapedBlanks, dropUnescapedBlanks, sameCount]
      split
      · exact inductionHypothesis
      · rfl
  unfold trimEnd
  rw [List.reverse_append, List.reverse_cons, List.append_assoc, List.singleton_append, stops,
    List.reverse_append, List.reverse_cons, List.reverse_reverse, List.append_assoc,
    List.singleton_append]

end Chars

namespace Arguments

/-- The bytes of a reversed text, last byte first. -/
def encodeReversed (chars : List Char) : Bytes :=
  chars.flatMap fun char => (String.utf8EncodeChar char).reverse

theorem reverse_encode (chars : List Char) :
    (Utf8.encode chars).reverse = encodeReversed chars.reverse :=
  List.reverse_flatMap

/-- The last byte of a character is a byte of the command syntax only if it is
all of the character. -/
theorem reverse_encodeChar (char : Char) :
    ∃ last others, (String.utf8EncodeChar char).reverse = last :: others
      ∧ (last < 0x80 → char = Byte.toChar last) := by
  obtain ⟨last, others, shape⟩ := List.exists_cons_of_ne_nil
    (mt List.reverse_eq_nil_iff.mp (String.utf8EncodeChar_ne_nil (c := char)))
  refine ⟨last, others, shape, fun low => ?_⟩
  exact Utf8.encodeChar_of_mem_ascii low (List.mem_reverse.mp (shape ▸ List.mem_cons_self))

theorem encodeReversed_cons (char : Char) (chars : List Char) :
    encodeReversed (char :: chars)
      = (String.utf8EncodeChar char).reverse ++ encodeReversed chars :=
  rfl

/-- Bytes and characters agree on how many backslashes there are in front of a
place. -/
theorem length_backslashes (chars : List Char) :
    ((encodeReversed chars).takeWhile (· == Byte.backslash)).length
      = (chars.takeWhile (· == '\\')).length := by
  induction chars with
  | nil => rfl
  | cons char rest inductionHypothesis =>
    by_cases backslash : char = '\\'
    · subst backslash
      show ((Byte.backslash :: encodeReversed rest).takeWhile (· == Byte.backslash)).length = _
      rw [List.takeWhile_cons_of_pos rfl, List.takeWhile_cons_of_pos rfl, List.length_cons,
        List.length_cons, inductionHypothesis]
    · obtain ⟨last, others, shape, only⟩ := reverse_encodeChar char
      have otherByte : last ≠ Byte.backslash := by
        rintro rfl
        exact backslash (only (by decide))
      rw [encodeReversed_cons, shape, List.cons_append,
        List.takeWhile_cons_of_neg (by simpa using otherByte),
        List.takeWhile_cons_of_neg (by simpa using backslash)]
      rfl

theorem dropUnescapedBlanks_encodeReversed (chars : List Char) :
    dropUnescapedBlanks (encodeReversed chars)
      = encodeReversed (Chars.dropUnescapedBlanks chars) := by
  induction chars with
  | nil => rfl
  | cons char before inductionHypothesis =>
    cases blank : Chars.isBlank char with
    | true =>
      obtain ⟨byte, shape, blankByte⟩ := Utf8.encodeChar_of_isBlank blank
      have bytes : encodeReversed (char :: before) = byte :: encodeReversed before := by
        rw [encodeReversed_cons, shape]
        rfl
      rw [bytes]
      unfold dropUnescapedBlanks Chars.dropUnescapedBlanks
      simp only [blank, blankByte, length_backslashes, Bool.true_and]
      split
      · exact inductionHypothesis
      · exact bytes.symm
    | false =>
      obtain ⟨last, others, shape, only⟩ := reverse_encodeChar char
      have noBlank : Byte.isBlank last = false := by
        rw [Bool.eq_false_iff]
        intro blankByte
        have same := only (Byte.ascii_of_isBlank blankByte)
        simp only [Byte.isBlank, Bool.or_eq_true, beq_iff_eq] at blankByte
        rcases blankByte with rfl | rfl <;> subst same <;> cases blank
      have bytes : encodeReversed (char :: before)
          = last :: (others ++ encodeReversed before) := by
        rw [encodeReversed_cons, shape]
        rfl
      have kept : Chars.dropUnescapedBlanks (char :: before) = char :: before := by
        unfold Chars.dropUnescapedBlanks
        simp only [blank, Bool.false_and, Bool.false_eq_true, if_false]
      rw [kept, bytes]
      unfold dropUnescapedBlanks
      simp only [noBlank, Bool.false_and, Bool.false_eq_true, if_false]

theorem trim_encode_trimEnd (chars : List Char) :
    trim (Utf8.encode chars) = Utf8.encode (Chars.trimEnd chars) := by
  unfold trim Chars.trimEnd
  rw [reverse_encode, dropUnescapedBlanks_encodeReversed]
  conv => rhs; rw [← List.reverse_reverse (Utf8.encode _), reverse_encode, List.reverse_reverse]

/-- Trimming the bytes of a text trims the text. -/
theorem trim_encode (chars : List Char) :
    trim (Utf8.encode (chars.dropWhile Chars.isBlank)) = Utf8.encode (Chars.trimBlanks chars) :=
  trim_encode_trimEnd (chars.dropWhile Chars.isBlank)

theorem decode_nil : decode [] = .ok "" :=
  congrArg (liftError _) (Utf8.decode_encode [])

theorem split_nil (rules : WordRules) : split rules [] = .ok [] := by
  have noWords : words rules none false "".toList = .ok [] := by
    show words rules none false [] = .ok []
    rw [words]
    rfl
  unfold split
  rw [decode_nil]
  simp only [bind, Except.bind, noWords]
  rfl

end Arguments

end ExLine

import ExLine.Proofs.Line.Head
import ExLine.Proofs.Line.Padding
import ExLine.Proofs.Line.Words
import ExLine.Proofs.Text.Utf8
import Mathlib.Algebra.Group.Nat.Even
import Mathlib.Data.List.DropRight

/-!
Contract: the splitter and the blanks that trimming takes away.

Owns:
- `Arguments.EndsFree`, a text at whose end the splitter has nothing escaped, and
  `Arguments.words_append_blanks`, by which blanks after such a text make no word;
- `Arguments.split_of_padded`, the same for byte strings, well formed or not;
- `Arguments.IsTrimmed`, what may be left of a text without the blanks after it,
  and `Arguments.trimming_is_invisible`, by which trimming leaves the most of that.

Does not own: white space of other kinds (`ExLine.Proofs.Line.Trimming`).

Trimming counts backslashes whatever quotes are around them, and between single
quotes the splitter takes a backslash as it is. So there the two disagree. But a
text that ends there is refused with any blanks after it, and the quote that
closes is no backslash, so behind it they agree again.
-/

set_option autoImplicit false

namespace ExLine

open Bytes (escapesNext Padded)

/-- Whether a text escapes what follows it does not depend on how characters are
encoded. -/
theorem Bytes.escapesNext_encode_cons (escaped : Bool) (char : Char) (chars : List Char) :
    escapesNext escaped (Utf8.encode (char :: chars))
      = escapesNext (!escaped && char == '\\') (Utf8.encode chars) := by
  rw [Utf8.encode_cons, escapesNext_append]
  by_cases isBackslash : char = '\\'
  · subst isBackslash
    rfl
  · have noBackslash : Byte.backslash ∉ String.utf8EncodeChar char := fun member =>
      isBackslash (Utf8.encodeChar_of_mem_ascii (by decide) member)
    obtain ⟨lead, others, shape⟩ :=
      List.exists_cons_of_ne_nil (String.utf8EncodeChar_ne_nil (c := char))
    rw [shape, List.mem_cons, not_or] at noBackslash
    rw [shape, escapesNext_cons_of_ne (Ne.symm noBackslash.1),
      escapesNext_of_noBackslash noBackslash.2, beq_eq_false_iff_ne.mpr isBackslash,
      Bool.and_false]

/-- A name escapes nothing. -/
theorem Bytes.escapesNext_dropName (chars : List Char) :
    escapesNext false (Utf8.encode (chars.dropWhile Chars.isNameChar))
      = escapesNext false (Utf8.encode chars) := by
  induction chars with
  | nil => rfl
  | cons char chars inductionHypothesis =>
    rw [List.dropWhile_cons]
    split
    · rename_i inName
      have noBackslash : (char == '\\') = false := by
        rw [beq_eq_false_iff_ne]
        rintro rfl
        cases inName
      rw [escapesNext_encode_cons, noBackslash, Bool.and_false]
      exact inductionHypothesis
    · rfl

namespace Arguments

/-! ## Blanks after a text -/

/-- The splitter, inside `quote` in front of a text, has nothing escaped when it
comes to the end of the text. Between single quotes it escapes nothing, so there
the flag may be up. -/
structure EndsFree (quote : Option Char) (chars : List Char) : Prop where
  isQuote : ∀ opening ∈ quote, opening = '\'' ∨ opening = '"'
  unescaped : ∃ escaped, (quote ≠ some '\'' → escaped = false)
    ∧ escapesNext escaped (Utf8.encode chars) = false

section Blanks

variable {rules : WordRules} {quote next : Option Char} {char : Char} {rest after : List Char}

theorem EndsFree.start
    {chars : List Char}
    (unescaped : escapesNext false (Utf8.encode chars) = false) :
    EndsFree none chars :=
  ⟨fun _ isNone => (nomatch isNone), false, fun _ => rfl, unescaped⟩

/-- A character other than a backslash takes no flag along. -/
theorem EndsFree.tail
    (free : EndsFree quote (char :: rest))
    (noBackslash : char ≠ '\\')
    (isQuote : ∀ opening ∈ next, opening = '\'' ∨ opening = '"') :
    EndsFree next rest := by
  obtain ⟨escaped, -, unescaped⟩ := free.unescaped
  rw [Bytes.escapesNext_encode_cons, beq_eq_false_iff_ne.mpr noBackslash, Bool.and_false]
    at unescaped
  exact ⟨isQuote, false, fun _ => rfl, unescaped⟩

theorem EndsFree.single (free : EndsFree (some '\'') (char :: rest)) :
    EndsFree (some '\'') rest := by
  obtain ⟨escaped, -, unescaped⟩ := free.unescaped
  rw [Bytes.escapesNext_encode_cons] at unescaped
  exact ⟨free.isQuote, _, fun notSingle => absurd rfl notSingle, unescaped⟩

/-- Outside single quotes a backslash protects the character after it. -/
theorem EndsFree.escape
    {escaped : Char}
    (free : EndsFree quote ('\\' :: escaped :: rest))
    (notSingle : quote ≠ some '\'') :
    EndsFree quote rest := by
  obtain ⟨flag, down, unescaped⟩ := free.unescaped
  rw [down notSingle, Bytes.escapesNext_encode_cons, Bytes.escapesNext_encode_cons] at unescaped
  exact ⟨free.isQuote, false, fun _ => rfl, unescaped⟩

theorem EndsFree.noLastBackslash
    (notSingle : quote ≠ some '\'') :
    ¬ EndsFree quote ['\\'] := by
  intro free
  obtain ⟨flag, down, unescaped⟩ := free.unescaped
  rw [down notSingle] at unescaped
  cases unescaped

theorem EndsFree.dropName (free : EndsFree quote rest) (notSingle : quote ≠ some '\'') :
    EndsFree quote (rest.dropWhile Chars.isNameChar) := by
  obtain ⟨flag, down, unescaped⟩ := free.unescaped
  rw [down notSingle, ← Bytes.escapesNext_dropName] at unescaped
  exact ⟨free.isQuote, false, fun _ => rfl, unescaped⟩

variable {blanks : List Char} (blank : ∀ char ∈ blanks, Chars.isBlank char)

include blank

/-- Blanks after the text change no piece of it. -/
theorem readPiece_append_blanks
    {piece : Piece}
    (free : EndsFree quote (char :: rest))
    (found : readPiece rules quote char rest = (piece, after)) :
    readPiece rules quote char (rest ++ blanks) = (piece, after ++ blanks)
      ∧ EndsFree (piece.quoteAfter quote) after := by
  have closed : ∀ opening ∈ (none : Option Char), opening = '\'' ∨ opening = '"' :=
    fun _ isNone => nomatch isNone
  revert found
  fun_cases readPiece rules quote char rest with
  | case1 rest closes =>
    rintro ⟨⟩
    refine ⟨by rw [readPiece.eq_def, if_pos closes], free.tail ?_ closed⟩
    rintro rfl
    exact absurd (free.isQuote '\\' (beq_iff_eq.mp closes)) (by decide)
  | case2 rest notClosing isSingle =>
    rintro ⟨⟩
    refine ⟨by rw [readPiece.eq_def, if_neg notClosing, if_pos isSingle], ?_⟩
    obtain rfl := beq_iff_eq.mp isSingle
    exact free.single
  | case3 rest notClosing notSingle isGap =>
    rintro ⟨⟩
    refine ⟨by rw [readPiece.eq_def, if_neg notClosing, if_neg notSingle, if_pos isGap],
      free.tail ?_ closed⟩
    rintro rfl
    simp [Chars.isBlank] at isGap
  | case4 rest notClosing notSingle notGap opens =>
    rintro ⟨⟩
    refine ⟨by rw [readPiece.eq_def, if_neg notClosing, if_neg notSingle, if_neg notGap,
      if_pos opens], ?_⟩
    simp only [Bool.and_eq_true, Bool.or_eq_true, beq_iff_eq] at opens
    refine free.tail ?_ fun opening isOpening => ?_
    · rintro rfl
      rcases opens.2 with same | same <;> cases same
    · cases isOpening
      exact opens.2
  | case5 notClosing notSingle notGap notOpening isBackslash =>
    subst isBackslash
    exact absurd free (EndsFree.noLastBackslash (by simpa using notSingle))
  | case6 notClosing notSingle notGap notOpening isBackslash escaped later =>
    rintro ⟨⟩
    subst isBackslash
    refine ⟨?_, free.escape (by simpa using notSingle)⟩
    rw [readPiece.eq_def, if_neg notClosing, if_neg notSingle, if_neg notGap, if_neg notOpening,
      if_pos rfl]
    rfl
  | case7 rest notClosing notSingle notGap notOpening noBackslash values expands isDollar =>
    rintro ⟨⟩
    have noName : ∀ first ∈ blanks.head?, Chars.isNameChar first = false :=
      fun first isFirst => Chars.isNameChar_of_isBlank (blank first (List.mem_of_head? isFirst))
    have sameName : expansion values (rest ++ blanks) = expansion values rest := by
      rw [expansion, takeWhile_append_of_stop noName]
      rfl
    refine ⟨?_, (free.tail noBackslash free.isQuote).dropName (by simpa using notSingle)⟩
    rw [readPiece.eq_def, if_neg notClosing, if_neg notSingle, if_neg notGap, if_neg notOpening,
      if_neg noBackslash, expands]
    simp only [if_pos isDollar, sameName, dropWhile_append_of_stop noName]
  | case8 rest notClosing notSingle notGap notOpening noBackslash values expands notDollar =>
    rintro ⟨⟩
    refine ⟨?_, free.tail noBackslash free.isQuote⟩
    rw [readPiece.eq_def, if_neg notClosing, if_neg notSingle, if_neg notGap, if_neg notOpening,
      if_neg noBackslash, expands]
    simp only [if_neg notDollar]
  | case9 rest notClosing notSingle notGap notOpening noBackslash noValues =>
    rintro ⟨⟩
    refine ⟨?_, free.tail noBackslash free.isQuote⟩
    rw [readPiece.eq_def, if_neg notClosing, if_neg notSingle, if_neg notGap, if_neg notOpening,
      if_neg noBackslash, noValues]

/-- Blanks alone are no word, and they close no quote. -/
theorem words_blanks
    (isQuote : ∀ opening ∈ quote, opening = '\'' ∨ opening = '"')
    (begun : Bool) :
    words rules quote begun blanks = words rules quote begun [] := by
  induction blanks generalizing begun with
  | nil => rfl
  | cons char blanks inductionHypothesis =>
    have isBlank := blank char List.mem_cons_self
    have later := inductionHypothesis fun other member =>
      blank other (List.mem_cons_of_mem _ member)
    cases quote with
    | none =>
      have gap : readPiece rules none char blanks = (.gap, blanks) := by
        unfold readPiece
        rw [if_neg (by simp), if_neg (by simp), if_pos (by simp [isBlank])]
      rw [words_cons gap]
      show (words rules none false blanks).map _ = _
      rw [later]
      cases begun <;> simp [words, Except.map, Piece.put]
    | some opening =>
      have inQuote : readPiece rules (some opening) char blanks = (.text [char], blanks) := by
        have isChar : char = ' ' ∨ char = '\t' := by simpa [Chars.isBlank] using isBlank
        rcases isQuote opening rfl with rfl | rfl
        · rcases isChar with rfl | rfl <;> simp [readPiece]
        · rcases isChar with rfl | rfl <;> cases values : rules.env <;> simp [readPiece, values]
      rw [words_cons inQuote]
      show (words rules (some opening) true blanks).map _ = _
      rw [later]
      simp [words, Except.map]

/-- **Blanks after a text make no word.** -/
theorem words_append_blanks
    {quote : Option Char}
    {chars : List Char}
    (free : EndsFree quote chars)
    (begun : Bool) :
    words rules quote begun (chars ++ blanks) = words rules quote begun chars := by
  match chars with
  | [] => exact words_blanks blank free.isQuote begun
  | char :: rest =>
    cases found : readPiece rules quote char rest with
    | mk piece after =>
      have shorter := length_lt_of_readPiece found
      obtain ⟨foundLonger, freeAfter⟩ := readPiece_append_blanks blank free found
      rw [List.cons_append, words_cons foundLonger, words_cons found,
        words_append_blanks freeAfter]
termination_by chars.length
decreasing_by exact shorter

end Blanks

/-! ## Trimmed byte strings -/

/-- The splitter does not see padding. -/
theorem split_of_padded
    {short long : Bytes}
    (padded : Padded short long)
    (rules : WordRules) :
    split rules long = split rules short := by
  cases padded with
  | none => rfl
  | @blanks blanks blank unescaped =>
    have ascii : ∀ byte ∈ blanks, byte < 0x80 :=
      fun byte member => Byte.ascii_of_isBlank (blank byte member)
    unfold split decode
    rw [Utf8.decode_append_ascii ascii]
    cases decoded : Utf8.decode short with
    | error offset => rfl
    | ok text =>
      have blankChars : ∀ char ∈ blanks.map Byte.toChar, Chars.isBlank char := by
        rw [List.forall_mem_map]
        exact fun byte member => Byte.isBlank_toChar (blank byte member)
      rw [Utf8.decode_eq_ok_iff.mp decoded] at unescaped
      have sameWords : words rules none false (text ++ Bytes.asciiText blanks).toList
          = words rules none false text.toList := by
        rw [String.toList_append, Bytes.asciiText, String.toList_ofList]
        exact words_append_blanks blankChars (.start unescaped) false
      simp only [Except.map, liftError, bind, Except.bind, sameWords]

/-- A part of a text that trimming may leave. The rest of the text is blank, and
the part does not end in a blank after an even number of backslashes. -/
structure IsTrimmed (body kept : Bytes) : Prop where
  removesBlanks : ∃ blanks, body = kept ++ blanks ∧ ∀ byte ∈ blanks, Byte.isBlank byte
  keepsEscaped : ∀ before blank, kept = before ++ [blank] → Byte.isBlank blank →
    ¬ Even (before.rtakeWhile (· == Byte.backslash)).length

/-- What is left of a reversed text starts with no blank, or one that is escaped. -/
theorem not_even_of_dropUnescapedBlanks
    {reversed before : Bytes}
    {blank : UInt8}
    (left : dropUnescapedBlanks reversed = blank :: before)
    (isBlank : Byte.isBlank blank) :
    ¬ Even (before.takeWhile (· == Byte.backslash)).length := by
  induction reversed with
  | nil => cases left
  | cons byte reversed inductionHypothesis =>
    unfold dropUnescapedBlanks at left
    simp only at left
    split at left
    · exact inductionHypothesis left
    · rename_i stays
      cases left
      rw [Nat.even_iff]
      intro even
      exact stays (by simp [isBlank, even])

theorem isTrimmed_trim (body : Bytes) : IsTrimmed body (trim body) := by
  constructor
  · have padded := padded_trim body
    generalize trim body = kept at padded
    cases padded with
    | none => exact ⟨[], (List.append_nil _).symm, fun _ none => nomatch none⟩
    | blanks blank unescaped => exact ⟨_, rfl, blank⟩
  · intro before blank shape isBlank
    have left : dropUnescapedBlanks body.reverse = blank :: before.reverse := by
      rw [← List.reverse_concat', ← shape, trim, List.reverse_reverse]
    have odd := not_even_of_dropUnescapedBlanks left isBlank
    rwa [List.rtakeWhile, List.length_reverse]

theorem IsTrimmed.dropUnescapedBlanks_eq
    {body kept : Bytes}
    (trimmed : IsTrimmed body kept) :
    dropUnescapedBlanks kept.reverse = kept.reverse := by
  rcases List.eq_nil_or_concat' kept with rfl | ⟨before, last, rfl⟩
  · rfl
  · have escaped := trimmed.keepsEscaped before last rfl
    rw [List.rtakeWhile, List.length_reverse, Nat.even_iff] at escaped
    rw [List.reverse_concat', dropUnescapedBlanks, if_neg]
    simpa using escaped

/-- Where dropping stops once it stops, whatever is in front. -/
theorem suffix_dropUnescapedBlanks
    {kept : Bytes}
    (stays : dropUnescapedBlanks kept = kept)
    (dropped : Bytes) :
    kept <:+ dropUnescapedBlanks (dropped ++ kept) := by
  induction dropped with
  | nil => exact ⟨[], stays.symm⟩
  | cons byte dropped inductionHypothesis =>
    rw [List.cons_append]
    unfold dropUnescapedBlanks
    simp only
    split
    · exact inductionHypothesis
    · exact (List.suffix_append dropped kept).trans (List.suffix_cons byte _)

/-- No part that may be left is longer than what trimming leaves. -/
theorem IsTrimmed.isPrefix_trim
    {body kept : Bytes}
    (trimmed : IsTrimmed body kept) :
    kept <+: trim body := by
  obtain ⟨blanks, rfl, -⟩ := trimmed.removesBlanks
  have suffix := suffix_dropUnescapedBlanks trimmed.dropUnescapedBlanks_eq blanks.reverse
  rw [← List.reverse_append] at suffix
  apply List.reverse_suffix.mp
  rwa [trim, List.reverse_reverse]

/-- **Trimming is invisible to the splitter.** Whether quotes group, in whatever
environment, the trimmed text has the words of the text or its error, with the
place where it is malformed. Trimming twice changes nothing more, and it leaves
the longest part of the text that may be left. -/
theorem trimming_is_invisible (body : Bytes) :
    (∀ rules : WordRules, split rules (trim body) = split rules body)
      ∧ trim (trim body) = trim body
      ∧ IsTrimmed body (trim body)
      ∧ ∀ kept, IsTrimmed body kept → kept <+: trim body := by
  have padded := padded_trim body
  exact ⟨fun rules => (split_of_padded padded rules).symm, (trim_of_padded padded).symm,
    isTrimmed_trim body, fun _ trimmed => trimmed.isPrefix_trim⟩

/-- In `'a\' $V\\\  ` the first backslash escapes nothing and the last one escapes
the first of two blanks. Without that blank the text is trimmed too, but shorter. -/
theorem trimming_is_invisible_escaped_blank :
    trim (Utf8.ofString "'a\\' $V\\\\\\  ") = Utf8.ofString "'a\\' $V\\\\\\ "
      ∧ split ⟨true, some fun _ => some "x y"⟩ (trim (Utf8.ofString "'a\\' $V\\\\\\  "))
        = .ok ["a\\", "x y\\ "]
      ∧ IsTrimmed (Utf8.ofString "'a\\' $V\\\\\\  ") (Utf8.ofString "'a\\' $V\\\\\\")
      ∧ Utf8.ofString "'a\\' $V\\\\\\" <+: trim (Utf8.ofString "'a\\' $V\\\\\\  ") := by
  obtain ⟨sameWords, -, -, longest⟩ := trimming_is_invisible (Utf8.ofString "'a\\' $V\\\\\\  ")
  have shorter : IsTrimmed (Utf8.ofString "'a\\' $V\\\\\\  ") (Utf8.ofString "'a\\' $V\\\\\\") := by
    have blank : ∀ byte ∈ Utf8.ofString "  ", Byte.isBlank byte :=
      List.forall_mem_cons.mpr ⟨rfl, List.forall_mem_singleton.mpr rfl⟩
    refine ⟨⟨Utf8.ofString "  ", by decide +kernel, blank⟩, ?_⟩
    intro before blank shape isBlank
    have last := congrArg List.getLast? shape
    rw [List.getLast?_concat] at last
    cases last
    cases isBlank
  exact ⟨by decide +kernel, (sameWords _).trans (by decide +kernel), shorter, longest _ shorter⟩

end Arguments

end ExLine

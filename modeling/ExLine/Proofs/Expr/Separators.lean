import ExLine.Expr.Lexer
import ExLine.Proofs.Line.Segment
import ExLine.Proofs.Text.Utf8

/-!
Contract: the scan for a separator and the lexer of expressions agree.

Owns:
- for each way of reading a token, that the scan passes over its bytes;
- `Token.passes_of_lex`, the same for a whole text that the lexer accepts;
- `Token.split_of_lex`, which says where the arguments of such a text end.

Does not own: texts that the lexer refuses.

The lexer reads characters and takes the longest token; the scan reads bytes
and keeps a quote and an escape. They meet at the ends of tokens: there the
scan is outside quotes, with nothing escaped.
-/

set_option autoImplicit false

namespace ExLine

open Segment

/-! ## Characters that the scan passes over -/

/-- A character that carries syntax outside quotes. -/
def Chars.isSyntax (char : Char) : Bool :=
  char == '\\' || char == '\'' || char == '"' || char == '|' || char == '&'

namespace Token

/-- A byte of the encoding of a character other than `byte`'s own is not
`byte`. -/
theorem ne_of_mem_encodeChar
    {char : Char}
    {byte other : UInt8}
    (low : byte < 0x80)
    (different : char ≠ Byte.toChar byte)
    (member : other ∈ String.utf8EncodeChar char) :
    other ≠ byte := by
  rintro rfl
  exact different (Utf8.encodeChar_of_mem_ascii low member)

theorem passes_plain_char
    {char : Char}
    (plain : Chars.isSyntax char = false) :
    Passes .expression none none (String.utf8EncodeChar char) := by
  simp only [Chars.isSyntax, Bool.or_eq_false_iff, beq_eq_false_iff_ne] at plain
  obtain ⟨⟨⟨⟨noBackslash, noSingle⟩, noDouble⟩, noBar⟩, noAmpersand⟩ := plain
  refine Passes.bytes fun byte member => Passes.byte fun rest => scan_plain ?_
  simp only [isSyntax, Bool.or_eq_false_iff, beq_eq_false_iff_ne]
  exact ⟨⟨⟨⟨ne_of_mem_encodeChar (by decide) noBackslash member,
    ne_of_mem_encodeChar (by decide) noSingle member⟩,
    ne_of_mem_encodeChar (by decide) noDouble member⟩,
    ne_of_mem_encodeChar (by decide) noBar member⟩,
    ne_of_mem_encodeChar (by decide) noAmpersand member⟩

theorem passes_plain
    {chars : List Char}
    (plain : chars.all fun char => !Chars.isSyntax char) :
    Passes .expression none none (Utf8.encode chars) := by
  induction chars with
  | nil => exact Passes.nil
  | cons char rest inductionHypothesis =>
    rw [List.all_cons, Bool.and_eq_true, Bool.not_eq_true'] at plain
    have first := passes_plain_char plain.1
    exact first.append (inductionHypothesis plain.2)

/-! ## Quoted literals -/

section Quotes

variable {mode : TailMode}

theorem passes_single_char {char : Char} (inner : char ≠ '\'') :
    Passes mode (some Byte.singleQuote) (some Byte.singleQuote) (String.utf8EncodeChar char) :=
  Passes.bytes fun _ member => Passes.byte fun _ =>
    scan_quoted (ne_of_mem_encodeChar (by decide) inner member) fun _ => by decide

theorem passes_double_char {char : Char} (inner : char ≠ '"') (noEscape : char ≠ '\\') :
    Passes mode (some Byte.doubleQuote) (some Byte.doubleQuote) (String.utf8EncodeChar char) :=
  Passes.bytes fun _ member => Passes.byte fun _ =>
    scan_quoted (ne_of_mem_encodeChar (by decide) inner member) fun isBackslash =>
      absurd isBackslash (ne_of_mem_encodeChar (by decide) noEscape member)

/-- A backslash protects one byte only. The other bytes of a longer encoding
are above the ASCII ones, so they need no protection. -/
theorem passes_escaped_char (char : Char) :
    Passes mode (some Byte.doubleQuote) (some Byte.doubleQuote) (Utf8.encode ['\\', char]) := by
  obtain ⟨lead, others, shape, high⟩ := Utf8.encodeChar_eq_cons char
  have encoded : Utf8.encode ['\\', char] = [Byte.backslash, lead] ++ others := by
    rw [Utf8.encode_cons, Utf8.encode_cons, Utf8.encode_nil, List.append_nil, shape]
    rfl
  rw [encoded]
  refine Passes.append (Passes.escaped fun _ => scan_quoted_escape) ?_
  refine Passes.bytes fun byte member => Passes.byte fun _ => scan_quoted ?_ ?_
  · rintro rfl
    exact absurd (high _ member) (by decide)
  · rintro rfl
    exact absurd (high _ member) (by decide)

end Quotes

/-- The characters that a single-quoted literal takes lead the scan out of the
quote. A doubled quote closes and opens it again. -/
theorem passes_of_readSingle
    {chars text after : List Char}
    (found : readSingle chars = some (text, after)) :
    ∃ taken, chars = taken ++ after
      ∧ Passes .expression (some Byte.singleQuote) none (Utf8.encode taken) := by
  have closes : Passes .expression (some Byte.singleQuote) none (Utf8.encode ['\'']) :=
    Passes.byte fun _ => scan_close
  have opens : Passes .expression none (some Byte.singleQuote) (Utf8.encode ['\'']) :=
    Passes.byte fun _ => scan_open rfl (.inl rfl)
  fun_induction readSingle chars generalizing text after with
  | case1 => cases found
  | case2 rest inner innerAfter readInner inductionHypothesis =>
    cases found
    obtain ⟨taken, rfl, passes⟩ := inductionHypothesis readInner
    exact ⟨'\'' :: '\'' :: taken, rfl, (closes.append opens).append passes⟩
  | case3 =>
    cases found
    exact ⟨['\''], rfl, closes⟩
  | case4 =>
    cases found
    exact ⟨['\''], rfl, closes⟩
  | case5 char rest _ noQuote inductionHypothesis =>
    obtain ⟨⟨inner, innerAfter⟩, readInner, same⟩ := Option.map_eq_some_iff.mp found
    cases same
    obtain ⟨taken, rfl, passes⟩ := inductionHypothesis readInner
    exact ⟨char :: taken, rfl, (passes_single_char noQuote).append passes⟩

/-- A character between double quotes that neither ends the text nor protects another
is no backslash. -/
theorem ne_backslash_of_plain
    {char : Char}
    {rest : List Char}
    (notLast : char = '\\' → rest = [] → False)
    (notEscape : ∀ escaped others, char = '\\' → rest = escaped :: others → False) :
    char ≠ '\\' := by
  rintro rfl
  cases rest with
  | nil => exact notLast rfl rfl
  | cons escaped others => exact notEscape escaped others rfl rfl

/-- The characters that a double-quoted literal takes lead the scan out of the
quote. -/
theorem passes_of_readDouble
    {chars text after : List Char}
    (found : readDouble chars = some (text, after)) :
    ∃ taken, chars = taken ++ after
      ∧ Passes .expression (some Byte.doubleQuote) none (Utf8.encode taken) := by
  fun_induction readDouble chars generalizing text after with
  | case1 => cases found
  | case2 =>
    cases found
    exact ⟨['"'], rfl, Passes.byte fun _ => scan_close⟩
  | case3 => cases found
  | case4 => cases found
  | case5 char rest _ inductionHypothesis =>
    obtain ⟨⟨inner, innerAfter⟩, readInner, same⟩ := Option.map_eq_some_iff.mp found
    cases same
    obtain ⟨taken, rfl, passes⟩ := inductionHypothesis readInner
    refine ⟨'\\' :: char :: taken, rfl, ?_⟩
    rw [← List.singleton_append, ← List.singleton_append (l := taken), ← List.append_assoc,
      Utf8.encode_append]
    exact (passes_escaped_char char).append passes
  | case6 char rest noQuote notLast notEscape inductionHypothesis =>
    have noBackslash : char ≠ '\\' := ne_backslash_of_plain notLast notEscape
    obtain ⟨⟨inner, innerAfter⟩, readInner, same⟩ := Option.map_eq_some_iff.mp found
    cases same
    obtain ⟨taken, rfl, passes⟩ := inductionHypothesis readInner
    exact ⟨char :: taken, rfl, (passes_double_char noQuote noBackslash).append passes⟩

/-! ## Tokens and whole texts -/

theorem passes_of_readOperator
    {chars after : List Char}
    {token : Token}
    (found : readOperator chars = some (token, after)) :
    ∃ taken, chars = taken ++ after ∧ Passes .expression none none (Utf8.encode taken) := by
  unfold readOperator at found
  split at found
  case h_1 =>
    cases found
    exact ⟨['|', '|'], rfl, Passes.operator rfl (.inl rfl)⟩
  case h_2 =>
    cases found
    exact ⟨['&', '&'], rfl, Passes.operator rfl (.inr rfl)⟩
  case h_3 | h_5 | h_7 | h_9 | h_11 | h_13 | h_15 =>
    cases found
    exact ⟨[_, _], rfl, passes_plain (by decide)⟩
  case h_19 => cases found
  all_goals
    cases found
    exact ⟨[_], rfl, passes_plain (by decide)⟩

theorem not_isSyntax_of_isNameChar {char : Char} (holds : Chars.isNameChar char) :
    Chars.isSyntax char = false := by
  simp only [Chars.isSyntax, Bool.or_eq_false_iff, beq_eq_false_iff_ne]
  refine ⟨⟨⟨⟨?_, ?_⟩, ?_⟩, ?_⟩, ?_⟩ <;> rintro rfl <;> exact absurd holds (by decide)

/-- A run of characters of a class without syntax. -/
theorem passes_takeWhile
    {holds : Char → Bool}
    (plain : ∀ char, holds char → Chars.isSyntax char = false)
    (chars : List Char) :
    Passes .expression none none (Utf8.encode (chars.takeWhile holds)) := by
  apply passes_plain
  rw [List.all_eq_true]
  intro char member
  rw [Bool.not_eq_true']
  exact plain char (List.all_eq_true.mp List.all_takeWhile char member)

theorem isNameChar_of_isDigit {char : Char} (digit : Chars.isDigit char) :
    Chars.isNameChar char := by
  simp [Chars.isNameChar, digit]

/-- Whatever the token, its bytes are passed over. -/
theorem passes_of_read
    {chars after : List Char}
    {token : Token}
    (found : read chars = .ok (token, after)) :
    ∃ taken, chars = taken ++ after ∧ Passes .expression none none (Utf8.encode taken) := by
  unfold read at found
  split at found
  · cases found
  rename_i char rest
  split at found
  · rename_i isSingle
    split at found
    · rename_i readIt
      cases found
      obtain ⟨taken, rfl, passes⟩ := passes_of_readSingle readIt
      have opens : Passes .expression none _ [Byte.singleQuote] := .opening rfl (.inl rfl)
      exact ⟨char :: taken, rfl, isSingle ▸ opens.append passes⟩
    · cases found
  split at found
  · rename_i isDouble
    split at found
    · rename_i readIt
      cases found
      obtain ⟨taken, rfl, passes⟩ := passes_of_readDouble readIt
      have opens : Passes .expression none _ [Byte.doubleQuote] := .opening rfl (.inr rfl)
      exact ⟨char :: taken, rfl, isDouble ▸ opens.append passes⟩
    · cases found
  split at found
  · simp only [bind, Except.bind, pure, Except.pure] at found
    split at found
    · cases found
    · cases found
      exact ⟨_, List.takeWhile_append_dropWhile.symm, passes_takeWhile
        (fun _ digit => not_isSyntax_of_isNameChar (isNameChar_of_isDigit digit)) (char :: rest)⟩
  split at found
  · cases found
    exact ⟨_, List.takeWhile_append_dropWhile.symm,
      passes_takeWhile (fun _ holds => not_isSyntax_of_isNameChar holds) (char :: rest)⟩
  split at found
  · rename_i isDollar
    cases found
    have dollar : char = '$' := by
      simp only [Bool.and_eq_true, decide_eq_true_eq] at isDollar
      exact isDollar.1
    refine ⟨char :: rest.takeWhile Chars.isNameChar, ?_, ?_⟩
    · rw [List.cons_append, List.takeWhile_append_dropWhile]
    · have first : Passes .expression none none (String.utf8EncodeChar char) :=
        passes_plain_char (dollar ▸ rfl)
      exact first.append
        (passes_takeWhile (fun _ holds => not_isSyntax_of_isNameChar holds) rest)
  · split at found
    · rename_i readIt
      cases found
      exact passes_of_readOperator readIt
    · cases found

/-- The scan passes over every text that the lexer accepts, and leaves it
outside quotes. -/
theorem passes_of_lex
    {chars : List Char}
    {tokens : List Token}
    (lexed : lex chars = .ok tokens) :
    Passes .expression none none (Utf8.encode chars) := by
  fun_induction lex chars generalizing tokens with
  | case1 => exact Passes.nil
  | case2 char rest blank inductionHypothesis =>
    have plain : Chars.isSyntax char = false := by
      simp only [Chars.isBlank, Bool.or_eq_true, beq_iff_eq] at blank
      rcases blank with rfl | rfl <;> rfl
    exact (passes_plain_char plain).append (inductionHypothesis lexed)
  | case3 char rest _ token after step inductionHypothesis =>
    simp only [bind, Except.bind, pure, Except.pure] at lexed
    split at lexed
    · cases lexed
    · rename_i later lexedLater
      obtain ⟨taken, split, passes⟩ := passes_of_read step
      rw [split, Utf8.encode_append]
      exact passes.append (inductionHypothesis lexedLater)
  | case4 => cases lexed

/-- **The scan and the lexer agree.** A text that the lexer accepts is the whole
body of its sub-command, without a background marker. It stays so if a single
bar and any further text follow: that bar separates, and none before it
does. -/
theorem split_of_lex
    {source : String}
    {tokens : List Token}
    (lexed : lex source.toList = .ok tokens) :
    Segment.split .expression (Utf8.ofString source) = .ok ⟨Utf8.ofString source, false, none⟩
      ∧ ∀ rest : Bytes, rest.head? ≠ some Byte.bar →
        Segment.split .expression (Utf8.ofString source ++ Byte.bar :: rest)
          = .ok ⟨Utf8.ofString source, false, some rest⟩ := by
  have passes : Passes .expression none none (Utf8.ofString source) := passes_of_lex lexed
  exact ⟨passes.split, fun rest single => passes.split_bar rfl (.inr single)⟩

/-- Bars and ampersands within literals, a doubled quote, an escaped character
of two bytes, and an operator right before the separator. -/
theorem split_of_lex_bars_in_literals :
    lex "'a''|' . \"\\é|&\" ||".toList
        = .ok [.single "a'|", .dot, .double "é|&", .or]
      ∧ Segment.split .expression (Utf8.ofString "'a''|' . \"\\é|&\" ||")
        = .ok ⟨Utf8.ofString "'a''|' . \"\\é|&\" ||", false, none⟩
      ∧ Segment.split .expression
          (Utf8.ofString "'a''|' . \"\\é|&\" ||" ++ Byte.bar :: Utf8.ofString "echo 1")
        = .ok ⟨Utf8.ofString "'a''|' . \"\\é|&\" ||", false, some (Utf8.ofString "echo 1")⟩ := by
  have lexed : lex "'a''|' . \"\\é|&\" ||".toList
      = .ok [.single "a'|", .dot, .double "é|&", .or] := by cbv
  exact ⟨lexed, (split_of_lex lexed).1, (split_of_lex lexed).2 _ (by decide)⟩

end Token

end ExLine

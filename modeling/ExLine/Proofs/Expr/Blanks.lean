import ExLine.Expr.Parser
import ExLine.Proofs.Expr.Separators
import ExLine.Proofs.Line.Arguments
import ExLine.Proofs.Results
import ExLine.Proofs.Text.Runs

/-!
Contract: blanks around an expression.

Owns:
- for each way of reading a token, that blanks after the text are left alone;
- `Token.lex_append_iff`, the same for a whole text;
- `Token.lex_trimBlanks`, by which a text keeps its tokens when it is trimmed, and
  `Token.ofSource_of_lex`, by which nothing else of a text matters.

Does not own: what the trimmed text is in bytes (`ExLine.Proofs.Line.Arguments`).

An argument text loses the blanks at its end before the lexer sees it, up to
the first that a backslash protects. No token ends in a blank or a backslash, so
what is lost stands between no two characters of a token.
-/

set_option autoImplicit false

namespace ExLine.Token

theorem readSingle_cons
    {char : Char}
    (noQuote : char ≠ '\'')
    (rest : List Char) :
    readSingle (char :: rest)
      = (readSingle rest).map fun (text, after) => (char :: text, after) := by
  rw [readSingle]
  · intro rest isQuote
    exact absurd isQuote noQuote
  · exact noQuote

theorem readDouble_cons
    {char : Char}
    (noQuote : char ≠ '"')
    (noBackslash : char ≠ '\\')
    (rest : List Char) :
    readDouble (char :: rest)
      = (readDouble rest).map fun (text, after) => (char :: text, after) := by
  rw [readDouble]
  · exact noQuote
  · intro isBackslash
    exact absurd isBackslash noBackslash
  · intro escaped rest isBackslash
    exact absurd isBackslash noBackslash

/-! ## The first token of a text -/

theorem lex_of_blank
    {char : Char}
    {rest : List Char}
    (isBlank : Chars.isBlank char) :
    lex (char :: rest) = lex rest := by
  rw [lex, if_pos isBlank]

/-- The tokens of a text are its first token and those of what follows it. -/
theorem lex_cons_of_read
    {char : Char}
    {rest after : List Char}
    {token : Token}
    (noBlank : Chars.isBlank char = false)
    (found : read (char :: rest) = .ok (token, after)) :
    lex (char :: rest) = (lex after).map (token :: ·) := by
  rw [lex, noBlank]
  split
  · contradiction
  · split
    · rename_i other afterOther foundOther
      cases found.symm.trans foundOther
      cases lex after <;> rfl
    · rename_i fault notFound
      cases found.symm.trans notFound

theorem lex_of_read
    {char : Char}
    {rest after : List Char}
    {token : Token}
    {tokens : List Token}
    (noBlank : Chars.isBlank char = false)
    (found : read (char :: rest) = .ok (token, after))
    (lexed : lex after = .ok tokens) :
    lex (char :: rest) = .ok (token :: tokens) := by
  rw [lex_cons_of_read noBlank found, lexed]
  rfl

/-! ## Operators -/

theorem readOperator_eq_none_iff {char : Char} {rest : List Char} :
    readOperator (char :: rest) = none ↔
      char ∉ ['=', '!', '<', '>', '.', '+', '-', '(', ')']
      ∧ (char = '|' → rest.head? ≠ some '|')
      ∧ (char = '&' → rest.head? ≠ some '&') := by
  unfold readOperator
  split
  case h_19 =>
    constructor
    · intro _
      refine ⟨?_, ?_, ?_⟩
      · simp_all only [List.cons.injEq, imp_false, not_and, List.mem_cons]
        grind
      · rintro rfl isBar
        obtain ⟨after, rfl⟩ := List.head?_eq_some_iff.mp isBar
        exact (‹∀ rest, '|' :: '|' :: after = '|' :: '|' :: rest → False›) after rfl
      · rintro rfl isAmpersand
        obtain ⟨after, rfl⟩ := List.head?_eq_some_iff.mp isAmpersand
        exact (‹∀ rest, '&' :: '&' :: after = '&' :: '&' :: rest → False›) after rfl
    · intro _
      rfl
  all_goals
    rename_i shape
    cases shape
    simp

theorem head?_append_ne
    {rest more : List Char}
    {char : Char}
    (noStart : rest.head? ≠ some char)
    (stops : more.head? ≠ some char) :
    (rest ++ more).head? ≠ some char := by
  cases rest with
  | nil => exact stops
  | cons first rest => exact noStart

/-- An operator of one character stays one if what follows cannot be the second
character of an operator. -/
theorem readOperator_append
    {chars more : List Char}
    (nonempty : chars ≠ [])
    (noBar : more.head? ≠ some '|')
    (noAmpersand : more.head? ≠ some '&')
    (noEquals : more.head? ≠ some '=') :
    readOperator (chars ++ more)
      = (readOperator chars).map fun (token, after) => (token, after ++ more) := by
  fun_cases readOperator chars with
  | case1 | case2 | case3 | case5 | case7 | case9 | case11 | case13 | case15 => rfl
  | case17 | case18 => rfl
  | case4 rest noPair | case6 rest noPair | case8 rest noPair | case10 rest noPair
  | case12 rest noPair | case14 rest noPair | case16 rest noPair =>
    have noStart : rest.head? ≠ some '=' := by
      intro isEquals
      obtain ⟨after, shape⟩ := List.head?_eq_some_iff.mp isEquals
      exact noPair after shape
    rw [List.cons_append, readOperator]
    · rfl
    · intro after shape
      apply head?_append_ne noStart noEquals
      rw [shape]
      rfl
  | case19 =>
    cases chars with
    | nil => exact absurd rfl nonempty
    | cons char rest =>
      have found : readOperator (char :: rest) = none := by
        rw [readOperator] <;> assumption
      obtain ⟨noSign, noPair, noDouble⟩ := readOperator_eq_none_iff.mp found
      exact readOperator_eq_none_iff.mpr ⟨noSign,
        fun isBar => head?_append_ne (noPair isBar) noBar,
        fun isAmpersand => head?_append_ne (noDouble isAmpersand) noAmpersand⟩

/-! ## Tokens in front of blanks -/

theorem isDigit_of_isBlank {char : Char} (isBlank : Chars.isBlank char) :
    Chars.isDigit char = false := by
  have noName := Chars.isNameChar_of_isBlank isBlank
  simp only [Chars.isNameChar, Bool.or_eq_false_iff] at noName
  exact noName.1.2

theorem isNameStart_of_isBlank {char : Char} (isBlank : Chars.isBlank char) :
    Chars.isNameStart char = false := by
  rw [Bool.eq_false_iff]
  intro starts
  have noName := Chars.isNameChar_of_isBlank isBlank
  rw [Chars.isNameChar_of_isNameStart starts] at noName
  cases noName

/-- A token other than a literal ends where a blank begins, whatever follows that. -/
theorem read_append_of_unquoted
    {char : Char}
    {rest more : List Char}
    (noSingle : char ≠ '\'')
    (noDouble : char ≠ '"')
    (begins : ∀ first ∈ more.head?, Chars.isBlank first) :
    read (char :: rest ++ more)
      = (read (char :: rest)).map fun (token, after) => (token, after ++ more) := by
  have noDigit : ∀ first ∈ more.head?, Chars.isDigit first = false :=
    fun first isFirst => isDigit_of_isBlank (begins first isFirst)
  have noName : ∀ first ∈ more.head?, Chars.isNameChar first = false :=
    fun first isFirst => Chars.isNameChar_of_isBlank (begins first isFirst)
  have noSign {sign : Char} (noBlank : Chars.isBlank sign = false) : more.head? ≠ some sign := by
    intro first
    rw [begins sign first] at noBlank
    cases noBlank
  rw [List.cons_append, read, read, if_neg noSingle, if_neg noSingle, if_neg noDouble,
    if_neg noDouble]
  split
  · rw [← List.cons_append, takeWhile_append_of_stop noDigit, dropWhile_append_of_stop noDigit]
    cases readInt ((char :: rest).takeWhile Chars.isDigit) <;> rfl
  split
  · rw [← List.cons_append, takeWhile_append_of_stop noName, dropWhile_append_of_stop noName]
    rfl
  have sameName : (rest ++ more).head?.any Chars.isNameStart
      = rest.head?.any Chars.isNameStart := by
    cases rest with
    | nil =>
      cases first : more.head? with
      | none => simp [first]
      | some char => simp [first, isNameStart_of_isBlank (begins char first)]
    | cons first rest => rfl
  rw [sameName]
  split
  · rw [takeWhile_append_of_stop noName, dropWhile_append_of_stop noName]
    rfl
  · rw [← List.cons_append, readOperator_append (List.cons_ne_nil _ _) (noSign rfl) (noSign rfl)
      (noSign rfl)]
    cases readOperator (char :: rest) <;> rfl

section Blanks

variable {blanks : List Char} (blank : ∀ char ∈ blanks, Chars.isBlank char)

include blank

theorem head_blanks
    {char : Char}
    {rest : List Char}
    (shape : blanks = char :: rest) :
    char = ' ' ∨ char = '\t' := by
  have isBlank := blank char (shape ▸ List.mem_cons_self)
  simpa [Chars.isBlank] using isBlank

theorem readSingle_blanks : readSingle blanks = none := by
  induction blanks with
  | nil => rfl
  | cons char rest inductionHypothesis =>
    have later := inductionHypothesis fun char member => blank char (List.mem_cons_of_mem _ member)
    rcases head_blanks blank rfl with rfl | rfl <;> simp [readSingle, later]

theorem readDouble_blanks : readDouble blanks = none := by
  induction blanks with
  | nil => rfl
  | cons char rest inductionHypothesis =>
    have later := inductionHypothesis fun char member => blank char (List.mem_cons_of_mem _ member)
    rcases head_blanks blank rfl with rfl | rfl <;> simp [readDouble, later]

/-- Blanks close no quote, so a literal ends before them or not at all. -/
theorem readSingle_append (chars : List Char) :
    readSingle (chars ++ blanks)
      = (readSingle chars).map fun (text, after) => (text, after ++ blanks) := by
  fun_induction readSingle chars with
  | case1 => exact readSingle_blanks blank
  | case2 rest text after found inductionHypothesis =>
    simp [readSingle, inductionHypothesis, found]
  | case3 rest found inductionHypothesis =>
    simp [readSingle, inductionHypothesis, found]
  | case4 rest noQuote =>
    cases rest with
    | nil =>
      cases shape : blanks with
      | nil => rfl
      | cons char others =>
        rcases head_blanks blank shape with rfl | rfl <;> simp [readSingle]
    | cons char rest =>
      have other : char ≠ '\'' := by
        rintro rfl
        exact noQuote rest rfl
      simp [readSingle, other]
  | case5 char rest noPair noQuote inductionHypothesis =>
    rw [List.cons_append, readSingle_cons noQuote, inductionHypothesis, Option.map_map,
      Option.map_map]
    rfl

theorem readDouble_append (chars : List Char) :
    readDouble (chars ++ blanks)
      = (readDouble chars).map fun (text, after) => (text, after ++ blanks) := by
  fun_induction readDouble chars with
  | case1 => exact readDouble_blanks blank
  | case2 rest => simp [readDouble]
  | case3 =>
    -- A last backslash would protect the first of the blanks.
    cases shape : blanks with
    | nil => rfl
    | cons char others =>
      have later : readDouble others = none :=
        readDouble_blanks fun char member => blank char (shape ▸ List.mem_cons_of_mem _ member)
      simp [readDouble, later]
  | case4 rest => simp [readDouble]
  | case5 char rest noBreak inductionHypothesis =>
    rw [List.cons_append, List.cons_append, readDouble, if_neg noBreak, inductionHypothesis,
      Option.map_map, Option.map_map]
    rfl
  | case6 char rest noQuote notLast notEscape inductionHypothesis =>
    have noBackslash : char ≠ '\\' := ne_backslash_of_plain notLast notEscape
    rw [List.cons_append, readDouble_cons noQuote noBackslash, inductionHypothesis, Option.map_map,
      Option.map_map]
    rfl

/-- A token is read from a text alike, whether blanks follow the text or not. -/
theorem read_append
    {chars : List Char}
    (nonempty : chars ≠ []) :
    read (chars ++ blanks)
      = (read chars).map fun (token, after) => (token, after ++ blanks) := by
  cases chars with
  | nil => exact absurd rfl nonempty
  | cons char rest =>
    by_cases isSingle : char = '\''
    · rw [List.cons_append, read, read, if_pos isSingle, if_pos isSingle, readSingle_append blank]
      cases readSingle rest <;> rfl
    by_cases isDouble : char = '"'
    · rw [List.cons_append, read, read, if_neg isSingle, if_neg isSingle, if_pos isDouble,
        if_pos isDouble, readDouble_append blank]
      cases readDouble rest <;> rfl
    · exact read_append_of_unquoted isSingle isDouble fun char first =>
        blank char (List.mem_of_head? first)

theorem lex_blanks : lex blanks = .ok [] := by
  induction blanks with
  | nil => rw [lex]
  | cons char rest inductionHypothesis =>
    rw [lex_of_blank (blank char List.mem_cons_self)]
    exact inductionHypothesis fun char member => blank char (List.mem_cons_of_mem _ member)

/-- Blanks after a text add no token and take none away. -/
theorem lex_append_iff {chars : List Char} {tokens : List Token} :
    lex (chars ++ blanks) = .ok tokens ↔ lex chars = .ok tokens := by
  fun_induction lex chars generalizing tokens with
  | case1 => rw [List.nil_append, lex_blanks blank]
  | case2 char rest isBlank inductionHypothesis =>
    rw [List.cons_append, lex_of_blank isBlank]
    exact inductionHypothesis
  | case3 char rest noBlank token after found inductionHypothesis =>
    have foundBefore : read (char :: (rest ++ blanks)) = .ok (token, after ++ blanks) := by
      rw [← List.cons_append, read_append blank (List.cons_ne_nil _ _), found]
      rfl
    rw [List.cons_append, lex, if_neg noBlank]
    split
    · rename_i other afterOther foundOther
      cases foundBefore.symm.trans foundOther
      rw [bind_eq_ok_iff, bind_eq_ok_iff]
      simp only [inductionHypothesis]
    · rename_i fault notFound
      cases foundBefore.symm.trans notFound
  | case4 char rest noBlank fault notFound =>
    have notFoundBefore : read (char :: (rest ++ blanks)) = .error fault := by
      rw [← List.cons_append, read_append blank (List.cons_ne_nil _ _), notFound]
      rfl
    rw [List.cons_append, lex, if_neg noBlank]
    split
    · rename_i other afterOther foundOther
      cases notFoundBefore.symm.trans foundOther
    · constructor <;> intro lexed <;> cases lexed

end Blanks

/-! ## Trimming -/

theorem lex_dropWhile (chars : List Char) :
    lex (chars.dropWhile Chars.isBlank) = lex chars := by
  induction chars with
  | nil => rfl
  | cons char rest inductionHypothesis =>
    rw [List.dropWhile_cons]
    split
    · rename_i isBlank
      rw [inductionHypothesis, lex_of_blank isBlank]
    · rfl

theorem trimEnd_append_blanks (chars : List Char) :
    ∃ blanks, chars = Chars.trimEnd chars ++ blanks ∧ ∀ char ∈ blanks, Chars.isBlank char := by
  have dropped (reversed : List Char) : ∃ blanks,
      reversed = blanks ++ Chars.dropUnescapedBlanks reversed
        ∧ ∀ char ∈ blanks, Chars.isBlank char := by
    induction reversed with
    | nil => exact ⟨[], rfl, fun _ none => nomatch none⟩
    | cons char before inductionHypothesis =>
      unfold Chars.dropUnescapedBlanks
      simp only
      split
      · rename_i isDropped
        obtain ⟨blanks, shape, blank⟩ := inductionHypothesis
        rw [Bool.and_eq_true] at isDropped
        exact ⟨char :: blanks, congrArg (char :: ·) shape,
          List.forall_mem_cons.mpr ⟨isDropped.1, blank⟩⟩
      · exact ⟨[], rfl, fun _ none => nomatch none⟩
  obtain ⟨blanks, shape, blank⟩ := dropped chars.reverse
  refine ⟨blanks.reverse, ?_, fun char member => blank char (List.mem_reverse.mp member)⟩
  rw [Chars.trimEnd, ← List.reverse_append, ← shape, List.reverse_reverse]

/-- A text keeps its tokens when it is trimmed. -/
theorem lex_trimBlanks
    {chars : List Char}
    {tokens : List Token}
    (lexed : lex chars = .ok tokens) :
    lex (Chars.trimBlanks chars) = .ok tokens := by
  obtain ⟨blanks, shape, blank⟩ := trimEnd_append_blanks (chars.dropWhile Chars.isBlank)
  apply (lex_append_iff blank).mp
  rw [show Chars.trimBlanks chars ++ blanks = chars.dropWhile Chars.isBlank from shape.symm,
    lex_dropWhile]
  exact lexed

/-- What is read from a text depends on its tokens alone. -/
theorem ofSource_of_lex
    {chars : List Char}
    {tokens : List Token}
    (lexed : lex chars = .ok tokens) :
    ofSource (String.ofList chars) = .ok tokens := by
  unfold ofSource
  rw [String.toList_ofList, lexed]

end ExLine.Token

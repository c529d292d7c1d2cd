import ExLine.Proofs.Expr.Bounds

/-!
Contract: expressions that stand side by side.

Owns:
- `Token.lex_append`: the tokens of a text in front of a blank are not affected by
  what follows the blank;
- `Derivation.first_token`, what an expression starts with, and
  `Expr.exists_derivation`, by which every source that is read has a derivation;
- `Expr.Accepted`, a source with the expression that it is read as, and
  `Expr.list_splits_between_sources`: a list of such sources is read as the list of
  their expressions.

Does not own: what ends an expression in front of an operator
(`ExLine.Proofs.Expr.Parsing`).

Nothing separates the expressions of a list. One ends where the next token cannot go
on with it, and of the tokens that an expression starts with only the two signs can.
For the lexer the danger is a literal that ends at the first of two quotes because
nothing closes the second: more text could close it. But then the second quote starts
no token, and the text alone is refused.
-/

set_option autoImplicit false

namespace ExLine

/-! ## Tokens in front of a blank -/

namespace Token

section Followed

variable {chars text after more : List Char} {token : Token} {tokens others : List Token}

/-- More text changes nothing in a single-quoted literal, unless it ends at a quote
that something could close. -/
theorem readSingle_followed
    (found : readSingle chars = some (text, after))
    (closed : ∀ rest, after = '\'' :: rest → readSingle rest ≠ none)
    (noQuote : more.head? ≠ some '\'') :
    readSingle (chars ++ more) = some (text, after ++ more) := by
  fun_induction readSingle chars generalizing text after with
  | case1 => cases found
  | case2 rest inner innerAfter readInner inductionHypothesis =>
    cases found
    have later := inductionHypothesis readInner closed
    simp [readSingle, later]
  | case3 rest notClosed =>
    -- The literal ends only because nothing closes the second of two quotes.
    cases found
    exact absurd notClosed (closed rest rfl)
  | case4 rest noPair =>
    cases found
    show readSingle ('\'' :: (rest ++ more)) = some ([], rest ++ more)
    rw [readSingle]
    intro after shape
    cases rest with
    | nil =>
      rw [List.nil_append] at shape
      rw [shape] at noQuote
      exact noQuote rfl
    | cons char rest =>
      cases shape
      exact noPair rest rfl
  | case5 char rest _ noQuoteChar inductionHypothesis =>
    obtain ⟨⟨inner, innerAfter⟩, readInner, same⟩ := Option.map_eq_some_iff.mp found
    cases same
    rw [List.cons_append, readSingle_cons noQuoteChar, inductionHypothesis readInner closed]
    rfl

theorem readDouble_followed
    (found : readDouble chars = some (text, after))
    (more : List Char) :
    readDouble (chars ++ more) = some (text, after ++ more) := by
  fun_induction readDouble chars generalizing text after with
  | case1 => cases found
  | case2 rest =>
    cases found
    rfl
  | case3 => cases found
  | case4 => cases found
  | case5 char rest noBreak inductionHypothesis =>
    obtain ⟨⟨inner, innerAfter⟩, readInner, same⟩ := Option.map_eq_some_iff.mp found
    cases same
    rw [List.cons_append, List.cons_append, readDouble, if_neg noBreak,
      inductionHypothesis readInner]
    rfl
  | case6 char rest noQuote notLast notEscape inductionHypothesis =>
    have noBackslash : char ≠ '\\' := ne_backslash_of_plain notLast notEscape
    obtain ⟨⟨inner, innerAfter⟩, readInner, same⟩ := Option.map_eq_some_iff.mp found
    cases same
    rw [List.cons_append, readDouble_cons noQuote noBackslash, inductionHypothesis readInner]
    rfl

theorem read_followed
    {char : Char}
    (found : read (char :: chars) = .ok (token, after))
    (closed : ∀ rest, after = '\'' :: rest → readSingle rest ≠ none)
    (begins : ∀ first ∈ more.head?, Chars.isBlank first) :
    read (char :: chars ++ more) = .ok (token, after ++ more) := by
  by_cases isSingle : char = '\''
  · have noQuote : more.head? ≠ some '\'' := fun first => nomatch begins '\'' first
    rw [read, if_pos isSingle] at found
    rw [List.cons_append, read, if_pos isSingle]
    split at found
    · rename_i readIt
      cases found
      rw [readSingle_followed readIt closed noQuote]
    · cases found
  by_cases isDouble : char = '"'
  · rw [read, if_neg isSingle, if_pos isDouble] at found
    rw [List.cons_append, read, if_neg isSingle, if_pos isDouble]
    split at found
    · rename_i readIt
      cases found
      rw [readDouble_followed readIt]
    · cases found
  · rw [read_append_of_unquoted isSingle isDouble begins, found]
    rfl

/-- A text with tokens that starts with a quote starts with a literal. -/
theorem readSingle_of_lex (lexed : lex ('\'' :: chars) = .ok tokens) : readSingle chars ≠ none := by
  intro notClosed
  have fails : read ('\'' :: chars) = .error .unexpectedCharacter := by
    rw [read, if_pos rfl, notClosed]
  rw [lex] at lexed
  split at lexed
  · contradiction
  split at lexed
  · rename_i found
    cases fails.symm.trans found
  · cases lexed

/-- The tokens of a text stay as they are when a blank and more text follow, whether
that text has tokens or not. -/
theorem lex_append
    (lexed : lex chars = .ok tokens)
    (begins : ∀ first ∈ more.head?, Chars.isBlank first) :
    lex (chars ++ more) = (lex more).map (tokens ++ ·) := by
  fun_induction lex chars generalizing tokens with
  | case1 =>
    cases lexed
    exact (congrFun Except.map_id _).symm
  | case2 char rest isBlank inductionHypothesis =>
    rw [List.cons_append, lex_of_blank isBlank]
    exact inductionHypothesis lexed
  | case3 char rest noBlank token after found inductionHypothesis =>
    obtain ⟨later, lexedLater, same⟩ := bind_eq_ok_iff.mp lexed
    cases same
    have closed : ∀ rest, after = '\'' :: rest → readSingle rest ≠ none := by
      rintro rest rfl
      exact readSingle_of_lex lexedLater
    rw [Bool.not_eq_true] at noBlank
    have foundLonger : read (char :: (rest ++ more)) = .ok (token, after ++ more) :=
      read_followed found closed begins
    rw [List.cons_append, lex_cons_of_read noBlank foundLonger, inductionHypothesis lexedLater]
    cases lex more <;> rfl
  | case4 => cases lexed

theorem lex_followed
    (lexed : lex chars = .ok tokens)
    (begins : ∀ first ∈ more.head?, Chars.isBlank first)
    (lexedMore : lex more = .ok others) :
    lex (chars ++ more) = .ok (tokens ++ others) := by
  rw [lex_append lexed begins, lexedMore]
  rfl

end Followed

/-! ## The first token of a text -/

theorem exists_read_of_lex
    {chars : List Char}
    {token : Token}
    {tokens : List Token}
    (lexed : lex chars = .ok (token :: tokens)) :
    ∃ char rest after, chars.dropWhile Chars.isBlank = char :: rest
      ∧ read (char :: rest) = .ok (token, after) := by
  fun_induction lex chars with
  | case1 => cases lexed
  | case2 char rest isBlank inductionHypothesis =>
    rw [List.dropWhile_cons_of_pos isBlank]
    exact inductionHypothesis lexed
  | case3 char rest noBlank first after found inductionHypothesis =>
    obtain ⟨later, -, same⟩ := bind_eq_ok_iff.mp lexed
    cases same
    exact ⟨char, rest, after, List.dropWhile_cons_of_neg noBlank, found⟩
  | case4 => cases lexed

/-- A token that is a unary and a binary operator at once. -/
def isSign : Token → Bool
  | .plus | .minus => true
  | _ => false

theorem sign_of_readOperator
    {char : Char}
    {rest after : List Char}
    {token : Token}
    (found : readOperator (char :: rest) = some (token, after))
    (sign : token.isSign) :
    char = '+' ∨ char = '-' := by
  unfold readOperator at found
  split at found
  case h_14 =>
    rename_i shape
    cases shape
    exact .inl rfl
  case h_16 =>
    rename_i shape
    cases shape
    exact .inr rfl
  case h_19 => cases found
  all_goals
    cases found
    cases sign

/-- A sign is read from its own character alone. -/
theorem sign_of_read
    {char : Char}
    {rest after : List Char}
    {token : Token}
    (found : read (char :: rest) = .ok (token, after))
    (sign : token.isSign) :
    char = '+' ∨ char = '-' := by
  rw [read] at found
  split at found
  · split at found <;> cases found
    cases sign
  split at found
  · split at found <;> cases found
    cases sign
  split at found
  · obtain ⟨number, isNumber, same⟩ := bind_eq_ok_iff.mp found
    cases same
    simp only [readInt] at isNumber
    split at isNumber <;> cases isNumber
    cases sign
  split at found
  · cases found
    cases sign
  split at found
  · cases found
    cases sign
  split at found
  · rename_i readIt
    cases found
    exact sign_of_readOperator readIt sign
  · cases found

/-- A token that an expression may start with. -/
def startsExpression (token : Token) : Bool :=
  (Rule.atom? token).isSome || (Rule.unaryOperator? token).isSome || token == .leftParen

theorem isSign_of_startsExpression
    {op : BinaryOp}
    (starts : op.sign.startsExpression) :
    op.sign.isSign := by
  cases op with
  | add | sub => rfl
  | or | and | eq | ne | lt | le | gt | ge | concat => cases starts

end Token

theorem Derivation.first_token {stratum : Stratum} (derivation : Derivation stratum) :
    ∃ token, derivation.tokens.head? = some token ∧ token.startsExpression := by
  induction derivation with
  | int | single | double | env | var => exact ⟨_, rfl, rfl⟩
  | parens inner inductionHypothesis => exact ⟨_, rfl, rfl⟩
  | signed op operand inductionHypothesis => exact ⟨_, rfl, by cases op <;> rfl⟩
  | primary inner inductionHypothesis | term inner inductionHypothesis
  | sum inner inductionHypothesis | comparison inner inductionHypothesis
  | conjunction inner inductionHypothesis => exact inductionHypothesis
  | add op isSum left right leftHypothesis rightHypothesis
  | compare op isComparison left right leftHypothesis rightHypothesis
  | and left right leftHypothesis rightHypothesis
  | or left right leftHypothesis rightHypothesis =>
    obtain ⟨token, first, starts⟩ := leftHypothesis
    exact ⟨token, by simp only [tokens, List.head?_append, first, Option.some_or], starts⟩

/-! ## Sources side by side -/

namespace Expr

/-- What is read as an expression has the tokens of a derivation of it. -/
theorem exists_derivation
    {source : String}
    {expr : Expr}
    (parsed : Expr.parse source = .ok expr) :
    ∃ derivation : Derivation .disjunction, Token.lex source.toList = .ok derivation.tokens
      ∧ derivation.expr = expr ∧ derivation.nesting ≤ maxNesting := by
  obtain ⟨tokens, operators, lexed, ran⟩ := Expr.parse_eq_ok_iff.mp parsed
  obtain ⟨taken, built, ⟨derivation, rfl, isExpr, within, -⟩, took⟩ :=
    Rule.sound_expression _ _ _ ran
  have all : tokens = derivation.tokens := by simpa using took.tokens
  refine ⟨derivation, ?_, isExpr, within⟩
  unfold Token.ofSource at lexed
  split at lexed
  · rename_i found
    cases lexed
    rw [← all]
    exact found
  · cases lexed

/-- A source and the expression that it is read as. -/
structure Accepted where
  source : String
  expr : Expr
  parsed : Expr.parse source = .ok expr

namespace Accepted

def chars (accepted : Accepted) : List Char :=
  accepted.source.toList

/-- The source starts, after blanks, with neither sign. -/
def Unsigned (accepted : Accepted) : Prop :=
  ∀ char ∈ (accepted.chars.dropWhile Chars.isBlank).head?, char ≠ '+' ∧ char ≠ '-'

/-- No operator stands where an unsigned source begins. -/
theorem ne_sign_of_unsigned
    {accepted : Accepted}
    {token : Token}
    {tokens : List Token}
    (unsigned : accepted.Unsigned)
    (lexed : Token.lex accepted.chars = .ok tokens)
    (first : tokens.head? = some token)
    (starts : token.startsExpression)
    (op : BinaryOp) :
    token ≠ op.sign := by
  rintro rfl
  obtain ⟨rest, rfl⟩ := List.head?_eq_some_iff.mp first
  obtain ⟨char, others, after, shape, found⟩ := Token.exists_read_of_lex lexed
  have neither := unsigned char (by rw [shape]; rfl)
  rcases Token.sign_of_read found (Token.isSign_of_startsExpression starts) with isPlus | isMinus
  · exact neither.1 isPlus
  · exact neither.2 isMinus

end Accepted

/-- What sources side by side are read as, from any number of operators on, and what
they begin with. -/
structure ReadsAs (sources : List Accepted) (tokens : List Token) : Prop where
  readAll : ∀ operators,
    operators + (sources.map fun accepted => accepted.expr.operators).sum ≤ maxOperators →
      Expr.readAll ⟨tokens, operators⟩ = .ok (sources.map Accepted.expr)
  ends : (∀ accepted ∈ sources.head?, accepted.Unsigned) →
    ∀ op : BinaryOp, tokens.head? ≠ some op.sign

theorem ReadsAs.nil : ReadsAs [] [] := by
  constructor
  · intro operators _
    rw [Expr.readAll]
    rfl
  · rintro _ op ⟨⟩

theorem ReadsAs.cons
    {sources : List Accepted}
    {accepted : Accepted}
    {derivation : Derivation .disjunction}
    {tokens : List Token}
    (lexed : Token.lex accepted.chars = .ok derivation.tokens)
    (isExpr : derivation.expr = accepted.expr)
    (within : derivation.nesting ≤ maxNesting)
    (others : ReadsAs sources tokens)
    (unsigned : ∀ other ∈ sources.head?, other.Unsigned) :
    ReadsAs (accepted :: sources) (derivation.tokens ++ tokens) := by
  constructor
  · intro operators fits
    rw [List.map_cons, List.sum_cons, ← isExpr, derivation.operators_expr] at fits
    have fitsFirst : operators + derivation.operators ≤ maxOperators := by omega
    have ran := derivation.run_expression within fitsFirst (others.ends unsigned)
    rw [Expr.readAll_of_run ran, others.readAll _ (by omega), isExpr]
    rfl
  · intro firstUnsigned op
    obtain ⟨token, first, starts⟩ := derivation.first_token
    have noSign := Accepted.ne_sign_of_unsigned (firstUnsigned accepted rfl) lexed first starts op
    rw [List.head?_append, first, Option.some_or]
    exact fun same => noSign (Option.some.inj same)

theorem exists_tokens_of_spaced
    {sources : List Accepted}
    {line : List Char}
    (spaced : Chars.Spaced Accepted.chars sources line)
    (unsigned : ∀ accepted ∈ sources.tail, accepted.Unsigned) :
    ∃ tokens, Token.lex line = .ok tokens ∧ ReadsAs sources tokens := by
  induction spaced with
  | nil => exact ⟨[], by rw [Token.lex], .nil⟩
  | one accepted =>
    obtain ⟨derivation, lexed, isExpr, within⟩ := exists_derivation accepted.parsed
    refine ⟨derivation.tokens, lexed, ?_⟩
    rw [← List.append_nil derivation.tokens]
    exact .cons lexed isExpr within .nil fun _ none => absurd none (Option.not_mem_none _)
  | @cons accepted next sources gap line someGap blank others inductionHypothesis =>
    obtain ⟨derivation, lexed, isExpr, within⟩ := exists_derivation accepted.parsed
    obtain ⟨tokens, lexedLine, reads⟩ := inductionHypothesis fun other member =>
      unsigned other (List.mem_of_mem_tail member)
    have lexedRest : Token.lex (gap ++ line) = .ok tokens := by
      rw [← Token.lex_dropWhile, List.dropWhile_append_of_pos blank, Token.lex_dropWhile]
      exact lexedLine
    have begins : ∀ first ∈ (gap ++ line).head?, Chars.isBlank first := by
      obtain ⟨first, gap, rfl⟩ := List.exists_cons_of_ne_nil someGap
      rintro _ ⟨⟩
      exact blank first List.mem_cons_self
    refine ⟨derivation.tokens ++ tokens, ?_, .cons lexed isExpr within reads ?_⟩
    · rw [List.append_assoc]
      exact Token.lex_followed lexed begins lexedRest
    · rintro _ ⟨⟩
      exact unsigned next List.mem_cons_self

/-- **A list splits between its sources.** Take sources that are each read as an
expression and hold at most 512 binary operators together. If none but the first
starts with a sign, their list with blanks between them is read as the list of their
expressions. -/
theorem list_splits_between_sources
    {sources : List Accepted}
    {line : List Char}
    (spaced : Chars.Spaced Accepted.chars sources line)
    (unsigned : ∀ accepted ∈ sources.tail, accepted.Unsigned)
    (few : (sources.map fun accepted => accepted.expr.operators).sum ≤ 512) :
    Expr.parseList (String.ofList line) = .ok (sources.map Accepted.expr) := by
  obtain ⟨tokens, lexed, reads⟩ := exists_tokens_of_spaced spaced unsigned
  unfold Expr.parseList
  rw [Token.ofSource_of_lex lexed]
  exact reads.readAll 0 (by rw [Nat.zero_add]; exact few)

/-- Sources at whose ends more could be read: a literal in front of a quote, a name
in front of a parenthesis, a negation behind a comparison. -/
def crowdedSources : List Accepted :=
  [⟨" -'it''s' . ''", .binary .concat (.unary .neg (.str "it's")) (.str ""), by decide +kernel⟩,
    ⟨"'x'", .str "x", by decide +kernel⟩,
    ⟨"1 == $HOME\t", .binary .eq (.int 1) (.env "HOME"), by decide +kernel⟩,
    ⟨"!a", .unary .not (.var "a"), by decide +kernel⟩,
    ⟨"(b || 2) . c", .binary .concat (.binary .or (.var "b") (.int 2)) (.var "c"),
      by decide +kernel⟩]

def crowdedLine : String := " -'it''s' . '' 'x'\t1 == $HOME\t  !a (b || 2) . c"

theorem list_splits_between_sources_crowded :
    Chars.Spaced Accepted.chars crowdedSources crowdedLine.toList
      ∧ Expr.parseList crowdedLine = .ok (crowdedSources.map Accepted.expr) := by
  have blank : ∀ char ∈ [' '], Chars.isBlank char := List.forall_mem_singleton.mpr rfl
  have tab : ∀ char ∈ ['\t'], Chars.isBlank char := List.forall_mem_singleton.mpr rfl
  have blanks : ∀ char ∈ [' ', ' '], Chars.isBlank char := List.forall_mem_cons.mpr ⟨rfl, blank⟩
  have spaced : Chars.Spaced Accepted.chars crowdedSources crowdedLine.toList :=
    .cons _ (List.cons_ne_nil _ _) blank (.cons _ (List.cons_ne_nil _ _) tab
      (.cons _ (List.cons_ne_nil _ _) blanks (.cons _ (List.cons_ne_nil _ _) blank (.one _))))
  have unsigned : ∀ accepted ∈ crowdedSources.tail, accepted.Unsigned := by
    simp [crowdedSources, Accepted.Unsigned, Accepted.chars, Chars.isBlank]
  refine ⟨spaced, ?_⟩
  rw [← @String.ofList_toList crowdedLine]
  exact list_splits_between_sources spaced unsigned (by decide)

end Expr

end ExLine

import ExLine.Proofs.Expr.Blanks

/-!
Contract: texts written as literals.

Owns:
- `Literal`, a text with the way in which it is quoted, and its written form;
- `Literal.read_chars`: the lexer reads the text back from the written form, if
  no quote follows it directly;
- `Literal.Placed`, a literal after blanks, and the tokens of several;
- `Expr.readAll_of_run`, one step of reading a sequence of expressions;
- `Rule.run_atom` and `Expr.readAll_literals`, by which literals that stand side
  by side are expressions of their own.

Does not own: the lines in which literals stand (`ExLine.Proofs.Engine.Printing`).

A single-quoted literal takes part after part as long as quotes are doubled. What
ends it is a quote with anything but a quote after it, so the law of reading one
is stated with what follows it.
-/

set_option autoImplicit false

namespace ExLine

/-- The two ways to quote a text. -/
inductive Quote where
  | single
  | double
  deriving DecidableEq, Repr

/-- The characters with every single quote written twice. -/
def doubleQuotes (chars : List Char) : List Char :=
  chars.flatMap fun char => if char = '\'' then ['\'', '\''] else [char]

/-- The characters with a backslash before every double quote and every
backslash. -/
def escapeQuotes (chars : List Char) : List Char :=
  chars.flatMap fun char => if char = '"' ∨ char = '\\' then ['\\', char] else [char]

/-- A text and the way in which it is quoted. -/
structure Literal where
  quote : Quote
  text : String
  deriving DecidableEq, Repr

namespace Literal

/-- The quote at either end. -/
def mark (literal : Literal) : Char :=
  match literal.quote with
  | .single => '\''
  | .double => '"'

/-- What stands between the quotes. -/
def inner (literal : Literal) : List Char :=
  match literal.quote with
  | .single => doubleQuotes literal.text.toList
  | .double => escapeQuotes literal.text.toList

/-- The literal as it is written. -/
def chars (literal : Literal) : List Char :=
  literal.mark :: (literal.inner ++ [literal.mark])

def token (literal : Literal) : Token :=
  match literal.quote with
  | .single => .single literal.text
  | .double => .double literal.text

/-! ## Reading a literal -/

theorem readSingle_doubleQuotes
    {rest : List Char}
    (noQuote : rest.head? ≠ some '\'')
    (chars : List Char) :
    Token.readSingle (doubleQuotes chars ++ '\'' :: rest) = some (chars, rest) := by
  induction chars with
  | nil =>
    show Token.readSingle ('\'' :: rest) = some ([], rest)
    rw [Token.readSingle]
    intro after shape
    rw [shape] at noQuote
    exact noQuote rfl
  | cons char chars inductionHypothesis =>
    by_cases isQuote : char = '\''
    · subst isQuote
      show Token.readSingle ('\'' :: '\'' :: (doubleQuotes chars ++ '\'' :: rest)) = _
      rw [Token.readSingle, inductionHypothesis]
    · have shape : doubleQuotes (char :: chars) = char :: doubleQuotes chars := by
        unfold doubleQuotes
        rw [List.flatMap_cons, if_neg isQuote]
        rfl
      rw [shape, List.cons_append, Token.readSingle_cons isQuote, inductionHypothesis]
      rfl

theorem readDouble_escapeQuotes (chars rest : List Char) :
    Token.readDouble (escapeQuotes chars ++ '"' :: rest) = some (chars, rest) := by
  induction chars with
  | nil => rfl
  | cons char chars inductionHypothesis =>
    by_cases escaped : char = '"' ∨ char = '\\'
    · have shape : escapeQuotes (char :: chars) = '\\' :: char :: escapeQuotes chars := by
        unfold escapeQuotes
        rw [List.flatMap_cons, if_pos escaped]
        rfl
      have noBreak : char ≠ '\n' := by
        rcases escaped with rfl | rfl <;> decide
      have itself : Token.unescape char = char := by
        rcases escaped with rfl | rfl <;> rfl
      rw [shape, List.cons_append, List.cons_append, Token.readDouble, if_neg noBreak,
        inductionHypothesis, itself]
      rfl
    · have shape : escapeQuotes (char :: chars) = char :: escapeQuotes chars := by
        unfold escapeQuotes
        rw [List.flatMap_cons, if_neg escaped]
        rfl
      rw [not_or] at escaped
      rw [shape, List.cons_append, Token.readDouble_cons escaped.1 escaped.2, inductionHypothesis]
      rfl

/-- A literal is one token, and its text comes back. -/
theorem read_chars
    (literal : Literal)
    {rest : List Char}
    (noQuote : rest.head? ≠ some '\'') :
    Token.read (literal.chars ++ rest) = .ok (literal.token, rest) := by
  obtain ⟨quote, text⟩ := literal
  cases quote with
  | single =>
    have found := readSingle_doubleQuotes noQuote text.toList
    have shape : (Literal.mk .single text).chars ++ rest
        = '\'' :: (doubleQuotes text.toList ++ '\'' :: rest) := by
      simp [Literal.chars, mark, inner]
    rw [shape, Token.read, if_pos rfl, found]
    simp [Literal.token]
  | double =>
    have found := readDouble_escapeQuotes text.toList rest
    have shape : (Literal.mk .double text).chars ++ rest
        = '"' :: (escapeQuotes text.toList ++ '"' :: rest) := by
      simp [Literal.chars, mark, inner]
    rw [shape, Token.read, if_neg (by decide), if_pos rfl, found]
    simp [Literal.token]

/-- The tokens of a text that starts with a literal. -/
theorem lex_chars
    (literal : Literal)
    {rest : List Char}
    {tokens : List Token}
    (noQuote : rest.head? ≠ some '\'')
    (lexed : Token.lex rest = .ok tokens) :
    Token.lex (literal.chars ++ rest) = .ok (literal.token :: tokens) := by
  have found := literal.read_chars noQuote
  have noBlank : Chars.isBlank literal.mark = false := by
    unfold mark
    cases literal.quote <;> rfl
  unfold chars at found ⊢
  exact Token.lex_of_read noBlank found lexed

end Literal

/-! ## Names -/

/-- A letter or an underscore, and then letters, digits and underscores. -/
def Chars.isVariable : List Char → Bool
  | [] => false
  | first :: rest => isNameStart first && rest.all isNameChar

theorem Chars.isDigit_of_isNameStart {char : Char} (starts : isNameStart char) :
    isDigit char = false := by
  simp only [isNameStart, isLetter, Bool.or_eq_true, Bool.and_eq_true, decide_eq_true_eq,
    beq_iff_eq, Char.le_def, UInt32.le_iff_toNat_le] at starts
  simp only [isDigit, Bool.and_eq_false_iff, decide_eq_false_iff_not, Char.le_def,
    UInt32.le_iff_toNat_le]
  rcases starts with (upper | lower) | rfl
  · right
    exact Nat.not_le.mpr (Nat.lt_of_lt_of_le (by decide) upper.1)
  · right
    exact Nat.not_le.mpr (Nat.lt_of_lt_of_le (by decide) lower.1)
  · decide

theorem Chars.isNameChar_of_isVariable {name : List Char} (isVariable : isVariable name) :
    ∀ char ∈ name, isNameChar char := by
  cases name with
  | nil => exact fun _ none => nomatch none
  | cons first others =>
    simp only [Chars.isVariable, Bool.and_eq_true, List.all_eq_true] at isVariable
    obtain ⟨starts, goesOn⟩ := isVariable
    exact List.forall_mem_cons.mpr ⟨isNameChar_of_isNameStart starts, goesOn⟩

/-- A character of a name is neither a quote nor a blank. -/
theorem Chars.plain_of_isNameChar {char : Char} (inName : isNameChar char) :
    char ≠ '\'' ∧ char ≠ '"' ∧ isBlank char = false := by
  refine ⟨?_, ?_, ?_⟩
  · rintro rfl
    cases inName
  · rintro rfl
    cases inName
  · rw [Bool.eq_false_iff]
    intro isBlank
    rw [isNameChar_of_isBlank isBlank] at inName
    cases inName

/-- A name in front of a space is one token. -/
theorem Token.lex_name
    {name rest : List Char}
    {tokens : List Token}
    (isVariable : Chars.isVariable name)
    (lexed : Token.lex rest = .ok tokens) :
    Token.lex (name ++ ' ' :: rest) = .ok (.ident (String.ofList name) :: tokens) := by
  have inName := Chars.isNameChar_of_isVariable isVariable
  cases name with
  | nil => cases isVariable
  | cons first others =>
    have starts : Chars.isNameStart first := (Bool.and_eq_true_iff.mp isVariable).1
    obtain ⟨noSingle, noDouble, noBlank⟩ :=
      Chars.plain_of_isNameChar (inName first List.mem_cons_self)
    have found : Token.read (first :: (others ++ ' ' :: rest))
        = .ok (.ident (String.ofList (first :: others)), ' ' :: rest) := by
      rw [Token.read, if_neg noSingle, if_neg noDouble, Chars.isDigit_of_isNameStart starts, starts,
        ← List.cons_append, List.takeWhile_append_of_pos inName,
        List.dropWhile_append_of_pos inName]
      simp [Chars.isNameChar, Chars.isLetter, Chars.isDigit]
    exact Token.lex_of_read noBlank found ((Token.lex_of_blank rfl).trans lexed)

namespace Literal

/-! ## Several literals -/

/-- A literal and the blanks in front of it. -/
structure Placed where
  gap : List Char
  literal : Literal
  someGap : gap ≠ []
  blank : ∀ char ∈ gap, Chars.isBlank char

/-- The literals as they stand on a line, each after its blanks. -/
def written (literals : List Placed) : List Char :=
  literals.flatMap fun placed => placed.gap ++ placed.literal.chars

theorem isBlank_of_head?_written
    {literals : List Placed}
    {char : Char}
    (first : (written literals).head? = some char) :
    Chars.isBlank char := by
  cases literals with
  | nil => cases first
  | cons placed others =>
    obtain ⟨start, gap, shape⟩ := List.exists_cons_of_ne_nil placed.someGap
    have isStart : start = char := by
      simpa [written, shape] using first
    exact placed.blank char (by rw [shape, isStart]; exact List.mem_cons_self)

theorem lex_written (literals : List Placed) :
    Token.lex (written literals) = .ok (literals.map fun placed => placed.literal.token) := by
  induction literals with
  | nil =>
    show Token.lex [] = _
    rw [Token.lex]
    rfl
  | cons placed others inductionHypothesis =>
    have noQuote : (written others).head? ≠ some '\'' := by
      intro first
      cases isBlank_of_head?_written first
    have noBlank : Chars.isBlank placed.literal.mark = false := by
      unfold mark
      cases placed.literal.quote <;> rfl
    have shape : written (placed :: others)
        = placed.gap ++ (placed.literal.chars ++ written others) := List.append_assoc _ _ _
    rw [shape, ← Token.lex_dropWhile, List.dropWhile_append_of_pos placed.blank, chars,
      List.cons_append, List.dropWhile_cons_of_neg (by rw [noBlank]; exact Bool.false_ne_true),
      ← List.cons_append]
    exact placed.literal.lex_chars noQuote inductionHypothesis

end Literal

/-! ## Expressions of one token -/

/-- No operator of any level. -/
def Token.endsExpression (token : Token) : Bool :=
  (Rule.orOperator? token).isNone && (Rule.andOperator? token).isNone
    && (Rule.comparisonOperator? token).isNone && (Rule.additiveOperator? token).isNone

namespace Rule

theorem run_unary_atom
    {token : Token}
    {expr : Expr}
    (atom : atom? token = some expr)
    (nesting : Nat)
    (rest : List Token)
    (operators : Nat) :
    (unary nesting).run ⟨token :: rest, operators⟩ = .ok (expr, ⟨rest, operators⟩) := by
  cases nesting <;> simp [unary, unaryOver, atom, Cursor.at]

theorem chainFrom_of_stop
    {operator? : Token → Option BinaryOp}
    {operand : Rule}
    {cursor : Cursor}
    (stops : ∀ token ∈ cursor.tokens.head?, operator? token = none)
    (expr : Expr) :
    chainFrom operator? operand expr cursor = .ok (expr, cursor) := by
  rw [chainFrom]
  split
  · rfl
  · rename_i token rest shape
    rw [stops token (by rw [shape]; rfl)]

theorem run_chain_of_stop
    {operator? : Token → Option BinaryOp}
    {operand : Rule}
    {before after : Cursor}
    {expr : Expr}
    (ran : operand.run before = .ok (expr, after))
    (stops : ∀ token ∈ after.tokens.head?, operator? token = none) :
    (chain operator? operand).run before = .ok (expr, after) := by
  simp only [chain, ran]
  exact chainFrom_of_stop stops expr

theorem run_atMostOne_of_stop
    {operator? : Token → Option BinaryOp}
    {operand : Rule}
    {before after : Cursor}
    {expr : Expr}
    (ran : operand.run before = .ok (expr, after))
    (stops : ∀ token ∈ after.tokens.head?, operator? token = none) :
    (atMostOne operator? operand).run before = .ok (expr, after) := by
  simp only [atMostOne, ran]
  split
  · rfl
  · rename_i token rest shape
    rw [stops token (by rw [shape]; rfl)]

/-- An operand that no operator follows is a whole expression. -/
theorem run_atom
    {token : Token}
    {expr : Expr}
    {rest : List Token}
    (atom : atom? token = some expr)
    (stops : ∀ next ∈ rest.head?, next.endsExpression)
    (operators : Nat) :
    expression.run ⟨token :: rest, operators⟩ = .ok (expr, ⟨rest, operators⟩) := by
  have ends : ∀ next ∈ rest.head?, orOperator? next = none ∧ andOperator? next = none
      ∧ comparisonOperator? next = none ∧ additiveOperator? next = none := by
    intro next first
    simpa [Token.endsExpression, and_assoc] using stops next first
  have sum := run_chain_of_stop (run_unary_atom atom maxNesting rest operators)
    fun next first => (ends next first).2.2.2
  have comparison := run_atMostOne_of_stop sum fun next first => (ends next first).2.2.1
  have conjunction := run_chain_of_stop comparison fun next first => (ends next first).2.1
  exact run_chain_of_stop conjunction fun next first => (ends next first).1

end Rule

namespace Literal

theorem atom?_token (literal : Literal) : Rule.atom? literal.token = some (.str literal.text) := by
  unfold token
  cases literal.quote <;> rfl

theorem endsExpression_token (literal : Literal) : literal.token.endsExpression := by
  unfold token
  cases literal.quote <;> rfl

end Literal

/-- A sequence goes on behind an expression that has been read. -/
theorem Expr.readAll_of_run
    {before after : Cursor}
    {expr : Expr}
    (ran : Rule.expression.run before = .ok (expr, after)) :
    Expr.readAll before = (Expr.readAll after).map (expr :: ·) := by
  have shorter := Rule.expression.shorter ran
  rw [Expr.readAll]
  split
  · rename_i noTokens
    rw [noTokens] at shorter
    cases shorter
  split
  · rename_i failed
    cases ran.symm.trans failed
  · rename_i isRead
    cases ran.symm.trans isRead
    rfl

/-- Literals side by side are read one by one. -/
theorem Expr.readAll_literals (literals : List Literal) (operators : Nat) :
    Expr.readAll ⟨literals.map Literal.token, operators⟩
      = .ok (literals.map fun literal => .str literal.text) := by
  induction literals with
  | nil => rw [List.map_nil, Expr.readAll]; rfl
  | cons literal others inductionHypothesis =>
    have stops : ∀ next ∈ (others.map Literal.token).head?, next.endsExpression := by
      intro next first
      obtain ⟨other, -, rfl⟩ := List.mem_map.mp (List.mem_of_head? first)
      exact other.endsExpression_token
    have ran := Rule.run_atom literal.atom?_token stops operators
    rw [List.map_cons, Expr.readAll_of_run ran, inductionHypothesis]
    rfl

end ExLine

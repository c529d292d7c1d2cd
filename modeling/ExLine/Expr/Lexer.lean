import ExLine.Expr.Token
import ExLine.Text.Chars
import ExLine.Text.Utf8

/-!
Contract: cutting a text into the tokens of the expression language.

Owns:
- `Token.read`, the longest token that a text starts with;
- `Token.lex`, the tokens of a whole text, or the place where none starts;
- `LexError` and its byte offset in the text.

Does not own: how tokens combine (`ExLine.Expr.Parser`).

Blanks separate tokens. A token is the longest one that is complete: a
single-quoted literal whose doubled quote opens no further closed part ends
at the first of the two quotes.
-/

set_option autoImplicit false

namespace ExLine

/-- Why no token starts at a place. -/
inductive LexFault where
  /-- No token starts with the characters there. -/
  | unexpectedCharacter
  /-- The integer there does not fit a signed 64-bit word. -/
  | invalidNumber
  deriving DecidableEq, Repr

/-- A fault and the text from its place to the end. -/
structure LexError where
  fault : LexFault
  unread : List Char
  deriving DecidableEq, Repr

/-- The place of the fault in its source, in bytes. -/
def LexError.offset (error : LexError) (source : List Char) : Nat :=
  (Utf8.encode source).length - (Utf8.encode error.unread).length

namespace Token

/-! ## Literals -/

/-- The text of a single-quoted literal after its opening quote, and what
follows the literal. A doubled quote stands for one quote if the literal is
closed after it, and otherwise the first of the two closes the literal. -/
def readSingle : List Char → Option (List Char × List Char)
  | [] => none
  | '\'' :: '\'' :: rest =>
    match readSingle rest with
    | some (text, after) => some ('\'' :: text, after)
    | none => some ([], '\'' :: rest)
  | '\'' :: rest => some ([], rest)
  | char :: rest => (readSingle rest).map fun (text, after) => (char :: text, after)

/-- The character that a backslash and `char` stand for between double
quotes. -/
def unescape (char : Char) : Char :=
  match char with
  | 'n' => '\n'
  | 't' => '\t'
  | 'e' => '\x1b'
  | _ => char

/-- The text of a double-quoted literal after its opening quote, and what
follows the literal. A backslash protects any character but a line break. -/
def readDouble : List Char → Option (List Char × List Char)
  | [] => none
  | '"' :: rest => some ([], rest)
  | '\\' :: [] => none
  | '\\' :: char :: rest =>
    if char = '\n' then none
    else (readDouble rest).map fun (text, after) => (unescape char :: text, after)
  | char :: rest => (readDouble rest).map fun (text, after) => (char :: text, after)

/-- The integer that a run of digits denotes, if it is a 64-bit word. -/
def readInt (digits : List Char) : Except LexFault Token :=
  let value := Chars.decimalValue digits
  if value < 0x8000000000000000 then .ok (.int (Int64.ofNat value)) else .error .invalidNumber

/-! ## Tokens -/

/-- The longest operator that a text starts with, and what follows it. -/
def readOperator : List Char → Option (Token × List Char)
  | '|' :: '|' :: rest => some (.or, rest)
  | '&' :: '&' :: rest => some (.and, rest)
  | '=' :: '=' :: rest => some (.eq, rest)
  | '=' :: rest => some (.assign, rest)
  | '!' :: '=' :: rest => some (.ne, rest)
  | '!' :: rest => some (.bang, rest)
  | '<' :: '=' :: rest => some (.le, rest)
  | '<' :: rest => some (.lt, rest)
  | '>' :: '=' :: rest => some (.ge, rest)
  | '>' :: rest => some (.gt, rest)
  | '.' :: '=' :: rest => some (.concatAssign, rest)
  | '.' :: rest => some (.dot, rest)
  | '+' :: '=' :: rest => some (.addAssign, rest)
  | '+' :: rest => some (.plus, rest)
  | '-' :: '=' :: rest => some (.subAssign, rest)
  | '-' :: rest => some (.minus, rest)
  | '(' :: rest => some (.leftParen, rest)
  | ')' :: rest => some (.rightParen, rest)
  | _ => none

/-- The longest token that a text starts with, and what follows it. -/
def read (chars : List Char) : Except LexFault (Token × List Char) :=
  match chars with
  | [] => .error .unexpectedCharacter
  | char :: rest =>
    if char = '\'' then
      match readSingle rest with
      | some (text, after) => .ok (.single (String.ofList text), after)
      | none => .error .unexpectedCharacter
    else if char = '"' then
      match readDouble rest with
      | some (text, after) => .ok (.double (String.ofList text), after)
      | none => .error .unexpectedCharacter
    else if Chars.isDigit char then do
      let token ← readInt (chars.takeWhile Chars.isDigit)
      return (token, chars.dropWhile Chars.isDigit)
    else if Chars.isNameStart char then
      .ok (.ident (String.ofList (chars.takeWhile Chars.isNameChar)),
        chars.dropWhile Chars.isNameChar)
    else if char = '$' && rest.head?.any Chars.isNameStart then
      .ok (.envVar (String.ofList (rest.takeWhile Chars.isNameChar)),
        rest.dropWhile Chars.isNameChar)
    else
      match readOperator chars with
      | some (token, after) => .ok (token, after)
      | none => .error .unexpectedCharacter

/-! ## A token takes at least one character -/

theorem length_lt_of_readSingle
    {chars text after : List Char}
    (found : readSingle chars = some (text, after)) :
    after.length < chars.length := by
  fun_induction readSingle chars generalizing text after <;>
    grind [Option.map_eq_some_iff]

theorem length_lt_of_readDouble
    {chars text after : List Char}
    (found : readDouble chars = some (text, after)) :
    after.length < chars.length := by
  fun_induction readDouble chars generalizing text after <;>
    grind [Option.map_eq_some_iff]

theorem length_lt_of_readOperator
    {chars after : List Char}
    {token : Token}
    (found : readOperator chars = some (token, after)) :
    after.length < chars.length := by
  unfold readOperator at found
  split at found <;> grind

theorem length_dropWhile_le (holds : Char → Bool) (chars : List Char) :
    (chars.dropWhile holds).length ≤ chars.length :=
  (List.dropWhile_sublist holds).length_le

theorem length_lt_of_read
    {chars after : List Char}
    {token : Token}
    (found : read chars = .ok (token, after)) :
    after.length < chars.length := by
  unfold read at found
  split at found
  · cases found
  · rename_i char rest
    have nameShorter := length_dropWhile_le Chars.isNameChar rest
    have digitsShorter := length_dropWhile_le Chars.isDigit rest
    split at found
    · split at found
      · rename_i readIt
        cases found
        have := length_lt_of_readSingle readIt
        simp only [List.length_cons]
        omega
      · cases found
    split at found
    · split at found
      · rename_i readIt
        cases found
        have := length_lt_of_readDouble readIt
        simp only [List.length_cons]
        omega
      · cases found
    split at found
    · rename_i digit
      simp only [bind, Except.bind, pure, Except.pure] at found
      split at found
      · cases found
      · cases found
        simp only [List.dropWhile_cons, digit, if_true, List.length_cons]
        omega
    split at found
    · rename_i start
      cases found
      have holds : Chars.isNameChar char = true := by
        simp only [Chars.isNameStart, Chars.isNameChar, Bool.or_eq_true] at start ⊢
        exact start.elim (fun letter => Or.inl (Or.inl letter)) Or.inr
      simp only [List.dropWhile_cons, holds, if_true, List.length_cons]
      omega
    split at found
    · cases found
      simp only [List.length_cons]
      omega
    · split at found
      · rename_i readIt
        cases found
        exact length_lt_of_readOperator readIt
      · cases found

/-! ## Whole texts -/

/-- The tokens of a text, or the first place after blanks where none
starts. -/
def lex (chars : List Char) : Except LexError (List Token) :=
  match chars with
  | [] => .ok []
  | char :: rest =>
    if Chars.isBlank char then lex rest
    else
      match _step : read (char :: rest) with
      | .ok (token, after) => do
        let tokens ← lex after
        return token :: tokens
      | .error fault => .error ⟨fault, char :: rest⟩
termination_by chars.length
decreasing_by
  · simp
  · exact length_lt_of_read _step

end Token

end ExLine

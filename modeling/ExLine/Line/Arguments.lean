import ExLine.Error
import ExLine.Text.Bytes
import ExLine.Text.Chars
import ExLine.Text.Utf8

/-!
Contract: the words of an argument text.

Owns:
- `Arguments.trim`, the arguments without the blanks after them;
- `Arguments.decode`, the arguments as text;
- `Arguments.split`, the words of the arguments, with quotes, backslashes and
  environment variables taken out.

Does not own: where the arguments end (`ExLine.Line.Segment`).
-/

set_option autoImplicit false

namespace ExLine.Arguments

/-! ## Trailing blanks -/

/-- Drops blanks at the front of a reversed text, up to the first that an odd
number of backslashes escapes. -/
def dropUnescapedBlanks : Bytes → Bytes
  | [] => []
  | byte :: before =>
    let backslashes := (before.takeWhile (· == Byte.backslash)).length
    if Byte.isBlank byte && backslashes % 2 == 0 then dropUnescapedBlanks before
    else byte :: before

/-- The text without the blanks after it; an escaped blank stays. -/
def trim (body : Bytes) : Bytes :=
  (dropUnescapedBlanks body.reverse).reverse

/-- The text of the arguments. -/
def decode (body : Bytes) : Except CommandError String :=
  liftError .malformedEncoding (Utf8.decode body)

/-! ## Words -/

/-- What the splitter gives a meaning to besides blanks and backslashes. -/
structure WordRules where
  /-- Single and double quotes group characters. -/
  quotes : Bool
  /-- What a dollar sign and a name stand for; without it a dollar sign stands
  for itself. -/
  env : Option (String → Option String)

/-- What one step of the splitter finds. -/
inductive Piece where
  /-- A blank between words. -/
  | gap
  | openQuote (quote : Char)
  | closeQuote
  /-- Characters of a word. -/
  | text (chars : List Char)
  deriving DecidableEq, Repr

/-- What a dollar sign in front of `rest` stands for: the value of the name
there, nothing if that is unset, and itself if there is no name. -/
def expansion (env : String → Option String) (rest : List Char) : List Char :=
  let name := rest.takeWhile Chars.isNameChar
  if name.isEmpty then ['$'] else ((env (String.ofList name)).getD "").toList

/-- The piece that starts with `char` inside `quote`, if that is open, and the
text after the piece. Between single quotes only the closing quote has a
meaning. Elsewhere a backslash takes the next character as it is, and a last
backslash stands for itself. -/
def readPiece (rules : WordRules) (quote : Option Char) (char : Char) (rest : List Char) :
    Piece × List Char :=
  if quote == some char then (.closeQuote, rest)
  else if quote == some '\'' then (.text [char], rest)
  else if quote.isNone && Chars.isBlank char then (.gap, rest)
  else if quote.isNone && rules.quotes && (char == '\'' || char == '"') then
    (.openQuote char, rest)
  else if char = '\\' then
    match rest with
    | [] => (.text ['\\'], [])
    | escaped :: after => (.text [escaped], after)
  else
    match rules.env with
    | some env =>
      if char = '$' then (.text (expansion env rest), rest.dropWhile Chars.isNameChar)
      else (.text [char], rest)
    | none => (.text [char], rest)

theorem length_readPiece_le
    (rules : WordRules)
    (quote : Option Char)
    (char : Char)
    (rest : List Char) :
    (readPiece rules quote char rest).2.length ≤ rest.length := by
  have shorter := (List.dropWhile_sublist (l := rest) Chars.isNameChar).length_le
  fun_cases readPiece rules quote char rest <;> grind

/-- Puts characters in front of the first word. -/
def prepend (chars : List Char) : List (List Char) → List (List Char)
  | [] => [chars]
  | word :: words => (chars ++ word) :: words

/-- Cuts a text into words. `quote` is the quote that the text starts in, and
`inWord` tells whether its first characters belong to a word already begun:
then the first word of the result is the rest of that word. The error is the
quote that is still open at the end. -/
def words (rules : WordRules) (quote : Option Char) (inWord : Bool) (chars : List Char) :
    Except Char (List (List Char)) :=
  match chars with
  | [] =>
    match quote with
    | some opening => .error opening
    | none => .ok (if inWord then [[]] else [])
  | char :: rest =>
    match _piece : readPiece rules quote char rest with
    | (.gap, after) => do
      let found ← words rules none false after
      return if inWord then [] :: found else found
    | (.openQuote opening, after) => words rules (some opening) true after
    | (.closeQuote, after) => words rules none true after
    | (.text piece, after) => do
      let found ← words rules quote true after
      return prepend piece found
termination_by chars.length
decreasing_by
  all_goals
    have shorter := length_readPiece_le rules quote char rest
    rw [_piece] at shorter
    simp only [List.length_cons] at shorter ⊢
    omega

/-- The words of a byte string. -/
def split (rules : WordRules) (body : Bytes) : Except CommandError (List String) := do
  let text ← decode body
  let found ← liftError .unterminatedQuote (words rules none false text.toList)
  return found.map String.ofList

end ExLine.Arguments

import ExLine.Text.Chars

/-!
Contract: the words and signs of a shell text.

Owns:
- `Part`, a piece of a word, which remembers whether quotes protect it;
- `Symbol`, a word, a sign or a redirection;
- `Fault`, why a text is no shell text, with its wording;
- `symbols`, which cuts a text into symbols.

Does not own: what symbols mean together (`ExLine.Shell.Tree`).
-/

set_option autoImplicit false

namespace ExLine.Shell

/-- A piece of a word. What quotes or a backslash protect is taken as it is. -/
inductive Part where
  | text (chars : List Char) (quoted : Bool)
  /-- The value of a variable or of a special parameter. -/
  | parameter (name : String) (quoted : Bool)
  deriving DecidableEq, Repr

/-- What a redirection does with a stream. The word after it names the other
side. -/
inductive Redirect where
  | toFile
  | toStream
  | fromFile
  deriving DecidableEq, Repr

/-- A unit of a shell text. -/
inductive Symbol where
  | word (parts : List Part)
  | sign (text : String)
  | redirect (stream : Nat) (way : Redirect)
  deriving DecidableEq, Repr

/-- Why a text is no shell text. -/
inductive Fault where
  | unterminatedQuote
  | unexpected (symbol : Symbol)
  /-- The text ends where `expected`, or else any command, has to follow. -/
  | unexpectedEnd (expected : Option String)
  deriving DecidableEq, Repr

/-- A word that is one character without quotes. -/
def Symbol.literal (char : Char) : Symbol := .word [.text [char] false]

/-- How messages call a symbol. -/
def Symbol.shown : Symbol → String
  | .word [.text [char] false] =>
    if ['!', '\x7b', '\x7d'].contains char then "\"" ++ char.toString ++ "\"" else "word"
  | .word _ => "word"
  | .sign "\n" => "newline"
  | .sign text => "\"" ++ text ++ "\""
  | .redirect _ _ => "redirection"

/-- The wording of a fault. -/
def Fault.message : Fault → String
  | .unterminatedQuote => "Syntax error: Unterminated quoted string"
  | .unexpected symbol => "Syntax error: " ++ symbol.shown ++ " unexpected"
  | .unexpectedEnd none => "Syntax error: end of file unexpected"
  | .unexpectedEnd (some expected) =>
    "Syntax error: end of file unexpected (expecting \"" ++ expected ++ "\")"

/-! ## Words -/

/-- A character that ends a word outside quotes. -/
def endsWord (char : Char) : Bool :=
  Chars.isBlank char || ['\n', ';', '&', '|', '(', ')', '<', '>'].contains char

/-- A parameter whose name is one sign or digit. -/
def isSpecial (char : Char) : Bool :=
  Chars.isDigit char || ['$', '?', '#', '@', '*', '!', '-'].contains char

/-- The name of a parameter after a dollar sign, and the text after it. -/
def readParameter : List Char → Option (String × List Char)
  | [] => none
  | first :: rest =>
    if first = '\x7b' then
      some (String.ofList (rest.takeWhile (· != '\x7d')), (rest.dropWhile (· != '\x7d')).tail)
    else if Chars.isNameStart first then
      some (String.ofList ((first :: rest).takeWhile Chars.isNameChar),
        (first :: rest).dropWhile Chars.isNameChar)
    else if isSpecial first then some (first.toString, rest)
    else none

/-- The piece that a dollar sign in front of a text starts, and the text after
it. -/
def readDollar (quoted : Bool) (rest : List Char) : Part × List Char :=
  match readParameter rest with
  | some (name, after) => (.parameter name quoted, after)
  | none => (.text ['$'] quoted, rest)

/-- The piece that a backslash between double quotes starts, and the text after
it. The backslash stays where it protects nothing. -/
def readProtected : List Char → Part × List Char
  | [] => (.text ['\\'] true, [])
  | char :: after =>
    if ['"', '\\', '$', '\x60'].contains char then (.text [char] true, after)
    else (.text ['\\', char] true, after)

/-- The rest of a word, and the text after it. `quote` is the quote that the
text starts in. The fuel bounds the number of pieces. -/
def readWord : Nat → Option Char → List Char → Except Fault (List Part × List Char)
  | 0, _, chars => .ok ([], chars)
  | _, some _, [] => .error .unterminatedQuote
  | _, none, [] => .ok ([], [])
  | fuel + 1, some quote, char :: rest =>
    if char = quote then readWord fuel none rest
    else
      let (part, after) :=
        if quote = '\'' then (Part.text [char] true, rest)
        else if char = '\\' then readProtected rest
        else if char = '$' then readDollar true rest
        else (Part.text [char] true, rest)
      prepend part (readWord fuel quote after)
  | fuel + 1, none, char :: rest =>
    if endsWord char then .ok ([], char :: rest)
    else if char = '\'' || char = '"' then
      prepend (.text [] true) (readWord fuel char rest)
    else
      let (part, after) :=
        if char = '\\' then
          match rest with
          | [] => (Part.text ['\\'] false, [])
          | escaped :: after => (Part.text [escaped] true, after)
        else if char = '$' then readDollar false rest
        else (Part.text [char] false, rest)
      prepend part (readWord fuel none after)
where
  /-- Puts a piece in front of a word that has been read. -/
  prepend (part : Part) (found : Except Fault (List Part × List Char)) :
      Except Fault (List Part × List Char) :=
    found.map fun (parts, after) => (part :: parts, after)

/-! ## Signs -/

/-- The signs of a shell text, longer ones first. -/
def signs : List String := ["&&", "||", ";;", ";", "&", "|", "(", ")", "\n"]

/-- The redirection that an angle bracket starts, and the text after it. -/
def readRedirect (stream : Option Nat) : List Char → Option (Symbol × List Char)
  | '>' :: '&' :: rest => some (.redirect (stream.getD 1) .toStream, rest)
  | '>' :: '>' :: rest => some (.redirect (stream.getD 1) .toFile, rest)
  | '>' :: '|' :: rest => some (.redirect (stream.getD 1) .toFile, rest)
  | '>' :: rest => some (.redirect (stream.getD 1) .toFile, rest)
  | '<' :: '&' :: rest => some (.redirect (stream.getD 0) .toStream, rest)
  | '<' :: rest => some (.redirect (stream.getD 0) .fromFile, rest)
  | _ => none

/-- The sign or the redirection at the front of a text, and the text after
it. A digit right before an angle bracket names the stream. -/
def readSign (chars : List Char) : Option (Symbol × List Char) :=
  match signs.find? fun sign => sign.toList.isPrefixOf chars with
  | some sign => some (.sign sign, chars.drop sign.length)
  | none =>
    match chars with
    | [] => none
    | first :: rest =>
      if Chars.isDigit first then readRedirect (some (Chars.digitValue first)) rest
      else readRedirect none chars

/-- The symbols of a text. The fuel bounds their number. -/
def symbolsWithin : Nat → List Char → Except Fault (List Symbol)
  | 0, _ => .ok []
  | _, [] => .ok []
  | fuel + 1, char :: rest =>
    if Chars.isBlank char then symbolsWithin fuel rest
    else if char = '#' then symbolsWithin fuel (rest.dropWhile (· != '\n'))
    else
      match readSign (char :: rest) with
      | some (symbol, after) => do
        let later ← symbolsWithin fuel after
        return symbol :: later
      | none => do
        let (parts, after) ← readWord (rest.length + 2) none (char :: rest)
        let later ← symbolsWithin fuel after
        return .word parts :: later

/-- The symbols of a text. -/
def symbols (text : String) : Except Fault (List Symbol) :=
  symbolsWithin (text.length + 1) text.toList

end ExLine.Shell

import ExLine.Json
import ExLine.Text.Chars
import ExLine.Text.Reader

/-!
Contract: the words of a TOML text.

Owns: the readers for white space, comments, line ends, strings, keys,
numbers and dates.

Does not own: values that hold other values and whole documents
(`ExLine.Toml.Document`).
-/

set_option autoImplicit false

namespace ExLine.Toml

/-! ## Between the words -/

/-- The text after its leading blanks. -/
def skipBlanks (chars : List Char) : List Char :=
  chars.dropWhile Chars.isBlank

/-- A line end: a line feed, or a carriage return and a line feed. -/
def readNewline : Reader Unit
  | '\n' :: rest => some ((), rest)
  | '\r' :: '\n' :: rest => some ((), rest)
  | _ => none

/-- A character that a comment, and any string, may hold: no control character
but the tab. -/
def isPlain (char : Char) : Bool :=
  char == '\t' || (0x20 ≤ char.toNat && char.toNat != 0x7f)

/-- The text after the comment at its front, if there is one. -/
def skipComment (chars : List Char) : List Char :=
  if chars.head? == some '#' then chars.dropWhile isPlain else chars

/-- The end of a line: blanks, a comment, and a line end or the end of the
text. -/
def readLineEnd : Reader Unit := fun chars =>
  match skipComment (skipBlanks chars) with
  | [] => some ((), [])
  | rest => readNewline rest

/-- The text after blanks, line ends and comments that line ends follow. -/
def skipLinesWithin : Nat → List Char → List Char
  | 0, chars => chars
  | fuel + 1, chars =>
    let blanksSkipped := skipBlanks chars
    match readNewline (skipComment blanksSkipped) with
    | some ((), after) => skipLinesWithin fuel after
    | none => blanksSkipped

/-- The text after blanks, line ends and comments that line ends follow. -/
def skipLines (chars : List Char) : List Char :=
  skipLinesWithin (chars.length + 1) chars

/-! ## Strings -/

/-- The character of a code point, unless that is a surrogate or too large. -/
def scalar? (code : Nat) : Option Char :=
  if code < 0xd800 || (0xdfff < code && code < 0x110000) then some (Char.ofNat code) else none

/-- The character that an escape stands for, after its backslash. -/
def readEscape : Reader Char
  | 'b' :: rest => some ('\x08', rest)
  | 't' :: rest => some ('\t', rest)
  | 'n' :: rest => some ('\n', rest)
  | 'f' :: rest => some ('\x0c', rest)
  | 'r' :: rest => some ('\r', rest)
  | '"' :: rest => some ('"', rest)
  | '\\' :: rest => some ('\\', rest)
  | 'u' :: rest => readCode 4 rest
  | 'U' :: rest => readCode 8 rest
  | _ => none
where
  /-- A code point in a number of hexadecimal digits. -/
  readCode (count : Nat) : Reader Char := fun chars => do
    let (digits, after) ← Reader.exactly count (fun char => (Json.hexValue? char).isSome) chars
    let code ← Json.hexadecimal? digits
    let char ← scalar? code
    return (char, after)

/-- The text after blanks and line ends. -/
def skipMargin : List Char → List Char
  | [] => []
  | '\r' :: '\n' :: rest => skipMargin rest
  | char :: rest => if Chars.isBlank char || char == '\n' then skipMargin rest else char :: rest

/-- The end of a line inside a string that a backslash joins to the next text:
blanks, a line end, and all blanks and line ends after it. A carriage return
alone is no line end. -/
def readJoin : Reader Unit := fun chars => do
  let ((), after) ← readNewline (skipBlanks chars)
  return ((), skipMargin after)

/-- The text of a string after its opening quote, up to a closing quote. Only
double quotes have escapes. -/
def readOneLine (quote : Char) : Nat → Reader (List Char)
  | 0 => fun _ => none
  | fuel + 1 => fun chars =>
    match chars with
    | [] => none
    | char :: rest =>
      if char = quote then some ([], rest)
      else if char = '\\' && quote = '"' then do
        let (escaped, afterEscape) ← readEscape rest
        let (text, after) ← readOneLine quote fuel afterEscape
        return (escaped :: text, after)
      else if isPlain char then do
        let (text, after) ← readOneLine quote fuel rest
        return (char :: text, after)
      else none

/-- The text of a string after its three opening quotes, up to three closing
quotes. Up to two more quotes before those belong to the text. -/
def readManyLines (quote : Char) : Nat → Reader (List Char)
  | 0 => fun _ => none
  | fuel + 1 => fun chars =>
    match chars with
    | [] => none
    | char :: rest =>
      if char = quote then
        let run := (chars.takeWhile (· == quote)).length
        if 3 ≤ run then
          let inText := min (run - 3) 2
          some (List.replicate inText quote, chars.drop (inText + 3))
        else continueWith fuel [char] rest
      else if char = '\\' && quote = '"' then
        match readJoin rest with
        | some ((), joined) => continueWith fuel [] joined
        | none => do
          let (escaped, afterEscape) ← readEscape rest
          continueWith fuel [escaped] afterEscape
      else
        match readNewline chars with
        | some ((), after) => continueWith fuel ['\n'] after
        | none => if isPlain char then continueWith fuel [char] rest else none
where
  /-- Puts characters in front of the rest of the text. -/
  continueWith (fuel : Nat) (taken : List Char) : Reader (List Char) := fun chars => do
    let (text, after) ← readManyLines quote fuel chars
    return (taken ++ text, after)

/-- A string of one line. -/
def readPlainString (quote : Char) : Reader (List Char) := fun chars => do
  let ((), opened) ← Reader.char quote chars
  readOneLine quote (opened.length + 1) opened

/-- A string of many lines. A line end right after the opening quotes does not
belong to it. -/
def readLongString (quote : Char) : Reader (List Char) := fun chars => do
  let ((), opened) ← Reader.word [quote, quote, quote] chars
  let text := match readNewline opened with
    | some ((), after) => after
    | none => opened
  readManyLines quote (text.length + 1) text

/-- A string. -/
def readString : Reader String := fun chars =>
  let quote := if chars.head? == some '\'' then '\'' else '"'
  let result :=
    if [quote, quote, quote].isPrefixOf chars then readLongString quote chars
    else readPlainString quote chars
  result.map fun (text, after) => (String.ofList text, after)

/-! ## Keys -/

/-- A character of a key without quotes. -/
def isKeyChar (char : Char) : Bool :=
  Chars.isLetter char || Chars.isDigit char || char == '_' || char == '-'

/-- One part of a key. -/
def readKeyPart : Reader String := fun chars =>
  let result :=
    match chars.head? with
    | some '"' => readPlainString '"' chars
    | some '\'' => readPlainString '\'' chars
    | _ => Reader.some1 isKeyChar chars
  result.map fun (text, after) => (String.ofList text, after)

/-- How many parts a key, and how many arrays and inline tables around a value,
may not reach. -/
def nestingLimit : Nat := 80

/-- A key: parts with dots between them and blanks around them. -/
def readKey : Reader (List String) := fun chars => do
  let part : Reader String := fun text => do
    let (name, after) ← readKeyPart (skipBlanks text)
    return (name, skipBlanks after)
  let (parts, after) ← Reader.separated part '.' chars
  if parts.length < nestingLimit then return (parts, after) else none

/-! ## Numbers -/

/-- Whether the underscores of a run of digits stand between digits. -/
def isGrouped (holds : Char → Bool) : List Char → Bool
  | [] => false
  | [last] => holds last
  | char :: next :: rest =>
    holds char
      && (if next = '_' then isGrouped holds rest else isGrouped holds (next :: rest))

/-- A run of digits with single underscores between them. -/
def readDigits (holds : Char → Bool) : Reader (List Char) := fun chars => do
  let (run, after) ← Reader.some1 (fun char => holds char || char == '_') chars
  if isGrouped holds run then return (run.filter (· != '_'), after) else none

/-- A sign, if there is one: whether it is a minus. -/
def splitSign : List Char → Bool × List Char
  | '-' :: rest => (true, rest)
  | '+' :: rest => (false, rest)
  | chars => (false, chars)

/-- The digits of a decimal number: none follows a leading zero. -/
def readDecimalDigits : Reader (List Char)
  | '0' :: rest =>
    if rest.head?.any fun char => Chars.isDigit char || char == '_' then none
    else some (['0'], rest)
  | chars => readDigits Chars.isDigit chars

/-- An integer has to be a signed 64-bit word. -/
def checkedWord (value : Int) : Option Int :=
  if -9223372036854775808 ≤ value && value ≤ 9223372036854775807 then some value else none

/-- The digits of a number in a base that is a power of two. -/
def readBased (base : Nat) (chars : List Char) : Option (Int × List Char) := do
  let holds (char : Char) : Bool := (Json.hexValue? char).any (· < base)
  let (digits, after) ← readDigits holds chars
  let value := digits.foldl (fun acc digit => base * acc + (Json.hexValue? digit).getD 0) 0
  return (← checkedWord value, after)

/-- An integer. -/
def readInteger : Reader Int
  | '0' :: 'x' :: rest => readBased 16 rest
  | '0' :: 'o' :: rest => readBased 8 rest
  | '0' :: 'b' :: rest => readBased 2 rest
  | chars => do
    let (negative, unsigned) := splitSign chars
    let (digits, after) ← readDecimalDigits unsigned
    let magnitude : Int := Chars.decimalValue digits
    return (← checkedWord (if negative then -magnitude else magnitude), after)

/-- The exponent of a float, if there is one, as a signed number. -/
def readExponent : Reader (Option Int)
  | [] => some (none, [])
  | char :: rest =>
    if char = 'e' || char = 'E' then do
      let (negative, unsigned) := splitSign rest
      let (digits, after) ← readDigits Chars.isDigit unsigned
      let magnitude : Int := Chars.decimalValue digits
      return (some (if negative then -magnitude else magnitude), after)
    else some (none, char :: rest)

/-- The digits after a point, if there are some. -/
def readFraction : Reader (Option (List Char))
  | '.' :: rest => do
    let (digits, after) ← readDigits Chars.isDigit rest
    return (some digits, after)
  | chars => some (none, chars)

/-- Whether digits, scaled by a power of ten, round to no finite double: they
reach 2^1024 less half a unit in the last place. -/
def overflows (digits : List Char) (scale : Int) : Bool :=
  let value := Chars.decimalValue digits
  let least := Nat.pow 2 1024 - Nat.pow 2 970
  if value = 0 then false
  else if scale > 400 then true
  else if scale ≥ 0 then value * Nat.pow 10 scale.toNat ≥ least
  else value / Nat.pow 10 (min scale.natAbs (digits.length + 1)) ≥ least

/-- A float: a number with a fraction, an exponent or both, or one of the
special words. One that rounds up to infinity is refused. -/
def readFloat : Reader Unit := fun chars => do
  let (negative, unsigned) := splitSign chars
  match unsigned with
  | 'i' :: 'n' :: 'f' :: after => return ((), after)
  | 'n' :: 'a' :: 'n' :: after => return ((), after)
  | _ =>
    let (whole, afterWhole) ← readDecimalDigits unsigned
    let (fraction, afterFraction) ← readFraction afterWhole
    let (exponent, after) ← readExponent afterFraction
    let fractionDigits := fraction.getD []
    let scale := exponent.getD 0 - fractionDigits.length
    if fraction.isNone && exponent.isNone then none
    else if !negative && overflows (whole ++ fractionDigits) scale then none
    else return ((), after)

/-! ## Dates -/

/-- A number of a given count of digits between two bounds. -/
def readBounded (count least most : Nat) : Reader Nat := fun chars => do
  let (digits, after) ← Reader.exactly count Chars.isDigit chars
  let value := Chars.decimalValue digits
  if least ≤ value && value ≤ most then return (value, after) else none

/-- The number of days of a month. -/
def daysOfMonth (year month : Nat) : Nat :=
  let isLeap := year % 4 == 0 && (year % 100 != 0 || year % 400 == 0)
  if month = 2 then (if isLeap then 29 else 28)
  else if [4, 6, 9, 11].contains month then 30
  else 31

/-- A date. -/
def readDate : Reader Unit := fun chars => do
  let (year, afterYear) ← readBounded 4 0 9999 chars
  let ((), atMonth) ← Reader.char '-' afterYear
  let (month, afterMonth) ← readBounded 2 1 12 atMonth
  let ((), atDay) ← Reader.char '-' afterMonth
  let (_, after) ← readBounded 2 1 (daysOfMonth year month) atDay
  return ((), after)

/-- Fractions of a second, if there are some. -/
def readSecondFraction : Reader Unit
  | '.' :: rest => (Reader.some1 Chars.isDigit rest).map fun (_, after) => ((), after)
  | chars => some ((), chars)

/-- A time of day. -/
def readTime : Reader Unit := fun chars => do
  let (_, afterHour) ← readBounded 2 0 23 chars
  let ((), atMinute) ← Reader.char ':' afterHour
  let (_, afterMinute) ← readBounded 2 0 59 atMinute
  let ((), atSecond) ← Reader.char ':' afterMinute
  let (_, afterSecond) ← readBounded 2 0 60 atSecond
  readSecondFraction afterSecond

/-- An offset from universal time, if there is one. -/
def readOffset : Reader Unit
  | [] => some ((), [])
  | sign :: rest =>
    if sign = 'Z' || sign = 'z' then some ((), rest)
    else if sign = '+' || sign = '-' then do
      let (_, afterHour) ← readBounded 2 0 23 rest
      let ((), atMinute) ← Reader.char ':' afterHour
      let (_, after) ← readBounded 2 0 59 atMinute
      return ((), after)
    else some ((), sign :: rest)

/-- A date, a time of day, or both with an offset. -/
def readDateTime : Reader Unit := fun chars =>
  match readDate chars with
  | none => readTime chars
  | some ((), afterDate) =>
    match afterDate with
    | delimiter :: rest =>
      if delimiter = 'T' || delimiter = 't' || delimiter = ' ' then
        match readTime rest with
        | some ((), afterTime) => readOffset afterTime
        | none => some ((), afterDate)
      else some ((), afterDate)
    | [] => some ((), [])

end ExLine.Toml

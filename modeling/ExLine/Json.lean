import ExLine.Text.Chars
import ExLine.Text.Reader

/-!
Contract: the JSON texts that user commands are saved in.

Owns:
- `Json`, a value as far as saved commands tell values apart;
- `Json.parse`, which reads exactly one value;
- `Json.quote`, the written form of a string.

Does not own: which values stand for user commands (`ExLine.SavedCommands`).
-/

set_option autoImplicit false

namespace ExLine

/-- A JSON value. A string without text is well formed, but names half of a
surrogate pair. -/
inductive Json where
  | null
  | boolean
  | number
  | string (text : Option String)
  | array (items : List Json)
  | object (members : List (Option String × Json))

namespace Json

/-! ## Strings -/

/-- The value of a hexadecimal digit. -/
def hexValue? (char : Char) : Option Nat :=
  if Chars.isDigit char then some (Chars.digitValue char)
  else if 'a' ≤ char && char ≤ 'f' then some (char.toNat - 'a'.toNat + 10)
  else if 'A' ≤ char && char ≤ 'F' then some (char.toNat - 'A'.toNat + 10)
  else none

/-- The value of a run of hexadecimal digits. -/
def hexadecimal? (digits : List Char) : Option Nat :=
  digits.foldl
    (fun value digit => do return 16 * (← value) + (← hexValue? digit)) (some 0)

/-- The character that a backslash and a letter stand for. -/
def simpleEscape? : Char → Option Char
  | '"' => some '"'
  | '\\' => some '\\'
  | '/' => some '/'
  | 'b' => some '\x08'
  | 'f' => some '\x0c'
  | 'n' => some '\n'
  | 'r' => some '\r'
  | 't' => some '\t'
  | _ => none

/-- The code points and escaped 16-bit units of a string after its opening
quote, and what follows the closing quote. -/
def readUnits : Reader (List Nat)
  | [] => none
  | '"' :: rest => some ([], rest)
  | '\\' :: 'u' :: a :: b :: c :: d :: rest => do
    let unit ← hexadecimal? [a, b, c, d]
    let (units, after) ← readUnits rest
    return (unit :: units, after)
  | '\\' :: letter :: rest => do
    let char ← simpleEscape? letter
    let (units, after) ← readUnits rest
    return (char.toNat :: units, after)
  | char :: rest =>
    if char.toNat < 0x20 then none
    else do
      let (units, after) ← readUnits rest
      return (char.toNat :: units, after)

/-- The first unit of a surrogate pair. -/
def isHighSurrogate (unit : Nat) : Bool := 0xd800 ≤ unit && unit ≤ 0xdbff

/-- The second unit of a surrogate pair. -/
def isLowSurrogate (unit : Nat) : Bool := 0xdc00 ≤ unit && unit ≤ 0xdfff

/-- The characters of a sequence of units, if every surrogate is paired. -/
def textOfUnits : List Nat → Option (List Char)
  | [] => some []
  | high :: low :: rest =>
    if isHighSurrogate high then
      if isLowSurrogate low then do
        let chars ← textOfUnits rest
        return Char.ofNat (0x10000 + (high - 0xd800) * 0x400 + (low - 0xdc00)) :: chars
      else none
    else if isLowSurrogate high then none
    else do
      let chars ← textOfUnits (low :: rest)
      return Char.ofNat high :: chars
  | [unit] =>
    if isHighSurrogate unit || isLowSurrogate unit then none else some [Char.ofNat unit]

/-- A string, from its opening quote on. -/
def readString : Reader (Option String) := fun chars => do
  let ((), opened) ← Reader.char '"' chars
  let (units, after) ← readUnits opened
  return ((textOfUnits units).map String.ofList, after)

/-! ## Numbers -/

/-- The whole part of a number: no digit follows a leading zero. -/
def readWhole : Reader Unit
  | '0' :: rest => if rest.head?.any Chars.isDigit then none else some ((), rest)
  | chars => (Reader.some1 Chars.isDigit chars).map fun (_, after) => ((), after)

/-- The fraction of a number, if there is one. -/
def readFraction : Reader Unit
  | '.' :: rest => (Reader.some1 Chars.isDigit rest).map fun (_, after) => ((), after)
  | chars => some ((), chars)

/-- The text without a sign at its front. -/
def dropSign : List Char → List Char
  | '+' :: rest => rest
  | '-' :: rest => rest
  | chars => chars

/-- The exponent of a number, if there is one. -/
def readExponent : Reader Unit
  | [] => some ((), [])
  | char :: rest =>
    if char = 'e' || char = 'E' then
      (Reader.some1 Chars.isDigit (dropSign rest)).map fun (_, after) => ((), after)
    else some ((), char :: rest)

/-- A number. -/
def readNumber : Reader Json := fun chars => do
  let unsigned := if chars.head? == some '-' then chars.tail else chars
  let ((), afterWhole) ← readWhole unsigned
  let ((), afterFraction) ← readFraction afterWhole
  let ((), after) ← readExponent afterFraction
  return (.number, after)

/-! ## Values -/

/-- The text after the white space of the format. -/
def skipSpace (chars : List Char) : List Char :=
  chars.dropWhile fun char => char == ' ' || char == '\t' || char == '\n' || char == '\r'

/-- What follows an opening bracket: items up to the closing one. -/
def readItems {α : Type} (item : Reader α) (closing : Char) : Reader (List α) := fun chars =>
  match Reader.char closing (skipSpace chars) with
  | some ((), after) => some ([], after)
  | none => do
    let spaced : Reader α := fun text => do
      let (value, after) ← item (skipSpace text)
      return (value, skipSpace after)
    let (items, rest) ← Reader.separated spaced ',' chars
    let ((), after) ← Reader.char closing rest
    return (items, after)

/-- A name, a colon and a value. -/
def readMember (value : Reader Json) : Reader (Option String × Json) := fun chars => do
  let (name, afterName) ← readString chars
  let ((), afterColon) ← Reader.char ':' (skipSpace afterName)
  let (found, after) ← value (skipSpace afterColon)
  return ((name, found), after)

/-- A value with at most `depth` values around any value in it. -/
def readValue : Nat → Reader Json
  | 0 => fun _ => none
  | depth + 1 => fun chars =>
    match chars with
    | [] => none
    | '"' :: _ => (readString chars).map fun (text, after) => (.string text, after)
    | '[' :: rest =>
      (readItems (readValue depth) ']' rest).map fun (items, after) => (.array items, after)
    | '{' :: rest =>
      (readItems (readMember (readValue depth)) '}' rest).map
        fun (members, after) => (.object members, after)
    | 'n' :: _ => (Reader.word "null".toList chars).map fun (_, after) => (.null, after)
    | 't' :: _ => (Reader.word "true".toList chars).map fun (_, after) => (.boolean, after)
    | 'f' :: _ => (Reader.word "false".toList chars).map fun (_, after) => (.boolean, after)
    | _ => readNumber chars

/-- Reads exactly one value. Values nest no deeper than the text is long. -/
def parse (text : String) : Option Json := do
  let chars := text.toList
  let (value, after) ← readValue (chars.length + 1) (skipSpace chars)
  if (skipSpace after).isEmpty then some value else none

/-! ## The written form of a string -/

/-- The last two digits of a control character's escape. -/
def controlDigits (char : Char) : List Char :=
  (if char.toNat < 16 then ['0'] else []) ++ Nat.toDigits 16 char.toNat

/-- One character of a written string. -/
def escape (char : Char) : List Char :=
  match char with
  | '"' => ['\\', '"']
  | '\\' => ['\\', '\\']
  | '\x08' => ['\\', 'b']
  | '\x0c' => ['\\', 'f']
  | '\n' => ['\\', 'n']
  | '\r' => ['\\', 'r']
  | '\t' => ['\\', 't']
  | _ => if char.toNat < 0x20 then "\\u00".toList ++ controlDigits char else [char]

/-- The written form of a string. -/
def quote (text : String) : String :=
  String.ofList ('"' :: (text.toList.flatMap escape ++ ['"']))

end Json

end ExLine

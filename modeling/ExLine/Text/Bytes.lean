/-!
Contract: the byte alphabet of a command line.

Owns:
- `Bytes`, the raw form in which command lines arrive;
- the bytes that carry syntax (blank, bar, quotes, ...) and the byte classes
  the scanners test;
- skipping leading blanks.

Does not own: what a run of bytes means as text (`ExLine.Text.Utf8`).
-/

set_option autoImplicit false

namespace ExLine

/-- A command line before its encoding is known to be well formed. -/
abbrev Bytes := List UInt8

namespace Byte

abbrev tab : UInt8 := 0x09
abbrev space : UInt8 := 0x20
abbrev bang : UInt8 := 0x21
abbrev doubleQuote : UInt8 := 0x22
abbrev dollar : UInt8 := 0x24
abbrev percent : UInt8 := 0x25
abbrev ampersand : UInt8 := 0x26
abbrev singleQuote : UInt8 := 0x27
abbrev plus : UInt8 := 0x2b
abbrev comma : UInt8 := 0x2c
abbrev minus : UInt8 := 0x2d
abbrev dot : UInt8 := 0x2e
abbrev colon : UInt8 := 0x3a
abbrev backslash : UInt8 := 0x5c
abbrev underscore : UInt8 := 0x5f
abbrev bar : UInt8 := 0x7c

/-- A blank separates words: a space or a tab, and nothing else. -/
def isBlank (byte : UInt8) : Bool :=
  byte == space || byte == tab

/-- A decimal digit. -/
def isDigit (byte : UInt8) : Bool :=
  0x30 ≤ byte && byte ≤ 0x39

/-- An ASCII letter of either case. -/
def isLetter (byte : UInt8) : Bool :=
  (0x41 ≤ byte && byte ≤ 0x5a) || (0x61 ≤ byte && byte ≤ 0x7a)

/-- A byte that a command name may hold. -/
def isNameByte (byte : UInt8) : Bool :=
  isLetter byte || isDigit byte || byte == underscore

/-- The character of an ASCII byte. -/
def toChar (byte : UInt8) : Char :=
  Char.ofNat byte.toNat

end Byte

namespace Bytes

/-- The text after its leading blanks. -/
def skipBlanks (bytes : Bytes) : Bytes :=
  bytes.dropWhile Byte.isBlank

/-- The string of a run of ASCII bytes. -/
def asciiText (bytes : Bytes) : String :=
  String.ofList (bytes.map Byte.toChar)

theorem length_skipBlanks_le (bytes : Bytes) :
    bytes.skipBlanks.length ≤ bytes.length :=
  (List.dropWhile_sublist Byte.isBlank).length_le

end Bytes

end ExLine

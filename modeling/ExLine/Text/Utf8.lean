import ExLine.Text.Bytes

/-!
Contract: UTF-8 between bytes and characters.

Owns:
- `Utf8.encode`, the bytes of a text;
- `Utf8.scan`, the longest well-formed prefix of a byte string and what is
  left of it;
- `Utf8.decode`, which refuses a malformed byte string and reports where the
  well-formed prefix ends;
- `Utf8.decodeLossy`, which replaces every malformed stretch by U+FFFD.

Does not own: characters (`ExLine.Text.Chars`).

The byte classes are those of the encoding's table of well-formed sequences:
no overlong form, no surrogate and nothing above U+10FFFF is accepted.
-/

set_option autoImplicit false

namespace ExLine.Utf8

/-- The bytes of a text. -/
def encode (chars : List Char) : Bytes :=
  chars.flatMap String.utf8EncodeChar

/-- The bytes of a string. -/
def ofString (text : String) : Bytes :=
  encode text.toList

/-! ## Well-formed sequences, by width -/

/-- A byte that continues a sequence. -/
def isContinuation (byte : UInt8) : Bool :=
  0x80 ≤ byte && byte ≤ 0xbf

/-- A one-byte sequence. -/
def isOne (lead : UInt8) : Bool :=
  lead ≤ 0x7f

/-- A leading byte that announces two bytes. -/
def leadsTwo (lead : UInt8) : Bool :=
  0xc2 ≤ lead && lead ≤ 0xdf

/-- The first two bytes of a three-byte sequence. -/
def opensThree (lead second : UInt8) : Bool :=
  (lead == 0xe0 && 0xa0 ≤ second && second ≤ 0xbf)
    || (0xe1 ≤ lead && lead ≤ 0xec && isContinuation second)
    || (lead == 0xed && 0x80 ≤ second && second ≤ 0x9f)
    || (0xee ≤ lead && lead ≤ 0xef && isContinuation second)

/-- The first two bytes of a four-byte sequence. -/
def opensFour (lead second : UInt8) : Bool :=
  (lead == 0xf0 && 0x90 ≤ second && second ≤ 0xbf)
    || (0xf1 ≤ lead && lead ≤ 0xf3 && isContinuation second)
    || (lead == 0xf4 && 0x80 ≤ second && second ≤ 0x8f)

/-- A two-byte sequence. -/
def isTwo (lead second : UInt8) : Bool :=
  leadsTwo lead && isContinuation second

/-- A three-byte sequence. -/
def isThree (lead second third : UInt8) : Bool :=
  opensThree lead second && isContinuation third

/-- A four-byte sequence. -/
def isFour (lead second third fourth : UInt8) : Bool :=
  opensFour lead second && isContinuation third && isContinuation fourth

/-- The character of a two-byte sequence. -/
def charOfTwo (lead second : UInt8) : Char :=
  Char.ofNat (lead.toNat % 32 * 64 + second.toNat % 64)

/-- The character of a three-byte sequence. -/
def charOfThree (lead second third : UInt8) : Char :=
  Char.ofNat (lead.toNat % 16 * 4096 + second.toNat % 64 * 64 + third.toNat % 64)

/-- The character of a four-byte sequence. -/
def charOfFour (lead second third fourth : UInt8) : Char :=
  Char.ofNat
    (lead.toNat % 8 * 262144 + second.toNat % 64 * 4096 + third.toNat % 64 * 64
      + fourth.toNat % 64)

/-! ## Decoding -/

/-- A decoded prefix and the bytes after it. -/
structure Scan where
  chars : List Char
  rest : Bytes
  deriving DecidableEq, Repr

/-- Puts a character in front of a decoded prefix. -/
def Scan.cons (char : Char) (scan : Scan) : Scan :=
  { scan with chars := char :: scan.chars }

/-- Decodes the longest well-formed prefix. What is left is empty, or starts
with a sequence that is not well formed. -/
def scan : Bytes → Scan
  | [] => ⟨[], []⟩
  | lead :: afterLead =>
    if isOne lead then (scan afterLead).cons (Byte.toChar lead)
    else match afterLead with
      | [] => ⟨[], [lead]⟩
      | second :: afterSecond =>
        if isTwo lead second then (scan afterSecond).cons (charOfTwo lead second)
        else match afterSecond with
          | [] => ⟨[], [lead, second]⟩
          | third :: afterThird =>
            if isThree lead second third then
              (scan afterThird).cons (charOfThree lead second third)
            else match afterThird with
              | [] => ⟨[], [lead, second, third]⟩
              | fourth :: afterFourth =>
                if isFour lead second third fourth then
                  (scan afterFourth).cons (charOfFour lead second third fourth)
                else ⟨[], lead :: second :: third :: fourth :: afterFourth⟩

/-- The text of a byte string, or the number of bytes before its first
malformed sequence. -/
def decode (bytes : Bytes) : Except Nat String :=
  let result := scan bytes
  if result.rest.isEmpty then .ok (String.ofList result.chars)
  else .error (bytes.length - result.rest.length)

/-- How many bytes the malformed sequence at the front takes: the longest
prefix that some well-formed sequence starts with, and at least one. -/
def malformedWidth : Bytes → Nat
  | lead :: second :: third :: _ =>
    if opensThree lead second then 2
    else if opensFour lead second then
      if isContinuation third then 3 else 2
    else 1
  | lead :: second :: [] =>
    if opensThree lead second || opensFour lead second then 2 else 1
  | _ => 1

theorem malformedWidth_pos (bytes : Bytes) : 0 < malformedWidth bytes := by
  fun_cases malformedWidth bytes <;> simp

theorem length_scan_rest_le (bytes : Bytes) : (scan bytes).rest.length ≤ bytes.length := by
  fun_induction scan bytes <;> simp_all [Scan.cons] <;> omega

/-- The text of a byte string with U+FFFD in place of every malformed
sequence. -/
def decodeLossy (bytes : Bytes) : List Char :=
  let result := scan bytes
  if _wellFormed : result.rest = [] then result.chars
  else result.chars ++ '\uFFFD' :: decodeLossy (result.rest.drop (malformedWidth result.rest))
termination_by bytes.length
decreasing_by
  have restShorter := length_scan_rest_le bytes
  have widthPositive := malformedWidth_pos (scan bytes).rest
  have restNonempty : 0 < (scan bytes).rest.length := List.length_pos_iff.mpr _wellFormed
  simp only [List.length_drop]
  omega

end ExLine.Utf8

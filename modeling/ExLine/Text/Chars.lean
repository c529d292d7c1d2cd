/-!
Contract: character classes and trimming of text.

Owns:
- blanks, whitespace, ASCII letters, digits and name characters;
- trimming and padding of texts;
- the parts of a text between separators, and how they are put together;
- the value of a run of decimal digits.

Does not own: bytes (`ExLine.Text.Bytes`).
-/

set_option autoImplicit false

namespace ExLine

namespace Chars

/-- A blank separates words: a space or a tab, and nothing else. -/
def isBlank (char : Char) : Bool :=
  char == ' ' || char == '\t'

/-- The characters with the Unicode property `White_Space`. -/
def isWhitespace (char : Char) : Bool :=
  let code := char.toNat
  (0x09 ≤ code && code ≤ 0x0d) || code == 0x20 || code == 0x85 || code == 0xa0
    || code == 0x1680 || (0x2000 ≤ code && code ≤ 0x200a) || code == 0x2028
    || code == 0x2029 || code == 0x202f || code == 0x205f || code == 0x3000

/-- An ASCII letter of either case. -/
def isLetter (char : Char) : Bool :=
  ('A' ≤ char && char ≤ 'Z') || ('a' ≤ char && char ≤ 'z')

/-- An ASCII decimal digit. -/
def isDigit (char : Char) : Bool :=
  '0' ≤ char && char ≤ '9'

/-- A character that a variable name may start with. -/
def isNameStart (char : Char) : Bool :=
  isLetter char || char == '_'

/-- A character that a variable or command name may hold. -/
def isNameChar (char : Char) : Bool :=
  isLetter char || isDigit char || char == '_'

/-- The value of a decimal digit. -/
def digitValue (char : Char) : Nat :=
  char.toNat - '0'.toNat

/-- The value of a run of decimal digits, the most significant first. -/
def decimalValue (digits : List Char) : Nat :=
  digits.foldl (fun value digit => 10 * value + digitValue digit) 0

/-- The text without its trailing characters of a class. -/
def dropRightWhile (holds : Char → Bool) (chars : List Char) : List Char :=
  (chars.reverse.dropWhile holds).reverse

/-- The parts of a text between the places where a separator stands. -/
def splitOn (separator : Char) : List Char → List (List Char)
  | [] => [[]]
  | char :: rest =>
    if char = separator then [] :: splitOn separator rest
    else
      match splitOn separator rest with
      | [] => [[char]]
      | part :: parts => (char :: part) :: parts

theorem splitOn_ne_nil {separator : Char} (text : List Char) : splitOn separator text ≠ [] := by
  fun_cases splitOn separator text <;> exact List.cons_ne_nil _ _

theorem splitOn_append {separator : Char} (first second : List Char) :
    splitOn separator (first ++ separator :: second)
      = splitOn separator first ++ splitOn separator second := by
  induction first with
  | nil => exact if_pos rfl
  | cons char rest inductionHypothesis =>
    rw [List.cons_append, splitOn, splitOn, inductionHypothesis]
    split
    · rfl
    · cases parts : splitOn separator rest with
      | nil => exact absurd parts (splitOn_ne_nil rest)
      | cons part parts => rfl

theorem splitOn_of_notMem
    {separator : Char}
    {text : List Char}
    (absent : separator ∉ text) :
    splitOn separator text = [text] := by
  induction text with
  | nil => rfl
  | cons char rest inductionHypothesis =>
    have differs : char ≠ separator := fun same => absent (same ▸ List.mem_cons_self)
    have absentLater : separator ∉ rest := fun member => absent (List.mem_cons_of_mem _ member)
    rw [splitOn, if_neg differs, inductionHypothesis absentLater]

theorem notMem_of_mem_splitOn
    {separator : Char}
    {text part : List Char}
    (member : part ∈ splitOn separator text) :
    separator ∉ part := by
  induction text generalizing part with
  | nil =>
    rw [List.mem_singleton.mp member]
    exact List.not_mem_nil
  | cons char rest inductionHypothesis =>
    rw [splitOn] at member
    split at member
    · rcases List.mem_cons.mp member with rfl | later
      · exact List.not_mem_nil
      · exact inductionHypothesis later
    · rename_i differs
      cases parts : splitOn separator rest with
      | nil => exact absurd parts (splitOn_ne_nil rest)
      | cons first others =>
        rw [parts] at member inductionHypothesis
        rcases List.mem_cons.mp member with rfl | later
        · intro present
          rcases List.mem_cons.mp present with same | inFirst
          · exact differs same.symm
          · exact inductionHypothesis List.mem_cons_self inFirst
        · exact inductionHypothesis (List.mem_cons_of_mem _ later)

end Chars

namespace Text

/-- The text after its leading blanks. -/
def skipBlanks (text : String) : String :=
  String.ofList (text.toList.dropWhile Chars.isBlank)

/-- The text without its trailing whitespace. -/
def trimRight (text : String) : String :=
  String.ofList (Chars.dropRightWhile Chars.isWhitespace text.toList)

/-- The text without the whitespace at either end. -/
def trim (text : String) : String :=
  String.ofList
    (Chars.dropRightWhile Chars.isWhitespace (text.toList.dropWhile Chars.isWhitespace))

/-- The text followed by as many spaces as it needs to be `width` characters
long. -/
def padRight (width : Nat) (text : String) : String :=
  text ++ String.ofList (List.replicate (width - text.length) ' ')

/-- Whether `text` starts with `start`. -/
def startsWith (start text : String) : Bool :=
  start.toList.isPrefixOf text.toList

/-- The texts with a separator between each two. -/
def join (separator : String) (texts : List String) : String :=
  separator.intercalate texts

end Text

end ExLine

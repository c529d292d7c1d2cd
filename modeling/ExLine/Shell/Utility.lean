import ExLine.Text.Chars

/-!
Contract: the small programs that shell texts use.

Owns:
- `Chunk` and `Result`, what a program prints and the code it ends with;
- `echo`, `printf` and `test`;
- `utility`, which finds a program by its name.

Does not own: commands that change the shell itself (`ExLine.Shell.Run`).
-/

set_option autoImplicit false

namespace ExLine.Shell

/-- Where a program prints. -/
inductive Stream where
  | output
  | error
  deriving DecidableEq, Repr

/-- Text that is printed at once. -/
structure Chunk where
  stream : Stream
  text : String
  deriving DecidableEq, Repr

/-- What a program prints, in order, and the code it ends with. -/
structure Result where
  chunks : List Chunk := []
  code : Nat := 0
  deriving DecidableEq, Repr

namespace Result

/-- A program that prints a text and succeeds. -/
def printed (text : String) : Result := { chunks := [⟨.output, text⟩] }

/-- A program that ends with a code and prints nothing. -/
def silent (code : Nat) : Result := { code }

/-- A program that prints a line of error output. -/
def complaint (line : String) (code : Nat) : Result :=
  { chunks := [⟨.error, line ++ "\n"⟩], code }

end Result

/-- All that was printed to a stream. -/
def textOf (stream : Stream) (chunks : List Chunk) : String :=
  Text.join "" ((chunks.filter fun chunk => chunk.stream == stream).map (·.text))

/-! ## Escapes -/

/-- The character that a backslash and a letter stand for. -/
def letterEscape? : Char → Option Char
  | 'a' => some '\x07'
  | 'b' => some '\x08'
  | 'f' => some '\x0c'
  | 'n' => some '\n'
  | 'r' => some '\r'
  | 't' => some '\t'
  | 'v' => some '\x0b'
  | '\\' => some '\\'
  | _ => none

/-- A digit below eight. -/
def isOctal (char : Char) : Bool := '0' ≤ char && char ≤ '7'

/-- The character of at most three octal digits, and the text after them. -/
def readOctal (chars : List Char) : Char × List Char :=
  let digits := (chars.take 3).takeWhile isOctal
  let value := digits.foldl (fun value digit => 8 * value + Chars.digitValue digit) 0
  (Char.ofNat (value % 256), chars.drop digits.length)

/-- A text with its escapes taken out. A zero starts an octal code, and `c`
ends the text; the flag tells that it did. The fuel bounds the length. -/
def unescape : Nat → List Char → List Char × Bool
  | 0, _ => ([], false)
  | _, [] => ([], false)
  | fuel + 1, '\\' :: char :: rest =>
    if char = 'c' then ([], true)
    else if char = '0' then
      let (octal, after) := readOctal rest
      let (text, stopped) := unescape fuel after
      (octal :: text, stopped)
    else
      match letterEscape? char with
      | some meant =>
        let (text, stopped) := unescape fuel rest
        (meant :: text, stopped)
      | none =>
        let (text, stopped) := unescape fuel rest
        ('\\' :: char :: text, stopped)
  | fuel + 1, char :: rest =>
    let (text, stopped) := unescape fuel rest
    (char :: text, stopped)

/-! ## Printing -/

/-- Prints words with a space between each two, and a line end unless the first
word asks for none. -/
def echo (escapes : Bool) (words : List String) : Result :=
  let (quiet, shown) := match words with
    | "-n" :: rest => (true, rest)
    | _ => (false, words)
  let text := (Text.join " " shown).toList
  let (chars, stopped) := if escapes then unescape (text.length + 1) text else (text, false)
  .printed (String.ofList chars ++ if quiet || stopped then "" else "\n")

/-- How a conversion pads its argument. -/
structure Padding where
  left : Bool := false
  zeros : Bool := false
  width : Nat := 0

/-- The flags and the width of a conversion, and the format after them. -/
def readPadding (chars : List Char) : Padding × List Char :=
  let flags := chars.takeWhile fun char => char == '-' || char == '0'
  let after := chars.drop flags.length
  ({ left := flags.contains '-', zeros := flags.contains '0',
     width := Chars.decimalValue (after.takeWhile Chars.isDigit) },
    after.dropWhile Chars.isDigit)

/-- A text of at least some width. -/
def Padding.apply (padding : Padding) (numeric : Bool) (text : String) : List Char :=
  let chars := text.toList
  let missing := padding.width - chars.length
  if padding.left then chars ++ List.replicate missing ' '
  else if padding.zeros && numeric then List.replicate missing '0' ++ chars
  else List.replicate missing ' ' ++ chars

/-- What a format prints for the first of its arguments, and the arguments that
are left. An argument that is missing is empty, or zero. The fuel bounds the
length of the format. -/
def format : Nat → List Char → List String → List Char × List String
  | 0, _, args => ([], args)
  | _, [], args => ([], args)
  | fuel + 1, '%' :: '%' :: rest, args => cons ['%'] (format fuel rest args)
  | fuel + 1, '%' :: rest, args =>
    let (padding, conversion) := readPadding rest
    match conversion with
    | 's' :: after =>
      cons (padding.apply false (args.headD "")) (format fuel after args.tail)
    | 'd' :: after => cons (padding.apply true (args.headD "0")) (format fuel after args.tail)
    | 'i' :: after => cons (padding.apply true (args.headD "0")) (format fuel after args.tail)
    | 'c' :: after => cons ((args.headD "").toList.take 1) (format fuel after args.tail)
    | 'b' :: after =>
      let text := (args.headD "").toList
      cons (unescape (text.length + 1) text).1 (format fuel after args.tail)
    | _ => cons ['%'] (format fuel rest args)
  | fuel + 1, '\\' :: char :: rest, args =>
    if isOctal char then
      let (octal, after) := readOctal (char :: rest)
      cons [octal] (format fuel after args)
    else
      match letterEscape? char with
      | some meant => cons [meant] (format fuel rest args)
      | none => cons ['\\', char] (format fuel rest args)
  | fuel + 1, char :: rest, args => cons [char] (format fuel rest args)
where
  /-- Puts characters in front of what the rest of a format prints. -/
  cons (chars : List Char) (later : List Char × List String) : List Char × List String :=
    (chars ++ later.1, later.2)

/-- What a format prints that is used again while arguments are left, at most
`rounds` more times. -/
def formatAll (pattern : List Char) : Nat → List String → List Char
  | 0, args => (format (pattern.length + 1) pattern args).1
  | rounds + 1, args =>
    let (text, left) := format (pattern.length + 1) pattern args
    if left.isEmpty || left.length = args.length then text
    else text ++ formatAll pattern rounds left

/-- Prints words by a format. -/
def printf (pattern : String) (args : List String) : Result :=
  .printed (String.ofList (formatAll pattern.toList args.length args))

/-! ## Tests -/

/-- A whole number with an optional minus sign. -/
def integer? (word : String) : Option Int :=
  let (negative, digits) := match word.toList with
    | '-' :: rest => (true, rest)
    | chars => (false, chars)
  if digits.isEmpty || !digits.all Chars.isDigit then none
  else
    let magnitude : Int := Chars.decimalValue digits
    some (if negative then -magnitude else magnitude)

/-- The comparison of two numbers that an operator stands for. -/
def comparison? : String → Option (Int → Int → Bool)
  | "-eq" => some fun left right => left == right
  | "-ne" => some fun left right => left != right
  | "-lt" => some fun left right => left < right
  | "-le" => some fun left right => left ≤ right
  | "-gt" => some fun left right => left > right
  | "-ge" => some fun left right => left ≥ right
  | _ => none

/-- The directories that every system has. -/
def directories : List String :=
  ["/", "/bin", "/dev", "/etc", "/home", "/lib", "/opt", "/proc", "/root", "/sbin", "/sys",
    "/tmp", "/usr", "/usr/bin", "/usr/lib", "/var"]

/-- Whether a condition holds, if it is one. -/
def condition? : List String → Option Bool
  | [] => some false
  | "!" :: rest => if rest.isEmpty then some true else (condition? rest).map (!·)
  | [word] => some (!word.isEmpty)
  | ["-n", word] => some (!word.isEmpty)
  | ["-z", word] => some word.isEmpty
  | ["-d", path] => some (directories.contains path)
  | ["-e", path] => some (directories.contains path || path == "/dev/null")
  | ["-f", _] => some false
  | [left, "=", right] => some (left == right)
  | [left, "!=", right] => some (left != right)
  | [left, operator, right] => do
    let holds ← comparison? operator
    return holds (← integer? left) (← integer? right)
  | _ => none

/-- What is wrong with words that are no condition. -/
def conditionFault : List String → String
  | [left, right] =>
    if ["=", "!="].contains right || (comparison? right).isSome then
      right ++ ": argument expected"
    else left ++ ": unexpected operator"
  | [left, operator, right] =>
    if (comparison? operator).isSome then
      "Illegal number: " ++ (if (integer? left).isSome then right else left)
    else left ++ ": unexpected operator"
  | words => words.headD "" ++ ": unexpected operator"

/-- Tests a condition: the code is zero if it holds. `speaker` is who reports
that the words are no condition. -/
def test (speaker : String) (words : List String) : Result :=
  match condition? words with
  | some holds => .silent (if holds then 0 else 1)
  | none => .complaint (speaker ++ ": " ++ conditionFault words) 2

/-! ## Programs by name -/

/-- What a program of that name does, if there is one. `escapes` tells whether
`echo` knows escapes, and `speaker` is who reports errors. -/
def utility (escapes : Bool) (speaker cwd name : String) (args : List String)
    (input : String) : Option Result :=
  match name with
  | "true" => some {}
  | "false" => some (.silent 1)
  | "echo" => some (echo escapes args)
  | "printf" =>
    match args with
    | [] => some (.complaint (speaker ++ ": usage: printf format [arg ...]") 2)
    | pattern :: rest => some (printf pattern rest)
  | "test" => some (test speaker args)
  | "[" =>
    if args.getLast? == some "]" then some (test speaker args.dropLast)
    else some (.complaint (speaker ++ ": missing ]") 2)
  | "sleep" => some {}
  | "cat" => some (.printed input)
  | "pwd" => some (.printed (cwd ++ "\n"))
  | _ => none

end ExLine.Shell

import ExLine.Range.Parser

/-!
Contract: the head of a sub-command, up to its arguments.

Owns: `Head.read`, which skips blanks and colons and tells an empty
sub-command, a comment and a command apart; of a command it reads the range,
the name and the exclamation mark.

Does not own: where the arguments end (`ExLine.Line.Segment`).
-/

set_option autoImplicit false

namespace ExLine

/-- The head of a command. The name is empty if none stands there. -/
structure CommandHead where
  range : Option RangeSpec
  name : String
  bang : Bool
  /-- What follows the head and its blanks. -/
  tail : Bytes
  deriving DecidableEq, Repr

/-- What a sub-command starts with. -/
inductive Head where
  /-- Nothing; the next sub-command, if any, starts at `rest`. -/
  | empty (rest : Option Bytes)
  /-- A comment, which takes the rest of the line. -/
  | comment
  | command (head : CommandHead)
  deriving DecidableEq, Repr

/-- Splits a command name off: a lone exclamation mark, or the longest run of
letters, digits and underscores. -/
def splitName (bytes : Bytes) : Bytes × Bytes :=
  match bytes with
  | [] => ([], [])
  | byte :: rest =>
    if byte = Byte.bang then ([byte], rest)
    else (bytes.takeWhile Byte.isNameByte, bytes.dropWhile Byte.isNameByte)

/-- Splits off the exclamation mark after a name. The name `!` and the empty
name take none. -/
def splitBang (name rest : Bytes) : Bool × Bytes :=
  match rest with
  | [] => (false, [])
  | byte :: after =>
    if byte = Byte.bang && !name.isEmpty && name != [Byte.bang] then (true, after)
    else (false, rest)

/-- The head of a command, from its range on. -/
def CommandHead.read (line : Bytes) : Except RangeError CommandHead := do
  let (range, afterRange) ← RangeSpec.read line
  let (name, afterName) := splitName (Bytes.skipBlanks afterRange)
  let (bang, rest) := splitBang name afterName
  return { range, name := Bytes.asciiText name, bang, tail := Bytes.skipBlanks rest }

/-- The head of a sub-command. -/
def Head.read (line : Bytes) : Except RangeError Head :=
  match line.dropWhile fun byte => Byte.isBlank byte || byte == Byte.colon with
  | [] => .ok (.empty none)
  | byte :: rest =>
    if byte = Byte.doubleQuote then .ok .comment
    else if byte = Byte.bar then .ok (.empty (some rest))
    else do
      let head ← CommandHead.read (byte :: rest)
      return .command head

/-! ## What follows a head is no longer than its line -/

theorem length_splitName_le (bytes : Bytes) : (splitName bytes).2.length ≤ bytes.length := by
  unfold splitName
  split
  · simp
  · split
    · simp
    · exact (List.dropWhile_sublist Byte.isNameByte).length_le

theorem length_splitBang_le (name rest : Bytes) :
    (splitBang name rest).2.length ≤ rest.length := by
  unfold splitBang
  split
  · simp
  · split <;> simp

theorem CommandHead.length_le_of_read
    {line : Bytes}
    {head : CommandHead}
    (found : CommandHead.read line = .ok head) :
    head.tail.length ≤ line.length := by
  unfold CommandHead.read at found
  cases readRange : RangeSpec.read line with
  | error error => simp [readRange, bind, Except.bind] at found
  | ok result =>
    obtain ⟨range, afterRange⟩ := result
    simp only [readRange, bind, Except.bind, pure, Except.pure, Except.ok.injEq] at found
    subst found
    have rangeShorter := RangeSpec.length_le_of_read readRange
    have blanksShorter := Bytes.length_skipBlanks_le afterRange
    have nameShorter := length_splitName_le (Bytes.skipBlanks afterRange)
    have bangShorter := length_splitBang_le
      (splitName (Bytes.skipBlanks afterRange)).1 (splitName (Bytes.skipBlanks afterRange)).2
    have tailShorter := Bytes.length_skipBlanks_le
      (splitBang (splitName (Bytes.skipBlanks afterRange)).1
        (splitName (Bytes.skipBlanks afterRange)).2).2
    simp only
    omega

theorem Head.length_lt_of_read_empty
    {line rest : Bytes}
    (found : Head.read line = .ok (.empty (some rest))) :
    rest.length < line.length := by
  unfold Head.read at found
  have startShorter := (List.dropWhile_sublist
    (l := line) fun byte => Byte.isBlank byte || byte == Byte.colon).length_le
  split at found
  · cases found
  · rename_i byte after started
    rw [started] at startShorter
    split at found
    · cases found
    · split at found
      · cases found
        simp only [List.length_cons] at startShorter
        omega
      · simp only [bind, Except.bind, pure, Except.pure] at found
        split at found <;> cases found

theorem Head.length_le_of_read_command
    {line : Bytes}
    {head : CommandHead}
    (found : Head.read line = .ok (.command head)) :
    head.tail.length ≤ line.length := by
  unfold Head.read at found
  have startShorter := (List.dropWhile_sublist
    (l := line) fun byte => Byte.isBlank byte || byte == Byte.colon).length_le
  split at found
  · cases found
  · rename_i byte after started
    rw [started] at startShorter
    split at found
    · cases found
    · split at found
      · cases found
      · simp only [bind, Except.bind, pure, Except.pure] at found
        split at found
        · cases found
        · rename_i read
          cases found
          exact Nat.le_trans (CommandHead.length_le_of_read read) startShorter

end ExLine

import ExLine.Proofs.Line.Head
import ExLine.Proofs.Line.Rest

/-!
Contract: lines that call a command by its name.

Owns:
- `Head.IsCallable`, the names that a line can call;
- `Head.read_colon` and `Head.read_before_blank`: a colon in front of a head
  and a blank after it change nothing about the head;
- `Head.percent_not_mem_name`, by which a name holds no percent sign.

Does not own: what the named command does (`ExLine.Engine.Run`).
-/

set_option autoImplicit false

namespace ExLine

open Bytes

theorem Bytes.EndsWord.stops
    {tail : Bytes}
    (ends : tail.EndsWord)
    (holds : UInt8 → Bool)
    (noSpace : holds Byte.space = false)
    (noTab : holds Byte.tab = false) :
    Stops holds tail := by
  intro byte first
  have isBlank := ends byte first
  simp only [Byte.isBlank, Bool.or_eq_true, beq_iff_eq] at isBlank
  rcases isBlank with rfl | rfl
  · exact noSpace
  · exact noTab

theorem Bytes.skipBlanks_append_of_ne_nil
    {line : Bytes}
    (more : line.skipBlanks ≠ [])
    (tail : Bytes) :
    (line ++ tail).skipBlanks = line.skipBlanks ++ tail := by
  unfold skipBlanks at more ⊢
  rw [List.dropWhile_append, if_neg (by rwa [List.isEmpty_iff])]

theorem Bytes.skipBlanks_append_skipBlanks (line tail : Bytes) :
    (line.skipBlanks ++ tail).skipBlanks = (line ++ tail).skipBlanks := by
  induction line with
  | nil => rfl
  | cons byte line inductionHypothesis =>
    by_cases blank : Byte.isBlank byte
    · have dropped : skipBlanks (byte :: line) = skipBlanks line := List.dropWhile_cons_of_pos blank
      rw [dropped, inductionHypothesis]
      exact (List.dropWhile_cons_of_pos blank).symm
    · have kept : skipBlanks (byte :: line) = byte :: line := List.dropWhile_cons_of_neg blank
      rw [kept]

theorem splitName_ne_nil {line : Bytes} (named : (splitName line).1 ≠ []) : line ≠ [] := by
  rintro rfl
  exact named rfl

theorem CommandHead.read_before_blank
    {line tail : Bytes}
    {head : CommandHead}
    (found : CommandHead.read line = .ok head)
    (named : head.name.isEmpty = false)
    (ends : tail.EndsWord) :
    CommandHead.read (line ++ tail)
      = .ok { head with tail := (head.tail ++ tail).skipBlanks } := by
  unfold CommandHead.read at found ⊢
  rw [RangeSpec.read_append (ends.stops _ rfl rfl)]
  cases readRange : RangeSpec.read line with
  | error error => simp [readRange, bind, Except.bind] at found
  | ok result =>
    obtain ⟨range, afterRange⟩ := result
    simp only [readRange, bind, Except.bind, pure, Except.pure, Except.ok.injEq] at found
    subst found
    have someName : (splitName afterRange.skipBlanks).1 ≠ [] := by
      intro noName
      simp only [noName] at named
      cases named
    simp only [Except.map, bind, Except.bind, pure, Except.pure,
      skipBlanks_append_of_ne_nil (splitName_ne_nil someName) tail,
      splitName_append (ends.stops _ rfl rfl) (ends.stops _ rfl rfl),
      splitBang_append (ends.stops _ rfl rfl), skipBlanks_append_skipBlanks]

namespace Head

variable {line tail : Bytes} {head : CommandHead}

/-- A colon in front of a sub-command has no meaning. -/
theorem read_colon (line : Bytes) : Head.read (Byte.colon :: line) = Head.read line := by
  rw [read_eq_start, read_eq_start]
  rfl

/-- A command starts after the blanks and colons, at no comment and no bar. -/
theorem start_of_read_command
    (found : Head.read line = .ok (.command head)) :
    ∃ byte after, line.dropWhile Byte.leads = byte :: after ∧ byte ≠ Byte.doubleQuote
      ∧ byte ≠ Byte.bar ∧ CommandHead.read (byte :: after) = .ok head := by
  rw [read_eq_start] at found
  cases atStart : line.dropWhile Byte.leads with
  | nil =>
    rw [atStart] at found
    cases found
  | cons byte after =>
    rw [atStart, start] at found
    split at found
    · cases found
    split at found
    · cases found
    rename_i noComment noBar
    refine ⟨byte, after, rfl, noComment, noBar, ?_⟩
    cases read : CommandHead.read (byte :: after) with
    | error error =>
      rw [read] at found
      cases found
    | ok read =>
      rw [read] at found
      cases found
      rfl

/-- The head of a sub-command ends at a blank. -/
theorem read_before_blank
    (found : Head.read line = .ok (.command head))
    (named : head.name.isEmpty = false)
    (ends : tail.EndsWord) :
    Head.read (line ++ tail)
      = .ok (.command { head with tail := (head.tail ++ tail).skipBlanks }) := by
  obtain ⟨byte, after, atStart, noComment, noBar, readHead⟩ := start_of_read_command found
  rw [read_eq_start, List.dropWhile_append, atStart]
  simp only [List.isEmpty_cons, Bool.false_eq_true, if_false]
  rw [List.cons_append, start, if_neg noComment, if_neg noBar, ← List.cons_append,
    CommandHead.read_before_blank readHead named ends]
  rfl

/-! ## Names -/

/-- A byte that can stand in a name. -/
theorem toChar_ne_percent
    {byte : UInt8}
    (inName : byte = Byte.bang ∨ Byte.isNameByte byte) :
    Byte.toChar byte ≠ '%' := by
  intro isPercent
  have code : byte.toNat = '%'.toNat := by
    have small : byte.toNat.isValidChar := .inl (Nat.lt_trans byte.toNat_lt (by decide))
    rw [← isPercent, Byte.toChar, Char.ofNat, dif_pos small]
    rfl
  have isByte : byte = Byte.percent := UInt8.toNat_inj.mp code
  subst isByte
  rcases inName with isBang | inName
  · cases isBang
  · cases inName

theorem mem_splitName
    {byte : UInt8}
    (member : byte ∈ (splitName line).1) :
    byte = Byte.bang ∨ Byte.isNameByte byte := by
  unfold splitName at member
  split at member
  · cases member
  · split at member
    · rename_i isBang
      exact .inl ((List.mem_singleton.mp member).trans isBang)
    · exact .inr (List.all_eq_true.mp List.all_takeWhile byte member)

theorem percent_not_mem_name
    (found : Head.read line = .ok (.command head)) :
    '%' ∉ head.name.toList := by
  obtain ⟨byte, after, -, -, -, readHead⟩ := start_of_read_command found
  generalize byte :: after = start at readHead
  unfold CommandHead.read at readHead
  cases readRange : RangeSpec.read start with
  | error error => simp [readRange, bind, Except.bind] at readHead
  | ok result =>
    simp only [readRange, bind, Except.bind, pure, Except.pure, Except.ok.injEq] at readHead
    subst readHead
    intro member
    simp only [asciiText, String.toList_ofList] at member
    obtain ⟨byte, inName, isPercent⟩ := List.mem_map.mp member
    exact toChar_ne_percent (mem_splitName inName) isPercent

/-- A line that is the name alone calls the command of that name. -/
def IsCallable (name : String) : Prop :=
  Head.read (Utf8.ofString name) = .ok (.command ⟨none, name, false, []⟩)

theorem isCallable_of_isWord {name : String} (isWord : Chars.isWord name.toList) :
    IsCallable name := by
  have found := @read_encode [] name.toList [] rfl isWord rfl
  rw [List.nil_append, List.append_nil, String.ofList_toList] at found
  exact found

theorem IsCallable.named {name : String} (callable : IsCallable name) : name.isEmpty = false := by
  rw [Bool.eq_false_iff]
  intro isEmpty
  rw [String.isEmpty_iff.mp isEmpty] at callable
  cases callable

end Head

end ExLine

import ExLine.Line.Head
import ExLine.Proofs.Text.Utf8

/-!
Contract: the head of a line that starts with a full command word.

Owns:
- `Bytes.IsWord`, the names that a command can be called by;
- `Head.read_word`, by which a word in front of a blank or the end of the line
  is read as a name without a range and without an exclamation mark;
- the same for a line that is text.

Does not own: which command a name means (`ExLine.Command.Registry`).
-/

set_option autoImplicit false

namespace ExLine

/-! ## Words -/

/-- A byte that a command name starts with. -/
def Byte.startsName (byte : UInt8) : Bool :=
  isLetter byte || byte == bang

/-- A lone exclamation mark, or a letter followed by letters, digits and
underscores. -/
def Bytes.IsWord (word : Bytes) : Prop :=
  word = [Byte.bang] ∨
    ∃ first rest, word = first :: rest ∧ Byte.isLetter first ∧ ∀ byte ∈ rest, Byte.isNameByte byte

/-- What follows a word: nothing, or a blank. -/
def Bytes.EndsWord (tail : Bytes) : Prop :=
  ∀ byte ∈ tail.head?, Byte.isBlank byte

namespace Byte

variable {byte : UInt8}

/-- Nothing that starts a name has a meaning in front of one. -/
theorem ne_of_startsName (starts : startsName byte) (other : UInt8)
    (differs : startsName other = false := by rfl) : byte ≠ other := by
  intro same
  rw [same, differs] at starts
  cases starts

theorem not_digit_of_startsName (starts : startsName byte) : isDigit byte = false := by
  unfold startsName isLetter bang at starts
  unfold isDigit
  simp only [Bool.or_eq_true, Bool.and_eq_true, decide_eq_true_eq, beq_iff_eq,
    UInt8.le_iff_toNat_le, ← UInt8.toNat_inj, UInt8.reduceToNat] at starts
  simp only [Bool.and_eq_false_iff, decide_eq_false_iff_not, UInt8.le_iff_toNat_le,
    UInt8.reduceToNat]
  omega

theorem not_nameByte_of_blank (blank : isBlank byte) : isNameByte byte = false := by
  unfold isBlank at blank
  simp only [Bool.or_eq_true, beq_iff_eq] at blank
  rcases blank with rfl | rfl <;> rfl

theorem ne_bang_of_blank (blank : isBlank byte) : byte ≠ bang := by
  rintro rfl
  cases blank

end Byte

/-! ## Heads -/

/-- There is no range in front of a name. -/
theorem RangeSpec.read_of_startsName
    {byte : UInt8}
    (starts : Byte.startsName byte)
    (rest : Bytes) :
    RangeSpec.read (byte :: rest) = .ok (none, byte :: rest) := by
  have noBase : Base.read (byte :: rest) = .ok (none, byte :: rest) := by
    unfold Base.read
    simp only [if_neg (Byte.ne_of_startsName starts Byte.dot),
      if_neg (Byte.ne_of_startsName starts Byte.dollar),
      Byte.not_digit_of_startsName starts, Bool.false_eq_true, if_false]
  have noTerms : readTerms 0 (byte :: rest) = .ok (0, byte :: rest) := by
    rw [readTerms]
    have noSign : ¬ (byte = Byte.plus || byte = Byte.minus) := by
      simp [Byte.ne_of_startsName starts Byte.plus,
        Byte.ne_of_startsName starts Byte.minus]
    rw [if_neg noSign]
  have noAddress : Address.read (byte :: rest) = .ok (none, byte :: rest) := by
    unfold Address.read
    simp only [noBase, noTerms, bind, Except.bind, pure, Except.pure, Nat.lt_irrefl, if_false]
  unfold RangeSpec.read
  simp only [noAddress, bind, Except.bind, pure, Except.pure,
    if_neg (Byte.ne_of_startsName starts Byte.percent),
    if_neg (Byte.ne_of_startsName starts Byte.comma)]
  rfl

/-- A name ends at the first byte that no name holds. -/
theorem splitName_name
    {first : UInt8}
    {rest tail : Bytes}
    (letter : Byte.isLetter first)
    (others : ∀ byte ∈ rest, Byte.isNameByte byte)
    (ends : ∀ byte ∈ tail.head?, Byte.isNameByte byte = false) :
    splitName (first :: rest ++ tail) = (first :: rest, tail) := by
  have named : ∀ byte ∈ first :: rest, Byte.isNameByte byte := by
    intro byte member
    rcases List.mem_cons.mp member with rfl | member
    · simp [Byte.isNameByte, letter]
    · exact others byte member
  have noBang : first ≠ Byte.bang := by
    rintro rfl
    cases letter
  have stops : tail.takeWhile Byte.isNameByte = [] ∧ tail.dropWhile Byte.isNameByte = tail := by
    cases tail with
    | nil => exact ⟨rfl, rfl⟩
    | cons byte after =>
      have noName := ends byte rfl
      simp [noName]
  unfold splitName
  simp only [List.cons_append, if_neg noBang]
  rw [← List.cons_append, List.takeWhile_append_of_pos named, List.dropWhile_append_of_pos named,
    stops.1, stops.2, List.append_nil]

theorem splitName_word
    {word tail : Bytes}
    (isWord : word.IsWord)
    (ends : tail.EndsWord) :
    splitName (word ++ tail) = (word, tail) := by
  rcases isWord with rfl | ⟨first, rest, rfl, letter, others⟩
  · rfl
  · exact splitName_name letter others fun byte atEnd =>
      Byte.not_nameByte_of_blank (ends byte atEnd)

theorem splitBang_word
    (word : Bytes)
    {tail : Bytes}
    (ends : tail.EndsWord) :
    splitBang word tail = (false, tail) := by
  cases tail with
  | nil => rfl
  | cons byte after =>
    have noBang := Byte.ne_bang_of_blank (ends byte rfl)
    unfold splitBang
    simp [noBang]

theorem Bytes.IsWord.startsName
    {word : Bytes}
    (isWord : word.IsWord) :
    ∃ first rest, word = first :: rest ∧ Byte.startsName first := by
  rcases isWord with rfl | ⟨first, rest, rfl, letter, -⟩
  · exact ⟨_, [], rfl, rfl⟩
  · exact ⟨first, rest, rfl, by simp [Byte.startsName, letter]⟩

/-- A word in front of a blank or the end of the line is a name, and nothing
else is read with it. -/
theorem Head.read_word
    {blanks word tail : Bytes}
    (blank : ∀ byte ∈ blanks, Byte.isBlank byte)
    (isWord : word.IsWord)
    (ends : tail.EndsWord) :
    Head.read (blanks ++ (word ++ tail))
      = .ok (.command ⟨none, word.asciiText, false, tail.skipBlanks⟩) := by
  obtain ⟨first, rest, shape, starts⟩ := isWord.startsName
  have skipped : (blanks ++ (word ++ tail)).dropWhile
      (fun byte => Byte.isBlank byte || byte == Byte.colon) = first :: (rest ++ tail) := by
    have noBlank : (Byte.isBlank first || first == Byte.colon) = false := by
      simp [Byte.isBlank,
        Byte.ne_of_startsName starts Byte.space,
        Byte.ne_of_startsName starts Byte.tab,
        Byte.ne_of_startsName starts Byte.colon]
    rw [List.dropWhile_append_of_pos fun byte member => by simp [blank byte member], shape]
    simp [noBlank]
  have readHead : CommandHead.read (first :: (rest ++ tail))
      = .ok ⟨none, word.asciiText, false, tail.skipBlanks⟩ := by
    have noSkip : Bytes.skipBlanks (first :: (rest ++ tail)) = word ++ tail := by
      rw [shape, List.cons_append]
      simp [Bytes.skipBlanks, Byte.isBlank,
        Byte.ne_of_startsName starts Byte.space,
        Byte.ne_of_startsName starts Byte.tab]
    unfold CommandHead.read
    simp only [RangeSpec.read_of_startsName starts, noSkip, splitName_word isWord ends,
      splitBang_word word ends, bind, Except.bind, pure, Except.pure]
  unfold Head.read
  simp only [skipped, readHead, bind, Except.bind, pure, Except.pure,
    if_neg (Byte.ne_of_startsName starts Byte.doubleQuote),
    if_neg (Byte.ne_of_startsName starts Byte.bar)]

/-- A lone exclamation mark is a name whatever follows it. -/
theorem Head.read_bang (tail : Bytes) :
    Head.read (Byte.bang :: tail) = .ok (.command ⟨none, "!", false, tail.skipBlanks⟩) := by
  have noBang : splitBang [Byte.bang] tail = (false, tail) := by
    cases tail with
    | nil => rfl
    | cons byte after => simp [splitBang]
  have readHead : CommandHead.read (Byte.bang :: tail)
      = .ok ⟨none, "!", false, tail.skipBlanks⟩ := by
    have noSkip : Bytes.skipBlanks (Byte.bang :: tail) = Byte.bang :: tail := rfl
    have named : splitName (Byte.bang :: tail) = ([Byte.bang], tail) := rfl
    unfold CommandHead.read
    simp only [RangeSpec.read_of_startsName (show Byte.startsName Byte.bang from rfl), noSkip,
      named, noBang, bind, Except.bind, pure, Except.pure]
    rfl
  show (do let head ← CommandHead.read (Byte.bang :: tail); return Head.command head) = _
  rw [readHead]
  rfl

/-! ## Heads of lines that are text -/

/-- A lone exclamation mark, or a letter followed by letters, digits and
underscores. -/
def Chars.isWord : List Char → Bool
  | [] => false
  | first :: rest => first == '!' && rest.isEmpty || isLetter first && rest.all isNameChar

/-- What follows a word: nothing, or a blank. -/
def Chars.endsWord (tail : List Char) : Bool :=
  tail.head?.all isBlank

theorem Chars.cases_of_isWord
    {word : List Char}
    (holds : isWord word) :
    word = ['!'] ∨ ∃ first rest, word = first :: rest ∧ isLetter first
      ∧ ∀ char ∈ rest, isNameChar char := by
  cases word with
  | nil => cases holds
  | cons first rest =>
    simp only [isWord, Bool.or_eq_true, Bool.and_eq_true, beq_iff_eq, List.isEmpty_iff,
      List.all_eq_true] at holds
    rcases holds with ⟨rfl, rfl⟩ | ⟨letter, others⟩
    · exact .inl rfl
    · exact .inr ⟨first, rest, rfl, letter, others⟩

theorem Chars.isEmpty_of_isWord {word : List Char} (holds : isWord word) :
    (String.ofList word).isEmpty = false := by
  rcases cases_of_isWord holds with rfl | ⟨first, rest, rfl, -⟩ <;> simp

theorem Chars.isNameChar_of_isBlank {char : Char} (blank : isBlank char) :
    isNameChar char = false := by
  simp only [isBlank, Bool.or_eq_true, beq_iff_eq] at blank
  rcases blank with rfl | rfl <;> rfl

theorem Chars.isNameChar_of_isNameStart {char : Char} (starts : isNameStart char) :
    isNameChar char := by
  simp only [isNameStart, isNameChar, Bool.or_eq_true] at starts ⊢
  exact starts.imp_left .inl

theorem Byte.ascii_of_isBlank {byte : UInt8} (blank : isBlank byte) : byte < 0x80 := by
  simp only [isBlank, Bool.or_eq_true, beq_iff_eq] at blank
  rcases blank with rfl | rfl <;> decide

theorem Byte.isBlank_toChar {byte : UInt8} (blank : isBlank byte) :
    Chars.isBlank (toChar byte) := by
  simp only [isBlank, Bool.or_eq_true, beq_iff_eq] at blank
  rcases blank with rfl | rfl <;> rfl

namespace Utf8

/-- The only byte of an ASCII character. -/
def asciiByte (char : Char) : UInt8 :=
  UInt8.ofNat char.toNat

theorem toNat_asciiByte {char : Char} (ascii : char.toNat ≤ 0x7f) :
    (asciiByte char).toNat = char.toNat := by
  rw [asciiByte, UInt8.toNat_ofNat']
  omega

theorem toChar_asciiByte {char : Char} (ascii : char.toNat ≤ 0x7f) :
    Byte.toChar (asciiByte char) = char := by
  rw [Byte.toChar, toNat_asciiByte ascii, Char.ofNat_toNat]

theorem encode_of_ascii
    {chars : List Char}
    (ascii : ∀ char ∈ chars, char.toNat ≤ 0x7f) :
    encode chars = chars.map asciiByte := by
  induction chars with
  | nil => rfl
  | cons char rest inductionHypothesis =>
    rw [encode_cons, encodeChar_of_ascii (ascii char List.mem_cons_self),
      inductionHypothesis fun other member => ascii other (List.mem_cons_of_mem _ member)]
    rfl

/-- The text of an ASCII encoding is what was encoded. -/
theorem asciiText_encode
    {chars : List Char}
    (ascii : ∀ char ∈ chars, char.toNat ≤ 0x7f) :
    Bytes.asciiText (encode chars) = String.ofList chars := by
  rw [encode_of_ascii ascii, Bytes.asciiText, List.map_map]
  refine congrArg String.ofList ((List.map_congr_left fun char member => ?_).trans (List.map_id _))
  exact toChar_asciiByte (ascii char member)

theorem isLetter_asciiByte {char : Char} (letter : Chars.isLetter char) :
    char.toNat ≤ 0x7f ∧ Byte.isLetter (asciiByte char) := by
  have bounds : 0x41 ≤ char.toNat ∧ char.toNat ≤ 0x5a ∨ 0x61 ≤ char.toNat ∧ char.toNat ≤ 0x7a := by
    simp only [Chars.isLetter, Bool.or_eq_true, Bool.and_eq_true, decide_eq_true_eq] at letter
    exact letter
  have ascii : char.toNat ≤ 0x7f := by omega
  refine ⟨ascii, ?_⟩
  simp only [Byte.isLetter, Bool.or_eq_true, Bool.and_eq_true, decide_eq_true_eq,
    UInt8.le_iff_toNat_le, toNat_asciiByte ascii, UInt8.reduceToNat]
  exact bounds

theorem isNameByte_asciiByte {char : Char} (inName : Chars.isNameChar char) :
    char.toNat ≤ 0x7f ∧ Byte.isNameByte (asciiByte char) := by
  unfold Chars.isNameChar at inName
  unfold Byte.isNameByte
  simp only [Bool.or_eq_true, beq_iff_eq] at inName ⊢
  rcases inName with (letter | digit) | rfl
  · obtain ⟨ascii, letter⟩ := isLetter_asciiByte letter
    exact ⟨ascii, .inl (.inl letter)⟩
  · have bounds : 0x30 ≤ char.toNat ∧ char.toNat ≤ 0x39 := by
      simp only [Chars.isDigit, Bool.and_eq_true, decide_eq_true_eq] at digit
      exact digit
    have ascii : char.toNat ≤ 0x7f := by omega
    refine ⟨ascii, .inl (.inr ?_)⟩
    simp only [Byte.isDigit, Bool.and_eq_true, decide_eq_true_eq, UInt8.le_iff_toNat_le,
      toNat_asciiByte ascii, UInt8.reduceToNat]
    exact bounds
  · exact ⟨by decide, .inr rfl⟩

theorem encodeChar_of_isBlank {char : Char} (blank : Chars.isBlank char) :
    ∃ byte, String.utf8EncodeChar char = [byte] ∧ Byte.isBlank byte := by
  unfold Chars.isBlank at blank
  simp only [Bool.or_eq_true, beq_iff_eq] at blank
  rcases blank with rfl | rfl
  · exact ⟨Byte.space, rfl, rfl⟩
  · exact ⟨Byte.tab, rfl, rfl⟩

/-- A character that is no blank has no blank byte at its front. -/
theorem encodeChar_of_not_isBlank {char : Char} (noBlank : Chars.isBlank char = false) :
    ∃ byte others, String.utf8EncodeChar char = byte :: others ∧ Byte.isBlank byte = false := by
  obtain ⟨byte, others, shape, -⟩ := encodeChar_eq_cons char
  refine ⟨byte, others, shape, Bool.eq_false_iff.mpr fun blank => ?_⟩
  have same := encodeChar_of_mem_ascii (Byte.ascii_of_isBlank blank)
    (shape ▸ List.mem_cons_self)
  simp only [Byte.isBlank, Bool.or_eq_true, beq_iff_eq] at blank
  rcases blank with rfl | rfl <;> subst same <;> cases noBlank

theorem skipBlanks_encode (chars : List Char) :
    Bytes.skipBlanks (encode chars) = encode (chars.dropWhile Chars.isBlank) := by
  induction chars with
  | nil => rfl
  | cons char rest inductionHypothesis =>
    cases blank : Chars.isBlank char with
    | true =>
      obtain ⟨byte, shape, blankByte⟩ := encodeChar_of_isBlank blank
      rw [encode_cons, shape, List.dropWhile_cons_of_pos blank, ← inductionHypothesis]
      exact List.dropWhile_cons_of_pos blankByte
    | false =>
      obtain ⟨byte, others, shape, noBlank⟩ := encodeChar_of_not_isBlank blank
      rw [List.dropWhile_cons_of_neg (by simp [blank]), encode_cons, shape]
      exact List.dropWhile_cons_of_neg (by simp [noBlank])

end Utf8

theorem Utf8.isWord_encode
    {word : List Char}
    (isWord : Chars.isWord word) :
    Bytes.IsWord (Utf8.encode word) ∧ Bytes.asciiText (Utf8.encode word) = String.ofList word := by
  rcases Chars.cases_of_isWord isWord with rfl | ⟨first, rest, rfl, letter, others⟩
  · exact ⟨.inl rfl, rfl⟩
  · obtain ⟨asciiFirst, letterByte⟩ := Utf8.isLetter_asciiByte letter
    have ascii : ∀ char ∈ first :: rest, char.toNat ≤ 0x7f := by
      intro char member
      rcases List.mem_cons.mp member with rfl | member
      · exact asciiFirst
      · exact (Utf8.isNameByte_asciiByte (others char member)).1
    refine ⟨.inr ⟨_, rest.map Utf8.asciiByte, Utf8.encode_of_ascii ascii, letterByte, ?_⟩,
      Utf8.asciiText_encode ascii⟩
    intro byte member
    obtain ⟨char, inRest, rfl⟩ := List.mem_map.mp member
    exact (Utf8.isNameByte_asciiByte (others char inRest)).2

/-- A line that is text: a word in front of a blank or the end is a name. -/
theorem Head.read_encode
    {blanks word tail : List Char}
    (blank : blanks.all Chars.isBlank)
    (isWord : Chars.isWord word)
    (ends : Chars.endsWord tail) :
    Head.read (Utf8.encode (blanks ++ (word ++ tail)))
      = .ok (.command ⟨none, String.ofList word, false,
          Utf8.encode (tail.dropWhile Chars.isBlank)⟩) := by
  obtain ⟨isWordOfBytes, sameText⟩ := Utf8.isWord_encode isWord
  have blankBytes : ∀ byte ∈ Utf8.encode blanks, Byte.isBlank byte := by
    intro byte member
    obtain ⟨char, inBlanks, inside⟩ := List.mem_flatMap.mp member
    obtain ⟨only, shape, blankByte⟩ :=
      Utf8.encodeChar_of_isBlank (List.all_eq_true.mp blank char inBlanks)
    rw [shape] at inside
    exact List.mem_singleton.mp inside ▸ blankByte
  have endsBytes : Bytes.EndsWord (Utf8.encode tail) := by
    cases tail with
    | nil => exact fun _ member => nomatch member
    | cons char rest =>
      obtain ⟨only, shape, blankByte⟩ := Utf8.encodeChar_of_isBlank ends
      rw [Utf8.encode_cons, shape]
      intro byte member
      cases member
      exact blankByte
  rw [Utf8.encode_append, Utf8.encode_append, Head.read_word blankBytes isWordOfBytes endsBytes,
    sameText, Utf8.skipBlanks_encode]

end ExLine

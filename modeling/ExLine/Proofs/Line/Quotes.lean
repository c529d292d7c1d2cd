import ExLine.Engine.Plan
import ExLine.Proofs.Line.Head
import ExLine.Proofs.Line.Lexemes
import ExLine.Proofs.Line.Words
import ExLine.Proofs.Text.Utf8

/-!
Contract: the scanner of bytes and the splitter of characters agree on quotes.

Owns:
- `Quotes.State.step`, which quote is open after a byte or a character;
- `Quotes.closed_of_split`, by which no quote is open where the scanner ends the
  arguments;
- `Quotes.exists_words_of_closed`, by which the splitter takes any text that
  leaves no quote open;
- `Quotes.separator_settles_quotes`: arguments that were cut off are split.

Does not own: what the words are (`ExLine.Proofs.Line.Words`).

Both readers are driven by one machine. It reads signs, and a character gives it
the sign of its first byte and then signs that it passes over. The readers do not
move in step, one takes a byte at a time and the other a whole piece, so each is
compared with the machine.
-/

set_option autoImplicit false

namespace ExLine.Quotes

open Segment (QuoteMark)

/-! ## The machine -/

/-- What a byte or a character is to the machine. -/
inductive Sign where
  | mark (mark : QuoteMark)
  | backslash
  | other
  deriving DecidableEq, Repr

namespace Sign

def ofByte (byte : UInt8) : Sign :=
  if byte = Byte.backslash then .backslash
  else if byte = Byte.singleQuote then .mark .single
  else if byte = Byte.doubleQuote then .mark .double
  else .other

def ofChar (char : Char) : Sign :=
  if char = '\\' then .backslash
  else if char = '\'' then .mark .single
  else if char = '"' then .mark .double
  else .other

end Sign

/-- The open quote, if there is one, and whether the next sign is protected. -/
structure State where
  mark : Option QuoteMark
  literal : Bool
  deriving DecidableEq, Repr

namespace State

/-- Inside a quote, or outside all, with nothing protected. -/
abbrev inside (mark : Option QuoteMark) : State :=
  ⟨mark, false⟩

/-- The state after a sign. -/
def step (state : State) (sign : Sign) : State :=
  if state.literal then { state with literal := false }
  else
    match state.mark, sign with
    | mark, .other => ⟨mark, false⟩
    | none, .mark mark => ⟨some mark, false⟩
    | none, .backslash => ⟨none, true⟩
    | some opening, .mark mark => ⟨if opening = mark then none else some opening, false⟩
    | some opening, .backslash => ⟨some opening, opening == .double⟩

/-- The state after several signs. -/
def after (state : State) (signs : List Sign) : State :=
  signs.foldl step state

theorem after_append (state : State) (first second : List Sign) :
    state.after (first ++ second) = (state.after first).after second :=
  List.foldl_append

theorem step_other (state : State) : state.step .other = { state with literal := false } := by
  obtain ⟨mark, literal⟩ := state
  cases literal <;> cases mark <;> rfl

/-- Signs of no kind do no more than one of them. -/
theorem after_others
    {signs : List Sign}
    (others : ∀ sign ∈ signs, sign = .other)
    (nonempty : signs ≠ [])
    (state : State) :
    state.after signs = state.step .other := by
  induction signs generalizing state with
  | nil => exact absurd rfl nonempty
  | cons sign signs inductionHypothesis =>
    rw [List.forall_mem_cons] at others
    show (state.step sign).after signs = _
    rw [others.1]
    by_cases last : signs = []
    · rw [last]
      rfl
    · rw [inductionHypothesis others.2 last, step_other, step_other]

theorem mark_after_others
    {signs : List Sign}
    (others : ∀ sign ∈ signs, sign = .other)
    (state : State) :
    (state.after signs).mark = state.mark := by
  by_cases empty : signs = []
  · rw [empty]
    rfl
  · rw [after_others others empty, step_other]

/-- The state after the bytes of a text. -/
def afterBytes (state : State) (bytes : Bytes) : State :=
  state.after (bytes.map Sign.ofByte)

def afterChars (state : State) (chars : List Char) : State :=
  state.after (chars.map Sign.ofChar)

theorem afterBytes_append (state : State) (first second : Bytes) :
    state.afterBytes (first ++ second) = (state.afterBytes first).afterBytes second := by
  rw [afterBytes, List.map_append, after_append]
  rfl

theorem afterChars_cons (state : State) (char : Char) (chars : List Char) :
    state.afterChars (char :: chars) = (state.step (Sign.ofChar char)).afterChars chars :=
  rfl

theorem afterChars_append (state : State) (first second : List Char) :
    state.afterChars (first ++ second) = (state.afterChars first).afterChars second := by
  rw [afterChars, List.map_append, after_append]
  rfl

end State

/-! ## Bytes and characters -/

theorem ofByte_of_mem_encodeChar
    {char : Char}
    (other : Sign.ofChar char = .other)
    {byte : UInt8}
    (isMember : byte ∈ String.utf8EncodeChar char) :
    Sign.ofByte byte = .other := by
  have different (special : UInt8) (low : special < 0x80)
      (meaning : Sign.ofChar (Byte.toChar special) ≠ .other) : byte ≠ special := by
    rintro rfl
    rw [← Utf8.encodeChar_of_mem_ascii low isMember] at meaning
    exact meaning other
  unfold Sign.ofByte
  rw [if_neg (different Byte.backslash (by decide) (by decide)),
    if_neg (different Byte.singleQuote (by decide) (by decide)),
    if_neg (different Byte.doubleQuote (by decide) (by decide))]

theorem afterBytes_encodeChar (state : State) (char : Char) :
    state.afterBytes (String.utf8EncodeChar char) = state.step (Sign.ofChar char) := by
  by_cases isBackslash : char = '\\'
  · subst isBackslash
    rfl
  by_cases isSingle : char = '\''
  · subst isSingle
    rfl
  by_cases isDouble : char = '"'
  · subst isDouble
    rfl
  have other : Sign.ofChar char = .other := by
    simp [Sign.ofChar, isBackslash, isSingle, isDouble]
  rw [other]
  refine State.after_others ?_ ?_ state
  · rw [List.forall_mem_map]
    exact fun byte isMember => ofByte_of_mem_encodeChar other isMember
  · exact mt List.map_eq_nil_iff.mp String.utf8EncodeChar_ne_nil

/-- A text moves the machine as its bytes do. -/
theorem afterBytes_encode (state : State) (chars : List Char) :
    state.afterBytes (Utf8.encode chars) = state.afterChars chars := by
  induction chars generalizing state with
  | nil => rfl
  | cons char chars inductionHypothesis =>
    rw [Utf8.encode_cons, State.afterBytes_append, afterBytes_encodeChar, inductionHypothesis]
    rfl

/-! ## The scanner of bytes -/

open Segment (next scan separates put Cut)

/-- The scanner moves as the machine does. -/
theorem next_eq_step (state : State) (byte : UInt8) (more : Bytes) :
    next .quoted (state.mark.map QuoteMark.byte) state.literal byte more
      = ((state.step (Sign.ofByte byte)).mark.map QuoteMark.byte,
        (state.step (Sign.ofByte byte)).literal) := by
  have single : Segment.doubles .quoted none false byte more = false := rfl
  obtain ⟨mark, literal⟩ := state
  cases literal with
  | true => rfl
  | false =>
    by_cases isBackslash : byte = Byte.backslash
    · subst isBackslash
      rcases mark with - | - | - <;> rfl
    by_cases isSingle : byte = Byte.singleQuote
    · subst isSingle
      rcases mark with - | - | - <;> rfl
    by_cases isDouble : byte = Byte.doubleQuote
    · subst isDouble
      rcases mark with - | - | - <;> rfl
    have other : Sign.ofByte byte = .other := by
      simp [Sign.ofByte, isBackslash, isSingle, isDouble]
    rw [other, State.step_other]
    rcases mark with - | - | - <;>
      simp [next, single, isBackslash, isSingle, isDouble, QuoteMark.byte]

/-- No quote is open at the end of what a scan takes, nor before the marker. -/
theorem closed_of_scan
    {bytes : Bytes}
    {cut : Cut}
    (state : State)
    (scanned : scan .quoted (state.mark.map QuoteMark.byte) state.literal bytes = .ok cut) :
    (state.afterBytes cut.text).mark = none
      ∧ ∀ body ∈ cut.beforeMarker, (state.afterBytes body).mark = none := by
  induction bytes generalizing state cut with
  | nil =>
    obtain ⟨mark, literal⟩ := state
    cases mark with
    | some mark => cases scanned
    | none =>
      cases scanned
      exact ⟨rfl, fun body isBody => by cases isBody⟩
  | cons byte more inductionHypothesis =>
    rw [Segment.scan_cons, next_eq_step] at scanned
    by_cases ends : separates .quoted (state.mark.map QuoteMark.byte) state.literal byte more = true
    · rw [if_pos ends] at scanned
      cases scanned
      simp only [separates, Bool.and_eq_true, Option.isNone_map] at ends
      exact ⟨Option.isNone_iff_eq_none.mp ends.1.1.1.2, fun body isBody => by cases isBody⟩
    · rw [if_neg ends, map_eq_ok_iff] at scanned
      obtain ⟨later, scanned, rfl⟩ := scanned
      obtain ⟨textClosed, bodyClosed⟩ := inductionHypothesis _ scanned
      refine ⟨?_, fun body isBody => ?_⟩
      · rw [Segment.text_put]
        exact textClosed
      · rcases Segment.beforeMarker_put isBody with ⟨outside, rfl⟩ | ⟨earlier, isEarlier, rfl⟩
        · exact Option.map_eq_none_iff.mp outside
        · exact bodyClosed earlier isEarlier

theorem closed_of_split
    {tail : Bytes}
    {segment : Segment}
    (cutOff : Segment.split .quoted tail = .ok segment) :
    ((State.inside none).afterBytes segment.body).mark = none := by
  obtain ⟨cut, scanned, rfl⟩ := Segment.split_eq_ok_iff.mp cutOff
  have closed := closed_of_scan (.inside none) scanned
  obtain ⟨text, beforeMarker, rest⟩ := cut
  cases beforeMarker with
  | none => exact closed.1
  | some body => exact closed.2 body rfl

theorem ofByte_of_isBlank {byte : UInt8} (blank : Byte.isBlank byte) :
    Sign.ofByte byte = .other := by
  simp only [Byte.isBlank, Bool.or_eq_true, beq_iff_eq] at blank
  rcases blank with rfl | rfl <;> rfl

/-- Trimming drops no quote. -/
theorem mark_of_padded
    {short long : Bytes}
    (padded : Bytes.Padded short long)
    (state : State) :
    (state.afterBytes long).mark = (state.afterBytes short).mark := by
  cases padded with
  | none => rfl
  | @blanks blanks blank unescaped =>
    rw [State.afterBytes_append]
    apply State.mark_after_others
    rw [List.forall_mem_map]
    exact fun byte isMember => ofByte_of_isBlank (blank byte isMember)

/-! ## The splitter of characters -/

open Arguments (Piece readPiece words expands)

/-- A character that neither opens nor closes nor escapes. -/
theorem step_of_stays
    {mark : Option QuoteMark}
    {char : Char}
    (notClosing : mark.map QuoteMark.char ≠ some char)
    (opensNone : mark = none → char ≠ '\'' ∧ char ≠ '"')
    (noEscape : char = '\\' → mark = some .single) :
    (State.inside mark).step (Sign.ofChar char) = .inside mark := by
  by_cases isBackslash : char = '\\'
  · rw [noEscape isBackslash, isBackslash]
    rfl
  by_cases isSingle : char = '\''
  · subst isSingle
    rcases mark with - | - | -
    · exact absurd rfl (opensNone rfl).1
    · exact absurd rfl notClosing
    · rfl
  by_cases isDouble : char = '"'
  · subst isDouble
    rcases mark with - | - | -
    · exact absurd rfl (opensNone rfl).2
    · rfl
    · exact absurd rfl notClosing
  have other : Sign.ofChar char = .other := by
    simp [Sign.ofChar, isBackslash, isSingle, isDouble]
  rw [other, State.step_other]

theorem ofChar_of_isNameChar {char : Char} (isName : Chars.isNameChar char) :
    Sign.ofChar char = .other := by
  have different (special : Char) (noName : Chars.isNameChar special = false) :
      char ≠ special := by
    rintro rfl
    rw [noName] at isName
    cases isName
  simp [Sign.ofChar, different '\\' rfl, different '\'' rfl, different '"' rfl]

/-- A name moves nothing. -/
theorem afterChars_name (mark : Option QuoteMark) (chars : List Char) :
    (State.inside mark).afterChars (chars.takeWhile Chars.isNameChar) = .inside mark := by
  have others : ∀ sign ∈ (chars.takeWhile Chars.isNameChar).map Sign.ofChar, sign = .other := by
    rw [List.forall_mem_map]
    exact fun char isMember =>
      ofChar_of_isNameChar (List.all_eq_true.mp List.all_takeWhile char isMember)
  by_cases empty : (chars.takeWhile Chars.isNameChar).map Sign.ofChar = []
  · rw [State.afterChars, empty]
    rfl
  · rw [State.afterChars, State.after_others others empty, State.step_other]

/-- Reading the characters `taken` as a piece leaves the machine inside the quote
that is open after the piece. Only a backslash at the end of the text protects
something that is not there. -/
structure Moves (mark : Option QuoteMark) (piece : Piece) (taken after : List Char) : Prop where
  quote : ((State.inside mark).afterChars taken).mark.map QuoteMark.char
    = piece.quoteAfter (mark.map QuoteMark.char)
  literal : ((State.inside mark).afterChars taken).literal = true → after = []

/-- A piece after which nothing is protected. -/
theorem Moves.lands
    {mark opened : Option QuoteMark}
    {piece : Piece}
    {taken after : List Char}
    (lands : (State.inside mark).afterChars taken = .inside opened)
    (same : piece.quoteAfter (mark.map QuoteMark.char) = opened.map QuoteMark.char) :
    Moves mark piece taken after := by
  constructor
  · rw [lands, same]
  · intro literal
    rw [lands] at literal
    cases literal

theorem moves_plain
    {mark : Option QuoteMark}
    {char : Char}
    {after : List Char}
    (notClosing : ¬ (mark.map QuoteMark.char == some char) = true)
    (opensNone :
      ¬ ((mark.map QuoteMark.char).isNone && true && (char == '\'' || char == '"')) = true)
    (noBackslash : char ≠ '\\') :
    Moves mark (.text [char]) [char] after := by
  rw [beq_iff_eq] at notClosing
  refine .lands (step_of_stays notClosing ?_ fun escapes => absurd escapes noBackslash) rfl
  rintro rfl
  simpa using opensNone

/-- One step of the splitter moves the machine. -/
theorem moves_of_readPiece
    {env : Option (String → Option String)}
    {mark : Option QuoteMark}
    {char : Char}
    {rest after : List Char}
    {piece : Piece}
    (found : readPiece ⟨true, env⟩ (mark.map QuoteMark.char) char rest = (piece, after)) :
    ∃ taken, char :: rest = taken ++ after ∧ Moves mark piece taken after := by
  revert found
  fun_cases readPiece ⟨true, env⟩ (mark.map QuoteMark.char) char rest with
  | case1 rest closes =>
    rintro ⟨⟩
    refine ⟨[char], rfl, ?_⟩
    obtain ⟨opening, rfl, rfl⟩ := Option.map_eq_some_iff.mp (beq_iff_eq.mp closes)
    cases opening <;> exact .lands rfl rfl
  | case2 rest notClosing isSingle =>
    rintro ⟨⟩
    rw [beq_iff_eq] at notClosing isSingle
    obtain ⟨opening, rfl, isMark⟩ := Option.map_eq_some_iff.mp isSingle
    obtain rfl : opening = .single := by
      cases opening with
      | single => rfl
      | double => cases isMark
    have inQuote (outside : some QuoteMark.single = none) : char ≠ '\'' ∧ char ≠ '"' := by
      cases outside
    exact ⟨[char], rfl, .lands (step_of_stays notClosing inQuote fun _ => rfl) rfl⟩
  | case3 rest notClosing notSingle isBlank =>
    rintro ⟨⟩
    simp only [Option.isNone_map, Bool.and_eq_true, Option.isNone_iff_eq_none, Chars.isBlank,
      Bool.or_eq_true, beq_iff_eq] at isBlank
    obtain ⟨rfl, rfl | rfl⟩ := isBlank
    · exact ⟨[' '], rfl, .lands rfl rfl⟩
    · exact ⟨['\t'], rfl, .lands rfl rfl⟩
  | case4 rest notClosing notSingle notBlank opens =>
    rintro ⟨⟩
    simp only [Option.isNone_map, Bool.and_eq_true, Option.isNone_iff_eq_none, Bool.or_eq_true,
      beq_iff_eq] at opens
    obtain ⟨⟨rfl, -⟩, rfl | rfl⟩ := opens
    · exact ⟨['\''], rfl, .lands rfl rfl⟩
    · exact ⟨['"'], rfl, .lands rfl rfl⟩
  | case5 notClosing notSingle notBlank opensNone isBackslash =>
    rintro ⟨⟩
    subst isBackslash
    refine ⟨['\\'], rfl, ?_, fun _ => rfl⟩
    rcases mark with - | - | - <;> rfl
  | case6 notClosing notSingle notBlank opensNone isBackslash escaped later =>
    rintro ⟨⟩
    subst isBackslash
    refine ⟨['\\', escaped], rfl, .lands ?_ rfl⟩
    rcases mark with - | - | -
    · rfl
    · exact absurd rfl notSingle
    · rfl
  | case7 rest notClosing notSingle notBlank opensNone noBackslash values expands isDollar =>
    rintro ⟨⟩
    subst isDollar
    refine ⟨'$' :: rest.takeWhile Chars.isNameChar, ?_, .lands ?_ rfl⟩
    · rw [List.cons_append, List.takeWhile_append_dropWhile]
    · have dollar : (State.inside mark).step (Sign.ofChar '$') = .inside mark :=
        State.step_other _
      rw [State.afterChars_cons, dollar, afterChars_name]
  | case8 rest notClosing notSingle notBlank opensNone noBackslash values expands notDollar =>
    rintro ⟨⟩
    exact ⟨[char], rfl, moves_plain notClosing opensNone noBackslash⟩
  | case9 rest notClosing notSingle notBlank opensNone noBackslash noValues =>
    rintro ⟨⟩
    exact ⟨[char], rfl, moves_plain notClosing opensNone noBackslash⟩

/-- **The splitter takes any text that leaves no quote open.** -/
theorem exists_words_of_closed
    (env : Option (String → Option String))
    (mark : Option QuoteMark)
    (begun : Bool)
    (chars : List Char)
    (closed : ((State.inside mark).afterChars chars).mark = none) :
    ∃ found, words ⟨true, env⟩ (mark.map QuoteMark.char) begun chars = .ok found := by
  match chars with
  | [] =>
    obtain rfl : mark = none := closed
    show ∃ found, words ⟨true, env⟩ none begun [] = .ok found
    rw [words]
    exact ⟨_, rfl⟩
  | char :: rest =>
    cases read : readPiece ⟨true, env⟩ (mark.map QuoteMark.char) char rest with
    | mk piece after =>
      have shorter := Arguments.length_lt_of_readPiece read
      obtain ⟨taken, parts, moves⟩ := moves_of_readPiece read
      rw [parts, State.afterChars_append] at closed
      rw [Arguments.words_cons read, ← moves.quote]
      have literal := moves.literal
      generalize (State.inside mark).afterChars taken = state at closed literal
      obtain ⟨between, protects⟩ := state
      have closedAfter : ((State.inside between).afterChars after).mark = none := by
        cases protects with
        | false => exact closed
        | true =>
          rw [literal rfl] at closed ⊢
          exact closed
      obtain ⟨found, later⟩ := exists_words_of_closed env between piece.inWord after closedAfter
      rw [later]
      exact ⟨_, rfl⟩
termination_by chars.length
decreasing_by exact shorter

/-! ## Arguments that were cut off -/

/-- Blanks after a text do not change whether it is well formed. -/
theorem exists_decode_of_padded
    {short long : Bytes}
    (padded : Bytes.Padded short long) :
    ∃ added : String, Utf8.decode long = (Utf8.decode short).map (· ++ added) := by
  cases padded with
  | none =>
    refine ⟨"", ?_⟩
    cases Utf8.decode short with
    | error offset => rfl
    | ok text => exact congrArg Except.ok String.append_empty.symm
  | @blanks blanks blank unescaped =>
    have ascii : ∀ byte ∈ blanks, byte < 0x80 :=
      fun byte isMember => Byte.ascii_of_isBlank (blank byte isMember)
    exact ⟨Bytes.asciiText blanks, Utf8.decode_append_ascii ascii short⟩

/-- Bytes that leave no quote open are split, if they are text at all. -/
theorem split_of_closed
    {bytes : Bytes}
    (closed : ((State.inside none).afterBytes bytes).mark = none)
    (env : Option (String → Option String)) :
    (∀ text, Utf8.decode bytes = .ok text →
        ∃ argv, Arguments.split ⟨true, env⟩ bytes = .ok argv)
      ∧ ∀ offset, Utf8.decode bytes = .error offset →
        Arguments.split ⟨true, env⟩ bytes = .error (.malformedEncoding offset) := by
  refine ⟨fun text decoded => ?_, fun offset malformed => ?_⟩
  · have closedText : ((State.inside none).afterChars text.toList).mark = none := by
      rw [← afterBytes_encode]
      rwa [Utf8.decode_eq_ok_iff.mp decoded] at closed
    obtain ⟨found, cut⟩ := exists_words_of_closed env none false text.toList closedText
    refine ⟨found.map String.ofList, ?_⟩
    unfold Arguments.split Arguments.decode
    rw [decoded]
    show (liftError _ (words ⟨true, env⟩ none false text.toList) >>= _) = _
    rw [show words ⟨true, env⟩ none false text.toList = .ok found from cut]
    rfl
  · unfold Arguments.split Arguments.decode
    rw [malformed]
    rfl

theorem closed_trim_of_split
    {tail : Bytes}
    {segment : Segment}
    (cutOff : Segment.split .quoted tail = .ok segment) :
    ((State.inside none).afterBytes (Arguments.trim segment.body)).mark = none := by
  rw [← mark_of_padded (Arguments.padded_trim segment.body)]
  exact closed_of_split cutOff

/-- The arguments of a segment are split, if they are text at all. -/
theorem split_trim_of_split
    {tail : Bytes}
    {segment : Segment}
    (cutOff : Segment.split .quoted tail = .ok segment)
    (env : Option (String → Option String)) :
    (∀ text, Utf8.decode segment.body = .ok text →
        ∃ argv, Arguments.split ⟨true, env⟩ (Arguments.trim segment.body) = .ok argv)
      ∧ ∀ offset, Utf8.decode segment.body = .error offset →
        Arguments.split ⟨true, env⟩ (Arguments.trim segment.body)
          = .error (.malformedEncoding offset) := by
  obtain ⟨ofText, ofMalformed⟩ := split_of_closed (closed_trim_of_split cutOff) env
  obtain ⟨added, decoded⟩ := exists_decode_of_padded (Arguments.padded_trim segment.body)
  rw [decoded]
  refine ⟨fun text isText => ?_, fun offset isError => ?_⟩
  · obtain ⟨trimmed, isTrimmed, -⟩ := map_eq_ok_iff.mp isText
    exact ofText trimmed isTrimmed
  · cases trimmed : Utf8.decode (Arguments.trim segment.body) with
    | ok text =>
      rw [trimmed] at isError
      cases isError
    | error other =>
      rw [trimmed] at isError
      cases isError
      exact ofMalformed offset trimmed

/-- A range never leaves a quote open. -/
theorem lines_ne_unterminatedQuote
    (command : Command)
    (view : View)
    (range : Option RangeSpec)
    (quote : Char) :
    Invocation.lines command view range ≠ .error (.unterminatedQuote quote) := by
  intro failed
  unfold Invocation.lines at failed
  split at failed
  · cases failed
  · rename_i spec
    split at failed
    · obtain ⟨error, -, other⟩ := liftError_eq_error_iff.mp failed
      cases other
    · cases failed

/-- Building a call does not fail on quotes after its arguments were cut off. -/
theorem build_ne_unterminatedQuote
    {tail : Bytes}
    {segment : Segment}
    {command : Command}
    (cutOff : Segment.split .quoted tail = .ok segment)
    (quotes : command.flags.quotes = true)
    (engine : Engine)
    (head : CommandHead)
    (quote : Char) :
    Invocation.build engine command head segment ≠ .error (.unterminatedQuote quote) := by
  unfold Invocation.build Arguments.decode
  intro failed
  rcases bind_eq_error_iff.mp failed with malformed | ⟨text, isText, failed⟩
  · obtain ⟨offset, -, other⟩ := liftError_eq_error_iff.mp malformed
    cases other
  have argued : ∃ args, Invocation.arguments command.flags engine.env
      (Arguments.trim segment.body) text = .ok args := by
    unfold Invocation.arguments
    split
    · exact ⟨_, rfl⟩
    · rw [quotes]
      exact (split_of_closed (closed_trim_of_split cutOff) _).1 text
        (liftError_eq_ok_iff.mp isText)
  obtain ⟨args, isArgs⟩ := argued
  rw [isArgs] at failed
  rcases bind_eq_error_iff.mp failed with noArguments | ⟨same, -, failed⟩
  · cases noArguments
  rcases bind_eq_error_iff.mp failed with noLines | ⟨range, -, failed⟩
  · exact lines_ne_unterminatedQuote command engine.view head.range quote noLines
  · cases failed

/-- **The separator settles quotes.** Take a command whose arguments may be quoted
and are neither raw nor expressions. Once its arguments are cut off, no quote is
open in them: trimmed, they are split in every environment if they are well-formed
text, and otherwise the error is where they are malformed. Building the call does
not fail on quotes. A quote that is open is reported instead of a call, and then
no next sub-command is chosen. -/
theorem separator_settles_quotes
    (flags : Flags)
    (quotes : flags.quotes = true)
    (notRaw : flags.raw = false)
    (notExpression : flags.expression = false) :
    flags.tailMode = .quoted
      ∧ (∀ tail segment env, Segment.split .quoted tail = .ok segment →
          (∀ text, Utf8.decode segment.body = .ok text →
              ∃ argv, Arguments.split { quotes := flags.quotes, env }
                (Arguments.trim segment.body) = .ok argv)
            ∧ ∀ offset, Utf8.decode segment.body = .error offset →
              Arguments.split { quotes := flags.quotes, env } (Arguments.trim segment.body)
                = .error (.malformedEncoding offset))
      ∧ ∀ command head, command.flags = flags →
          (∀ engine segment, Segment.split command.flags.tailMode head.tail = .ok segment →
              ∀ quote, Invocation.build engine command head segment
                ≠ .error (.unterminatedQuote quote))
            ∧ ∀ chain, Registry.resolve chain head.name = .ok command →
              (∃ quote, Step.named chain true head = ⟨.fail (.unterminatedQuote quote), none⟩)
                ∨ ∃ segment, Segment.split .quoted head.tail = .ok segment
                  ∧ Step.named chain true head = ⟨.call command head segment, segment.rest⟩ := by
  have mode : flags.tailMode = .quoted := by
    simp [Flags.tailMode, quotes, notRaw, notExpression]
  refine ⟨mode, fun tail segment env cutOff => ?_, fun command head sameFlags => ⟨?_, ?_⟩⟩
  · rw [quotes]
    exact split_trim_of_split cutOff env
  · intro engine segment cutOff quote
    rw [sameFlags, mode] at cutOff
    exact build_ne_unterminatedQuote cutOff (sameFlags ▸ quotes) engine head quote
  · intro chain resolved
    unfold Step.named
    rw [resolved]
    simp only [sameFlags, mode]
    cases cutOff : Segment.split .quoted head.tail with
    | error error =>
      obtain ⟨mark, inner, -, rfl⟩ := Segment.split_eq_error_iff.mp cutOff
      exact .inl ⟨mark.char, rfl⟩
    | ok segment => exact .inr ⟨segment, rfl, rfl⟩

/-- In `'a|b' "\"é" \' & | echo` the last single quote is escaped. The arguments end
before the marker, and nothing is open in them. -/
theorem separator_settles_quotes_escaped :
    Segment.split .quoted (Utf8.ofString "'a|b' \"\\\"é\" \\' & | echo")
        = .ok ⟨Utf8.ofString "'a|b' \"\\\"é\" \\' ", true, some (Utf8.ofString " echo")⟩
      ∧ ∃ argv, Arguments.split ⟨true, none⟩
          (Arguments.trim (Utf8.ofString "'a|b' \"\\\"é\" \\' ")) = .ok argv := by
  have cutOff : Segment.split .quoted (Utf8.ofString "'a|b' \"\\\"é\" \\' & | echo")
      = .ok ⟨Utf8.ofString "'a|b' \"\\\"é\" \\' ", true, some (Utf8.ofString " echo")⟩ := by cbv
  have settled := (separator_settles_quotes { quotes := true } rfl rfl rfl).2.1 _ _ none cutOff
  exact ⟨cutOff, settled.1 _ (Utf8.decode_eq_ok_iff.mpr rfl)⟩

end ExLine.Quotes

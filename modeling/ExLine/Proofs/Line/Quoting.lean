import ExLine.Proofs.Expr.Separators
import ExLine.Proofs.Line.Arguments
import ExLine.Proofs.Line.Escaped
import ExLine.Proofs.Line.Words

/-!
Contract: arguments that mix the three ways to protect a text.

Owns:
- `Arguments.Fragment`, a text in single quotes, in double quotes or behind
  backslashes, and `Arguments.Composed`, an argument of adjacent fragments;
- for each reader of an argument text, its law on a fragment, whatever follows:
  `Fragment.passes`, `Fragment.trim_append` and `Fragment.words`;
- `Arguments.mixed_quoting_comes_back`, the three laws together for a line.

Does not own: arguments that only backslashes protect, as wrappers hand them on
(`ExLine.Proofs.Line.Escaped`).

After a fragment every reader is where it was before it: outside quotes, and with
nothing escaped. This is why fragments can be put side by side. Only the splitter
must know more, namely that a word has begun, since an empty fragment makes an
argument too.
-/

set_option autoImplicit false

namespace ExLine.Arguments

open Bytes

/-- The characters with a backslash before each that has a meaning between double
quotes. -/
def guardDouble (chars : List Char) : List Char :=
  chars.flatMap fun char =>
    if char = '"' ∨ char = '\\' ∨ char = '$' then ['\\', char] else [char]

/-- A text and the way in which it is protected. -/
inductive Fragment where
  | single (chars : List Char) (noQuote : '\'' ∉ chars)
  | double (chars : List Char)
  | escaped (chars : List Char) (nonempty : chars ≠ [])

namespace Fragment

/-- The text that is protected. -/
def meant : Fragment → List Char
  | .single chars _ | .double chars | .escaped chars _ => chars

/-- The fragment as it stands on a line. -/
def text : Fragment → List Char
  | .single chars _ => '\'' :: (chars ++ ['\''])
  | .double chars => '"' :: (guardDouble chars ++ ['"'])
  | .escaped chars _ => escape chars

end Fragment

/-- An argument as fragments that stand side by side. -/
structure Composed where
  fragments : List Fragment
  nonempty : fragments ≠ []

namespace Composed

def meant (argument : Composed) : List Char :=
  argument.fragments.flatMap Fragment.meant

def text (argument : Composed) : List Char :=
  argument.fragments.flatMap Fragment.text

end Composed

/-! ## Between double quotes -/

theorem guardDouble_cons_of_special
    {char : Char}
    (special : char = '"' ∨ char = '\\' ∨ char = '$')
    (chars : List Char) :
    guardDouble (char :: chars) = '\\' :: char :: guardDouble chars := by
  unfold guardDouble
  rw [List.flatMap_cons, if_pos special]
  rfl

theorem guardDouble_cons_of_plain
    {char : Char}
    (plain : ¬(char = '"' ∨ char = '\\' ∨ char = '$'))
    (chars : List Char) :
    guardDouble (char :: chars) = char :: guardDouble chars := by
  unfold guardDouble
  rw [List.flatMap_cons, if_neg plain]
  rfl

namespace Fragment

/-! ## Separators and markers -/

section Separators

variable {mode : TailMode}

theorem passes_single {chars : List Char} (noQuote : '\'' ∉ chars) :
    Segment.Passes mode (some Byte.singleQuote) (some Byte.singleQuote) (Utf8.encode chars) := by
  induction chars with
  | nil => exact .nil
  | cons char chars inductionHypothesis =>
    rw [List.mem_cons, not_or] at noQuote
    have first : Segment.Passes mode (some Byte.singleQuote) (some Byte.singleQuote)
        (String.utf8EncodeChar char) := Token.passes_single_char (Ne.symm noQuote.1)
    exact first.append (inductionHypothesis noQuote.2)

theorem passes_guardDouble (chars : List Char) :
    Segment.Passes mode (some Byte.doubleQuote) (some Byte.doubleQuote)
      (Utf8.encode (guardDouble chars)) := by
  induction chars with
  | nil => exact .nil
  | cons char chars inductionHypothesis =>
    by_cases special : char = '"' ∨ char = '\\' ∨ char = '$'
    · rw [guardDouble_cons_of_special special]
      have shape : Utf8.encode ('\\' :: char :: guardDouble chars)
          = Utf8.encode ['\\', char] ++ Utf8.encode (guardDouble chars) :=
        Utf8.encode_append ['\\', char] (guardDouble chars)
      rw [shape]
      exact (Token.passes_escaped_char char).append inductionHypothesis
    · rw [guardDouble_cons_of_plain special]
      rw [not_or, not_or] at special
      exact (Token.passes_double_char special.1 special.2.1).append inductionHypothesis

/-- A fragment holds no separator and no marker, and closes the quote it opens. -/
theorem passes (quotes : mode.hasQuotes) (fragment : Fragment) :
    Segment.Passes mode none none (Utf8.encode fragment.text) := by
  cases fragment with
  | single chars noQuote =>
    have opens : Segment.Passes mode none _ [Byte.singleQuote] := .opening quotes (.inl rfl)
    have closes : Segment.Passes mode (some Byte.singleQuote) none [Byte.singleQuote] :=
      .byte fun _ => Segment.scan_close
    show Segment.Passes mode none none ([Byte.singleQuote] ++ Utf8.encode (chars ++ ['\'']))
    rw [Utf8.encode_append]
    exact opens.append ((passes_single noQuote).append closes)
  | double chars =>
    have opens : Segment.Passes mode none _ [Byte.doubleQuote] := .opening quotes (.inr rfl)
    have closes : Segment.Passes mode (some Byte.doubleQuote) none [Byte.doubleQuote] :=
      .byte fun _ => Segment.scan_close
    show Segment.Passes mode none none
      ([Byte.doubleQuote] ++ Utf8.encode (guardDouble chars ++ ['"']))
    rw [Utf8.encode_append]
    exact opens.append ((passes_guardDouble chars).append closes)
  | escaped chars nonempty => exact passes_escape chars

end Separators

/-! ## Blanks at the end -/

/-- A fragment that does not escape its last character ends in a quote. -/
theorem ends_in_quote (fragment : Fragment) :
    (∃ front quote, Utf8.encode fragment.text = front ++ [quote]
        ∧ (quote = Byte.singleQuote ∨ quote = Byte.doubleQuote))
      ∨ ∃ chars, chars ≠ [] ∧ fragment.text = escape chars := by
  cases fragment with
  | single chars noQuote =>
    exact .inl ⟨_, Byte.singleQuote, Utf8.encode_append ('\'' :: chars) ['\''], .inl rfl⟩
  | double chars =>
    exact .inl ⟨_, Byte.doubleQuote, Utf8.encode_append ('"' :: guardDouble chars) ['"'], .inr rfl⟩
  | escaped chars nonempty => exact .inr ⟨chars, nonempty, rfl⟩

/-- Nothing after a fragment is escaped. -/
theorem escapesNext_text (fragment : Fragment) :
    escapesNext false (Utf8.encode fragment.text) = false := by
  rcases fragment.ends_in_quote with ⟨front, quote, shape, isQuote⟩ | ⟨chars, -, shape⟩
  · have noBackslash : quote ≠ Byte.backslash := by
      rcases isQuote with rfl | rfl <;> decide
    rw [shape, escapesNext_append, escapesNext_cons_of_ne noBackslash]
    rfl
  · rw [shape]
    exact escapesNext_escape chars

/-- A text that ends in a fragment is not trimmed. -/
theorem trim_append
    {before : Bytes}
    (unescaped : escapesNext false before = false)
    (fragment : Fragment) :
    trim (before ++ Utf8.encode fragment.text) = before ++ Utf8.encode fragment.text := by
  rcases fragment.ends_in_quote with ⟨front, quote, shape, isQuote⟩ | ⟨chars, nonempty, shape⟩
  · have noBlank : Byte.isBlank quote = false := by
      rcases isQuote with rfl | rfl <;> rfl
    rw [shape, ← List.append_assoc]
    exact trim_concat (.inl noBlank)
  · rw [shape]
    exact trim_escape nonempty unescaped

/-! ## Words -/

section Words

variable {rules : WordRules} {rest word : List Char} {others : List (List Char)}

/-- A character that is read as itself, with the words of what follows. -/
theorem words_text
    {quote : Option Char}
    {char piece : Char}
    {after : List Char}
    (found : readPiece rules quote char rest = (.text [piece], after))
    (later : words rules quote true after = .ok (word :: others)) :
    words rules quote true (char :: rest) = .ok ((piece :: word) :: others) := by
  rw [words_cons found]
  show (words rules quote true after).map _ = _
  rw [later]
  rfl

theorem words_close {mark : Char} :
    words rules (some mark) true (mark :: rest) = words rules none true rest := by
  have found : readPiece rules (some mark) mark rest = (.closeQuote, rest) := by
    simp [readPiece]
  rw [words_cons found]
  exact congrFun Except.map_id _

theorem words_open
    (quotes : rules.quotes)
    {mark : Char}
    (isMark : mark = '\'' ∨ mark = '"')
    (begun : Bool) :
    words rules none begun (mark :: rest) = words rules (some mark) true rest := by
  have noBlank : Chars.isBlank mark = false := by
    rcases isMark with rfl | rfl <;> rfl
  have found : readPiece rules none mark rest = (.openQuote mark, rest) := by
    rcases isMark with rfl | rfl <;> simp [readPiece, quotes, noBlank]
  rw [words_cons found]
  exact congrFun Except.map_id _

theorem words_single
    {chars : List Char}
    (noQuote : '\'' ∉ chars)
    (later : words rules none true rest = .ok (word :: others)) :
    words rules (some '\'') true (chars ++ '\'' :: rest) = .ok ((chars ++ word) :: others) := by
  induction chars with
  | nil => exact words_close.trans later
  | cons char chars inductionHypothesis =>
    rw [List.mem_cons, not_or] at noQuote
    have found : readPiece rules (some '\'') char (chars ++ '\'' :: rest)
        = (.text [char], chars ++ '\'' :: rest) := by
      simp [readPiece, noQuote.1]
    exact words_text found (inductionHypothesis noQuote.2)

theorem words_guardDouble
    (chars : List Char)
    (later : words rules none true rest = .ok (word :: others)) :
    words rules (some '"') true (guardDouble chars ++ '"' :: rest)
      = .ok ((chars ++ word) :: others) := by
  induction chars with
  | nil => exact words_close.trans later
  | cons char chars inductionHypothesis =>
    by_cases special : char = '"' ∨ char = '\\' ∨ char = '$'
    · rw [guardDouble_cons_of_special special]
      have found : readPiece rules (some '"') '\\' (char :: (guardDouble chars ++ '"' :: rest))
          = (.text [char], guardDouble chars ++ '"' :: rest) := by
        simp [readPiece]
      exact words_text found inductionHypothesis
    · rw [guardDouble_cons_of_plain special]
      rw [not_or, not_or] at special
      obtain ⟨noQuote, noBackslash, noDollar⟩ := special
      have found : readPiece rules (some '"') char (guardDouble chars ++ '"' :: rest)
          = (.text [char], guardDouble chars ++ '"' :: rest) := by
        cases env : rules.env <;>
          simp [readPiece, Ne.symm noQuote, noBackslash, noDollar, env]
      exact words_text found inductionHypothesis

/-- A fragment is the start of a word, or the next part of one that has begun. -/
theorem words
    (quotes : rules.quotes)
    (fragment : Fragment)
    (begun : Bool)
    (later : Arguments.words rules none true rest = .ok (word :: others)) :
    Arguments.words rules none begun (fragment.text ++ rest)
      = .ok ((fragment.meant ++ word) :: others) := by
  cases fragment with
  | single chars noQuote =>
    show Arguments.words rules none begun ('\'' :: (chars ++ ['\''] ++ rest)) = _
    rw [words_open quotes (.inl rfl), List.append_assoc]
    exact words_single noQuote later
  | double chars =>
    show Arguments.words rules none begun ('"' :: (guardDouble chars ++ ['"'] ++ rest)) = _
    rw [words_open quotes (.inr rfl), List.append_assoc]
    exact words_guardDouble chars later
  | escaped chars nonempty =>
    show Arguments.words rules none begun (escape chars ++ rest) = _
    rw [words_escape rules nonempty, later]
    rfl

end Words

end Fragment

/-! ## Arguments -/

namespace Composed

theorem passes {mode : TailMode} (quotes : mode.hasQuotes) (argument : Composed) :
    Segment.Passes mode none none (Utf8.encode argument.text) := by
  unfold text
  generalize argument.fragments = fragments
  induction fragments with
  | nil => exact .nil
  | cons fragment fragments inductionHypothesis =>
    rw [List.flatMap_cons, Utf8.encode_append]
    exact (fragment.passes quotes).append inductionHypothesis

theorem escapesNext_text (argument : Composed) :
    escapesNext false (Utf8.encode argument.text) = false := by
  unfold text
  generalize argument.fragments = fragments
  induction fragments with
  | nil => rfl
  | cons fragment fragments inductionHypothesis =>
    rw [List.flatMap_cons, Utf8.encode_append, escapesNext_append, fragment.escapesNext_text]
    exact inductionHypothesis

/-- Only the last fragment matters to the trim. -/
theorem trim_append
    {before : Bytes}
    (unescaped : escapesNext false before = false)
    (argument : Composed) :
    trim (before ++ Utf8.encode argument.text) = before ++ Utf8.encode argument.text := by
  obtain ⟨fragments, nonempty⟩ := argument
  unfold text
  induction fragments generalizing before with
  | nil => exact absurd rfl nonempty
  | cons fragment fragments inductionHypothesis =>
    simp only [List.flatMap_cons, Utf8.encode_append]
    cases fragments with
    | nil =>
      rw [List.flatMap_nil, Utf8.encode_nil, List.append_nil]
      exact fragment.trim_append unescaped
    | cons next fragments =>
      have stillUnescaped : escapesNext false (before ++ Utf8.encode fragment.text) = false := by
        rw [escapesNext_append, unescaped, fragment.escapesNext_text]
      rw [← List.append_assoc]
      exact inductionHypothesis stillUnescaped (List.cons_ne_nil _ _)

theorem words
    {rules : WordRules}
    {rest : List Char}
    {others : List (List Char)}
    (quotes : rules.quotes)
    (argument : Composed)
    (later : Arguments.words rules none true rest = .ok ([] :: others)) :
    Arguments.words rules none false (argument.text ++ rest) = .ok (argument.meant :: others) := by
  obtain ⟨fragments, nonempty⟩ := argument
  have all (begun : Bool) (some : begun = true ∨ fragments ≠ []) :
      Arguments.words rules none begun (fragments.flatMap Fragment.text ++ rest)
        = .ok (fragments.flatMap Fragment.meant :: others) := by
    clear nonempty
    induction fragments generalizing begun with
    | nil =>
      obtain rfl : begun = true := some.resolve_right fun nonempty => nonempty rfl
      exact later
    | cons fragment fragments inductionHypothesis =>
      rw [List.flatMap_cons, List.append_assoc]
      exact fragment.words quotes begun (inductionHypothesis true (.inl rfl))
  exact all false (.inr nonempty)

end Composed

/-! ## Lines -/

section Lines

variable {arguments : List Composed} {line : List Char}

theorem passes_spaced
    {mode : TailMode}
    (quotes : mode.hasQuotes)
    (spaced : Chars.Spaced Composed.text arguments line) :
    Segment.Passes mode none none (Utf8.encode line) := by
  induction spaced with
  | nil => exact .nil
  | one argument => exact argument.passes quotes
  | cons argument someGap blank others inductionHypothesis =>
    rw [Utf8.encode_append, Utf8.encode_append]
    exact ((argument.passes quotes).append (.blanks (blank_encode blank))).append
      inductionHypothesis

theorem escapesNext_spaced (spaced : Chars.Spaced Composed.text arguments line) :
    escapesNext false (Utf8.encode line) = false := by
  induction spaced with
  | nil => rfl
  | one argument => exact argument.escapesNext_text
  | cons argument someGap blank others inductionHypothesis =>
    rw [Utf8.encode_append, Utf8.encode_append, escapesNext_append, escapesNext_append,
      argument.escapesNext_text, escapesNext_blanks (blank_encode blank)]
    exact inductionHypothesis

theorem trim_spaced (spaced : Chars.Spaced Composed.text arguments line) :
    trim (Utf8.encode line) = Utf8.encode line := by
  have behind (before : Bytes) (unescaped : escapesNext false before = false)
      (nonempty : arguments ≠ []) :
      trim (before ++ Utf8.encode line) = before ++ Utf8.encode line := by
    induction spaced generalizing before with
    | nil => exact absurd rfl nonempty
    | one argument => exact argument.trim_append unescaped
    | @cons argument next items gap line someGap blank others inductionHypothesis =>
      have stillUnescaped :
          escapesNext false (before ++ Utf8.encode (argument.text ++ gap)) = false := by
        rw [Utf8.encode_append, escapesNext_append, escapesNext_append, unescaped,
          argument.escapesNext_text, escapesNext_blanks (blank_encode blank)]
      rw [Utf8.encode_append, ← List.append_assoc]
      exact inductionHypothesis _ stillUnescaped (List.cons_ne_nil _ _)
  cases arguments with
  | nil =>
    cases spaced
    rfl
  | cons first others => exact behind [] rfl (List.cons_ne_nil _ _)

theorem words_spaced
    {rules : WordRules}
    (quotes : rules.quotes)
    (spaced : Chars.Spaced Composed.text arguments line) :
    words rules none false line = .ok (arguments.map Composed.meant) := by
  have atEnd : words rules none true [] = .ok [[]] := by
    rw [words]
    rfl
  induction spaced with
  | nil =>
    rw [words]
    rfl
  | one argument =>
    rw [← List.append_nil argument.text]
    exact argument.words quotes atEnd
  | cons argument someGap blank others inductionHypothesis =>
    obtain ⟨first, gap, rfl⟩ := List.exists_cons_of_ne_nil someGap
    rw [List.append_assoc]
    refine argument.words quotes ?_
    rw [List.cons_append, words_blank rules true (blank first List.mem_cons_self),
      words_gap rules fun char member => blank char (List.mem_cons_of_mem _ member),
      inductionHypothesis]
    rfl

end Lines

/-- **Mixed quoting comes back.** Take arguments that are written as texts in
single quotes, in double quotes or behind backslashes, side by side in any order,
with blanks between the arguments and maybe after the last. In a command with
quotes the line is the body as a whole, and the words of the trimmed body are the
arguments, in every environment and without one. -/
theorem mixed_quoting_comes_back
    {arguments : List Composed}
    {line after : List Char}
    (spaced : Chars.Spaced Composed.text arguments line)
    (blank : ∀ char ∈ after, Chars.isBlank char)
    (env : Option (String → Option String)) :
    Segment.split .quoted (Utf8.encode (line ++ after))
        = .ok ⟨Utf8.encode (line ++ after), false, none⟩
      ∧ split { quotes := true, env } (trim (Utf8.encode (line ++ after)))
        = .ok (arguments.map fun argument => String.ofList argument.meant) := by
  have blankBytes := blank_encode blank
  constructor
  · rw [Utf8.encode_append]
    exact ((passes_spaced rfl spaced).append (.blanks blankBytes)).split
  · have trimmed : trim (Utf8.encode (line ++ after)) = Utf8.encode line := by
      rw [Utf8.encode_append, trim_of_padded (.blanks blankBytes (escapesNext_spaced spaced)),
        trim_spaced spaced]
    have found : words { quotes := true, env } none false line
        = .ok (arguments.map Composed.meant) := words_spaced rfl spaced
    unfold split decode
    rw [trimmed, Utf8.decode_encode]
    simp only [liftError, bind, Except.bind, String.toList_ofList, found]
    simp [pure, Except.pure]

/-- Three ways within one argument, an empty argument, and an escaped blank in the
last one. -/
def awkwardArguments : List Composed :=
  [⟨[.single "a|b\\".toList (by decide), .double "$x\"&".toList, .escaped "'é".toList (by decide)],
      by decide⟩,
    ⟨[.double []], by decide⟩,
    ⟨[.single [] (by decide), .escaped "\\ ".toList (by decide)], by decide⟩]

def awkwardLine : String := "'a|b\\'\"\\$x\\\"&\"\\'\\é \"\"\t ''\\\\\\ "

theorem mixed_quoting_comes_back_awkward :
    Chars.Spaced Composed.text awkwardArguments awkwardLine.toList
      ∧ Segment.split .quoted (Utf8.encode (awkwardLine.toList ++ [' ']))
        = .ok ⟨Utf8.encode (awkwardLine.toList ++ [' ']), false, none⟩
      ∧ split { quotes := true, env := some fun _ => some "set" }
          (trim (Utf8.encode (awkwardLine.toList ++ [' '])))
        = .ok ["a|b\\$x\"&'é", "", "\\ "] := by
  have blank : ∀ char ∈ [' '], Chars.isBlank char := List.forall_mem_singleton.mpr rfl
  have blanks : ∀ char ∈ ['\t', ' '], Chars.isBlank char := List.forall_mem_cons.mpr ⟨rfl, blank⟩
  have spaced : Chars.Spaced Composed.text awkwardArguments awkwardLine.toList :=
    .cons _ (List.cons_ne_nil _ _) blank (.cons _ (List.cons_ne_nil _ _) blanks (.one _))
  exact ⟨spaced, mixed_quoting_comes_back spaced blank (some fun _ => some "set")⟩

end ExLine.Arguments

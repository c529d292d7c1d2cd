import ExLine.Proofs.Line.BeforeBar
import Mathlib.Data.List.DropRight

/-!
Contract: the arguments of a sub-command, cut off in two phases.

Owns:
- `Lexeme` and `lexemes`, a tail cut into the units that the scan for a separator
  takes as a whole;
- `scan_read`, one step of the scan from lexeme to lexeme, and `scan_eq_resolve`,
  the whole of it;
- `split_by_lexemes`, where the arguments end, which lexeme is the background
  marker and which quote is left open, said of the list of lexemes.

Does not own: what the scan does with single bytes (`ExLine.Proofs.Line.Segment`).

The scan keeps a quote and a flag while it looks for the separator and for the
marker. Cutting first takes the quote and the flag away: between two lexemes
neither is set, so the second phase only has to look at whole lexemes.
-/

set_option autoImplicit false

namespace ExLine

namespace TailMode

variable {mode : TailMode}

theorem hasQuotes_iff :
    mode.hasQuotes = true ↔ mode = .quoted ∨ mode = .expression := by
  cases mode <;> simp [hasQuotes]

theorem hasOperators_iff :
    mode.hasOperators = true ↔ mode = .expression := by
  cases mode <;> simp [hasOperators]

theorem hasBackground_iff :
    mode.hasBackground = true ↔ mode ≠ .raw false := by
  cases mode <;> simp [hasBackground]

end TailMode

namespace Segment

/-! ## Cutting a tail into lexemes -/

/-- The two quotes. -/
inductive QuoteMark where
  | single
  | double
  deriving DecidableEq, Repr

namespace QuoteMark

def byte : QuoteMark → UInt8
  | .single => Byte.singleQuote
  | .double => Byte.doubleQuote

def char : QuoteMark → Char
  | .single => '\''
  | .double => '"'

@[simp]
theorem toChar_byte (mark : QuoteMark) : Byte.toChar mark.byte = mark.char := by
  cases mark <;> rfl

theorem isQuote (mark : QuoteMark) :
    mark.byte = Byte.singleQuote ∨ mark.byte = Byte.doubleQuote := by
  cases mark with
  | single => exact .inl rfl
  | double => exact .inr rfl

/-- The mark that a byte is. -/
def ofByte (byte : UInt8) : Option QuoteMark :=
  if byte = Byte.singleQuote then some .single
  else if byte = Byte.doubleQuote then some .double
  else none

theorem ofByte_eq_some_iff
    {byte : UInt8}
    {mark : QuoteMark} :
    ofByte byte = some mark ↔ byte = mark.byte := by
  unfold ofByte
  cases mark <;> grind [QuoteMark.byte]

theorem ofByte_eq_none_iff
    {byte : UInt8} :
    ofByte byte = none ↔ byte ≠ Byte.singleQuote ∧ byte ≠ Byte.doubleQuote := by
  unfold ofByte
  grind

end QuoteMark

/-- What the search for a separator takes as a whole. -/
inductive Lexeme where
  /-- A byte by itself. -/
  | lone (byte : UInt8)
  /-- A backslash and the byte after it, if there is one. -/
  | escape (next : Option UInt8)
  | doubleBar
  | doubleAmpersand
  /-- A quote, what it protects, and the same quote again. -/
  | quoted (mark : QuoteMark) (inner : Bytes)
  /-- A quote that is never closed, and the rest of the tail. -/
  | unclosed (mark : QuoteMark) (inner : Bytes)
  deriving DecidableEq, Repr

/-- What stands before the closing quote, and what follows that. Between double
quotes a backslash protects the byte after it. -/
def closing (mark : QuoteMark) : Bytes → Option (Bytes × Bytes)
  | [] => none
  | byte :: rest =>
    if byte == mark.byte then some ([], rest)
    else if byte == Byte.backslash && mark == .double then
      match rest with
      | [] => none
      | next :: after =>
        (closing mark after).map fun (inner, later) => (byte :: next :: inner, later)
    else (closing mark rest).map fun (inner, later) => (byte :: inner, later)

namespace Lexeme

/-- The bytes of a lexeme. -/
def text : Lexeme → Bytes
  | .lone byte => [byte]
  | .escape next => Byte.backslash :: next.toList
  | .doubleBar => [Byte.bar, Byte.bar]
  | .doubleAmpersand => [Byte.ampersand, Byte.ampersand]
  | .quoted mark inner => mark.byte :: (inner ++ [mark.byte])
  | .unclosed mark inner => mark.byte :: inner

/-- The lexeme at the front of a tail, and what follows it. -/
def read (mode : TailMode) (byte : UInt8) (rest : Bytes) : Lexeme × Bytes :=
  if byte = Byte.backslash then (.escape rest.head?, rest.tail)
  else if mode = .expression ∧ byte = Byte.bar ∧ rest.head? = some Byte.bar then
    (.doubleBar, rest.tail)
  else if mode = .expression ∧ byte = Byte.ampersand ∧ rest.head? = some Byte.ampersand then
    (.doubleAmpersand, rest.tail)
  else
    match QuoteMark.ofByte byte with
    | some mark =>
      if mode = .quoted ∨ mode = .expression then
        match closing mark rest with
        | some (inner, after) => (.quoted mark inner, after)
        | none => (.unclosed mark rest, [])
      else (.lone byte, rest)
    | none => (.lone byte, rest)

theorem text_closing
    {mark : QuoteMark}
    {bytes inner after : Bytes}
    (closed : closing mark bytes = some (inner, after)) :
    bytes = inner ++ mark.byte :: after := by
  fun_induction closing mark bytes generalizing inner after <;>
    grind [Option.map_eq_some_iff]

/-- A lexeme and what follows it are the tail. -/
theorem text_read (mode : TailMode) (byte : UInt8) (rest : Bytes) :
    (read mode byte rest).1.text ++ (read mode byte rest).2 = byte :: rest := by
  fun_cases read mode byte rest with
  | case1 isBackslash =>
    rw [isBackslash]
    cases rest <;> rfl
  | case2 _ doubled =>
    obtain ⟨after, rfl⟩ := List.head?_eq_some_iff.mp doubled.2.2
    rw [doubled.2.1]
    rfl
  | case3 _ _ doubled =>
    obtain ⟨after, rfl⟩ := List.head?_eq_some_iff.mp doubled.2.2
    rw [doubled.2.1]
    rfl
  | case4 _ _ _ mark isMark _ inner after closed =>
    simp [text, text_closing closed, QuoteMark.ofByte_eq_some_iff.mp isMark]
  | case5 _ _ _ mark isMark =>
    simp [text, QuoteMark.ofByte_eq_some_iff.mp isMark]
  | case6 => rfl
  | case7 => rfl

theorem text_ne_nil (lexeme : Lexeme) : lexeme.text ≠ [] := by
  cases lexeme <;> exact List.cons_ne_nil _ _

theorem length_read_lt (mode : TailMode) (byte : UInt8) (rest : Bytes) :
    (read mode byte rest).2.length < (byte :: rest).length := by
  have lengths := congrArg List.length (text_read mode byte rest)
  have nonempty := List.length_pos_iff.mpr (text_ne_nil (read mode byte rest).1)
  rw [List.length_append] at lengths
  omega

/-- The bytes of several lexemes. -/
def textOf (lexemes : List Lexeme) : Bytes :=
  lexemes.flatMap text

end Lexeme

/-- The lexemes of a tail. -/
def lexemes (mode : TailMode) (tail : Bytes) : List Lexeme :=
  match tail with
  | [] => []
  | byte :: rest =>
    (Lexeme.read mode byte rest).1 :: lexemes mode (Lexeme.read mode byte rest).2
termination_by tail.length
decreasing_by exact Lexeme.length_read_lt mode byte rest

/-- Cutting loses no byte. -/
theorem textOf_lexemes (mode : TailMode) (tail : Bytes) :
    Lexeme.textOf (lexemes mode tail) = tail := by
  fun_induction lexemes mode tail with
  | case1 => rfl
  | case2 byte rest inductionHypothesis =>
    show (Lexeme.read mode byte rest).1.text ++ Lexeme.textOf _ = _
    rw [inductionHypothesis, Lexeme.text_read]

example : lexemes .expression (Utf8.ofString "'|' || \\| &")
    = [.quoted .single [Byte.bar], .lone Byte.space, .doubleBar, .lone Byte.space,
      .escape (some Byte.bar), .lone Byte.space, .lone Byte.ampersand] := by cbv

/-! ## The second phase -/

namespace Lexeme

def isBlank : Lexeme → Bool
  | .lone byte => Byte.isBlank byte
  | _ => false

/-- The lexeme is a bar that ends the arguments. -/
def separates (mode : TailMode) (lexeme : Lexeme) : Bool :=
  match mode with
  | .raw _ => false
  | _ => lexeme == .lone Byte.bar

def openQuote : Lexeme → Option QuoteMark
  | .unclosed mark _ => some mark
  | _ => none

/-- The cut with a lexeme in front. -/
def put (lexeme : Lexeme) (cut : Cut) : Cut :=
  if lexeme = .lone Byte.ampersand then cut.consAmpersand Byte.ampersand
  else cut.prepend lexeme.text

/-- The lexemes before the first separator. -/
def front (mode : TailMode) (lexemes : List Lexeme) : List Lexeme :=
  lexemes.takeWhile fun lexeme => !lexeme.separates mode

/-- The lexemes after the first separator, if there is one. -/
def later (mode : TailMode) (lexemes : List Lexeme) : Option (List Lexeme) :=
  (lexemes.dropWhile fun lexeme => !lexeme.separates mode).tail?

/-- The lexemes without the blanks at their end. -/
def content (lexemes : List Lexeme) : List Lexeme :=
  lexemes.rdropWhile isBlank

/-- What stands before the last ampersand, if only blanks follow that. -/
def beforeMarker (lexemes : List Lexeme) : Option Bytes :=
  if (content lexemes).getLast? = some (.lone Byte.ampersand) then
    some (textOf (content lexemes).dropLast)
  else none

/-- What a scan finds in the lexemes of a tail. -/
def resolve (mode : TailMode) (lexemes : List Lexeme) : Except UInt8 Cut :=
  match (front mode lexemes).findSome? openQuote with
  | some mark => .error mark.byte
  | none =>
    .ok ⟨textOf (front mode lexemes), beforeMarker (front mode lexemes),
      (later mode lexemes).map textOf⟩

/-! ### One lexeme -/

theorem all_isBlank_text (lexeme : Lexeme) :
    lexeme.text.all Byte.isBlank = lexeme.isBlank := by
  cases lexeme with
  | lone byte => simp [text, isBlank]
  | escape next => rfl
  | doubleBar => rfl
  | doubleAmpersand => rfl
  | quoted mark inner => cases mark <;> rfl
  | unclosed mark inner => cases mark <;> rfl

theorem all_isBlank_textOf (lexemes : List Lexeme) :
    (textOf lexemes).all Byte.isBlank = lexemes.all isBlank := by
  simp only [textOf, List.all_flatMap, all_isBlank_text]

theorem content_cons (lexeme : Lexeme) (lexemes : List Lexeme) :
    content (lexeme :: lexemes) =
      if lexemes.all isBlank then content [lexeme] else lexeme :: content lexemes := by
  have drops : lexemes.all isBlank = (lexemes.reverse.dropWhile isBlank).isEmpty := by
    rw [Bool.eq_iff_iff, List.isEmpty_iff, List.dropWhile_eq_nil_iff, List.all_eq_true]
    simp only [List.mem_reverse]
  unfold content List.rdropWhile
  rw [List.reverse_cons, List.dropWhile_append, drops]
  split
  · rfl
  · rw [List.reverse_append]
    rfl

theorem content_eq_nil_iff (lexemes : List Lexeme) :
    content lexemes = [] ↔ lexemes.all isBlank = true := by
  rw [content, List.rdropWhile_eq_nil_iff, List.all_eq_true]

theorem beforeMarker_cons (lexeme : Lexeme) (lexemes : List Lexeme) :
    beforeMarker (lexeme :: lexemes) =
      if lexeme = .lone Byte.ampersand ∧ lexemes.all isBlank = true then some []
      else (beforeMarker lexemes).map (lexeme.text ++ ·) := by
  unfold beforeMarker
  rw [content_cons]
  by_cases blank : lexemes.all isBlank = true
  · rw [if_pos blank, (content_eq_nil_iff lexemes).mpr blank]
    by_cases isAmpersand : lexeme = .lone Byte.ampersand
    · subst isAmpersand
      simp only [blank]
      rfl
    · have unmarked : (content [lexeme]).getLast? ≠ some (.lone Byte.ampersand) := by
        intro last
        have isLast := (List.rdropWhile_prefix isBlank [lexeme]).mem (List.mem_of_getLast? last)
        exact isAmpersand (List.mem_singleton.mp isLast).symm
      simp [unmarked, isAmpersand]
  · have nonempty : content lexemes ≠ [] := fun empty =>
      blank ((content_eq_nil_iff lexemes).mp empty)
    have unmarked : ¬ (lexeme = .lone Byte.ampersand ∧ lexemes.all isBlank = true) :=
      fun both => blank both.2
    rw [if_neg blank, if_neg unmarked, List.getLast?_cons_of_ne_nil nonempty,
      List.dropLast_cons_of_ne_nil nonempty]
    split <;> rfl

theorem put_resolved (lexeme : Lexeme) (lexemes : List Lexeme) (rest : Option Bytes) :
    put lexeme ⟨textOf lexemes, beforeMarker lexemes, rest⟩
      = ⟨textOf (lexeme :: lexemes), beforeMarker (lexeme :: lexemes), rest⟩ := by
  unfold put Cut.consAmpersand
  rw [beforeMarker_cons, all_isBlank_textOf]
  by_cases isAmpersand : lexeme = .lone Byte.ampersand
  · subst isAmpersand
    simp only [true_and, if_true]
    split <;> rfl
  · simp only [isAmpersand, false_and, if_false, Cut.prepend_eq]
    rfl

section Steps

variable {mode : TailMode} {lexeme : Lexeme} {lexemes : List Lexeme}

theorem front_cons_of_separates (ends : lexeme.separates mode = true) :
    front mode (lexeme :: lexemes) = [] := by
  simp [front, ends]

theorem later_cons_of_separates (ends : lexeme.separates mode = true) :
    later mode (lexeme :: lexemes) = some lexemes := by
  simp [later, ends]

theorem front_cons_of_stays (stays : ¬ lexeme.separates mode = true) :
    front mode (lexeme :: lexemes) = lexeme :: front mode lexemes := by
  simp [front, stays]

theorem later_cons_of_stays (stays : ¬ lexeme.separates mode = true) :
    later mode (lexeme :: lexemes) = later mode lexemes := by
  simp [later, stays]

end Steps

/-- One step of the second phase. -/
theorem resolve_cons (mode : TailMode) (lexeme : Lexeme) (lexemes : List Lexeme) :
    resolve mode (lexeme :: lexemes) =
      if lexeme.separates mode then .ok (Cut.stop (some (textOf lexemes)))
      else
        match lexeme.openQuote with
        | some mark => .error mark.byte
        | none => (resolve mode lexemes).map lexeme.put := by
  unfold resolve
  by_cases ends : lexeme.separates mode = true
  · rw [front_cons_of_separates ends, later_cons_of_separates ends, if_pos ends]
    rfl
  · rw [front_cons_of_stays ends, later_cons_of_stays ends, if_neg ends, List.findSome?_cons]
    cases lexeme.openQuote with
    | some mark => rfl
    | none =>
      simp only
      cases (front mode lexemes).findSome? openQuote with
      | some mark => rfl
      | none => exact congrArg Except.ok (put_resolved lexeme _ _).symm

end Lexeme

/-! ## The scan, lexeme by lexeme -/

theorem map_cons_prepend (byte : UInt8) (bytes : Bytes) (scanned : Except UInt8 Cut) :
    (scanned.map (Cut.prepend bytes)).map (Cut.cons byte)
      = scanned.map (Cut.prepend (byte :: bytes)) := by
  cases scanned <;> rfl

/-- A scan inside a quote goes on after the closing quote. -/
theorem scan_closing (mode : TailMode) (mark : QuoteMark) (bytes : Bytes) :
    scan mode (some mark.byte) false bytes =
      match closing mark bytes with
      | none => .error mark.byte
      | some (inner, after) =>
        (scan mode none false after).map (Cut.prepend (inner ++ [mark.byte])) := by
  fun_induction closing mark bytes with
  | case1 => rfl
  | case2 byte rest isMark =>
    rw [beq_iff_eq] at isMark
    rw [isMark, scan_close]
    rfl
  | case3 byte notMark escapes =>
    simp only [Bool.and_eq_true, beq_iff_eq] at escapes
    rw [escapes.1, escapes.2]
    exact scan_quoted_escape
  | case4 byte notMark escapes next after inductionHypothesis =>
    simp only [Bool.and_eq_true, beq_iff_eq] at escapes
    obtain ⟨rfl, rfl⟩ := escapes
    have escape : scan mode (some Byte.doubleQuote) false (Byte.backslash :: next :: after)
        = ((scan mode (some Byte.doubleQuote) false after).map (Cut.cons next)).map
            (Cut.cons Byte.backslash) := by
      rw [scan_quoted_escape, scan_literal]
    refine escape.trans ?_
    rw [show Byte.doubleQuote = QuoteMark.double.byte from rfl, inductionHypothesis]
    cases closing .double after with
    | none => rfl
    | some closed =>
      simp only [Option.map, map_cons_prepend]
      rfl
  | case5 byte rest notMark noEscape inductionHypothesis =>
    rw [beq_iff_eq] at notMark
    have plain : byte = Byte.backslash → mark.byte ≠ Byte.doubleQuote := by
      rintro rfl isDouble
      cases mark with
      | single => cases isDouble
      | double => exact noEscape rfl
    rw [scan_quoted notMark plain, inductionHypothesis]
    cases closing mark rest with
    | none => rfl
    | some closed => exact map_cons_prepend _ _ _

/-- A byte that is a lexeme by itself. -/
theorem scan_lone
    {mode : TailMode}
    {byte : UInt8}
    {rest : Bytes}
    (noBackslash : byte ≠ Byte.backslash)
    (notBars : ¬ (mode = .expression ∧ byte = Byte.bar ∧ rest.head? = some Byte.bar))
    (notAmpersands :
      ¬ (mode = .expression ∧ byte = Byte.ampersand ∧ rest.head? = some Byte.ampersand))
    (opensNone : ¬ (mode.hasQuotes = true ∧ (byte = Byte.singleQuote ∨ byte = Byte.doubleQuote))) :
    scan mode none false (byte :: rest) =
      if (Lexeme.lone byte).separates mode then .ok (Cut.stop (some rest))
      else (scan mode none false rest).map (Lexeme.lone byte).put := by
  have single : doubles mode none false byte rest = false := by
    rw [Bool.eq_false_iff, ne_eq, doubles_iff]
    rintro ⟨-, -, operators, isSign, follows⟩
    rw [TailMode.hasOperators_iff] at operators
    rcases isSign with rfl | rfl
    · exact notBars ⟨operators, rfl, follows⟩
    · exact notAmpersands ⟨operators, rfl, follows⟩
  have sameSeparator : separates mode none false byte rest = (Lexeme.lone byte).separates mode := by
    cases mode <;> simp [separates, single, Lexeme.separates, TailMode.hasSeparator]
  have samePut : put mode none false byte rest = (Lexeme.lone byte).put := by
    funext cut
    by_cases isAmpersand : byte = Byte.ampersand
    · subst isAmpersand
      simp [put, single, Lexeme.put]
    · simp [put, isAmpersand, Lexeme.put, Lexeme.text, Cut.prepend]
  rw [scan_cons_single noBackslash opensNone single, sameSeparator, samePut]

/-- **One step of the scan** takes a whole lexeme. -/
theorem scan_read (mode : TailMode) (byte : UInt8) (rest : Bytes) :
    scan mode none false (byte :: rest) =
      if (Lexeme.read mode byte rest).1.separates mode then
        .ok (Cut.stop (some (Lexeme.read mode byte rest).2))
      else
        match (Lexeme.read mode byte rest).1.openQuote with
        | some mark => .error mark.byte
        | none =>
          (scan mode none false (Lexeme.read mode byte rest).2).map
            (Lexeme.read mode byte rest).1.put := by
  fun_cases Lexeme.read mode byte rest with
  | case1 isBackslash =>
    subst isBackslash
    have stays : (Lexeme.escape rest.head?).separates mode = false := by
      cases mode <;> rfl
    rw [scan_escape, stays]
    cases rest with
    | nil => rfl
    | cons next after =>
      rw [scan_literal]
      exact map_cons_prepend _ [_] _
  | case2 noBackslash doubled =>
    obtain ⟨rfl, rfl, follows⟩ := doubled
    obtain ⟨after, rfl⟩ := List.head?_eq_some_iff.mp follows
    rw [scan_operator rfl (.inl rfl), scan_literal]
    exact map_cons_prepend _ [_] _
  | case3 noBackslash notBars doubled =>
    obtain ⟨rfl, rfl, follows⟩ := doubled
    obtain ⟨after, rfl⟩ := List.head?_eq_some_iff.mp follows
    rw [scan_operator rfl (.inr rfl), scan_literal]
    exact map_cons_prepend _ [_] _
  | case4 noBackslash notBars notAmpersands mark isMark quotes inner after closed =>
    have stays : (Lexeme.quoted mark inner).separates mode = false := by
      cases mode <;> rfl
    rw [QuoteMark.ofByte_eq_some_iff.mp isMark, scan_open (TailMode.hasQuotes_iff.mpr quotes) mark.isQuote,
      scan_closing, closed, stays]
    exact map_cons_prepend _ _ _
  | case5 noBackslash notBars notAmpersands mark isMark quotes notClosed =>
    have stays : (Lexeme.unclosed mark rest).separates mode = false := by
      cases mode <;> rfl
    rw [QuoteMark.ofByte_eq_some_iff.mp isMark, scan_open (TailMode.hasQuotes_iff.mpr quotes) mark.isQuote,
      scan_closing, notClosed, stays]
    rfl
  | case6 noBackslash notBars notAmpersands mark isMark noQuotes =>
    exact scan_lone noBackslash notBars notAmpersands fun opens =>
      noQuotes (TailMode.hasQuotes_iff.mp opens.1)
  | case7 noBackslash notBars notAmpersands notMark =>
    have noMark := QuoteMark.ofByte_eq_none_iff.mp notMark
    exact scan_lone noBackslash notBars notAmpersands fun opens =>
      opens.2.elim noMark.1 noMark.2

theorem scan_eq_resolve (mode : TailMode) (tail : Bytes) :
    scan mode none false tail = Lexeme.resolve mode (lexemes mode tail) := by
  fun_induction lexemes mode tail with
  | case1 => rfl
  | case2 byte rest inductionHypothesis =>
    rw [scan_read, Lexeme.resolve_cons, inductionHypothesis, textOf_lexemes]

/-! ## Open quotes -/

/-- Nothing follows a quote that is never closed. -/
theorem read_unclosed
    {mode : TailMode}
    {byte : UInt8}
    {rest : Bytes}
    {mark : QuoteMark}
    (unclosed : (Lexeme.read mode byte rest).1.openQuote = some mark) :
    (Lexeme.read mode byte rest).2 = [] := by
  revert unclosed
  fun_cases Lexeme.read mode byte rest <;> simp [Lexeme.openQuote]

/-- A tail leaves one quote open at most. -/
theorem findSome?_openQuote_lexemes
    {mode : TailMode}
    {tail : Bytes}
    {mark : QuoteMark}
    {inner : Bytes}
    (unclosed : .unclosed mark inner ∈ lexemes mode tail) :
    (lexemes mode tail).findSome? Lexeme.openQuote = some mark := by
  fun_induction lexemes mode tail with
  | case1 => cases unclosed
  | case2 byte rest inductionHypothesis =>
    rw [List.findSome?_cons]
    cases first : (Lexeme.read mode byte rest).1.openQuote with
    | none =>
      rcases List.mem_cons.mp unclosed with isFirst | later
      · rw [← isFirst] at first
        cases first
      · exact inductionHypothesis later
    | some other =>
      rw [read_unclosed first, lexemes, List.mem_singleton] at unclosed
      rw [← unclosed] at first
      exact first.symm

theorem findSome?_openQuote_front_iff
    {mode : TailMode}
    {tail : Bytes}
    {mark : QuoteMark} :
    (Lexeme.front mode (lexemes mode tail)).findSome? Lexeme.openQuote = some mark
      ↔ ∃ inner, .unclosed mark inner ∈ Lexeme.front mode (lexemes mode tail) := by
  have isPrefix : Lexeme.front mode (lexemes mode tail) <+: lexemes mode tail :=
    List.takeWhile_prefix _
  constructor
  · intro found
    obtain ⟨lexeme, isMember, opens⟩ := List.exists_of_findSome?_eq_some found
    cases lexeme with
    | unclosed other inner =>
      cases opens
      exact ⟨inner, isMember⟩
    | _ => cases opens
  · rintro ⟨inner, isMember⟩
    cases found : (Lexeme.front mode (lexemes mode tail)).findSome? Lexeme.openQuote with
    | none =>
      have never := List.findSome?_eq_none_iff.mp found _ isMember
      cases never
    | some other =>
      rw [← isPrefix.findSome?_eq_some found]
      exact findSome?_openQuote_lexemes (isPrefix.mem isMember)

/-! ## The arguments -/

namespace Lexeme

/-- The last lexeme that is no blank is a background marker. -/
def Marked (mode : TailMode) (lexemes : List Lexeme) : Prop :=
  mode ≠ .raw false ∧ (content lexemes).getLast? = some (.lone Byte.ampersand)

instance (mode : TailMode) (lexemes : List Lexeme) : Decidable (Marked mode lexemes) :=
  inferInstanceAs (Decidable (_ ∧ _))

/-- The lexemes of the arguments, without the background marker. -/
def body (mode : TailMode) (lexemes : List Lexeme) : List Lexeme :=
  if Marked mode lexemes then (content lexemes).dropLast else lexemes

/-- A marker stands between the arguments and blanks. -/
theorem textOf_of_marked
    {mode : TailMode}
    {lexemes : List Lexeme}
    (marked : Marked mode lexemes) :
    ∃ blanks : Bytes, blanks.all Byte.isBlank = true
      ∧ textOf lexemes = textOf (body mode lexemes) ++ Byte.ampersand :: blanks := by
  refine ⟨textOf (lexemes.rtakeWhile isBlank), ?_, ?_⟩
  · rw [all_isBlank_textOf, List.all_eq_true]
    exact fun lexeme isMember => List.mem_rtakeWhile_imp isMember
  · have parts : lexemes = (content lexemes).dropLast ++ .lone Byte.ampersand
        :: lexemes.rtakeWhile isBlank := by
      rw [List.append_cons, List.dropLast_append_getLast? _ marked.2]
      exact (List.rdropWhile_append_rtakeWhile ..).symm
    rw [body, if_pos marked]
    conv_lhs => rw [parts]
    simp [textOf, text]

theorem eq_bar_of_separates
    {mode : TailMode}
    {lexeme : Lexeme}
    (ends : lexeme.separates mode = true) :
    lexeme = .lone Byte.bar := by
  cases mode with
  | raw detects => cases ends
  | plain | quoted | expression => exact beq_iff_eq.mp ends

/-- The separator stands between the lexemes before it and those after it. -/
theorem textOf_front_later (mode : TailMode) (lexemes : List Lexeme) :
    textOf lexemes
      = textOf (front mode lexemes)
        ++ ((later mode lexemes).map textOf).elim [] (Byte.bar :: ·) := by
  induction lexemes with
  | nil => rfl
  | cons lexeme lexemes inductionHypothesis =>
    by_cases ends : lexeme.separates mode = true
    · rw [front_cons_of_separates ends, later_cons_of_separates ends, eq_bar_of_separates ends]
      rfl
    · rw [front_cons_of_stays ends, later_cons_of_stays ends]
      show lexeme.text ++ textOf lexemes = lexeme.text ++ textOf (front mode lexemes) ++ _
      rw [List.append_assoc, ← inductionHypothesis]

end Lexeme

/-- What cutting off the arguments yields. -/
theorem split_eq_lexemes (mode : TailMode) (tail : Bytes) :
    split mode tail =
      match (Lexeme.front mode (lexemes mode tail)).findSome? Lexeme.openQuote with
      | some mark => .error (.unterminatedQuote mark.char)
      | none =>
        .ok ⟨Lexeme.textOf (Lexeme.body mode (Lexeme.front mode (lexemes mode tail))),
          Lexeme.Marked mode (Lexeme.front mode (lexemes mode tail)),
          (Lexeme.later mode (lexemes mode tail)).map Lexeme.textOf⟩ := by
  unfold split
  rw [scan_eq_resolve, Lexeme.resolve]
  cases (Lexeme.front mode (lexemes mode tail)).findSome? Lexeme.openQuote with
  | some mark => simp
  | none =>
    generalize Lexeme.front mode (lexemes mode tail) = front
    simp only [Lexeme.beforeMarker, TailMode.hasBackground_iff, Lexeme.body, Lexeme.Marked]
    by_cases last : (Lexeme.content front).getLast? = some (.lone Byte.ampersand)
    · by_cases background : mode ≠ .raw false <;> simp [last, background]
    · simp [last]

theorem split_eq_error_iff
    {mode : TailMode}
    {tail : Bytes}
    {error : CommandError} :
    split mode tail = .error error
      ↔ ∃ mark inner, .unclosed mark inner ∈ Lexeme.front mode (lexemes mode tail)
        ∧ error = .unterminatedQuote mark.char := by
  rw [split_eq_lexemes]
  constructor
  · intro failed
    cases found : (Lexeme.front mode (lexemes mode tail)).findSome? Lexeme.openQuote with
    | none => simp [found] at failed
    | some mark =>
      obtain ⟨inner, isMember⟩ := findSome?_openQuote_front_iff.mp found
      rw [found] at failed
      exact ⟨mark, inner, isMember, (Except.error.inj failed).symm⟩
  · rintro ⟨mark, inner, isMember, rfl⟩
    rw [findSome?_openQuote_front_iff.mpr ⟨inner, isMember⟩]

theorem split_eq_ok_iff_lexemes
    {mode : TailMode}
    {tail : Bytes}
    {segment : Segment} :
    split mode tail = .ok segment
      ↔ (∀ mark inner, .unclosed mark inner ∉ Lexeme.front mode (lexemes mode tail))
        ∧ segment.rest = (Lexeme.later mode (lexemes mode tail)).map Lexeme.textOf
        ∧ (segment.background = true
            ↔ Lexeme.Marked mode (Lexeme.front mode (lexemes mode tail)))
        ∧ segment.body
            = Lexeme.textOf (Lexeme.body mode (Lexeme.front mode (lexemes mode tail))) := by
  rw [split_eq_lexemes]
  cases found : (Lexeme.front mode (lexemes mode tail)).findSome? Lexeme.openQuote with
  | some mark =>
    obtain ⟨inner, isMember⟩ := findSome?_openQuote_front_iff.mp found
    constructor
    · intro cutOff
      cases cutOff
    · intro parts
      exact absurd isMember (parts.1 mark inner)
  | none =>
    have closed (mark : QuoteMark) (inner : Bytes) :
        .unclosed mark inner ∉ Lexeme.front mode (lexemes mode tail) := by
      intro isMember
      have opens := findSome?_openQuote_front_iff.mpr ⟨inner, isMember⟩
      rw [found] at opens
      cases opens
    constructor
    · intro cutOff
      cases cutOff
      exact ⟨closed, rfl, decide_eq_true_iff, rfl⟩
    · rintro ⟨-, rest, background, body⟩
      have marker := Bool.eq_iff_iff.mpr (background.trans decide_eq_true_iff.symm)
      rw [← body, ← marker, ← rest]

/-- **The arguments end where the lexemes say.** A tail is cut into lexemes, which
together are the tail. An error is a quote among the lexemes in front of the first
separator that is never closed. Otherwise what follows the separator is the rest,
the arguments have a background marker if the last lexeme in front of the
separator that is no blank is a lone ampersand, and the body is what stands
before the marker or else before the separator. Body, marker with the blanks
after it, separator and rest are all of the tail. -/
theorem split_by_lexemes (mode : TailMode) (tail : Bytes) :
    let units := lexemes mode tail
    let front := units.takeWhile fun lexeme => !lexeme.separates mode
    let content := front.rdropWhile Lexeme.isBlank
    let marked := mode ≠ .raw false ∧ content.getLast? = some (.lone Byte.ampersand)
    Lexeme.textOf units = tail
      ∧ (∀ error, split mode tail = .error error
          ↔ ∃ mark inner, .unclosed mark inner ∈ front ∧ error = .unterminatedQuote mark.char)
      ∧ (∀ segment, split mode tail = .ok segment
          ↔ (∀ mark inner, .unclosed mark inner ∉ front)
            ∧ segment.rest
                = (units.dropWhile fun lexeme => !lexeme.separates mode).tail?.map Lexeme.textOf
            ∧ (segment.background = true ↔ marked)
            ∧ segment.body = Lexeme.textOf (if marked then content.dropLast else front))
      ∧ ∀ segment, split mode tail = .ok segment →
          ∃ blanks : Bytes, blanks.all Byte.isBlank = true
            ∧ tail = segment.body
                ++ (if segment.background then Byte.ampersand :: blanks else [])
                ++ segment.rest.elim [] (Byte.bar :: ·) := by
  intro units front content marked
  refine ⟨textOf_lexemes mode tail, fun error => split_eq_error_iff,
    fun segment => split_eq_ok_iff_lexemes, fun segment cutOff => ?_⟩
  obtain ⟨-, rest, background, body⟩ := split_eq_ok_iff_lexemes.mp cutOff
  have parts := Lexeme.textOf_front_later mode (lexemes mode tail)
  rw [textOf_lexemes, ← rest] at parts
  by_cases isMarked : Lexeme.Marked mode (Lexeme.front mode (lexemes mode tail))
  · obtain ⟨blanks, blank, text⟩ := Lexeme.textOf_of_marked isMarked
    refine ⟨blanks, blank, ?_⟩
    rw [if_pos (background.mpr isMarked), body, ← text]
    exact parts
  · refine ⟨[], rfl, ?_⟩
    rw [if_neg fun marker => isMarked (background.mp marker), body, Lexeme.body, if_neg isMarked,
      List.append_nil]
    exact parts

/-- In `"a|b" || c \| d & |e` the bars before the last one do not separate, and
the ampersand is the marker. -/
theorem split_by_lexemes_marked :
    split .expression (Utf8.ofString "\"a|b\" || c \\| d & |e")
        = .ok ⟨Utf8.ofString "\"a|b\" || c \\| d ", true, some (Utf8.ofString "e")⟩
      ∧ ∃ blanks : Bytes, blanks.all Byte.isBlank = true
        ∧ Utf8.ofString "\"a|b\" || c \\| d & |e"
          = Utf8.ofString "\"a|b\" || c \\| d " ++ Byte.ampersand :: blanks
            ++ Byte.bar :: Utf8.ofString "e" := by
  have cutOff : split .expression (Utf8.ofString "\"a|b\" || c \\| d & |e")
      = .ok ⟨Utf8.ofString "\"a|b\" || c \\| d ", true, some (Utf8.ofString "e")⟩ := by cbv
  exact ⟨cutOff, (split_by_lexemes .expression _).2.2.2 _ cutOff⟩

end Segment

end ExLine

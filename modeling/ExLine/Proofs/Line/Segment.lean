import ExLine.Line.Segment

/-!
Contract: how the scan for a separator passes over a stretch of text.

Owns:
- one equation for each kind of byte that `Segment.scan` meets;
- `Segment.Passes`, a stretch of bytes that holds neither a separator nor a
  background marker, whatever follows it, and how such stretches join;
- the split of a text that such a stretch makes up, and of a raw one;
- the split of a text without bars, and of one that is its own body.

Does not own: which texts are such stretches.
-/

set_option autoImplicit false

namespace ExLine.Segment

namespace Cut

/-- Puts bytes in front none of which is a background marker. -/
def prepend (bytes : Bytes) (cut : Cut) : Cut :=
  bytes.foldr cons cut

theorem prepend_append (first second : Bytes) (cut : Cut) :
    prepend (first ++ second) cut = prepend first (prepend second cut) :=
  List.foldr_append

theorem prepend_eq (bytes : Bytes) (cut : Cut) :
    cut.prepend bytes = ⟨bytes ++ cut.text, cut.beforeMarker.map (bytes ++ ·), cut.rest⟩ := by
  induction bytes with
  | nil => simp [prepend]
  | cons byte bytes inductionHypothesis =>
    show (prepend bytes cut).cons byte = _
    rw [inductionHypothesis]
    simp [cons, Function.comp_def]

theorem prepend_stop (bytes : Bytes) (rest : Option Bytes) :
    prepend bytes (stop rest) = ⟨bytes, none, rest⟩ := by
  simp [prepend_eq, stop]

end Cut

/-! ## One byte -/

section Bytes

variable {mode : TailMode} {quote : Option UInt8} {byte opening : UInt8} {rest : Bytes}

/-- A byte that is taken as it is. -/
theorem scan_literal :
    scan mode quote true (byte :: rest) = (scan mode quote false rest).map (Cut.cons byte) := by
  cases quote <;> rfl

theorem scan_close :
    scan mode (some byte) false (byte :: rest)
      = (scan mode none false rest).map (Cut.cons byte) := by
  rw [scan, if_neg Bool.false_ne_true]
  simp only [↓reduceIte]
  rfl

theorem scan_quoted_escape :
    scan mode (some Byte.doubleQuote) false (Byte.backslash :: rest)
      = (scan mode (some Byte.doubleQuote) true rest).map (Cut.cons Byte.backslash) := by
  rw [scan, if_neg Bool.false_ne_true]
  rfl

theorem scan_quoted
    (different : byte ≠ opening)
    (plain : byte = Byte.backslash → opening ≠ Byte.doubleQuote) :
    scan mode (some opening) false (byte :: rest)
      = (scan mode (some opening) false rest).map (Cut.cons byte) := by
  have noEscape : (byte == Byte.backslash && opening == Byte.doubleQuote) = false := by
    by_cases escapes : byte = Byte.backslash
    · simp [plain escapes]
    · simp [escapes]
  rw [scan, if_neg Bool.false_ne_true]
  simp only [if_neg different, noEscape]
  rfl

theorem scan_escape :
    scan mode none false (Byte.backslash :: rest)
      = (scan mode none true rest).map (Cut.cons Byte.backslash) := by
  rw [scan, if_neg Bool.false_ne_true]
  rfl

theorem scan_open
    (quotes : mode.hasQuotes)
    (isQuote : byte = Byte.singleQuote ∨ byte = Byte.doubleQuote) :
    scan mode none false (byte :: rest)
      = (scan mode (some byte) false rest).map (Cut.cons byte) := by
  have noBackslash : byte ≠ Byte.backslash := by
    rcases isQuote with rfl | rfl <;> decide
  have opens : (mode.hasQuotes && (byte == Byte.singleQuote || byte == Byte.doubleQuote))
      = true := by
    simpa [quotes] using isQuote
  rw [scan, if_neg Bool.false_ne_true]
  simp only [if_neg noBackslash, if_pos opens]
  rfl

/-- The second sign of a doubled operator is taken as it is. -/
theorem scan_operator
    (operators : mode.hasOperators)
    (isSign : byte = Byte.bar ∨ byte = Byte.ampersand) :
    scan mode none false (byte :: byte :: rest)
      = (scan mode none true (byte :: rest)).map (Cut.cons byte) := by
  have noBackslash : byte ≠ Byte.backslash := by
    rcases isSign with rfl | rfl <;> decide
  have noQuote : ¬ (mode.hasQuotes && (byte == Byte.singleQuote || byte == Byte.doubleQuote)) := by
    have other : (byte == Byte.singleQuote || byte == Byte.doubleQuote) = false := by
      rcases isSign with rfl | rfl <;> decide
    simp [other]
  have doubled : (mode.hasOperators && (byte == Byte.bar || byte == Byte.ampersand)
      && (byte :: rest).head? == some byte) = true := by
    simpa [operators] using isSign
  rw [scan, if_neg Bool.false_ne_true]
  simp only [if_neg noBackslash, if_neg noQuote, if_pos doubled]
  rfl

theorem scan_bar
    (separates : mode.hasSeparator)
    (alone : mode.hasOperators = false ∨ rest.head? ≠ some Byte.bar) :
    scan mode none false (Byte.bar :: rest) = .ok (Cut.stop (some rest)) := by
  have notDoubled : ¬ (mode.hasOperators && (Byte.bar == Byte.bar || Byte.bar == Byte.ampersand)
      && rest.head? == some Byte.bar) := by
    rcases alone with none | other
    · simp [none]
    · simp [other]
  have noQuote :
      ¬ (mode.hasQuotes && (Byte.bar == Byte.singleQuote || Byte.bar == Byte.doubleQuote)) := by
    have other : (Byte.bar == Byte.singleQuote || Byte.bar == Byte.doubleQuote) = false := by decide
    simp [other]
  have ends : (mode.hasSeparator && Byte.bar == Byte.bar) = true := by simp [separates]
  rw [scan, if_neg Bool.false_ne_true]
  simp only [if_neg (show Byte.bar ≠ Byte.backslash by decide), if_neg noQuote, if_neg notDoubled,
    if_pos ends]

theorem scan_ampersand
    (alone : mode.hasOperators = false ∨ rest.head? ≠ some Byte.ampersand) :
    scan mode none false (Byte.ampersand :: rest)
      = (scan mode none false rest).map (Cut.consAmpersand Byte.ampersand) := by
  have notDoubled : ¬ (mode.hasOperators
      && (Byte.ampersand == Byte.bar || Byte.ampersand == Byte.ampersand)
      && rest.head? == some Byte.ampersand) := by
    rcases alone with none | other
    · simp [none]
    · simp [other]
  have noQuote : ¬ (mode.hasQuotes
      && (Byte.ampersand == Byte.singleQuote || Byte.ampersand == Byte.doubleQuote)) := by
    have other : (Byte.ampersand == Byte.singleQuote || Byte.ampersand == Byte.doubleQuote)
        = false := by decide
    simp [other]
  have noBar : ¬ (mode.hasSeparator && Byte.ampersand == Byte.bar) := by
    have other : (Byte.ampersand == Byte.bar) = false := by decide
    simp [other]
  rw [scan, if_neg Bool.false_ne_true]
  simp only [if_neg (show Byte.ampersand ≠ Byte.backslash by decide), if_neg noQuote,
    if_neg notDoubled, if_neg noBar]
  rfl

/-- A byte that carries syntax outside quotes. -/
def isSyntax (byte : UInt8) : Bool :=
  byte == Byte.backslash || byte == Byte.singleQuote || byte == Byte.doubleQuote
    || byte == Byte.bar || byte == Byte.ampersand

/-- A sign that the mode gives no meaning to. -/
theorem scan_ordinary
    (noBackslash : byte ≠ Byte.backslash)
    (noAmpersand : byte ≠ Byte.ampersand)
    (noQuote : (mode.hasQuotes && (byte == Byte.singleQuote || byte == Byte.doubleQuote)) = false)
    (noBar : byte = Byte.bar → mode.hasOperators = false ∧ mode.hasSeparator = false) :
    scan mode none false (byte :: rest)
      = (scan mode none false rest).map (Cut.cons byte) := by
  have noOperator : (mode.hasOperators && (byte == Byte.bar || byte == Byte.ampersand)
      && rest.head? == some byte) = false := by
    by_cases isBar : byte = Byte.bar
    · simp [(noBar isBar).1]
    · simp [isBar, noAmpersand]
  have noSeparator : (mode.hasSeparator && byte == Byte.bar) = false := by
    by_cases isBar : byte = Byte.bar
    · simp [(noBar isBar).2]
    · simp [isBar]
  rw [scan, if_neg Bool.false_ne_true]
  simp only [if_neg noBackslash, noQuote, noOperator, noSeparator, Bool.false_eq_true, if_false,
    if_neg noAmpersand]
  rfl

theorem scan_plain (plain : isSyntax byte = false) :
    scan mode none false (byte :: rest)
      = (scan mode none false rest).map (Cut.cons byte) := by
  simp only [isSyntax, Bool.or_eq_false_iff, beq_eq_false_iff_ne] at plain
  rw [scan, if_neg Bool.false_ne_true]
  simp only [plain, ↓reduceIte, Bool.and_eq_true, Bool.or_eq_true, beq_iff_eq, or_self,
    and_false, false_and, bind_pure_comp]
  rfl

end Bytes

/-! ## Stretches of bytes -/

/-- Scanning `bytes` from inside `quote` ends inside `after`. On the way there
is no separator and no background marker, whatever follows the bytes. -/
def Passes (mode : TailMode) (quote after : Option UInt8) (bytes : Bytes) : Prop :=
  ∀ rest, scan mode quote false (bytes ++ rest)
    = (scan mode after false rest).map (Cut.prepend bytes)

namespace Passes

variable {mode : TailMode} {quote middle after : Option UInt8}

theorem nil : Passes mode quote quote [] := by
  intro rest
  rw [List.nil_append]
  cases scan mode quote false rest <;> rfl

theorem append {first second : Bytes} (early : Passes mode quote middle first)
    (late : Passes mode middle after second) : Passes mode quote after (first ++ second) := by
  intro rest
  rw [List.append_assoc, early, late]
  cases scan mode after false rest with
  | error opening => rfl
  | ok cut => exact congrArg Except.ok (Cut.prepend_append first second cut).symm

/-- A byte whose scan does not look at what follows. -/
theorem byte
    {byte : UInt8}
    (step : ∀ rest, scan mode quote false (byte :: rest)
      = (scan mode after false rest).map (Cut.cons byte)) :
    Passes mode quote after [byte] :=
  step

theorem opening
    {quote : UInt8}
    (quotes : mode.hasQuotes)
    (isQuote : quote = Byte.singleQuote ∨ quote = Byte.doubleQuote) :
    Passes mode none (some quote) [quote] :=
  byte fun _ => scan_open quotes isQuote

theorem bytes
    {bytes : Bytes}
    (each : ∀ byte ∈ bytes, Passes mode quote quote [byte]) :
    Passes mode quote quote bytes := by
  induction bytes with
  | nil => exact nil
  | cons byte rest inductionHypothesis =>
    have first := each byte List.mem_cons_self
    have others := inductionHypothesis fun other member =>
      each other (List.mem_cons_of_mem _ member)
    exact first.append others

/-- An escaped byte: the escape, and one byte taken as it is. -/
theorem escaped
    {escape byte : UInt8}
    (step : ∀ rest, scan mode quote false (escape :: rest)
      = (scan mode after true rest).map (Cut.cons escape)) :
    Passes mode quote after [escape, byte] := by
  intro rest
  rw [List.cons_append, step, List.singleton_append, scan_literal]
  cases scan mode after false rest <;> rfl

theorem operator
    {sign : UInt8}
    (operators : mode.hasOperators)
    (isSign : sign = Byte.bar ∨ sign = Byte.ampersand) :
    Passes mode none none [sign, sign] := by
  intro rest
  show scan mode none false (sign :: sign :: rest) = _
  rw [scan_operator operators isSign, scan_literal]
  cases scan mode none false rest <;> rfl

/-! ## Splitting at the end of a stretch -/

/-- A stretch up to the end of the line is the whole body. -/
theorem split {bytes : Bytes} (passes : Passes mode none none bytes) :
    Segment.split mode bytes = .ok ⟨bytes, false, none⟩ := by
  have scanned : scan mode none false bytes = .ok ⟨bytes, none, none⟩ := by
    have atEnd := passes []
    rw [List.append_nil] at atEnd
    rw [atEnd, ← Cut.prepend_stop]
    rfl
  unfold Segment.split
  rw [scanned]

/-- A stretch up to a separating bar is the whole body too. -/
theorem split_bar
    {bytes rest : Bytes}
    (passes : Passes mode none none bytes)
    (separates : mode.hasSeparator)
    (alone : mode.hasOperators = false ∨ rest.head? ≠ some Byte.bar) :
    Segment.split mode (bytes ++ Byte.bar :: rest) = .ok ⟨bytes, false, some rest⟩ := by
  have scanned : scan mode none false (bytes ++ Byte.bar :: rest)
      = .ok ⟨bytes, none, some rest⟩ := by
    rw [passes, scan_bar separates alone, ← Cut.prepend_stop]
    rfl
  unfold Segment.split
  rw [scanned]

end Passes

/-! ## Texts that reach to the end of the line -/

/-- Without separators the scan takes all of a text. -/
theorem scan_raw (detectsBackground literal : Bool) (bytes : Bytes) :
    ∃ marker, scan (.raw detectsBackground) none literal bytes = .ok ⟨bytes, marker, none⟩ := by
  induction bytes generalizing literal with
  | nil => exact ⟨none, rfl⟩
  | cons byte rest inductionHypothesis =>
    obtain ⟨marker, later⟩ := inductionHypothesis false
    cases literal with
    | true => exact ⟨_, by rw [scan_literal, later]; rfl⟩
    | false =>
      by_cases isBackslash : byte = Byte.backslash
      · obtain ⟨markerAfterEscape, afterEscape⟩ := inductionHypothesis true
        subst isBackslash
        exact ⟨_, by rw [scan_escape, afterEscape]; rfl⟩
      by_cases isAmpersand : byte = Byte.ampersand
      · subst isAmpersand
        rw [scan_ampersand (.inl rfl), later]
        unfold Except.map Cut.consAmpersand
        simp only
        split
        · exact ⟨_, rfl⟩
        · exact ⟨_, rfl⟩
      · exact ⟨_, by rw [scan_ordinary isBackslash isAmpersand rfl fun _ => ⟨rfl, rfl⟩, later]; rfl⟩

theorem split_raw (tail : Bytes) : split (.raw false) tail = .ok ⟨tail, false, none⟩ := by
  obtain ⟨marker, scanned⟩ := scan_raw false false tail
  unfold split
  rw [scanned]
  cases marker <;> rfl

/-- A text without a background marker is its own body. -/
theorem split_raw_of_foreground
    {tail : Bytes}
    {segment : Segment}
    (cutOff : split (.raw true) tail = .ok segment)
    (foreground : segment.background = false) :
    split (.raw true) tail = .ok ⟨tail, false, none⟩ := by
  obtain ⟨marker, scanned⟩ := scan_raw true false tail
  unfold split at cutOff ⊢
  rw [scanned] at cutOff ⊢
  cases marker with
  | none => rfl
  | some body =>
    cases cutOff
    cases foreground

/-! ## Texts without a separator -/

theorem rest_of_scan
    {mode : TailMode}
    {quote : Option UInt8}
    {literal : Bool}
    {bytes : Bytes}
    {cut : Cut}
    (scanned : scan mode quote literal bytes = .ok cut)
    (noBar : Byte.bar ∉ bytes) :
    cut.rest = none := by
  fun_induction scan mode quote literal bytes generalizing cut with
  | case1 => cases scanned
  | case2 =>
    cases scanned
    rfl
  | case9 =>
    rename_i separates
    simp only [Bool.and_eq_true, beq_iff_eq] at separates
    exact absurd (separates.2 ▸ List.mem_cons_self) noBar
  | _ =>
    rename_i inductionHypothesis
    simp only [bind, Except.bind, pure, Except.pure] at scanned
    split at scanned
    · cases scanned
    · rename_i later found
      cases scanned
      have laterRest := inductionHypothesis found fun member =>
        noBar (List.mem_cons_of_mem _ member)
      simpa using laterRest

/-- Without a bar nothing follows the arguments. -/
theorem rest_of_split
    {mode : TailMode}
    {tail : Bytes}
    {segment : Segment}
    (cutOff : split mode tail = .ok segment)
    (noBar : Byte.bar ∉ tail) :
    segment.rest = none := by
  unfold split at cutOff
  split at cutOff
  · cases cutOff
  · rename_i cut scanned
    have noRest := rest_of_scan scanned noBar
    split at cutOff
    · split at cutOff <;> cases cutOff <;> exact noRest
    · cases cutOff
      exact noRest

/-- A text is its own body exactly if the scan finds neither a separator nor a
background marker. -/
theorem split_whole_iff
    {mode : TailMode}
    (background : mode.hasBackground)
    (bytes : Bytes) :
    split mode bytes = .ok ⟨bytes, false, none⟩
      ↔ scan mode none false bytes = .ok ⟨bytes, none, none⟩ := by
  unfold split
  constructor
  · intro whole
    split at whole
    · cases whole
    · rename_i cut scanned
      obtain ⟨text, marker, rest⟩ := cut
      cases marker with
      | some body =>
        simp only [background, if_true] at whole
        cases whole
      | none =>
        cases whole
        exact scanned
  · intro scanned
    rw [scanned]

/-- A text that is its own body still is without the blanks before it. -/
theorem split_skipBlanks
    {mode : TailMode}
    {bytes : Bytes}
    (background : mode.hasBackground)
    (whole : split mode bytes = .ok ⟨bytes, false, none⟩) :
    split mode bytes.skipBlanks = .ok ⟨bytes.skipBlanks, false, none⟩ := by
  induction bytes with
  | nil => exact whole
  | cons byte rest inductionHypothesis =>
    unfold Bytes.skipBlanks
    by_cases blank : Byte.isBlank byte
    · rw [List.dropWhile_cons_of_pos blank]
      have plain : isSyntax byte = false := by
        simp only [Byte.isBlank, Bool.or_eq_true, beq_iff_eq] at blank
        rcases blank with rfl | rfl <;> rfl
      refine inductionHypothesis ((split_whole_iff background rest).mpr ?_)
      have scanned := (split_whole_iff background (byte :: rest)).mp whole
      rw [scan_plain plain] at scanned
      cases later : scan mode none false rest with
      | error quote =>
        rw [later] at scanned
        cases scanned
      | ok cut =>
        rw [later] at scanned
        obtain ⟨text, marker, after⟩ := cut
        cases marker with
        | none =>
          cases scanned
          rfl
        | some body => cases scanned
    · rw [List.dropWhile_cons_of_neg blank]
      exact whole

end ExLine.Segment

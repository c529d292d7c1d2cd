import ExLine.Proofs.Line.Padding
import ExLine.Proofs.Results

/-!
Contract: a sub-command in front of a bar, and the same sub-command alone.

Owns:
- `Head.read_followedByBar`, the head of any line that a bar follows;
- `Segment.scan_cons`, the scan for a separator as the steps of a state machine;
- `Segment.scan_alone`, by which a scan that ends at a bar does not depend on
  what follows the bar;
- `Step.read_alone`: the two sub-commands ask for the same.

Does not own: what follows when they are run (`ExLine.Proofs.Engine.Composition`).

The reader looks beyond the bar in two places. A doubled sign is recognised by
the byte after it, and in a branch that is not taken an open quote makes the
reader start over without quotes. In both places the bar would have been met
earlier if the two readings differed.
-/

set_option autoImplicit false

namespace ExLine

open Bytes

/-! ## Heads -/

/-- What the head of a line becomes when a bar follows the line. -/
def Head.followedByBar (rest : Bytes) : Head → Head
  | .empty none => .empty (some rest)
  | .empty (some after) => .empty (some (after ++ Byte.bar :: rest))
  | .comment => .comment
  | .command head => .command (head.extend (Byte.bar :: rest))

/-- The head of a line is the same in front of a bar, whatever the line holds. -/
theorem Head.read_followedByBar (line rest : Bytes) :
    Head.read (line ++ Byte.bar :: rest) = (Head.read line).map (Head.followedByBar rest) := by
  have stops : Stops Byte.leads (Byte.bar :: rest) := by
    intro byte first
    cases first
    rfl
  rw [Head.read_eq_start, Head.read_eq_start, dropWhile_append_of_stop stops]
  cases line.dropWhile Byte.leads with
  | nil => rfl
  | cons byte after =>
    have read := CommandHead.read_bar (byte :: after) rest
    rw [List.cons_append] at read
    simp only [List.cons_append, Head.start, read]
    split
    · rfl
    split
    · rfl
    · cases CommandHead.read (byte :: after) <;> rfl

/-! ## The scan for a separator, byte by byte -/

namespace Segment

section Machine

variable (mode : TailMode) (quote : Option UInt8) (literal : Bool) (byte : UInt8) (more : Bytes)

/-- The byte and the one after it are a doubled operator. -/
def doubles : Bool :=
  !literal && quote.isNone && mode.hasOperators && (byte == Byte.bar || byte == Byte.ampersand)
    && more.head? == some byte

/-- The byte is a bar that separates. -/
def separates : Bool :=
  !literal && quote.isNone && mode.hasSeparator && byte == Byte.bar
    && !doubles mode quote literal byte more

/-- The quote and the flag for a literal byte, after a byte that does not
separate. -/
def next : Option UInt8 × Bool :=
  if literal then (quote, false)
  else
    match quote with
    | some opening =>
      if byte = opening then (none, false)
      else (some opening, byte == Byte.backslash && opening == Byte.doubleQuote)
    | none =>
      if byte = Byte.backslash then (none, true)
      else if mode.hasQuotes && (byte == Byte.singleQuote || byte == Byte.doubleQuote) then
        (some byte, false)
      else (none, doubles mode none false byte more)

/-- The cut with the byte in front. -/
def put (cut : Cut) : Cut :=
  if !literal && quote.isNone && byte == Byte.ampersand && !doubles mode quote literal byte more then
    cut.consAmpersand byte
  else cut.cons byte

variable {mode quote literal byte more}

theorem doubles_iff :
    doubles mode quote literal byte more = true ↔
      literal = false ∧ quote = none ∧ mode.hasOperators = true
        ∧ (byte = Byte.bar ∨ byte = Byte.ampersand) ∧ more.head? = some byte := by
  simp only [doubles, Bool.and_eq_true, Bool.not_eq_true', Option.isNone_iff_eq_none,
    Bool.or_eq_true, beq_iff_eq, and_assoc]

theorem separates_of_ne (noBar : byte ≠ Byte.bar) :
    separates mode quote literal byte more = false := by
  simp [separates, noBar]

theorem put_of_ne (noAmpersand : byte ≠ Byte.ampersand) :
    put mode quote literal byte more = Cut.cons byte := by
  funext cut
  simp [put, noAmpersand]

theorem next_of_opens
    (opens : mode.hasQuotes = true ∧ (byte = Byte.singleQuote ∨ byte = Byte.doubleQuote)) :
    next mode none false byte more = (some byte, false) := by
  have noBackslash : byte ≠ Byte.backslash := by
    rcases opens.2 with rfl | rfl <;> decide
  simp [next, noBackslash, opens]

theorem next_of_plain
    (noBackslash : byte ≠ Byte.backslash)
    (opensNone : ¬ (mode.hasQuotes = true ∧ (byte = Byte.singleQuote ∨ byte = Byte.doubleQuote))) :
    next mode none false byte more = (none, doubles mode none false byte more) := by
  simp [next, noBackslash, opensNone]

theorem next_of_doubles (doubled : doubles mode quote literal byte more = true) :
    next mode quote literal byte more = (none, true) := by
  obtain ⟨rfl, rfl, -, isSign, -⟩ := doubles_iff.mp doubled
  have noQuote : byte ≠ Byte.backslash ∧ byte ≠ Byte.singleQuote ∧ byte ≠ Byte.doubleQuote := by
    rcases isSign with rfl | rfl <;> decide
  simp [next, noQuote, doubled]

theorem scan_cons_doubled (doubled : doubles mode quote literal byte more = true) :
    scan mode quote literal (byte :: more)
      = (scan mode none true more).map (put mode quote literal byte more) := by
  have plainPut : put mode quote literal byte more = Cut.cons byte := by
    funext cut
    simp [put, doubled]
  obtain ⟨rfl, rfl, operators, isSign, follows⟩ := doubles_iff.mp doubled
  obtain ⟨after, rfl⟩ := List.head?_eq_some_iff.mp follows
  rw [plainPut, scan_operator operators isSign]

/-- A sign outside quotes that is not doubled. -/
theorem scan_cons_single
    (noBackslash : byte ≠ Byte.backslash)
    (opensNone : ¬ (mode.hasQuotes = true ∧ (byte = Byte.singleQuote ∨ byte = Byte.doubleQuote)))
    (single : doubles mode none false byte more = false) :
    scan mode none false (byte :: more) =
      if separates mode none false byte more then .ok (Cut.stop (some more))
      else (scan mode none false more).map (put mode none false byte more) := by
  have alone (isSign : byte = Byte.bar ∨ byte = Byte.ampersand) :
      mode.hasOperators = false ∨ more.head? ≠ some byte := by
    by_contra both
    rw [not_or, Bool.not_eq_false, not_not] at both
    exact Bool.false_ne_true
      (single.symm.trans (doubles_iff.mpr ⟨rfl, rfl, both.1, isSign, both.2⟩))
  by_cases isAmpersand : byte = Byte.ampersand
  · subst isAmpersand
    have markerPut : put mode none false Byte.ampersand more = Cut.consAmpersand Byte.ampersand := by
      funext cut
      simp [put, single]
    rw [separates_of_ne (by decide), markerPut, scan_ampersand (alone (.inr rfl))]
    rfl
  by_cases isSeparator : byte = Byte.bar ∧ mode.hasSeparator = true
  · obtain ⟨rfl, hasSeparator⟩ := isSeparator
    have ends : separates mode none false Byte.bar more = true := by
      simp [separates, single, hasSeparator]
    rw [ends, if_pos rfl, scan_bar hasSeparator (alone (.inl rfl))]
  have noSeparator : separates mode none false byte more = false := by
    rw [Bool.eq_false_iff]
    intro ends
    simp only [separates, Bool.and_eq_true, beq_iff_eq] at ends
    exact isSeparator ⟨ends.1.2, ends.1.1.2⟩
  have ordinary : byte = Byte.bar → mode.hasOperators = false ∧ mode.hasSeparator = false := by
    rintro rfl
    cases mode with
    | raw detects => exact ⟨rfl, rfl⟩
    | plain | quoted | expression => exact absurd ⟨rfl, rfl⟩ isSeparator
  have noQuote : (mode.hasQuotes && (byte == Byte.singleQuote || byte == Byte.doubleQuote))
      = false := by
    rw [Bool.eq_false_iff]
    intro both
    simp only [Bool.and_eq_true, Bool.or_eq_true, beq_iff_eq] at both
    exact opensNone both
  rw [noSeparator, put_of_ne isAmpersand, scan_ordinary noBackslash isAmpersand noQuote ordinary]
  rfl

theorem scan_cons_outside :
    scan mode none false (byte :: more) =
      if separates mode none false byte more then .ok (Cut.stop (some more))
      else
        (scan mode (next mode none false byte more).1 (next mode none false byte more).2 more).map
          (put mode none false byte more) := by
  by_cases isBackslash : byte = Byte.backslash
  · subst isBackslash
    rw [separates_of_ne (by decide), put_of_ne (by decide), scan_escape]
    rfl
  by_cases opens : mode.hasQuotes = true ∧ (byte = Byte.singleQuote ∨ byte = Byte.doubleQuote)
  · have noSign : byte ≠ Byte.bar ∧ byte ≠ Byte.ampersand := by
      rcases opens.2 with rfl | rfl <;> decide
    rw [separates_of_ne noSign.1, put_of_ne noSign.2, next_of_opens opens,
      scan_open opens.1 opens.2]
    rfl
  cases doubled : doubles mode none false byte more with
  | true =>
    have noSeparator : separates mode none false byte more = false := by
      simp [separates, doubled]
    rw [noSeparator, next_of_doubles doubled, scan_cons_doubled doubled]
    rfl
  | false => rw [next_of_plain isBackslash opens, doubled, scan_cons_single isBackslash opens doubled]

variable (mode quote literal byte more)

/-- One step of the scan. -/
theorem scan_cons :
    scan mode quote literal (byte :: more) =
      if separates mode quote literal byte more then .ok (Cut.stop (some more))
      else
        (scan mode (next mode quote literal byte more).1 (next mode quote literal byte more).2
          more).map (put mode quote literal byte more) := by
  cases literal with
  | true =>
    rw [scan_literal]
    rfl
  | false =>
    cases quote with
    | some opening =>
      have neverSeparates : separates mode (some opening) false byte more = false := rfl
      rw [scan, if_neg Bool.false_ne_true, neverSeparates, if_neg Bool.false_ne_true]
      unfold next
      by_cases closes : byte = opening
      · simp only [if_pos closes, Bool.false_eq_true, if_false]
        rfl
      · simp only [if_neg closes, Bool.false_eq_true, if_false]
        rfl
    | none => exact scan_cons_outside

theorem put_rest (cut : Cut) (rest : Option Bytes) :
    put mode quote literal byte more { cut with rest }
      = { put mode quote literal byte more cut with rest } := by
  unfold put Cut.consAmpersand
  simp only
  split
  · split <;> rfl
  · rfl

end Machine

section Alone

variable {mode : TailMode} {quote : Option UInt8} {literal : Bool} {byte : UInt8}
variable {text rest : Bytes}

theorem rest_put (more : Bytes) (cut : Cut) :
    (put mode quote literal byte more cut).rest = cut.rest := by
  unfold put
  split
  · exact Cut.rest_consAmpersand byte cut
  · rfl

theorem text_put (more : Bytes) (cut : Cut) :
    (put mode quote literal byte more cut).text = byte :: cut.text := by
  unfold put
  split
  · exact Cut.text_consAmpersand byte cut
  · rfl

/-- A marker stands outside quotes, or was found before. -/
theorem beforeMarker_put
    {more body : Bytes}
    {cut : Cut}
    (isBody : body ∈ (put mode quote literal byte more cut).beforeMarker) :
    quote = none ∧ body = [] ∨ ∃ earlier ∈ cut.beforeMarker, body = byte :: earlier := by
  have ofCons (later : body ∈ (cut.cons byte).beforeMarker) :
      ∃ earlier ∈ cut.beforeMarker, body = byte :: earlier := by
    obtain ⟨earlier, isEarlier, rfl⟩ := Option.map_eq_some_iff.mp later
    exact ⟨earlier, isEarlier, rfl⟩
  unfold put Cut.consAmpersand at isBody
  split at isBody
  · rename_i isMarker
    simp only [Bool.and_eq_true, Option.isNone_iff_eq_none] at isMarker
    split at isBody
    · exact .inl ⟨isMarker.1.1.2, (Option.some.inj isBody).symm⟩
    · exact .inr (ofCons isBody)
  · exact .inr (ofCons isBody)

/-- A bar after a text makes a doubled sign only of a bar at the end of the text. -/
theorem doubles_append_bar
    (apart : text = [] → doubles mode quote literal byte (Byte.bar :: rest) = false) :
    doubles mode quote literal byte (text ++ Byte.bar :: rest)
      = doubles mode quote literal byte text := by
  cases text with
  | nil =>
    rw [List.nil_append, apart rfl]
    simp [doubles]
  | cons first others => rfl

theorem eq_bar_of_doubles (doubled : doubles mode quote literal byte (Byte.bar :: rest) = true) :
    quote = none ∧ literal = false ∧ byte = Byte.bar := by
  obtain ⟨notLiteral, noQuote, -, -, isFirst⟩ := doubles_iff.mp doubled
  exact ⟨noQuote, notLiteral, (Option.some.inj isFirst).symm⟩

theorem separates_congr
    {more other : Bytes}
    (same : doubles mode quote literal byte more = doubles mode quote literal byte other) :
    separates mode quote literal byte more = separates mode quote literal byte other := by
  unfold separates
  rw [same]

theorem next_congr
    {more other : Bytes}
    (same : doubles mode quote literal byte more = doubles mode quote literal byte other) :
    next mode quote literal byte more = next mode quote literal byte other := by
  unfold next
  cases literal with
  | true => rfl
  | false =>
    cases quote with
    | some opening => rfl
    | none => rw [same]

theorem put_congr
    {more other : Bytes}
    (same : doubles mode quote literal byte more = doubles mode quote literal byte other) :
    put mode quote literal byte more = put mode quote literal byte other := by
  unfold put
  rw [same]

/-- What the scan leaves is at least one step behind. -/
theorem not_scan_rest
    {cut : Cut}
    (scanned : scan mode quote literal rest = .ok cut) :
    cut.rest ≠ some rest := by
  intro left
  exact Nat.lt_irrefl _ (length_lt_of_scan scanned left)

/-- A literal bar does not separate. -/
theorem not_scan_literal
    {cut : Cut}
    (scanned : scan mode quote true (byte :: rest) = .ok cut) :
    cut.rest ≠ some rest := by
  obtain ⟨later, found, rfl⟩ := map_eq_ok_iff.mp (scan_literal.symm.trans scanned)
  show later.rest ≠ some rest
  exact not_scan_rest found

theorem append_bar_ne (text rest : Bytes) : text ++ Byte.bar :: rest ≠ rest := by
  intro same
  have lengths := congrArg List.length same
  simp only [List.length_append, List.length_cons] at lengths
  omega

/-- A scan that ends at a bar finds the same if nothing is there. -/
theorem scan_alone
    {cut : Cut}
    (scanned : scan mode quote literal (text ++ Byte.bar :: rest) = .ok cut)
    (left : cut.rest = some rest) :
    scan mode quote literal text = .ok { cut with rest := none } := by
  induction text generalizing quote literal cut with
  | nil =>
    rw [List.nil_append, scan_cons] at scanned
    split at scanned
    · rename_i ends
      cases scanned
      simp only [separates, Bool.and_eq_true, Option.isNone_iff_eq_none] at ends
      rw [ends.1.1.1.2]
      rfl
    · obtain ⟨later, found, rfl⟩ := map_eq_ok_iff.mp scanned
      rw [rest_put] at left
      exact absurd left (not_scan_rest found)
  | cons byte text inductionHypothesis =>
    rw [List.cons_append, scan_cons] at scanned
    split at scanned
    · cases scanned
      exact absurd (Option.some.inj left) (append_bar_ne text rest)
    · rename_i goesOn
      obtain ⟨later, found, rfl⟩ := map_eq_ok_iff.mp scanned
      rw [rest_put] at left
      have same : doubles mode quote literal byte (text ++ Byte.bar :: rest)
          = doubles mode quote literal byte text := by
        apply doubles_append_bar
        rintro rfl
        by_contra doubled
        rw [Bool.not_eq_false] at doubled
        -- The bar after the text would be the second sign, and would be passed over.
        obtain ⟨rfl, rfl, rfl⟩ := eq_bar_of_doubles doubled
        rw [List.nil_append, next_of_doubles doubled] at found
        exact not_scan_literal found left
      have shorter := inductionHypothesis found left
      rw [separates_congr same] at goesOn
      rw [next_congr same] at shorter
      rw [scan_cons, if_neg goesOn, shorter, put_congr same]
      exact congrArg Except.ok (put_rest _ _ _ _ _ _ _)

/-- The flag of a scan goes with the escapes of the text, byte by byte. -/
theorem Tracks.next
    {escaped : Bool}
    (tracks : Tracks quote literal escaped (byte :: text)) :
    Tracks (next mode quote literal byte text).1 (next mode quote literal byte text).2
      (!escaped && byte == Byte.backslash) text := by
  cases tracks with
  | outside =>
    cases literal with
    | true => exact .outside false
    | false =>
      by_cases isBackslash : byte = Byte.backslash
      · subst isBackslash
        exact .outside true
      have noEscape : (!false && byte == Byte.backslash) = false := by simp [isBackslash]
      rw [noEscape]
      by_cases opens : mode.hasQuotes = true ∧ (byte = Byte.singleQuote ∨ byte = Byte.doubleQuote)
      · rw [next_of_opens opens]
        rcases opens.2 with rfl | rfl
        · exact .single false
        · exact .double false
      rw [next_of_plain isBackslash opens]
      cases doubled : doubles mode none false byte text with
      | false => exact .outside false
      | true =>
        obtain ⟨-, -, -, -, follows⟩ := doubles_iff.mp doubled
        obtain ⟨after, rfl⟩ := List.head?_eq_some_iff.mp follows
        exact .doubled isBackslash
  | double =>
    cases literal with
    | true => exact .double false
    | false =>
      by_cases closes : byte = Byte.doubleQuote
      · subst closes
        exact .outside false
      · have isNext : next mode (some Byte.doubleQuote) false byte text
            = (some Byte.doubleQuote, byte == Byte.backslash) := by
          simp [Segment.next, closes]
        rw [isNext]
        exact .double _
  | single =>
    by_cases closes : byte = Byte.singleQuote
    · subst closes
      have noEscape : (!escaped && Byte.singleQuote == Byte.backslash) = false :=
        Bool.and_false _
      rw [noEscape]
      exact .outside false
    · have isNext : next mode (some Byte.singleQuote) false byte text
          = (some Byte.singleQuote, false) := by
        have differs : (Byte.singleQuote == Byte.doubleQuote) = false := rfl
        simp [Segment.next, closes, differs]
      rw [isNext]
      exact .single _
  | doubled noBackslash =>
    have noEscape : (!false && byte == Byte.backslash) = false := by simp [noBackslash]
    rw [noEscape]
    exact .outside false

theorem next_plain (escaped : Bool) (byte : UInt8) (more : Bytes) :
    next .plain none escaped byte more = (none, !escaped && byte == Byte.backslash) := by
  cases escaped with
  | true => rfl
  | false =>
    by_cases isBackslash : byte = Byte.backslash
    · simp [next, isBackslash]
    · simp [next, isBackslash, doubles, TailMode.hasQuotes, TailMode.hasOperators]

/-- The text ends at the first bar that no backslash protects. `escaped` tells
whether one protects the first byte of the text. -/
def EndsAtBar (escaped : Bool) (text rest : Bytes) : Prop :=
  ∃ cut, scan .plain none escaped (text ++ Byte.bar :: rest) = .ok cut ∧ cut.rest = some rest

theorem EndsAtBar.unescaped {escaped : Bool} (ends : EndsAtBar escaped [] rest) :
    escaped = false := by
  obtain ⟨cut, scanned, left⟩ := ends
  cases escaped with
  | false => rfl
  | true => exact absurd left (not_scan_literal scanned)

theorem EndsAtBar.cons {escaped : Bool} (ends : EndsAtBar escaped (byte :: text) rest) :
    (escaped = false → byte ≠ Byte.bar)
      ∧ EndsAtBar (!escaped && byte == Byte.backslash) text rest := by
  obtain ⟨cut, scanned, left⟩ := ends
  rw [List.cons_append, scan_cons] at scanned
  split at scanned
  · cases scanned
    exact absurd (Option.some.inj left) (append_bar_ne text rest)
  · rename_i goesOn
    obtain ⟨later, found, rfl⟩ := map_eq_ok_iff.mp scanned
    rw [rest_put] at left
    rw [next_plain] at found
    refine ⟨?_, later, found, left⟩
    rintro rfl rfl
    exact goesOn rfl

/-- A text that can be scanned can be scanned in front of its bar as well. -/
theorem scan_ok_of_alone
    {escaped : Bool}
    {cut : Cut}
    (separator : mode.hasSeparator)
    (tracks : Tracks quote literal escaped text)
    (ends : EndsAtBar escaped text rest)
    (single : rest.head? ≠ some Byte.bar)
    (scanned : scan mode quote literal text = .ok cut) :
    ∃ longer, scan mode quote literal (text ++ Byte.bar :: rest) = .ok longer := by
  induction text generalizing quote literal escaped cut with
  | nil =>
    obtain rfl := ends.unescaped
    cases quote with
    | some opening => cases scanned
    | none =>
      cases tracks
      exact ⟨_, scan_bar separator (.inr single)⟩
  | cons byte text inductionHypothesis =>
    obtain ⟨notBar, later⟩ := ends.cons
    have same : doubles mode quote literal byte (text ++ Byte.bar :: rest)
        = doubles mode quote literal byte text := by
      apply doubles_append_bar
      rintro rfl
      by_contra doubled
      rw [Bool.not_eq_false] at doubled
      obtain ⟨rfl, rfl, rfl⟩ := eq_bar_of_doubles doubled
      cases tracks
      exact notBar rfl rfl
    rw [scan_cons] at scanned
    rw [List.cons_append, scan_cons, separates_congr same, next_congr same]
    split at scanned
    · rename_i isSeparator
      rw [if_pos isSeparator]
      exact ⟨_, rfl⟩
    · rename_i goesOn
      obtain ⟨shorter, found, -⟩ := map_eq_ok_iff.mp scanned
      obtain ⟨longer, foundLonger⟩ := inductionHypothesis tracks.next later found
      rw [if_neg goesOn, foundLonger]
      exact ⟨_, rfl⟩

/-- The arguments that a scan has cut off. -/
def Cut.segment (mode : TailMode) (cut : Cut) : Segment :=
  match cut.beforeMarker with
  | some body =>
    if mode.hasBackground then ⟨body, true, cut.rest⟩ else ⟨cut.text, false, cut.rest⟩
  | none => ⟨cut.text, false, cut.rest⟩

theorem Cut.segment_rest (cut : Cut) (rest : Option Bytes) :
    ({ cut with rest } : Cut).segment mode = { cut.segment mode with rest } := by
  unfold segment
  cases cut.beforeMarker with
  | none => rfl
  | some body => cases mode.hasBackground <;> rfl

theorem split_eq_ok_iff
    {tail : Bytes}
    {segment : Segment} :
    split mode tail = .ok segment
      ↔ ∃ cut, scan mode none false tail = .ok cut ∧ cut.segment mode = segment := by
  unfold split Cut.segment
  cases scan mode none false tail with
  | error opening => simp
  | ok cut =>
    obtain ⟨before, marker, after⟩ := cut
    cases marker with
    | none => simp
    | some body => cases mode.hasBackground <;> simp

theorem split_alone
    {segment : Segment}
    (cutOff : split mode (text ++ Byte.bar :: rest) = .ok segment)
    (left : segment.rest = some rest) :
    split mode text = .ok { segment with rest := none } := by
  obtain ⟨cut, scanned, rfl⟩ := split_eq_ok_iff.mp cutOff
  have cutRest : cut.rest = some rest := by
    rw [← left]
    exact congrArg Segment.rest (Cut.segment_rest cut cut.rest).symm
  exact split_eq_ok_iff.mpr ⟨_, scan_alone scanned cutRest, Cut.segment_rest cut none⟩

/-- An open quote in front of a bar is open without the bar, too. -/
theorem split_error_alone
    {error : CommandError}
    (ends : EndsAtBar false text rest)
    (single : rest.head? ≠ some Byte.bar)
    (unclosed : split mode (text ++ Byte.bar :: rest) = .error error) :
    ∃ same, split mode text = .error same := by
  have longUnclosed (longer : Cut) : scan mode none false (text ++ Byte.bar :: rest) ≠ .ok longer := by
    intro scanned
    rw [split_eq_ok_iff.mpr ⟨longer, scanned, rfl⟩] at unclosed
    cases unclosed
  have separator : mode.hasSeparator = true := by
    cases mode with
    | plain | quoted | expression => rfl
    | raw detects =>
      obtain ⟨marker, scanned⟩ := scan_raw detects false (text ++ Byte.bar :: rest)
      exact absurd scanned (longUnclosed _)
  cases cutOff : split mode text with
  | error same => exact ⟨same, rfl⟩
  | ok segment =>
    obtain ⟨cut, scanned, -⟩ := split_eq_ok_iff.mp cutOff
    obtain ⟨longer, found⟩ := scan_ok_of_alone separator (.outside false) ends single scanned
    exact absurd found (longUnclosed longer)

end Alone

end Segment

/-! ## Sub-commands -/

section Steps

variable {text rest : Bytes}

theorem endsAtBar_of_plainRest (left : plainRest (text ++ Byte.bar :: rest) = some rest) :
    Segment.EndsAtBar false text rest := by
  rw [plainRest_eq_scan] at left
  cases scanned : Segment.scan .plain none false (text ++ Byte.bar :: rest) with
  | error opening =>
    rw [scanned] at left
    cases left
  | ok cut =>
    rw [scanned] at left
    exact ⟨cut, scanned, left⟩

theorem plainRest_alone (left : plainRest (text ++ Byte.bar :: rest) = some rest) :
    plainRest text = none := by
  obtain ⟨cut, scanned, cutRest⟩ := endsAtBar_of_plainRest left
  rw [plainRest_eq_scan, Segment.scan_alone scanned cutRest]

theorem plainBody_alone (left : plainRest (text ++ Byte.bar :: rest) = some rest) :
    plainBody (text ++ Byte.bar :: rest) = plainBody text := by
  have length : (text ++ Byte.bar :: rest).length - rest.length - 1 = text.length := by
    rw [List.length_append, List.length_cons]
    omega
  unfold plainBody
  simp only [left, plainRest_alone left, length]
  exact List.take_left

/-- Plans that ask for the same. They differ in text that nobody looks at any
more. -/
inductive Plan.AsksSame : Plan → Plan → Prop where
  | same (plan : Plan) : AsksSame plan plan
  | call (command : Command) (head : CommandHead) (tail : Bytes) (segment : Segment)
      (rest : Option Bytes) :
      AsksSame (.call command head segment)
        (.call command { head with tail } { segment with rest })

/-- A step that is the last one of its line asks for the same as another one
that is not. -/
structure Step.Alone (step longer : Step) : Prop where
  plan : Plan.AsksSame longer.plan step.plan
  last : step.rest = none

namespace Step

variable {chain : List Registry} {active : Bool}

theorem nameless_alone
    {head : CommandHead}
    (left : (nameless active (head.extend (Byte.bar :: rest))).rest = some rest) :
    Step.Alone (nameless active head) (nameless active (head.extend (Byte.bar :: rest))) := by
  rw [rest_nameless] at left
  have sameBody : plainBody (head.extend (Byte.bar :: rest)).tail = plainBody head.tail :=
    plainBody_alone left
  constructor
  · unfold nameless
    simp only [sameBody]
    cases active with
    | false => exact .same _
    | true =>
      have sameRange : (head.extend (Byte.bar :: rest)).range = head.range := rfl
      rw [sameRange]
      cases head.range with
      | none => exact .same _
      | some range => cases (plainBody head.tail).all Byte.isBlank <;> exact .same _
  · rw [rest_nameless]
    exact plainRest_alone left

theorem named_alone
    {head : CommandHead}
    (single : rest.head? ≠ some Byte.bar)
    (left : (named chain active (head.extend (Byte.bar :: rest))).rest = some rest) :
    Step.Alone (named chain active head) (named chain active (head.extend (Byte.bar :: rest))) := by
  have sameName : (head.extend (Byte.bar :: rest)).name = head.name := rfl
  have longTail : (head.extend (Byte.bar :: rest)).tail = head.tail ++ Byte.bar :: rest := rfl
  unfold named at left ⊢
  simp only [sameName, longTail] at left ⊢
  generalize Registry.resolve chain head.name = resolved at left ⊢
  cases resolved with
  | error error => exact ⟨.same _, plainRest_alone left⟩
  | ok command =>
    simp only at left ⊢
    cases cutOff : Segment.split command.flags.tailMode (head.tail ++ Byte.bar :: rest) with
    | error error =>
      simp only [cutOff] at left ⊢
      cases active with
      | true => cases left
      | false =>
        obtain ⟨same, unclosed⟩ :=
          Segment.split_error_alone (endsAtBar_of_plainRest left) single cutOff
        simp only [unclosed]
        exact ⟨.same _, plainRest_alone left⟩
    | ok segment =>
      simp only [cutOff] at left ⊢
      have segmentRest : segment.rest = some rest := by
        split at left <;> exact left
      simp only [Segment.split_alone cutOff segmentRest]
      split
      · exact ⟨.call _ _ _ _ _, rfl⟩
      · exact ⟨.same _, rfl⟩

/-- A sub-command that ends at a bar asks for the same without the bar. -/
theorem read_alone
    (single : rest.head? ≠ some Byte.bar)
    (left : (read chain active (text ++ Byte.bar :: rest)).rest = some rest) :
    Step.Alone (read chain active text) (read chain active (text ++ Byte.bar :: rest)) := by
  unfold read at left ⊢
  rw [Head.read_followedByBar] at left ⊢
  generalize Head.read text = found at left ⊢
  cases found with
  | error error => cases left
  | ok head =>
    cases head with
    | empty after =>
      cases after with
      | none => exact ⟨.same _, rfl⟩
      | some after => exact absurd (Option.some.inj left) (Segment.append_bar_ne after rest)
    | comment => cases left
    | command head =>
      have sameName : (head.extend (Byte.bar :: rest)).name = head.name := rfl
      simp only [Except.map, Head.followedByBar, sameName] at left ⊢
      split at left
      · rename_i noName
        simp only [if_pos noName]
        exact nameless_alone left
      · rename_i hasName
        simp only [if_neg hasName]
        exact named_alone single left

end Step

end Steps

end ExLine

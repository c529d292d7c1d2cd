import ExLine.Engine.Plan
import ExLine.Proofs.Line.Segment
import ExLine.Proofs.Text.Runs

/-!
Contract: where reading a sub-command stops.

Owns:
- `Bytes.Skips`, by which a reader leaves a suffix of its line and passes no
  backslash on the way, for every reader of a head;
- the readers of a head in front of a byte that they do not take, and in front
  of a bar;
- `Segment.eq_of_split`, by which a split loses nothing but a separator;
- `Step.suffix_of_read`: what is left of a line is a suffix of it.

Does not own: how much shorter the rest is (`ExLine.Engine.Plan`).
-/

set_option autoImplicit false

namespace ExLine

/-! ## Suffixes of a line -/

/-- Reading has come from `line` to `rest` and has passed no backslash. -/
def Bytes.Skips (line rest : Bytes) : Prop :=
  ∃ skipped, line = skipped ++ rest ∧ Byte.backslash ∉ skipped

namespace Bytes

variable {line middle rest tail : Bytes}

theorem Skips.refl (line : Bytes) : Skips line line :=
  ⟨[], rfl, List.not_mem_nil⟩

theorem Skips.trans (early : Skips line middle) (late : Skips middle rest) : Skips line rest := by
  obtain ⟨first, rfl, noFirst⟩ := early
  obtain ⟨second, rfl, noSecond⟩ := late
  refine ⟨first ++ second, (List.append_assoc _ _ _).symm, ?_⟩
  intro member
  rcases List.mem_append.mp member with inFirst | inSecond
  · exact noFirst inFirst
  · exact noSecond inSecond

theorem Skips.cons {byte : UInt8} (noBackslash : byte ≠ Byte.backslash) :
    Skips (byte :: rest) rest :=
  ⟨[byte], rfl, fun member => noBackslash (List.mem_singleton.mp member).symm⟩

theorem Skips.dropWhile (holds : UInt8 → Bool) (noBackslash : holds Byte.backslash = false)
    (line : Bytes) : Skips line (line.dropWhile holds) := by
  refine ⟨line.takeWhile holds, List.takeWhile_append_dropWhile.symm, fun member => ?_⟩
  have held := List.all_eq_true.mp List.all_takeWhile _ member
  rw [noBackslash] at held
  cases held

theorem Skips.suffix (skips : Skips line rest) : rest <:+ line := by
  obtain ⟨skipped, rfl, -⟩ := skips
  exact List.suffix_append skipped rest

theorem Skips.subset (skips : Skips line rest) {byte : UInt8} (member : byte ∈ rest) :
    byte ∈ line :=
  skips.suffix.subset member

/-- The first byte of a tail, if there is one, is not of a class. -/
def Stops (holds : UInt8 → Bool) (tail : Bytes) : Prop :=
  ∀ byte ∈ tail.head?, holds byte = false

end Bytes

open Bytes

/-! ## Ranges -/

/-- A byte that a range may hold. -/
def Byte.inRange (byte : UInt8) : Bool :=
  isDigit byte || byte == plus || byte == minus || byte == dot || byte == dollar
    || byte == comma || byte == percent

section Ranges

variable {line rest tail : Bytes}

theorem Bytes.Stops.notDigit (stops : Stops Byte.inRange tail) : Stops Byte.isDigit tail := by
  intro byte first
  have outside := stops byte first
  simp only [Byte.inRange, Bool.or_eq_false_iff] at outside
  exact outside.1.1.1.1.1.1

theorem Base.skips_of_read
    {base : Option Base}
    (found : Base.read line = .ok (base, rest)) :
    Skips line rest := by
  unfold Base.read at found
  split at found
  · cases found
    exact Skips.refl _
  · rename_i byte after
    split at found
    · rename_i isDot
      cases found
      exact Skips.cons (by rw [isDot]; decide)
    split at found
    · rename_i isDollar
      cases found
      exact Skips.cons (by rw [isDollar]; decide)
    split at found
    · simp only [bind, Except.bind, pure, Except.pure] at found
      split at found
      · cases found
      · cases found
        exact Skips.dropWhile _ rfl _
    · cases found
      exact Skips.refl _

theorem skips_of_readTerms
    {sum total : Int}
    (found : readTerms sum line = .ok (total, rest)) :
    Skips line rest := by
  fun_induction readTerms sum line with
  | case1 =>
    cases found
    exact Skips.refl _
  | case2 sum sign line signed inductionHypothesis =>
    simp only [bind, Except.bind] at found
    split at found
    · cases found
    · split at found
      · have noBackslash : sign ≠ Byte.backslash := by
          rintro rfl
          exact absurd signed (by decide)
        have digits := Skips.dropWhile Byte.isDigit rfl line
        exact ((Skips.cons noBackslash).trans digits).trans (inductionHypothesis _ found)
      · cases found
  | case3 =>
    cases found
    exact Skips.refl _

theorem Address.skips_of_read
    {address : Option Address}
    (found : Address.read line = .ok (address, rest)) :
    Skips line rest := by
  unfold Address.read at found
  simp only [bind, Except.bind, pure, Except.pure] at found
  split at found
  · cases found
  · rename_i base readBase
    split at found
    · cases found
    · rename_i terms readIt
      cases found
      exact (Base.skips_of_read readBase).trans (skips_of_readTerms readIt)

theorem RangeSpec.skips_of_read
    {spec : Option RangeSpec}
    (found : RangeSpec.read line = .ok (spec, rest)) :
    Skips line rest := by
  unfold RangeSpec.read at found
  split at found
  · cases found
    exact Skips.refl _
  · split at found
    · rename_i isPercent
      cases found
      exact Skips.cons (by rw [isPercent]; decide)
    · simp only [bind, Except.bind, pure, Except.pure] at found
      split at found
      · cases found
      · rename_i first readFirst
        have early := Address.skips_of_read readFirst
        split at found
        · rename_i ended
          cases found
          exact ended ▸ early
        · rename_i next afterNext continued
          rw [continued] at early
          split at found
          · rename_i isComma
            split at found
            · cases found
            · rename_i second readSecond
              cases found
              have comma : Skips (next :: afterNext) afterNext :=
                Skips.cons (by rw [isComma]; decide)
              exact (early.trans comma).trans (Address.skips_of_read readSecond)
          · cases found
            rw [continued]
            exact early

/-! A byte that no range holds ends a range, so what stands in front of it is
read as if nothing followed. -/

theorem Base.read_append (stops : Stops Byte.inRange tail) (line : Bytes) :
    Base.read (line ++ tail) = (Base.read line).map fun found => (found.1, found.2 ++ tail) := by
  cases line with
  | nil =>
    cases tail with
    | nil => rfl
    | cons byte rest =>
      have outside := stops byte rfl
      simp only [Byte.inRange, Bool.or_eq_false_iff, beq_eq_false_iff_ne] at outside
      obtain ⟨⟨⟨⟨⟨⟨notDigit, -⟩, -⟩, notDot⟩, notDollar⟩, -⟩, -⟩ := outside
      show Base.read (byte :: rest) = .ok (none, byte :: rest)
      unfold Base.read
      simp only [if_neg notDot, if_neg notDollar, notDigit, Bool.false_eq_true, if_false]
  | cons byte line =>
    have digits := takeWhile_append_of_stop stops.notDigit (byte :: line)
    have after := dropWhile_append_of_stop stops.notDigit (byte :: line)
    rw [List.cons_append] at digits after ⊢
    unfold Base.read
    simp only [digits, after]
    split
    · rfl
    split
    · rfl
    split
    · cases readNumber ((byte :: line).takeWhile Byte.isDigit) <;> rfl
    · rfl

theorem readTerms_append (stops : Stops Byte.inRange tail) (sum : Int) (line : Bytes) :
    readTerms sum (line ++ tail)
      = (readTerms sum line).map fun found => (found.1, found.2 ++ tail) := by
  fun_induction readTerms sum line with
  | case1 sum =>
    cases tail with
    | nil => rw [List.append_nil, readTerms]; rfl
    | cons byte rest =>
      have outside := stops byte rfl
      simp only [Byte.inRange, Bool.or_eq_false_iff, beq_eq_false_iff_ne] at outside
      have noSign : ¬ (byte = Byte.plus || byte = Byte.minus) := by
        simp [outside.1.1.1.1.1.2, outside.1.1.1.1.2]
      rw [List.nil_append, readTerms, if_neg noSign]
      rfl
  | case2 sum sign line signed inductionHypothesis =>
    have digits := takeWhile_append_of_stop stops.notDigit line
    have after := dropWhile_append_of_stop stops.notDigit line
    rw [List.cons_append, readTerms, if_pos signed]
    simp only [readTermSize, digits, after, bind, Except.bind]
    split
    · rfl
    · rename_i size _
      split
      · exact inductionHypothesis size
      · rfl
  | case3 sum sign line unsigned =>
    rw [List.cons_append, readTerms, if_neg unsigned]
    rfl

theorem Address.read_append (stops : Stops Byte.inRange tail) (line : Bytes) :
    Address.read (line ++ tail)
      = (Address.read line).map fun found => (found.1, found.2 ++ tail) := by
  unfold Address.read
  rw [Base.read_append stops]
  cases Base.read line with
  | error error => rfl
  | ok found =>
    obtain ⟨base, afterBase⟩ := found
    simp only [Except.map, bind, Except.bind]
    rw [readTerms_append stops]
    cases readTerms 0 afterBase with
    | error error => rfl
    | ok found =>
      obtain ⟨offset, rest⟩ := found
      simp only [Except.map, List.length_append, Nat.add_lt_add_iff_right]
      cases base <;> rfl

theorem RangeSpec.read_append (stops : Stops Byte.inRange tail) (line : Bytes) :
    RangeSpec.read (line ++ tail)
      = (RangeSpec.read line).map fun found => (found.1, found.2 ++ tail) := by
  have noComma : ∀ byte ∈ tail.head?, byte ≠ Byte.comma := by
    rintro byte first rfl
    exact absurd (stops _ first) (by decide)
  have noPercent : ∀ byte ∈ tail.head?, byte ≠ Byte.percent := by
    rintro byte first rfl
    exact absurd (stops _ first) (by decide)
  cases line with
  | nil =>
    cases tail with
    | nil => rfl
    | cons byte rest =>
      have noAddress : Address.read (byte :: rest) = .ok (none, byte :: rest) := by
        have atEnd : Address.read [] = .ok (none, []) := by
          unfold Address.read Base.read
          simp only [bind, Except.bind, readTerms]
          rfl
        have before := Address.read_append stops []
        rw [atEnd] at before
        exact before
      show RangeSpec.read (byte :: rest) = .ok (none, byte :: rest)
      unfold RangeSpec.read
      simp only [if_neg (noPercent byte rfl), noAddress, bind, Except.bind,
        if_neg (noComma byte rfl)]
      rfl
  | cons byte line =>
    by_cases isPercent : byte = Byte.percent
    · simp only [List.cons_append, RangeSpec.read, if_pos isPercent]
      rfl
    · have address := Address.read_append stops (byte :: line)
      rw [List.cons_append] at address
      simp only [List.cons_append, RangeSpec.read, if_neg isPercent, address]
      cases Address.read (byte :: line) with
      | error error => rfl
      | ok found =>
        obtain ⟨first, rest⟩ := found
        simp only [Except.map, bind, Except.bind]
        cases rest with
        | nil =>
          cases tail with
          | nil => rfl
          | cons next after =>
            simp only [List.nil_append, if_neg (noComma next rfl)]
            rfl
        | cons next after =>
          simp only [List.cons_append]
          split
          · rw [Address.read_append stops]
            cases Address.read after <;> rfl
          · rfl

end Ranges

/-! ## Heads -/

/-- The head with more bytes after it. -/
def CommandHead.extend (tail : Bytes) (head : CommandHead) : CommandHead :=
  { head with tail := head.tail ++ tail }

section Heads

variable {line rest : Bytes}

theorem skips_splitName (line : Bytes) : Skips line (splitName line).2 := by
  unfold splitName
  split
  · exact Skips.refl _
  · rename_i byte rest
    split
    · rename_i isBang
      exact Skips.cons (by rw [isBang]; decide)
    · exact Skips.dropWhile _ rfl _

theorem skips_splitBang (name line : Bytes) : Skips line (splitBang name line).2 := by
  unfold splitBang
  split
  · exact Skips.refl _
  · rename_i byte rest
    split
    · rename_i isBang
      simp only [Bool.and_eq_true, decide_eq_true_eq] at isBang
      exact Skips.cons (by rw [isBang.1.1]; decide)
    · exact Skips.refl _

theorem CommandHead.skips_of_read
    {head : CommandHead}
    (found : CommandHead.read line = .ok head) :
    Skips line head.tail := by
  unfold CommandHead.read at found
  cases readRange : RangeSpec.read line with
  | error error => simp [readRange, bind, Except.bind] at found
  | ok result =>
    obtain ⟨range, afterRange⟩ := result
    simp only [readRange, bind, Except.bind, pure, Except.pure, Except.ok.injEq] at found
    subst found
    have overRange := RangeSpec.skips_of_read readRange
    have overBlanks := Skips.dropWhile Byte.isBlank rfl afterRange
    have overName := skips_splitName afterRange.skipBlanks
    have overBang := skips_splitBang (splitName afterRange.skipBlanks).1
      (splitName afterRange.skipBlanks).2
    have overLast := Skips.dropWhile Byte.isBlank rfl
      (splitBang (splitName afterRange.skipBlanks).1 (splitName afterRange.skipBlanks).2).2
    exact (((overRange.trans overBlanks).trans overName).trans overBang).trans overLast

theorem splitName_append
    {tail : Bytes}
    (noName : Stops Byte.isNameByte tail)
    (noBang : Stops (· == Byte.bang) tail)
    (line : Bytes) :
    splitName (line ++ tail) = ((splitName line).1, (splitName line).2 ++ tail) := by
  cases line with
  | nil =>
    cases tail with
    | nil => rfl
    | cons byte rest =>
      have notBang : byte ≠ Byte.bang := by simpa using noBang byte rfl
      have notName := noName byte rfl
      simp only [List.nil_append, splitName, if_neg notBang]
      rw [List.takeWhile_cons_of_neg (by simp [notName]),
        List.dropWhile_cons_of_neg (by simp [notName])]
  | cons byte line =>
    have taken := takeWhile_append_of_stop noName (byte :: line)
    have dropped := dropWhile_append_of_stop noName (byte :: line)
    rw [List.cons_append] at taken dropped
    simp only [List.cons_append, splitName, taken, dropped]
    split <;> rfl

theorem splitBang_append
    {tail : Bytes}
    (noBang : Stops (· == Byte.bang) tail)
    (name line : Bytes) :
    splitBang name (line ++ tail) = ((splitBang name line).1, (splitBang name line).2 ++ tail) := by
  cases line with
  | nil =>
    cases tail with
    | nil => rfl
    | cons byte rest =>
      have notBang : byte ≠ Byte.bang := by simpa using noBang byte rfl
      simp [splitBang, notBang]
  | cons byte line =>
    simp only [List.cons_append, splitBang]
    split <;> rfl

/-- In front of a bar the head of a command is read as if nothing followed. -/
theorem CommandHead.read_bar (line rest : Bytes) :
    CommandHead.read (line ++ Byte.bar :: rest)
      = (CommandHead.read line).map (CommandHead.extend (Byte.bar :: rest)) := by
  have stops {holds : UInt8 → Bool} (noBar : holds Byte.bar = false) :
      Stops holds (Byte.bar :: rest) := by
    intro byte first
    cases first
    exact noBar
  have skipped (bytes : Bytes) :
      (bytes ++ Byte.bar :: rest).skipBlanks = bytes.skipBlanks ++ Byte.bar :: rest :=
    dropWhile_append_of_stop (stops rfl) bytes
  unfold CommandHead.read
  rw [RangeSpec.read_append (stops rfl)]
  cases RangeSpec.read line with
  | error error => rfl
  | ok found =>
    obtain ⟨range, afterRange⟩ := found
    simp only [Except.map, bind, Except.bind, skipped, splitName_append (stops rfl) (stops rfl),
      splitBang_append (stops rfl)]
    rfl

/-- The blanks and colons in front of a head. -/
def Byte.leads (byte : UInt8) : Bool :=
  isBlank byte || byte == colon

/-- The head of a line without blanks and colons in front. -/
def Head.start : Bytes → Except RangeError Head
  | [] => .ok (.empty none)
  | byte :: rest =>
    if byte = Byte.doubleQuote then .ok .comment
    else if byte = Byte.bar then .ok (.empty (some rest))
    else (CommandHead.read (byte :: rest)).map .command

theorem Head.read_eq_start (line : Bytes) :
    Head.read line = Head.start (line.dropWhile Byte.leads) := by
  have sameStart : (line.dropWhile fun byte => Byte.isBlank byte || byte == Byte.colon)
      = line.dropWhile Byte.leads := rfl
  unfold Head.read Head.start
  rw [sameStart]
  cases line.dropWhile Byte.leads with
  | nil => rfl
  | cons byte rest =>
    simp only
    split
    · rfl
    split
    · rfl
    · cases CommandHead.read (byte :: rest) <;> rfl

theorem Head.skips_of_read_empty
    (found : Head.read line = .ok (.empty (some rest))) :
    Skips line rest := by
  have started := Skips.dropWhile Byte.leads rfl line
  rw [Head.read_eq_start] at found
  cases atStart : line.dropWhile Byte.leads with
  | nil =>
    rw [atStart] at found
    cases found
  | cons byte after =>
    rw [atStart] at found started
    simp only [Head.start] at found
    split at found
    · cases found
    split at found
    · rename_i isBar
      cases found
      exact started.trans (Skips.cons (by rw [isBar]; decide))
    · cases read : CommandHead.read (byte :: after) <;> rw [read] at found <;> cases found

theorem Head.skips_of_read_command
    {head : CommandHead}
    (found : Head.read line = .ok (.command head)) :
    Skips line head.tail := by
  have started := Skips.dropWhile Byte.leads rfl line
  rw [Head.read_eq_start] at found
  cases atStart : line.dropWhile Byte.leads with
  | nil =>
    rw [atStart] at found
    cases found
  | cons byte after =>
    rw [atStart] at found started
    simp only [Head.start] at found
    split at found
    · cases found
    split at found
    · cases found
    · cases read : CommandHead.read (byte :: after) with
      | error error =>
        rw [read] at found
        cases found
      | ok readHead =>
        rw [read] at found
        cases found
        exact started.trans (CommandHead.skips_of_read read)

theorem Head.mem_of_read_comment
    (found : Head.read line = .ok .comment) :
    Byte.doubleQuote ∈ line := by
  have started := Skips.dropWhile Byte.leads rfl line
  rw [Head.read_eq_start] at found
  cases atStart : line.dropWhile Byte.leads with
  | nil =>
    rw [atStart] at found
    cases found
  | cons byte after =>
    rw [atStart] at found started
    simp only [Head.start] at found
    split at found
    · rename_i isQuote
      exact isQuote ▸ started.subset List.mem_cons_self
    split at found
    · cases found
    · cases read : CommandHead.read (byte :: after) <;> rw [read] at found <;> cases found

/-- What a head becomes when a bar follows it. -/
def Head.beforeBar (rest : Bytes) : Head → Head
  | .empty _ => .empty (some rest)
  | .comment => .comment
  | .command head => .command (head.extend (Byte.bar :: rest))

theorem Head.read_bar
    (noComment : Byte.doubleQuote ∉ line)
    (noBar : Byte.bar ∉ line)
    (rest : Bytes) :
    Head.read (line ++ Byte.bar :: rest) = (Head.read line).map (Head.beforeBar rest) := by
  have stops : Stops Byte.leads (Byte.bar :: rest) := by
    intro byte first
    cases first
    rfl
  have started := Skips.dropWhile Byte.leads rfl line
  rw [Head.read_eq_start, Head.read_eq_start, dropWhile_append_of_stop stops]
  cases atStart : line.dropWhile Byte.leads with
  | nil => rfl
  | cons byte after =>
    rw [atStart] at started
    have inLine : byte ∈ line := started.subset List.mem_cons_self
    have notComment : byte ≠ Byte.doubleQuote := by
      rintro rfl
      exact noComment inLine
    have notBar : byte ≠ Byte.bar := by
      rintro rfl
      exact noBar inLine
    have read := CommandHead.read_bar (byte :: after) rest
    rw [List.cons_append] at read
    simp only [List.cons_append, Head.start, if_neg notComment, if_neg notBar, read]
    cases CommandHead.read (byte :: after) <;> rfl

end Heads

/-! ## Segments -/

namespace Segment

/-- The separator and what follows it. -/
def Cut.after (cut : Cut) : Bytes :=
  match cut.rest with
  | none => []
  | some rest => Byte.bar :: rest

theorem Cut.after_consAmpersand (byte : UInt8) (cut : Cut) :
    (cut.consAmpersand byte).after = cut.after := by
  unfold consAmpersand
  split <;> rfl

theorem Cut.text_consAmpersand (byte : UInt8) (cut : Cut) :
    (cut.consAmpersand byte).text = byte :: cut.text := by
  unfold consAmpersand
  split <;> rfl

/-- A scan loses no byte. -/
theorem eq_of_scan
    {mode : TailMode}
    {quote : Option UInt8}
    {literal : Bool}
    {bytes : Bytes}
    {cut : Cut}
    (scanned : scan mode quote literal bytes = .ok cut) :
    bytes = cut.text ++ cut.after := by
  fun_induction scan mode quote literal bytes generalizing cut with
  | case1 => cases scanned
  | case2 =>
    cases scanned
    rfl
  | case9 =>
    rename_i separates
    simp only [Bool.and_eq_true, beq_iff_eq] at separates
    cases scanned
    rw [separates.2]
    rfl
  | case10 =>
    rename_i inductionHypothesis
    simp only [bind, Except.bind, pure, Except.pure] at scanned
    split at scanned
    · cases scanned
    · rename_i later found
      cases scanned
      rw [Cut.after_consAmpersand, Cut.text_consAmpersand, List.cons_append,
        ← inductionHypothesis found]
  | _ =>
    rename_i inductionHypothesis
    simp only [bind, Except.bind, pure, Except.pure] at scanned
    split at scanned
    · cases scanned
    · rename_i later found
      cases scanned
      exact congrArg (_ :: ·) (inductionHypothesis found)

/-- Without backslashes and quotes the first bar separates. Ampersands do not
matter, doubled ones included. -/
theorem scan_first_bar
    {mode : TailMode}
    {bytes rest : Bytes}
    (separates : mode.hasSeparator)
    (plain : ∀ byte ∈ bytes, isSyntax byte → byte = Byte.ampersand)
    (alone : rest.head? ≠ some Byte.bar) :
    ∃ cut, scan mode none false (bytes ++ Byte.bar :: rest) = .ok cut ∧ cut.rest = some rest := by
  induction isLength : bytes.length using Nat.strongRecOn generalizing bytes with
  | _ length inductionHypothesis =>
    cases bytes with
    | nil => exact ⟨_, scan_bar separates (.inr alone), rfl⟩
    | cons byte bytes =>
      rw [List.length_cons] at isLength
      have plainLater : ∀ other ∈ bytes, isSyntax other → other = Byte.ampersand :=
        fun other member => plain other (List.mem_cons_of_mem _ member)
      obtain ⟨cut, scanned, left⟩ :=
        inductionHypothesis bytes.length (by omega) plainLater rfl
      rw [List.cons_append]
      by_cases carries : isSyntax byte
      · obtain rfl := plain byte List.mem_cons_self carries
        by_cases doubled : mode.hasOperators = true ∧ bytes.head? = some Byte.ampersand
        · obtain ⟨operators, isPair⟩ := doubled
          obtain ⟨others, rfl⟩ := List.head?_eq_some_iff.mp isPair
          rw [List.length_cons] at isLength
          obtain ⟨cut, scanned, left⟩ := inductionHypothesis others.length (by omega)
            (fun other member => plainLater other (List.mem_cons_of_mem _ member)) rfl
          refine ⟨(cut.cons Byte.ampersand).cons Byte.ampersand, ?_, left⟩
          rw [List.cons_append, scan_operator operators (.inr rfl), scan_literal, scanned]
          rfl
        · have single : mode.hasOperators = false
              ∨ (bytes ++ Byte.bar :: rest).head? ≠ some Byte.ampersand := by
            cases operators : mode.hasOperators with
            | false => exact .inl rfl
            | true =>
              refine .inr fun pair => ?_
              cases bytes with
              | nil =>
                have same : Byte.bar = Byte.ampersand := Option.some.inj pair
                exact absurd same (by decide)
              | cons next others => exact doubled ⟨operators, pair⟩
          refine ⟨cut.consAmpersand Byte.ampersand, ?_, by rw [Cut.rest_consAmpersand, left]⟩
          rw [scan_ampersand single, scanned]
          rfl
      · refine ⟨cut.cons byte, ?_, left⟩
        rw [scan_plain (Bool.eq_false_iff.mpr carries), scanned]
        rfl

theorem split_first_bar
    {mode : TailMode}
    {bytes rest : Bytes}
    (separates : mode.hasSeparator)
    (plain : ∀ byte ∈ bytes, isSyntax byte → byte = Byte.ampersand)
    (alone : rest.head? ≠ some Byte.bar) :
    ∃ segment, split mode (bytes ++ Byte.bar :: rest) = .ok segment
      ∧ segment.rest = some rest := by
  obtain ⟨cut, scanned, left⟩ := scan_first_bar separates plain alone
  unfold split
  rw [scanned]
  simp only
  split
  · split <;> exact ⟨_, rfl, left⟩
  · exact ⟨_, rfl, left⟩

/-- What follows a separator is a suffix of what was split. -/
theorem suffix_of_split
    {mode : TailMode}
    {tail rest : Bytes}
    {segment : Segment}
    (cutOff : split mode tail = .ok segment)
    (left : segment.rest = some rest) :
    Byte.bar :: rest <:+ tail := by
  unfold split at cutOff
  split at cutOff
  · cases cutOff
  · rename_i cut scanned
    have restOfCut : segment.rest = cut.rest := by
      split at cutOff
      · split at cutOff <;> cases cutOff <;> rfl
      · cases cutOff
        rfl
    have whole := eq_of_scan scanned
    rw [Cut.after, ← restOfCut, left] at whole
    rw [whole]
    exact List.suffix_append cut.text _

end Segment

theorem suffix_of_plainRest
    {tail rest : Bytes}
    (left : plainRest tail = some rest) :
    Byte.bar :: rest <:+ tail := by
  unfold plainRest at left
  split at left
  · rename_i segment cutOff
    exact Segment.suffix_of_split cutOff left
  · cases left

/-! ## Sub-commands -/

namespace Step

theorem suffix_of_named
    {chain : List Registry}
    {active : Bool}
    {head : CommandHead}
    {rest : Bytes}
    (left : (named chain active head).rest = some rest) :
    Byte.bar :: rest <:+ head.tail := by
  unfold named at left
  split at left
  · exact suffix_of_plainRest left
  · split at left
    · split at left
      · cases left
      · exact suffix_of_plainRest left
    · rename_i segment cutOff
      have restOfSegment : segment.rest = some rest := by
        split at left <;> exact left
      exact Segment.suffix_of_split cutOff restOfSegment

/-- What is left of a line after a sub-command is a suffix of the line. -/
theorem suffix_of_read
    {chain : List Registry}
    {active : Bool}
    {line rest : Bytes}
    (left : (read chain active line).rest = some rest) :
    rest <:+ line := by
  unfold read at left
  split at left
  · cases left
  · rename_i headRest found
    exact (Head.skips_of_read_empty (left ▸ found)).suffix
  · cases left
  · rename_i head found
    have tailSuffix := (Head.skips_of_read_command found).suffix
    have afterBar : Byte.bar :: rest <:+ head.tail := by
      split at left
      · exact suffix_of_plainRest (rest_nameless active head ▸ left)
      · exact suffix_of_named left
    exact ((List.suffix_cons _ _).trans afterBar).trans tailSuffix

end Step

end ExLine

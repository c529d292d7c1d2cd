import ExLine.Line.Arguments
import ExLine.Proofs.Line.Rest
import ExLine.Proofs.Line.Segment
import Mathlib.Data.List.TakeWhile

/-!
Contract: blanks at the end of a line.

Owns:
- `Bytes.escapesNext`, whether a backslash escapes what follows a text;
- `Bytes.Padded`, a text with blanks after it that nothing escapes, which is
  what trimming takes away;
- for each reader of a line, that it reads a padded line as the line itself and
  leaves a padded rest, up to `Step.read_padded`.

Does not own: what running a padded line does
(`ExLine.Proofs.Engine.Bodies`).

Trimming counts the backslashes in front of a blank from the right, and the
scan for a separator keeps a flag from the left. `escapesNext` is the flag, and
`escapesNext_reverse` ties it to the count.
-/

set_option autoImplicit false

namespace ExLine

/-! ## Escapes -/

namespace Bytes

/-- Whether the byte after a text is escaped. `escaped` tells the same for the
first byte of the text. -/
def escapesNext (escaped : Bool) : Bytes → Bool
  | [] => escaped
  | byte :: rest => escapesNext (!escaped && byte == Byte.backslash) rest

theorem escapesNext_cons_of_ne
    {byte : UInt8}
    (noBackslash : byte ≠ Byte.backslash)
    (escaped : Bool)
    (bytes : Bytes) :
    escapesNext escaped (byte :: bytes) = escapesNext false bytes := by
  rw [escapesNext, beq_eq_false_iff_ne.mpr noBackslash, Bool.and_false]

theorem escapesNext_append (escaped : Bool) (first second : Bytes) :
    escapesNext escaped (first ++ second) = escapesNext (escapesNext escaped first) second := by
  induction first generalizing escaped with
  | nil => rfl
  | cons byte first inductionHypothesis => exact inductionHypothesis _

theorem escapesNext_of_noBackslash {text : Bytes} (noBackslash : Byte.backslash ∉ text) :
    escapesNext false text = false := by
  induction text with
  | nil => rfl
  | cons byte text inductionHypothesis =>
    have other : (byte == Byte.backslash) = false := by
      rw [beq_eq_false_iff_ne]
      rintro rfl
      exact noBackslash List.mem_cons_self
    rw [escapesNext, other, Bool.and_false]
    exact inductionHypothesis fun member => noBackslash (List.mem_cons_of_mem _ member)

theorem Skips.escapesNext {line rest : Bytes} (skips : Skips line rest) :
    escapesNext false line = escapesNext false rest := by
  obtain ⟨skipped, rfl, noBackslash⟩ := skips
  rw [escapesNext_append, escapesNext_of_noBackslash noBackslash]

/-- A backslash escapes what follows it exactly if it ends an odd run. -/
theorem escapesNext_reverse (before : Bytes) :
    escapesNext false before.reverse
      = ((before.takeWhile (· == Byte.backslash)).length % 2 == 1) := by
  induction before with
  | nil => rfl
  | cons byte before inductionHypothesis =>
    rw [List.reverse_cons, escapesNext_append, inductionHypothesis]
    by_cases isBackslash : byte = Byte.backslash
    · subst isBackslash
      rw [List.takeWhile_cons_of_pos rfl, List.length_cons]
      generalize (before.takeWhile (· == Byte.backslash)).length = count
      rcases Nat.mod_two_eq_zero_or_one count with even | odd
      · have flips : (count + 1) % 2 = 1 := by omega
        rw [even, flips]
        rfl
      · have flips : (count + 1) % 2 = 0 := by omega
        rw [odd, flips]
        rfl
    · have other : (byte == Byte.backslash) = false := beq_eq_false_iff_ne.mpr isBackslash
      rw [List.takeWhile_cons_of_neg (by simp [isBackslash])]
      show (!_ && byte == Byte.backslash) = false
      rw [other, Bool.and_false]

theorem escapesNext_blanks {blanks : Bytes} (blank : ∀ byte ∈ blanks, Byte.isBlank byte) :
    escapesNext false blanks = false := by
  apply escapesNext_of_noBackslash
  intro member
  exact absurd (blank _ member) (by decide)

/-! ## Padding -/

/-- `long` is `short` with blanks after it that nothing escapes. -/
inductive Padded (short : Bytes) : Bytes → Prop where
  | none : Padded short short
  | blanks
      {blanks : Bytes}
      (blank : ∀ byte ∈ blanks, Byte.isBlank byte)
      (unescaped : escapesNext false short = false) :
      Padded short (short ++ blanks)

variable {short long : Bytes}

theorem Padded.dropWhile
    (padded : Padded short long)
    (holds : UInt8 → Bool)
    (noBackslash : holds Byte.backslash = false)
    (overBlanks : ∀ byte, Byte.isBlank byte → holds byte) :
    Padded (short.dropWhile holds) (long.dropWhile holds) := by
  cases padded with
  | none => exact .none
  | blanks blank unescaped =>
    rw [List.dropWhile_append]
    split
    · rename_i ended
      rw [List.isEmpty_iff.mp ended, List.dropWhile_eq_nil_iff.mpr fun byte member =>
        overBlanks byte (blank byte member)]
      exact .none
    · rw [(Skips.dropWhile holds noBackslash short).escapesNext] at unescaped
      exact .blanks blank unescaped

theorem Padded.skipBlanks (padded : Padded short long) :
    Padded short.skipBlanks long.skipBlanks :=
  padded.dropWhile Byte.isBlank rfl fun _ blank => blank

theorem stops_blanks
    {blanks : Bytes}
    (blank : ∀ byte ∈ blanks, Byte.isBlank byte)
    (holds : UInt8 → Bool)
    (noSpace : holds Byte.space = false)
    (noTab : holds Byte.tab = false) :
    Stops holds blanks := by
  intro byte first
  have isBlank := blank byte (List.mem_of_mem_head? first)
  simp only [Byte.isBlank, Bool.or_eq_true, beq_iff_eq] at isBlank
  rcases isBlank with rfl | rfl
  · exact noSpace
  · exact noTab

end Bytes

open Bytes

namespace Arguments

variable {short long : Bytes}

/-- What trimming drops from a reversed text is padding. -/
theorem padded_dropUnescapedBlanks (reversed : Bytes) :
    Padded (dropUnescapedBlanks reversed).reverse reversed.reverse := by
  induction reversed with
  | nil => exact .none
  | cons byte before inductionHypothesis =>
    unfold dropUnescapedBlanks
    simp only
    split
    · rename_i drops
      simp only [Bool.and_eq_true, beq_iff_eq] at drops
      obtain ⟨blank, even⟩ := drops
      have unescaped : escapesNext false before.reverse = false := by
        rw [escapesNext_reverse, even]
        rfl
      have blankByte : ∀ other ∈ [byte], Byte.isBlank other := by
        intro other member
        rwa [List.mem_singleton.mp member]
      rw [List.reverse_cons]
      generalize before.reverse = text at inductionHypothesis unescaped
      cases inductionHypothesis with
      | none => exact .blanks blankByte unescaped
      | blanks earlier earlierUnescaped =>
        rw [List.append_assoc]
        refine .blanks (fun other member => ?_) earlierUnescaped
        rcases List.mem_append.mp member with inside | last
        · exact earlier other inside
        · exact blankByte other last
    · exact .none

theorem padded_trim (line : Bytes) : Padded (trim line) line := by
  have padded := padded_dropUnescapedBlanks line.reverse
  rwa [List.reverse_reverse] at padded

theorem dropUnescapedBlanks_append
    {text blanks : Bytes}
    (blank : ∀ byte ∈ blanks, Byte.isBlank byte)
    (unescaped : escapesNext false text.reverse = false) :
    dropUnescapedBlanks (blanks ++ text) = dropUnescapedBlanks text := by
  induction blanks with
  | nil => rfl
  | cons byte blanks inductionHypothesis =>
    have blankLater : ∀ other ∈ blanks, Byte.isBlank other :=
      fun other member => blank other (List.mem_cons_of_mem _ member)
    have even : ((blanks ++ text).takeWhile (· == Byte.backslash)).length % 2 = 0 := by
      have flag := escapesNext_reverse (blanks ++ text)
      rw [List.reverse_append, escapesNext_append, unescaped, escapesNext_blanks
        fun other member => blankLater other (List.mem_reverse.mp member)] at flag
      have notOdd := beq_eq_false_iff_ne.mp flag.symm
      omega
    rw [List.cons_append, dropUnescapedBlanks]
    simp only [blank byte List.mem_cons_self, even]
    exact inductionHypothesis blankLater

/-- Padding is trimmed away. -/
theorem trim_of_padded (padded : Padded short long) : trim long = trim short := by
  cases padded with
  | none => rfl
  | blanks blank unescaped =>
    unfold trim
    rw [List.reverse_append, dropUnescapedBlanks_append
      (fun byte member => blank byte (List.mem_reverse.mp member))
      (by rw [List.reverse_reverse]; exact unescaped)]

end Arguments

/-! ## Heads -/

section Heads

variable {short long : Bytes}

theorem splitName_padded (padded : Padded short long) :
    (splitName long).1 = (splitName short).1
      ∧ Padded (splitName short).2 (splitName long).2 := by
  cases padded with
  | none => exact ⟨rfl, .none⟩
  | blanks blank unescaped =>
    rw [splitName_append (stops_blanks blank _ rfl rfl) (stops_blanks blank _ rfl rfl)]
    exact ⟨rfl, .blanks blank ((skips_splitName short).escapesNext ▸ unescaped)⟩

theorem splitBang_padded (padded : Padded short long) (name : Bytes) :
    (splitBang name long).1 = (splitBang name short).1
      ∧ Padded (splitBang name short).2 (splitBang name long).2 := by
  cases padded with
  | none => exact ⟨rfl, .none⟩
  | blanks blank unescaped =>
    rw [splitBang_append (stops_blanks blank _ rfl rfl)]
    exact ⟨rfl, .blanks blank ((skips_splitBang name short).escapesNext ▸ unescaped)⟩

/-- What reading a head yields, of a line and of the padded line. -/
inductive CommandHead.ReadsPadded :
    Except RangeError CommandHead → Except RangeError CommandHead → Prop where
  | error (error : RangeError) : ReadsPadded (.error error) (.error error)
  | ok (head : CommandHead) {tail : Bytes} (padded : Padded head.tail tail) :
      ReadsPadded (.ok head) (.ok { head with tail })

theorem CommandHead.read_padded (padded : Padded short long) :
    ReadsPadded (CommandHead.read short) (CommandHead.read long) := by
  have ranges : (∃ error, RangeSpec.read short = .error error ∧ RangeSpec.read long = .error error)
      ∨ ∃ range rest restLong, RangeSpec.read short = .ok (range, rest)
        ∧ RangeSpec.read long = .ok (range, restLong) ∧ Padded rest restLong := by
    cases padded with
    | none =>
      cases RangeSpec.read short with
      | error error => exact .inl ⟨error, rfl, rfl⟩
      | ok found => exact .inr ⟨found.1, found.2, found.2, rfl, rfl, .none⟩
    | blanks blank unescaped =>
      rw [RangeSpec.read_append (stops_blanks blank _ rfl rfl)]
      cases readRange : RangeSpec.read short with
      | error error => exact .inl ⟨error, rfl, rfl⟩
      | ok found =>
        have skips := RangeSpec.skips_of_read readRange
        exact .inr ⟨found.1, found.2, _, rfl, rfl, .blanks blank (skips.escapesNext ▸ unescaped)⟩
  unfold CommandHead.read
  obtain ⟨error, readShort, readLong⟩ | ⟨range, rest, restLong, readShort, readLong, after⟩ :=
    ranges
  · rw [readShort, readLong]
    exact .error error
  · obtain ⟨sameName, afterName⟩ := splitName_padded after.skipBlanks
    obtain ⟨sameBang, afterBang⟩ := splitBang_padded afterName (splitName rest.skipBlanks).1
    rw [readShort, readLong]
    simp only [bind, Except.bind, pure, Except.pure, sameName, sameBang]
    exact .ok _ afterBang.skipBlanks

/-- The same for a sub-command. -/
inductive Head.ReadsPadded : Except RangeError Head → Except RangeError Head → Prop where
  | error (error : RangeError) : ReadsPadded (.error error) (.error error)
  | empty {rest restLong : Option Bytes} (padded : Option.Rel Padded rest restLong) :
      ReadsPadded (.ok (.empty rest)) (.ok (.empty restLong))
  | comment : ReadsPadded (.ok .comment) (.ok .comment)
  | command (head : CommandHead) {tail : Bytes} (padded : Padded head.tail tail) :
      ReadsPadded (.ok (.command head)) (.ok (.command { head with tail }))

theorem Head.readsPadded_refl (found : Except RangeError Head) : ReadsPadded found found := by
  cases found with
  | error error => exact .error error
  | ok head =>
    cases head with
    | empty rest =>
      cases rest with
      | none => exact .empty .none
      | some rest => exact .empty (.some .none)
    | comment => exact .comment
    | command head => exact .command head .none

theorem Head.read_padded (padded : Padded short long) :
    ReadsPadded (Head.read short) (Head.read long) := by
  cases padded with
  | none => exact readsPadded_refl _
  | @blanks blanks blank unescaped =>
    have overBlanks : ∀ byte, Byte.isBlank byte → Byte.leads byte := by
      intro byte isBlank
      rw [Byte.leads, isBlank, Bool.true_or]
    rw [(Skips.dropWhile Byte.leads rfl short).escapesNext] at unescaped
    rw [read_eq_start, read_eq_start, List.dropWhile_append]
    cases atStart : short.dropWhile Byte.leads with
    | nil =>
      rw [List.dropWhile_eq_nil_iff.mpr fun byte member => overBlanks byte (blank byte member)]
      exact .empty .none
    | cons byte after =>
      rw [atStart] at unescaped
      have heads := CommandHead.read_padded (.blanks blank unescaped)
      simp only [List.isEmpty_cons, Bool.false_eq_true, if_false, List.cons_append, Head.start]
      split
      · exact .comment
      split
      · rename_i isBar
        have unescapedRest : escapesNext false after = false := by
          have overBar : Skips (byte :: after) after := .cons (by rw [isBar]; decide)
          rwa [overBar.escapesNext] at unescaped
        exact .empty (.some (.blanks blank unescapedRest))
      · rw [List.cons_append] at heads
        generalize CommandHead.read (byte :: after) = read at heads
        generalize CommandHead.read (byte :: (after ++ blanks)) = readLong at heads
        cases heads with
        | error error => exact .error error
        | ok head paddedTail => exact .command head paddedTail

end Heads

/-! ## Arguments and what follows them -/

namespace Segment

/-- The cut of a text with blanks after it: they belong to what follows the
separator, or else to the arguments. -/
def Cut.pad (blanks : Bytes) (cut : Cut) : Cut :=
  match cut.rest with
  | some rest => { cut with rest := some (rest ++ blanks) }
  | none => { cut with text := cut.text ++ blanks }

theorem Cut.pad_cons (blanks : Bytes) (byte : UInt8) (cut : Cut) :
    (cut.pad blanks).cons byte = (cut.cons byte).pad blanks := by
  obtain ⟨text, beforeMarker, rest⟩ := cut
  cases rest <;> rfl

theorem Cut.pad_consAmpersand
    {blanks : Bytes}
    (blank : ∀ byte ∈ blanks, Byte.isBlank byte)
    (byte : UInt8)
    (cut : Cut) :
    (cut.pad blanks).consAmpersand byte = (cut.consAmpersand byte).pad blanks := by
  have sameBlank : (cut.pad blanks).text.all Byte.isBlank = cut.text.all Byte.isBlank := by
    unfold pad
    split
    · rfl
    · rw [List.all_append, List.all_eq_true.mpr blank, Bool.and_true]
  unfold consAmpersand
  rw [sameBlank]
  split
  · obtain ⟨text, beforeMarker, rest⟩ := cut
    cases rest <;> rfl
  · exact pad_cons blanks byte cut

/-- How the flag of a scan goes with the escapes of the text. The two differ
between single quotes, where a backslash escapes nothing, and in the middle of
a doubled sign. -/
inductive Tracks : Option UInt8 → Bool → Bool → Bytes → Prop where
  | outside (escaped : Bool) {bytes : Bytes} : Tracks none escaped escaped bytes
  | double (escaped : Bool) {bytes : Bytes} :
      Tracks (some Byte.doubleQuote) escaped escaped bytes
  | single (escaped : Bool) {bytes : Bytes} : Tracks (some Byte.singleQuote) false escaped bytes
  | doubled {sign : UInt8} {bytes : Bytes} (noBackslash : sign ≠ Byte.backslash) :
      Tracks none true false (sign :: bytes)

theorem Tracks.isQuote
    {opening : UInt8}
    {literal escaped : Bool}
    {bytes : Bytes}
    (tracks : Tracks (some opening) literal escaped bytes) :
    opening = Byte.singleQuote ∨ opening = Byte.doubleQuote := by
  cases tracks with
  | double => exact .inr rfl
  | single => exact .inl rfl

theorem map_cons_pad (byte : UInt8) (blanks : Bytes) (scanned : Except UInt8 Cut) :
    (scanned.map (Cut.pad blanks)).map (Cut.cons byte)
      = (do return (← scanned).cons byte : Except UInt8 Cut).map (Cut.pad blanks) := by
  cases scanned with
  | error opening => rfl
  | ok cut => exact congrArg Except.ok (Cut.pad_cons blanks byte cut)

theorem scan_blanks_quoted
    {mode : TailMode}
    {opening : UInt8}
    {blanks : Bytes}
    (blank : ∀ byte ∈ blanks, Byte.isBlank byte)
    (isQuote : opening = Byte.singleQuote ∨ opening = Byte.doubleQuote)
    (literal : Bool) :
    scan mode (some opening) literal blanks = .error opening := by
  induction blanks generalizing literal with
  | nil => cases literal <;> rfl
  | cons byte blanks inductionHypothesis =>
    have later := inductionHypothesis fun other member =>
      blank other (List.mem_cons_of_mem _ member)
    have isBlank := blank byte List.mem_cons_self
    have different : byte ≠ opening := by
      rintro rfl
      rcases isQuote with rfl | rfl <;> cases isBlank
    have noBackslash : byte ≠ Byte.backslash := by
      rintro rfl
      cases isBlank
    cases literal with
    | true =>
      rw [scan_literal, later]
      rfl
    | false =>
      rw [scan_quoted different fun isBackslash => absurd isBackslash noBackslash, later]
      rfl

theorem Passes.blanks {mode : TailMode} {blanks : Bytes}
    (blank : ∀ byte ∈ blanks, Byte.isBlank byte) :
    Passes mode none none blanks := by
  refine .bytes fun byte member => .byte fun _ => scan_plain ?_
  have isBlank := blank byte member
  simp only [Byte.isBlank, Bool.or_eq_true, beq_iff_eq] at isBlank
  rcases isBlank with rfl | rfl <;> rfl

theorem scan_blanks {mode : TailMode} {blanks : Bytes}
    (blank : ∀ byte ∈ blanks, Byte.isBlank byte) :
    scan mode none false blanks = .ok ⟨blanks, none, none⟩ := by
  have passes : Passes mode none none blanks := .blanks blank
  have atEnd := passes []
  rw [List.append_nil] at atEnd
  rw [atEnd, ← Cut.prepend_stop]
  rfl

theorem alone_append
    {operators : Bool}
    {sign : UInt8}
    {rest blanks : Bytes}
    (blank : ∀ byte ∈ blanks, Byte.isBlank byte)
    (noBlank : Byte.isBlank sign = false)
    (alone : operators = false ∨ rest.head? ≠ some sign) :
    operators = false ∨ (rest ++ blanks).head? ≠ some sign := by
  refine alone.imp_right fun other => ?_
  cases rest with
  | cons first rest => exact other
  | nil =>
    intro follows
    have isBlank := blank sign (List.mem_of_mem_head? follows)
    rw [noBlank] at isBlank
    cases isBlank

/-- A scan reads blanks after a text as blanks, if nothing escapes them. -/
theorem scan_append_blanks
    {mode : TailMode}
    {quote : Option UInt8}
    {literal escaped : Bool}
    {text blanks : Bytes}
    (blank : ∀ byte ∈ blanks, Byte.isBlank byte)
    (tracks : Tracks quote literal escaped text)
    (unescaped : escapesNext escaped text = false) :
    scan mode quote literal (text ++ blanks)
      = (scan mode quote literal text).map (Cut.pad blanks) := by
  fun_induction scan mode quote literal text generalizing escaped with
  | case1 literal opening =>
    rw [List.nil_append, scan_blanks_quoted blank tracks.isQuote]
    rfl
  | case2 =>
    cases tracks
    cases unescaped
    rw [List.nil_append, scan_blanks blank]
    rfl
  | case3 quote byte rest inductionHypothesis =>
    -- The byte is taken as it is, so nothing after it is escaped.
    have next : Tracks quote false false rest ∧ escapesNext false rest = false := by
      cases tracks with
      | outside => exact ⟨.outside false, unescaped⟩
      | double => exact ⟨.double false, unescaped⟩
      | doubled noBackslash =>
        rw [escapesNext_cons_of_ne noBackslash] at unescaped
        exact ⟨.outside false, unescaped⟩
    rw [List.cons_append, scan_literal, inductionHypothesis next.1 next.2, map_cons_pad]
  | case4 literal rest notLiteral opening inductionHypothesis =>
    have noBackslash : opening ≠ Byte.backslash := by
      rcases tracks.isQuote with rfl | rfl <;> decide
    rw [escapesNext_cons_of_ne noBackslash] at unescaped
    rw [Bool.eq_false_iff.mpr notLiteral, List.cons_append, scan_close,
      inductionHypothesis (.outside false) unescaped, map_cons_pad]
  | case5 literal byte rest notLiteral opening notClosing escapes =>
    rename_i inductionHypothesis
    rw [Bool.not_eq_true] at notLiteral
    subst notLiteral
    by_cases isEscape : byte = Byte.backslash ∧ opening = Byte.doubleQuote
    · obtain ⟨rfl, rfl⟩ := isEscape
      cases tracks
      rw [List.cons_append, scan_quoted_escape]
      exact (congrArg _ (inductionHypothesis (.double true) unescaped)).trans
        (map_cons_pad _ _ _)
    · have noEscape : escapes = false := by
        show (byte == Byte.backslash && opening == Byte.doubleQuote) = false
        rw [Bool.eq_false_iff]
        intro both
        rw [Bool.and_eq_true, beq_iff_eq, beq_iff_eq] at both
        exact isEscape both
      rw [noEscape] at inductionHypothesis ⊢
      rw [List.cons_append, scan_quoted notClosing fun isBackslash isDouble =>
        isEscape ⟨isBackslash, isDouble⟩]
      refine (congrArg _ (?_ : _ = _)).trans (map_cons_pad _ _ _)
      cases tracks with
      | double =>
        rw [escapesNext_cons_of_ne fun isBackslash => isEscape ⟨isBackslash, rfl⟩] at unescaped
        exact inductionHypothesis (.double false) unescaped
      | single => exact inductionHypothesis (.single _) unescaped
  | case6 literal rest notLiteral inductionHypothesis =>
    rw [Bool.not_eq_true] at notLiteral
    subst notLiteral
    cases tracks
    rw [List.cons_append, scan_escape, inductionHypothesis (.outside true) unescaped, map_cons_pad]
  | case7 literal byte rest notLiteral noBackslash opens inductionHypothesis =>
    rw [Bool.not_eq_true] at notLiteral
    subst notLiteral
    rw [escapesNext_cons_of_ne noBackslash] at unescaped
    simp only [Bool.and_eq_true, Bool.or_eq_true, beq_iff_eq] at opens
    rw [List.cons_append, scan_open opens.1 opens.2]
    refine (congrArg _ (?_ : _ = _)).trans (map_cons_pad _ _ _)
    rcases opens.2 with rfl | rfl
    · exact inductionHypothesis (.single false) unescaped
    · exact inductionHypothesis (.double false) unescaped
  | case8 literal byte rest notLiteral noBackslash noQuote doubles inductionHypothesis =>
    rw [Bool.not_eq_true] at notLiteral
    subst notLiteral
    rw [escapesNext_cons_of_ne noBackslash] at unescaped
    simp only [Bool.and_eq_true, Bool.or_eq_true, beq_iff_eq] at doubles
    obtain ⟨⟨operators, isSign⟩, follows⟩ := doubles
    obtain ⟨after, rfl⟩ := List.head?_eq_some_iff.mp follows
    rw [List.cons_append, List.cons_append, scan_operator operators isSign, ← List.cons_append,
      inductionHypothesis (.doubled noBackslash) unescaped, map_cons_pad]
  | case9 literal byte rest notLiteral noBackslash noQuote notDoubled separates =>
    rw [Bool.not_eq_true] at notLiteral
    subst notLiteral
    simp only [Bool.and_eq_true, beq_iff_eq] at separates
    obtain ⟨separates, rfl⟩ := separates
    have alone : mode.hasOperators = false ∨ rest.head? ≠ some Byte.bar := by
      simpa [Classical.or_iff_not_imp_left] using notDoubled
    rw [List.cons_append, scan_bar separates (alone_append blank rfl alone)]
    rfl
  | case10 literal rest notLiteral noBackslash noQuote notDoubled noBar inductionHypothesis =>
    rw [Bool.not_eq_true] at notLiteral
    subst notLiteral
    rw [escapesNext_cons_of_ne noBackslash] at unescaped
    have alone : mode.hasOperators = false ∨ rest.head? ≠ some Byte.ampersand := by
      simpa [Classical.or_iff_not_imp_left] using notDoubled
    rw [List.cons_append, scan_ampersand (alone_append blank rfl alone),
      inductionHypothesis (.outside false) unescaped]
    cases scan mode none false rest with
    | error opening => rfl
    | ok cut => exact congrArg Except.ok (Cut.pad_consAmpersand blank _ cut)
  | case11 literal byte rest notLiteral noBackslash noQuote notDoubled noBar noAmpersand
      inductionHypothesis =>
    rw [Bool.not_eq_true] at notLiteral noQuote
    subst notLiteral
    rw [escapesNext_cons_of_ne noBackslash] at unescaped
    have ordinary : byte = Byte.bar → mode.hasOperators = false ∧ mode.hasSeparator = false := by
      rintro rfl
      cases mode with
      | raw detects => exact ⟨rfl, rfl⟩
      | plain | quoted | expression => exact absurd rfl noBar
    rw [List.cons_append, scan_ordinary noBackslash noAmpersand noQuote ordinary,
      inductionHypothesis (.outside false) unescaped, map_cons_pad]

/-- Segments that differ by padding. -/
structure Padded (short long : Segment) : Prop where
  body : Bytes.Padded short.body long.body
  background : long.background = short.background
  rest : Option.Rel Bytes.Padded short.rest long.rest

/-- What cutting off the arguments yields, of a tail and of the padded tail. -/
inductive SplitsPadded :
    Except CommandError Segment → Except CommandError Segment → Prop where
  | error (error : CommandError) : SplitsPadded (.error error) (.error error)
  | ok {short long : Segment} (padded : short.Padded long) : SplitsPadded (.ok short) (.ok long)

theorem rel_padded_refl (rest : Option Bytes) : Option.Rel Bytes.Padded rest rest := by
  cases rest with
  | none => exact .none
  | some rest => exact .some .none

theorem split_padded
    {short long : Bytes}
    (padded : Bytes.Padded short long)
    (mode : TailMode) :
    SplitsPadded (split mode short) (split mode long) := by
  cases padded with
  | none =>
    cases split mode short with
    | error error => exact .error error
    | ok segment => exact .ok ⟨.none, rfl, rel_padded_refl _⟩
  | @blanks blanks blank unescaped =>
    unfold split
    rw [scan_append_blanks blank (.outside false) unescaped]
    cases scanned : scan mode none false short with
    | error quote => exact .error _
    | ok cut =>
      have parts := eq_of_scan scanned
      obtain ⟨text, beforeMarker, rest⟩ := cut
      cases rest with
      | some rest =>
        have restUnescaped : escapesNext false rest = false := by
          rw [parts] at unescaped
          simp only [Cut.after] at unescaped
          rwa [escapesNext_append, escapesNext_cons_of_ne (by decide)] at unescaped
        have restPadded : Option.Rel Bytes.Padded (some rest) (some (rest ++ blanks)) :=
          .some (.blanks blank restUnescaped)
        cases beforeMarker with
        | none => exact .ok ⟨.none, rfl, restPadded⟩
        | some body =>
          simp only [Except.map, Cut.pad]
          split
          · exact .ok ⟨.none, rfl, restPadded⟩
          · exact .ok ⟨.none, rfl, restPadded⟩
      | none =>
        have textUnescaped : escapesNext false text = false := by
          rw [parts] at unescaped
          simp only [Cut.after] at unescaped
          rwa [List.append_nil] at unescaped
        cases beforeMarker with
        | none => exact .ok ⟨.blanks blank textUnescaped, rfl, .none⟩
        | some body =>
          simp only [Except.map, Cut.pad]
          split
          · exact .ok ⟨.none, rfl, .none⟩
          · exact .ok ⟨.blanks blank textUnescaped, rfl, .none⟩

end Segment

section Plain

variable {short long : Bytes}

theorem plainRest_eq_scan (tail : Bytes) :
    plainRest tail =
      match Segment.scan .plain none false tail with
      | .ok cut => cut.rest
      | .error _ => none := by
  unfold plainRest Segment.split
  cases Segment.scan .plain none false tail with
  | error quote => rfl
  | ok cut =>
    obtain ⟨text, beforeMarker, rest⟩ := cut
    cases beforeMarker <;> rfl

theorem plainRest_append_blanks
    {blanks : Bytes}
    (blank : ∀ byte ∈ blanks, Byte.isBlank byte)
    (unescaped : escapesNext false short = false) :
    plainRest (short ++ blanks) = (plainRest short).map (· ++ blanks) := by
  rw [plainRest_eq_scan, plainRest_eq_scan,
    Segment.scan_append_blanks blank (.outside false) unescaped]
  cases Segment.scan .plain none false short with
  | error quote => rfl
  | ok cut =>
    obtain ⟨text, beforeMarker, rest⟩ := cut
    cases rest <;> rfl

theorem plainRest_padded (padded : Padded short long) :
    Option.Rel Padded (plainRest short) (plainRest long) := by
  cases padded with
  | none => exact Segment.rel_padded_refl _
  | blanks blank unescaped =>
    rw [plainRest_append_blanks blank unescaped]
    cases left : plainRest short with
    | none => exact .none
    | some rest =>
      obtain ⟨before, rfl⟩ := suffix_of_plainRest left
      rw [escapesNext_append, escapesNext_cons_of_ne (by decide)] at unescaped
      exact .some (.blanks blank unescaped)

theorem plainBody_padded (padded : Padded short long) :
    Padded (plainBody short) (plainBody long) := by
  cases padded with
  | none => exact .none
  | @blanks blanks blank unescaped =>
    unfold plainBody
    rw [plainRest_append_blanks blank unescaped]
    cases plainRest short with
    | none => exact .blanks blank unescaped
    | some rest =>
      simp only [Option.map, List.length_append]
      rw [Nat.add_sub_add_right, List.take_append_of_le_length (by omega)]
      exact .none

end Plain

/-! ## Sub-commands -/

/-- Plans that differ by padding. -/
inductive Plan.Padded : Plan → Plan → Prop where
  | same (plan : Plan) : Padded plan plan
  | call (command : Command) (head : CommandHead) (tail : Bytes) {short long : Segment}
      (padded : short.Padded long) :
      Padded (.call command head short) (.call command { head with tail } long)

/-- Steps that differ by padding. -/
structure Step.Padded (short long : Step) : Prop where
  plan : Plan.Padded short.plan long.plan
  rest : Option.Rel Bytes.Padded short.rest long.rest

namespace Step

variable {active : Bool}

/-- The word that an unknown sub-command is called by ends at a blank. -/
theorem unknown_padded {short long : Bytes} (padded : Bytes.Padded short long) :
    nameless.unknown long = nameless.unknown short := by
  cases padded with
  | none => rfl
  | blanks blank unescaped =>
    have stops : Stops (fun byte => !Byte.isBlank byte) _ := stops_blanks blank _ rfl rfl
    unfold nameless.unknown
    simp only [takeWhile_append_of_stop stops]

theorem all_blank_padded {short long : Bytes} (padded : Bytes.Padded short long) :
    long.all Byte.isBlank = short.all Byte.isBlank := by
  cases padded with
  | none => rfl
  | blanks blank unescaped =>
    rw [List.all_append, List.all_eq_true.mpr blank, Bool.and_true]

theorem nameless_padded
    {head : CommandHead}
    {tail : Bytes}
    (padded : Bytes.Padded head.tail tail) :
    Step.Padded (nameless active head) (nameless active { head with tail }) := by
  have rests := plainRest_padded padded
  have bodies := plainBody_padded padded
  constructor
  · unfold nameless
    simp only [all_blank_padded bodies, unknown_padded bodies]
    cases active with
    | false => exact .same _
    | true =>
      cases head.range with
      | none => exact .same _
      | some range => cases (plainBody head.tail).all Byte.isBlank <;> exact .same _
  · rw [rest_nameless, rest_nameless]
    exact rests

theorem named_padded
    {chain : List Registry}
    {head : CommandHead}
    {tail : Bytes}
    (padded : Bytes.Padded head.tail tail) :
    Step.Padded (named chain active head) (named chain active { head with tail }) := by
  have rests := plainRest_padded padded
  unfold named
  simp only
  cases Registry.resolve chain head.name with
  | error error => exact ⟨.same _, rests⟩
  | ok command =>
    have segments := Segment.split_padded padded command.flags.tailMode
    simp only
    generalize Segment.split command.flags.tailMode head.tail = short at segments
    generalize Segment.split command.flags.tailMode tail = long at segments
    cases segments with
    | error error =>
      cases active with
      | true => exact ⟨.same _, .none⟩
      | false => exact ⟨.same _, rests⟩
    | ok segments =>
      simp only
      split
      · exact ⟨.call command head tail segments, segments.rest⟩
      · exact ⟨.same _, segments.rest⟩

/-- A padded line is read as the line itself, up to padding. -/
theorem read_padded
    {short long : Bytes}
    (padded : Bytes.Padded short long)
    (chain : List Registry) :
    Step.Padded (read chain active short) (read chain active long) := by
  have heads := Head.read_padded padded
  unfold read
  generalize Head.read short = head at heads
  generalize Head.read long = headLong at heads
  cases heads with
  | error error => exact ⟨.same _, .none⟩
  | empty rests => exact ⟨.same _, rests⟩
  | comment => exact ⟨.same _, .none⟩
  | command head tails =>
    simp only
    split
    · exact nameless_padded tails
    · exact named_padded tails

end Step

/-- A call with padding is built as the call itself. -/
theorem Invocation.build_padded
    {short long : Segment}
    (padded : short.Padded long)
    (engine : Engine)
    (command : Command)
    (head : CommandHead)
    (tail : Bytes) :
    Invocation.build engine command { head with tail } long
      = Invocation.build engine command head short := by
  unfold Invocation.build
  rw [Arguments.trim_of_padded padded.body, padded.background]

end ExLine

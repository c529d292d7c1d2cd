import ExLine.Proofs.Engine.Frames
import ExLine.Proofs.Line.Rest

/-!
Contract: which sub-commands hand the rest of their chain on.

Owns:
- `Bytes.Bare`, a text in which nothing can protect a bar;
- `Step.rest_read_bar`, by which the step of such a text leaves what follows
  the bar, whatever becomes of the sub-command;
- `Engine.chain_goes_on_iff`: a chain goes on exactly if the range in front of
  the sub-command can be read.

Does not own: what a sub-command does (`ExLine.Engine.Run`).

A range that cannot be read is the one failure that the reader meets before it
knows where the sub-command ends. It gives up there, and what follows on the
line is lost, in a branch that is not taken, too.
-/

set_option autoImplicit false

namespace ExLine

/-- No byte of the text separates, and none protects a separator. -/
structure Bytes.Bare (text : Bytes) : Prop where
  noBar : Byte.bar ∉ text
  noBackslash : Byte.backslash ∉ text
  noSingle : Byte.singleQuote ∉ text
  noDouble : Byte.doubleQuote ∉ text

namespace Bytes.Bare

variable {text part : Bytes}

theorem of_skips (bare : text.Bare) (skips : text.Skips part) : part.Bare :=
  ⟨fun member => bare.noBar (skips.subset member),
    fun member => bare.noBackslash (skips.subset member),
    fun member => bare.noSingle (skips.subset member),
    fun member => bare.noDouble (skips.subset member)⟩

theorem ampersand_of_syntax (bare : text.Bare) {byte : UInt8} (member : byte ∈ text)
    (carries : Segment.isSyntax byte) : byte = Byte.ampersand := by
  simp only [Segment.isSyntax, Bool.or_eq_true, beq_iff_eq] at carries
  rcases carries with (((rfl | rfl) | rfl) | rfl) | rfl
  · exact absurd member bare.noBackslash
  · exact absurd member bare.noSingle
  · exact absurd member bare.noDouble
  · exact absurd member bare.noBar
  · rfl

theorem split_bar
    {rest : Bytes}
    (bare : text.Bare)
    (mode : TailMode)
    (separates : mode.hasSeparator)
    (alone : rest.head? ≠ some Byte.bar) :
    ∃ segment, Segment.split mode (text ++ Byte.bar :: rest) = .ok segment
      ∧ segment.rest = some rest :=
  Segment.split_first_bar separates (fun _ member => bare.ampersand_of_syntax member) alone

theorem plainRest_bar
    {rest : Bytes}
    (bare : text.Bare)
    (alone : rest.head? ≠ some Byte.bar) :
    plainRest (text ++ Byte.bar :: rest) = some rest := by
  obtain ⟨segment, cutOff, left⟩ := bare.split_bar .plain rfl alone
  unfold plainRest
  rw [cutOff]
  exact left

end Bytes.Bare

theorem Flags.hasSeparator_tailMode {flags : Flags} (notRaw : flags.raw = false) :
    flags.tailMode.hasSeparator := by
  unfold tailMode
  rw [notRaw]
  cases flags.expression <;> cases flags.quotes <;> rfl

namespace Step

/-- The first word of a text means a command that takes the rest of the line. -/
def NamesRaw (chain : List Registry) (text : Bytes) : Prop :=
  ∃ head command, Head.read text = .ok (.command head) ∧ head.name.isEmpty = false
    ∧ Registry.resolve chain head.name = .ok command ∧ command.flags.raw = true

variable {chain : List Registry} {active : Bool} {text rest : Bytes}

theorem rest_named_bar
    {head : CommandHead}
    (bare : head.tail.Bare)
    (notRaw : ∀ command, Registry.resolve chain head.name = .ok command →
      command.flags.raw = false)
    (alone : rest.head? ≠ some Byte.bar) :
    (named chain active (head.extend (Byte.bar :: rest))).rest = some rest := by
  have plain := bare.plainRest_bar alone
  show (named chain active { head with tail := head.tail ++ Byte.bar :: rest }).rest = _
  unfold named
  simp only
  cases resolved : Registry.resolve chain head.name with
  | error error => exact plain
  | ok command =>
    obtain ⟨segment, cutOff, left⟩ :=
      bare.split_bar _ (Flags.hasSeparator_tailMode (notRaw command resolved)) alone
    simp only [cutOff]
    split <;> exact left

/-- Reading such a text leaves what follows the bar, whether the sub-command is
empty, nameless, unknown, ambiguous, skipped or called. -/
theorem rest_read_bar
    {found : Head}
    (bare : text.Bare)
    (notRaw : ¬ NamesRaw chain text)
    (alone : rest.head? ≠ some Byte.bar)
    (readHead : Head.read text = .ok found) :
    (read chain active (text ++ Byte.bar :: rest)).rest = some rest := by
  unfold read
  rw [Head.read_bar bare.noDouble bare.noBar, readHead]
  cases found with
  | empty _ => rfl
  | comment => exact absurd (Head.mem_of_read_comment readHead) bare.noDouble
  | command head =>
    have bareTail := bare.of_skips (Head.skips_of_read_command readHead)
    show (if head.name.isEmpty then nameless active (head.extend (Byte.bar :: rest))
      else named chain active (head.extend (Byte.bar :: rest))).rest = _
    cases named : head.name.isEmpty with
    | true =>
      rw [if_pos rfl, rest_nameless]
      exact bareTail.plainRest_bar alone
    | false =>
      rw [if_neg Bool.false_ne_true]
      refine rest_named_bar bareTail (fun command resolved => ?_) alone
      rw [Bool.eq_false_iff]
      intro raw
      exact notRaw ⟨head, command, readHead, named, resolved, raw⟩

theorem read_bar_of_error
    {error : RangeError}
    (bare : text.Bare)
    (unread : Head.read text = .error error) :
    read chain active (text ++ Byte.bar :: rest) = ⟨.fail (.invalidRange error), none⟩ := by
  unfold read
  rw [Head.read_bar bare.noDouble bare.noBar, unread]
  rfl

end Step

namespace Engine

/-- **A chain goes on exactly if the range of its sub-command can be read.** A
sub-command in front of a bar leaves all that follows the bar, whether it
succeeds, fails or is skipped, and the line goes on there. If the range in
front of it has a number or an offset that is too large, nothing is left: the
line ends with that error, and no later sub-command runs. -/
theorem chain_goes_on_iff
    {engine : Engine}
    {text rest : Bytes}
    (bare : text.Bare)
    (notRaw : ¬ Step.NamesRaw engine.chain text)
    (alone : rest.head? ≠ some Byte.bar) :
    let step := engine.readStep (text ++ Byte.bar :: rest)
    (step.rest = some rest ↔ ∃ head, Head.read text = .ok head)
    ∧ (∀ error, Head.read text = .error error → step = ⟨.fail (.invalidRange error), none⟩)
    ∧ (engine.scope.isFinished = false → ∀ (call : UserCall) (site : Site),
        engine.runLine call site (text ++ Byte.bar :: rest) =
          match Head.read text with
          | .error error => (.error (.invalidRange error), engine)
          | .ok _ =>
            let first := engine.perform call site step.plan
            let later := first.2.runLine call site rest
            (andThen first.1 later.1, later.2)) := by
  intro step
  refine ⟨?_, fun error unread => Step.read_bar_of_error bare unread, fun running call site => ?_⟩
  · constructor
    · intro left
      cases readHead : Head.read text with
      | ok head => exact ⟨head, rfl⟩
      | error error =>
        have gaveUp : step = _ := Step.read_bar_of_error bare readHead
        rw [gaveUp] at left
        cases left
    · rintro ⟨head, readHead⟩
      exact Step.rest_read_bar bare notRaw alone readHead
  · rw [runLine_eq, running]
    cases readHead : Head.read text with
    | error error =>
      have gaveUp : engine.readStep (text ++ Byte.bar :: rest) = _ :=
        Step.read_bar_of_error bare readHead
      rw [gaveUp]
      rfl
    | ok head =>
      have left : (engine.readStep (text ++ Byte.bar :: rest)).rest = some rest :=
        Step.rest_read_bar bare notRaw alone readHead
      rw [left]
      rfl

/-- An unknown name leaves the rest of its chain. A line number of twenty digits
takes it away, with an `endif` in it that is due. -/
theorem chain_goes_on_in_new_engine :
    (readStep {} (Utf8.ofString "nosuch arg " ++ Byte.bar :: Utf8.ofString " echo 1")).rest
        = some (Utf8.ofString " echo 1")
    ∧ runLine (withBranches {} ⟨[⟨true, false, false, false⟩]⟩) (runUser 64) ⟨.typed, 0⟩
        (Utf8.ofString "99999999999999999999 " ++ Byte.bar :: Utf8.ofString " endif")
      = (.error (.invalidRange (.numberTooLarge "99999999999999999999")),
          withBranches {} ⟨[⟨true, false, false, false⟩]⟩) := by
  refine ⟨?_, ?_⟩
  · have readHead : Head.read (Utf8.ofString "nosuch arg ")
        = .ok (.command ⟨none, "nosuch", false, Utf8.ofString "arg "⟩) := by decide +kernel
    have unknown : Registry.resolve (chain {}) "nosuch" = .error (.noSuchCommand "nosuch") := rfl
    refine (chain_goes_on_iff ⟨by decide, by decide, by decide, by decide⟩ ?_ (by decide)).1.mpr
      ⟨_, readHead⟩
    rintro ⟨head, command, found, -, resolved, -⟩
    rw [readHead] at found
    cases found
    rw [unknown] at resolved
    cases resolved
  · have unread : Head.read (Utf8.ofString "99999999999999999999 ")
        = .error (.numberTooLarge "99999999999999999999") := rfl
    refine ((chain_goes_on_iff ⟨by decide, by decide, by decide, by decide⟩ ?_ (by decide)).2.2
      rfl _ _).trans ?_
    · rintro ⟨head, command, found, -⟩
      rw [unread] at found
      cases found
    · rw [unread]

end Engine

end ExLine

import ExLine.Proofs.Engine.Recovery
import ExLine.Proofs.Line.Trimming

/-!
Contract: texts that are handed to the shell.

Owns:
- `Engine.IsShellText`, the texts that ask for one program in the foreground;
- `Engine.execute_shellLine` and `Engine.execute_shellBody`, what `!` and a
  user command launch for such a text;
- `Engine.shell_text_verbatim_iff`.

Does not own: what the shell makes of a text (`ExLine.Shell.Run`).

Both ways take away the blanks around the text, up to an escaped one. What is
left is trimmed once more, now of all white space: on both sides after `!`, and
at the end of a body. The second trimming knows no escapes.
-/

set_option autoImplicit false

namespace ExLine.Engine

open Chars

/-- A text for the shell has no percent sign, is more than blanks, starts with
no colon after them, and has no background marker. -/
structure IsShellText (text : List Char) : Prop where
  noPercent : '%' ∉ text
  nonblank : text.all isBlank = false
  noLine : (text.dropWhile isBlank).head? ≠ some ':'
  foreground : ∃ segment, Segment.split (.raw true) (Utf8.encode text) = .ok segment
    ∧ segment.background = false

/-- The engine after one request to the shell, in the foreground. -/
def launched (engine : Engine) (text : List Char) : Engine :=
  { engine with
    launches := engine.launches
      ++ [⟨[engine.config.shell, engine.config.shellFlag, String.ofList text], false⟩] }

theorem launched_inj {engine : Engine} {first second : List Char} :
    engine.launched first = engine.launched second ↔ first = second := by
  constructor
  · intro same
    have sameLaunches := congrArg Engine.launches same
    simp only [launched, List.append_cancel_left_eq, List.cons.injEq, Launch.mk.injEq, true_and,
      and_true] at sameLaunches
    exact String.ofList_injective sameLaunches
  · rintro rfl
    rfl

theorem runShell_snd (engine : Engine) (text : List Char) :
    (engine.runShell (String.ofList text) false).2 = engine.launched text := by
  unfold runShell launch
  simp only
  split
  · rfl
  · split <;> rfl
  · rfl

theorem IsShellText.whole
    {text : List Char}
    (isShellText : IsShellText text) :
    Segment.split (.raw true) (Utf8.encode (text.dropWhile isBlank))
      = .ok ⟨Utf8.encode (text.dropWhile isBlank), false, none⟩ := by
  obtain ⟨segment, cutOff, foreground⟩ := isShellText.foreground
  have whole := Segment.split_skipBlanks rfl (Segment.split_raw_of_foreground cutOff foreground)
  rwa [Utf8.skipBlanks_encode] at whole

section Routes

variable {engine : Engine} {text : List Char}

/-! ## Lines that start with an exclamation mark -/

theorem execute_shellLine
    (orderly : engine.Orderly)
    (running : engine.scope.isFinished = false)
    (active : engine.isActive)
    (isShellText : IsShellText text)
    (source : Source) :
    engine.execute source (Utf8.encode ('!' :: text))
      = engine.runShell (Text.trim (String.ofList (trimBlanks text))) false := by
  have isBuiltin : (Registry.builtins.get? "!").get rfl ∈ Command.builtins :=
    List.mem_of_find?_eq_some (Option.some_get _).symm
  have resolved := orderly.resolve_builtin isBuiltin List.mem_cons_self
  have asks : Head.read (Utf8.encode ('!' :: text))
      = .ok (.command ⟨none, "!", false, Utf8.encode (text.dropWhile isBlank)⟩) := by
    rw [← Utf8.skipBlanks_encode]
    exact Head.read_bang (Utf8.encode text)
  have decoded : Arguments.decode (Arguments.trim (Utf8.encode (text.dropWhile isBlank)))
      = .ok (String.ofList (trimBlanks text)) := by
    unfold Arguments.decode
    rw [Arguments.trim_encode, Utf8.decode_encode]
    rfl
  have someText : (String.ofList (trimBlanks text)).isEmpty = false := by
    have nonempty := trimBlanks_ne_nil isShellText.nonblank
    simpa using nonempty
  have taken : Invocation.arguments { raw := true, background := true } engine.env
      (Arguments.trim (Utf8.encode (text.dropWhile isBlank))) (String.ofList (trimBlanks text))
        = .ok [String.ofList (trimBlanks text)] := by
    show Except.ok (if (String.ofList (trimBlanks text)).isEmpty then _ else _) = _
    rw [someText]
    rfl
  have ran : engine.runTop source (Utf8.encode ('!' :: text)) = _ :=
    runLine_call running active asks rfl resolved isShellText.whole decoded taken
  refine execute_eq_runTop ran ?_
  show (engine.runShell _ false).2.scope.isFinished = false
  unfold Text.trim
  rw [runShell_snd]
  exact running

/-! ## Bodies -/

/-- The body stands for itself, without the blanks before it. -/
theorem IsShellText.calledText_eq
    (isShellText : IsShellText text)
    (invocation : Invocation) :
    calledText (String.ofList text) invocation = String.ofList (text.dropWhile isBlank) := by
  have expanded := expandBody_append isShellText.noPercent invocation.text.toList []
  rw [List.append_nil, expandBody, List.append_nil] at expanded
  unfold calledText Text.skipBlanks
  rw [String.toList_ofList, String.toList_ofList, expanded]

theorem runShellBody_eq
    (isShellText : IsShellText text)
    {invocation : Invocation}
    (foreground : invocation.background = false) :
    engine.runShellBody (String.ofList (text.dropWhile isBlank)) invocation
      = engine.runShell (String.ofList (dropRightWhile isWhitespace (trimBlanks text))) false := by
  have sameEnd : dropRightWhile isWhitespace (trimBlanks text)
      = dropRightWhile isWhitespace (text.dropWhile isBlank) :=
    dropRightWhile_trimEnd (text.dropWhile isBlank)
  unfold runShellBody Utf8.ofString
  rw [String.toList_ofList, isShellText.whole]
  simp only
  rw [Utf8.decodeLossy_encode, foreground, sameEnd]
  unfold Text.trimRight
  rw [String.toList_ofList]
  rfl

theorem execute_shellBody
    {line : Bytes}
    {word name : String}
    (running : engine.scope.isFinished = false)
    (active : engine.isActive)
    (isShellText : IsShellText text)
    (asks : Head.read line = .ok (.command ⟨none, word, false, []⟩))
    (named : word.isEmpty = false)
    (resolved : Registry.resolve engine.chain word = .ok (Command.user name (String.ofList text)))
    (source : Source) :
    engine.execute source line
      = if engine.config.maxDepth = 0 then engine.refuse (.nestingLimit engine.config.maxDepth)
        else engine.runShell (String.ofList (dropRightWhile isWhitespace (trimBlanks text))) false := by
  have ran : engine.runTop source line = _ :=
    runLine_call running active asks named resolved rfl (decode_ofString "")
      (arguments_nothing _ _)
  have calls : engine.runTop source line
      = runUser engine.config.maxDepth { source } (String.ofList text)
          ⟨name, [], "", false, false, none⟩ engine := ran
  cases allowed : engine.config.maxDepth with
  | zero =>
    rw [allowed] at calls
    rw [if_pos rfl, execute_eq_runTop calls running]
    show engine.refuse (.nestingLimit engine.config.maxDepth) = _
    rw [allowed]
  | succ levels =>
    have noLine : ((text.dropWhile isBlank).head? == some ':') = false :=
      beq_eq_false_iff_ne.mpr isShellText.noLine
    rw [allowed, runUser_succ, isShellText.calledText_eq, String.toList_ofList, noLine] at calls
    simp only [Bool.false_eq_true, if_false] at calls
    rw [runShellBody_eq isShellText rfl] at calls
    rw [if_neg (Nat.succ_ne_zero levels)]
    apply execute_eq_runTop calls
    rw [runShell_snd]
    exact running

end Routes

/-- **Shell texts arrive as they are written, but for white space at the
ends.** Between two calls of any session, and in a branch that is taken, `!`
with a text and a user command with that body launch one program each, in the
foreground, and change nothing else. What is wanted is the text without the
blanks around it, up to an escaped one at the end. After `!` it arrives if and
only if it neither starts nor ends with white space of any kind; from a body, if
and only if it does not end with such. The two launch the same if and only if
the wanted text is all white space or starts with none. A user command needs a
limit of nesting above zero. -/
theorem shell_text_verbatim_iff
    (config : Config)
    (env : Env)
    (view : View)
    (launcher : Launcher)
    (calls : List Call)
    {text : List Char}
    (isShellText : IsShellText text) :
    let engine := afterAll { config, env, view, launcher } calls
    let wanted := trimBlanks text
    engine.isActive → ∀ source : Source,
      let typed := (engine.execute source (Utf8.encode ('!' :: text))).2
      typed = engine.launched (dropRightWhile isWhitespace (wanted.dropWhile isWhitespace))
      ∧ (typed = engine.launched wanted ↔
        (∀ first ∈ wanted.head?, isWhitespace first = false)
          ∧ ∀ last ∈ wanted.getLast?, isWhitespace last = false)
      ∧ ∀ (line : Bytes) (word name : String),
        Head.read line = .ok (.command ⟨none, word, false, []⟩) → word.isEmpty = false →
        Registry.resolve engine.chain word = .ok (Command.user name (String.ofList text)) →
        (engine.config.maxDepth = 0 →
          engine.execute source line = engine.refuse (.nestingLimit 0))
        ∧ (0 < engine.config.maxDepth →
          let called := (engine.execute source line).2
          called = engine.launched (dropRightWhile isWhitespace wanted)
          ∧ (called = engine.launched wanted ↔
            ∀ last ∈ wanted.getLast?, isWhitespace last = false)
          ∧ (typed = called ↔
            (∀ char ∈ wanted, isWhitespace char)
              ∨ ∀ first ∈ wanted.head?, isWhitespace first = false)) := by
  intro engine wanted active source typed
  have orderly : engine.Orderly := Orderly.afterAll config env view launcher calls
  have atRest : engine.AtRest := AtRest.afterAll config env view launcher calls
  have typedIs : typed
      = engine.launched (dropRightWhile isWhitespace (wanted.dropWhile isWhitespace)) := by
    show (engine.execute source (Utf8.encode ('!' :: text))).2 = _
    rw [execute_shellLine orderly atRest.running active isShellText source]
    unfold Text.trim
    rw [String.toList_ofList, runShell_snd]
  refine ⟨typedIs, ?_, ?_⟩
  · rw [typedIs, launched_inj]
    exact trimmed_eq_self_iff
  intro line word name asks named resolved
  have ran := execute_shellBody atRest.running active isShellText asks named resolved source
  constructor
  · intro noLevel
    rw [ran, if_pos noLevel, noLevel]
  · intro someLevel called
    have calledIs : called = engine.launched (dropRightWhile isWhitespace wanted) := by
      show (engine.execute source line).2 = _
      rw [ran, if_neg (Nat.ne_of_gt someLevel), runShell_snd]
    refine ⟨calledIs, ?_, ?_⟩
    · rw [calledIs, launched_inj]
      exact dropRightWhile_eq_self_iff
    · rw [typedIs, calledIs, launched_inj]
      exact trimmed_eq_dropRightWhile_iff

/-- A shell command after a form feed, with an escaped blank at its end. -/
def spaced : List Char := '\x0c' :: "echo \\ ".toList

/-- A session that stores this command as a body. -/
def spacedStored : List Call := [.restore [⟨"u", String.ofList spaced⟩]]

/-- Neither way does the command arrive, and the two launch different texts. -/
theorem shell_text_verbatim_iff_spaced :
    trimBlanks spaced = spaced
    ∧ ((afterAll {} spacedStored).execute .typed (Utf8.encode ('!' :: spaced))).2
      ≠ (afterAll {} spacedStored).launched spaced
    ∧ ((afterAll {} spacedStored).execute .typed (Utf8.ofString "u")).2
      ≠ (afterAll {} spacedStored).launched spaced
    ∧ ((afterAll {} spacedStored).execute .typed (Utf8.encode ('!' :: spaced))).2
      ≠ ((afterAll {} spacedStored).execute .typed (Utf8.ofString "u")).2 := by
  have isShellText : IsShellText spaced := ⟨by decide, by decide, by decide, ⟨_, rfl, rfl⟩⟩
  have wanted : trimBlanks spaced = spaced := by decide
  have endsBlank : ¬ ∀ last ∈ spaced.getLast?, isWhitespace last = false :=
    fun noneLast => Bool.noConfusion (noneLast ' ' rfl)
  have startsSpaced : ¬ ∀ first ∈ spaced.head?, isWhitespace first = false :=
    fun noneFirst => Bool.noConfusion (noneFirst '\x0c' rfl)
  obtain ⟨-, typedIff, stored⟩ := shell_text_verbatim_iff {} {} {} (Launcher.ofList [])
    spacedStored isShellText rfl .typed
  obtain ⟨-, calledIff, sameIff⟩ :=
    (stored (Utf8.ofString "u") "u" "u" (by decide +kernel) rfl rfl).2 (by decide)
  rw [wanted] at typedIff calledIff sameIff
  refine ⟨wanted, fun arrives => ?_, fun arrives => ?_, fun same => ?_⟩
  · exact endsBlank (typedIff.mp arrives).2
  · exact endsBlank (calledIff.mp arrives)
  · rcases sameIff.mp same with allSpaces | startsOther
    · exact Bool.noConfusion (allSpaces 'e' (by decide))
    · exact startsSpaced startsOther

end ExLine.Engine

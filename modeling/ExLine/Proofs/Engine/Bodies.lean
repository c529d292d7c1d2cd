import ExLine.Proofs.Engine.Alike
import ExLine.Proofs.Engine.Wrappers
import ExLine.Proofs.Line.Padding

/-!
Contract: the body of a user command as a line.

Owns:
- `Engine.runLine_colon` and `Engine.runLine_trim`: neither a colon in front of
  a line nor blanks after it change what the line does;
- `Engine.storedBody`, the body that a definition stores, and
  `Engine.execute_definition`, by which it does;
- `Engine.body_runs_as_typed`: calling a user command does what its line does.

Does not own: the two frames of such a run (`ExLine.Proofs.Engine.Alike`).

The line passes through the raw arguments of `command`, is trimmed, stored as
text, expanded and read again. It comes out with a colon in front and without
the blanks after it.
-/

set_option autoImplicit false

namespace ExLine

namespace Engine

/-! ## Colons and padding -/

theorem perform_padded
    {short long : Plan}
    (padded : Plan.Padded short long)
    (engine : Engine)
    (call : UserCall)
    (site : Site) :
    engine.perform call site long = engine.perform call site short := by
  cases padded with
  | same plan => rfl
  | call command head tail segments =>
    unfold perform
    simp only [Invocation.build_padded segments]

/-- Padding changes nothing about what a line does. -/
theorem runLine_padded
    {short long : Bytes}
    (padded : Bytes.Padded short long)
    (engine : Engine)
    (call : UserCall)
    (site : Site) :
    engine.runLine call site long = engine.runLine call site short := by
  induction isLength : short.length using Nat.strongRecOn generalizing short long engine with
  | _ length inductionHypothesis =>
    subst isLength
    obtain ⟨plans, rests⟩ : Step.Padded (engine.readStep short) (engine.readStep long) :=
      Step.read_padded padded engine.chain
    rw [runLine_eq, runLine_eq]
    simp only [perform_padded plans]
    cases left : (engine.readStep short).rest with
    | none =>
      rw [left] at rests
      generalize (engine.readStep long).rest = restLong at rests
      cases rests
      rfl
    | some rest =>
      have shorter : rest.length < short.length := Step.length_lt_of_read left
      rw [left] at rests
      generalize (engine.readStep long).rest = restLong at rests
      cases rests with
      | some restPadded => simp only [inductionHypothesis _ shorter restPadded _ rfl]

theorem runLine_trim (engine : Engine) (call : UserCall) (site : Site) (line : Bytes) :
    engine.runLine call site (Arguments.trim line) = engine.runLine call site line :=
  (runLine_padded (Arguments.padded_trim line) engine call site).symm

theorem runLine_colon (engine : Engine) (call : UserCall) (site : Site) (line : Bytes) :
    engine.runLine call site (Byte.colon :: line) = engine.runLine call site line := by
  have sameStep : engine.readStep (Byte.colon :: line) = engine.readStep line := by
    unfold readStep Step.read
    rw [Head.read_colon]
  rw [runLine_eq, runLine_eq, sameStep]

/-! ## Definitions -/

/-- The line that defines a user command by a line. -/
def definition (name : String) (line : List Char) : List Char :=
  "command! ".toList ++ (name.toList ++ ' ' :: ':' :: line)

/-- The body that is stored for a line. -/
def storedBody (line : List Char) : String :=
  String.ofList (':' :: Chars.trimEnd line)

theorem storedBody_eq_append (line : List Char) :
    storedBody line = ":" ++ String.ofList (Chars.trimEnd line) ++ "" := by
  apply String.toList_inj.mp
  unfold storedBody
  simp only [String.toList_append, String.toList_ofList]
  exact (List.append_nil _).symm

end Engine

namespace Registry

theorem find?_replaceIn (command : Command) (commands : List Command) :
    (replaceIn command commands).find? (fun held => held.name == command.name) = some command := by
  induction commands with
  | nil =>
    show List.find? _ [command] = _
    rw [List.find?_cons_of_pos (by simp)]
  | cons held rest inductionHypothesis =>
    unfold replaceIn
    split
    · rw [List.find?_cons_of_pos (by simp)]
    · rename_i otherName
      rw [List.find?_cons_of_neg (by simpa using otherName)]
      exact inductionHypothesis

end Registry

/-- With an exclamation mark a user command is stored whether or not there is
one of its name. -/
theorem Scope.define_force
    {scope : Scope}
    (guests : ∀ command ∈ scope.innermost.commands.commands, command.IsGuest)
    (name body : String) :
    ∃ registry : Registry,
      scope.define (Command.user name body) true = .ok (scope.withCommands registry)
        ∧ registry.get? name = some (Command.user name body) := by
  unfold Scope.define
  simp only
  cases found : scope.innermost.commands.get? (Command.user name body).name with
  | some held =>
    exact ⟨_, rfl, Registry.find?_replaceIn (Command.user name body) _⟩
  | none =>
    have noClash : scope.innermost.commands.commands.findSome?
        (fun held => Registry.clash? held (Command.user name body)) = none := by
      rw [List.findSome?_eq_none_iff]
      intro held member
      obtain ⟨guestName, guestBody, rfl, -⟩ := guests held member
      have otherName : guestName ≠ name := by
        rintro rfl
        have absent := List.find?_eq_none.mp found _ member
        exact absent (beq_self_eq_true _)
      simp [Registry.clash?, Command.names, Command.user, Ne.symm otherName]
    refine ⟨⟨scope.innermost.commands.commands ++ [Command.user name body]⟩, ?_, ?_⟩
    · unfold Registry.register
      rw [noClash]
      rfl
    · have absent : scope.innermost.commands.commands.find? (fun held => held.name == name)
          = none := found
      unfold Registry.get?
      rw [List.find?_append, absent, Option.none_or]
      exact List.find?_cons_of_pos (beq_self_eq_true name)

namespace Engine

theorem splitWord_definition
    {name : List Char}
    (noBlank : ∀ char ∈ name, Chars.isBlank char = false)
    (body : List Char) :
    splitWord (String.ofList (name ++ ' ' :: ':' :: body))
      = (String.ofList name, String.ofList (':' :: body)) := by
  have ends : ∀ char ∈ name, (!Chars.isBlank char) = true := by
    intro char member
    rw [noBlank char member]
    rfl
  unfold splitWord
  simp only
  rw [String.toList_ofList, List.takeWhile_append_of_pos ends, List.dropWhile_append_of_pos ends,
    List.takeWhile_cons_of_neg (by decide), List.dropWhile_cons_of_neg (by decide), List.append_nil]
  unfold Text.skipBlanks
  rw [String.toList_ofList, List.dropWhile_cons_of_pos (by decide),
    List.dropWhile_cons_of_neg (by decide)]

theorem cases_of_isValidName {name : String} (valid : isValidName name) :
    ∃ first rest, name.toList = first :: rest ∧ Chars.isLetter first
      ∧ ∀ char ∈ rest, Chars.isNameChar char := by
  unfold isValidName at valid
  cases shape : name.toList with
  | nil =>
    rw [shape] at valid
    cases valid
  | cons first rest =>
    rw [shape] at valid
    simp only [Bool.and_eq_true, List.all_eq_true] at valid
    exact ⟨first, rest, rfl, valid⟩

theorem isCallable_of_isValidName {name : String} (valid : isValidName name) :
    Head.IsCallable name := by
  obtain ⟨first, rest, shape, letter, others⟩ := cases_of_isValidName valid
  apply Head.isCallable_of_isWord
  rw [shape]
  simp only [Chars.isWord, Bool.or_eq_true, Bool.and_eq_true, List.all_eq_true]
  exact .inr ⟨letter, others⟩

theorem not_isBlank_of_isNameChar {char : Char} (inName : Chars.isNameChar char) :
    Chars.isBlank char = false := by
  rw [Bool.eq_false_iff]
  intro blank
  simp only [Chars.isBlank, Bool.or_eq_true, beq_iff_eq] at blank
  rcases blank with rfl | rfl <;> cases inName

theorem noBlank_of_isValidName {name : String} (valid : isValidName name) :
    ∀ char ∈ name.toList, Chars.isBlank char = false := by
  obtain ⟨first, rest, shape, letter, others⟩ := cases_of_isValidName valid
  rw [shape]
  intro char member
  apply not_isBlank_of_isNameChar
  rcases List.mem_cons.mp member with rfl | later
  · simp [Chars.isNameChar, letter]
  · exact others char later

/-- A text that starts with a valid name starts with no blank. -/
theorem dropWhile_name
    {name : String}
    (valid : isValidName name)
    (rest : List Char) :
    (name.toList ++ rest).dropWhile Chars.isBlank = name.toList ++ rest := by
  obtain ⟨first, others, shape, -⟩ := cases_of_isValidName valid
  have noBlank := noBlank_of_isValidName valid first (shape ▸ List.mem_cons_self)
  rw [shape, List.cons_append,
    List.dropWhile_cons_of_neg (by rw [noBlank]; exact Bool.false_ne_true)]

theorem read_definition
    {name : String}
    (valid : isValidName name)
    (line : List Char) :
    Head.read (Utf8.encode (definition name line))
      = .ok (.command ⟨none, "command", true,
          Utf8.encode (name.toList ++ ' ' :: ':' :: line)⟩) := by
  have word : Head.read (Utf8.encode "command!".toList)
      = .ok (.command ⟨none, "command", true, []⟩) := by decide +kernel
  have ends : Bytes.EndsWord (Utf8.encode (' ' :: (name.toList ++ ' ' :: ':' :: line))) := by
    intro byte first
    cases first
    rfl
  have read := Head.read_before_blank word rfl ends
  rw [List.nil_append, Utf8.skipBlanks_encode, List.dropWhile_cons_of_pos (by decide),
    dropWhile_name valid, ← Utf8.encode_append] at read
  exact read

theorem trim_definition (name : String) (line : List Char) :
    Arguments.trim (Utf8.encode (name.toList ++ ' ' :: ':' :: line))
      = Utf8.encode (name.toList ++ ' ' :: ':' :: Chars.trimEnd line) := by
  have stops : Chars.trimEnd (name.toList ++ [' '] ++ ':' :: line)
      = name.toList ++ [' '] ++ ':' :: Chars.trimEnd line :=
    Chars.trimEnd_append_cons rfl (by decide) _ line
  rw [List.append_assoc, List.append_assoc] at stops
  rw [Arguments.trim_encode_trimEnd]
  exact congrArg Utf8.encode stops

/-- The action behind `command!` stores the body under the name. -/
theorem define_stores
    {engine : Engine}
    {name : String}
    {invocation : Invocation}
    {body : List Char}
    {scope : Scope}
    (valid : isValidName name)
    (free : engine.builtins.contains name = false)
    (stores : engine.scope.define (Command.user name (String.ofList (':' :: body))) true
      = .ok scope)
    (bang : invocation.bang = true)
    (text : invocation.text = String.ofList (name.toList ++ ' ' :: ':' :: body)) :
    engine.define invocation = (.ok Outcome.done, { engine with scope }) := by
  have skipped : Text.skipBlanks invocation.text = invocation.text := by
    unfold Text.skipBlanks
    rw [text, String.toList_ofList, dropWhile_name valid]
  have split := splitWord_definition (noBlank_of_isValidName valid) body
  rw [← text, String.ofList_toList] at split
  have someText : invocation.text.isEmpty = false := by
    rw [text]
    simp
  have someBody : (String.ofList (':' :: body)).isEmpty = false := by simp
  unfold define
  simp only [skipped, split, someText, someBody, valid, free, bang, stores, Bool.not_true,
    Bool.false_eq_true, if_false]
  rfl

/-- Executing a definition stores the line, trimmed, and changes nothing
else. -/
theorem execute_definition
    {engine : Engine}
    {name : String}
    {line : List Char}
    {scope : Scope}
    (reachable : engine.Reachable)
    (active : engine.isActive)
    (valid : isValidName name)
    (free : engine.builtins.contains name = false)
    (stores : engine.scope.define (Command.user name (storedBody line)) true = .ok scope)
    (running : scope.isFinished = false)
    (source : Source) :
    engine.execute source (Utf8.encode (definition name line))
      = (.ok Outcome.done, { engine with scope }) := by
  obtain ⟨sound, runningBefore⟩ := reachable.sound
  obtain ⟨command, builtin, flags, handler, arity⟩ : ∃ command,
      Registry.builtins.get? "command" = some command
        ∧ command.flags = { raw := true, bang := true } ∧ command.handler = .builtin .define
        ∧ command.minArgs = 0 ∧ command.maxArgs = none := ⟨_, rfl, rfl, rfl, rfl, rfl⟩
  have whole : Segment.split command.flags.tailMode
      (Utf8.encode (name.toList ++ ' ' :: ':' :: line))
        = .ok ⟨Utf8.encode (name.toList ++ ' ' :: ':' :: line), false, none⟩ := by
    rw [flags]
    exact Segment.split_raw _
  have decoded : Arguments.decode (Arguments.trim
      (Utf8.encode (name.toList ++ ' ' :: ':' :: line)))
        = .ok (String.ofList (name.toList ++ ' ' :: ':' :: Chars.trimEnd line)) := by
    unfold Arguments.decode
    rw [trim_definition, Utf8.decode_encode]
    rfl
  obtain ⟨args, taken⟩ : ∃ args, Invocation.arguments command.flags engine.env
      (Arguments.trim (Utf8.encode (name.toList ++ ' ' :: ':' :: line)))
      (String.ofList (name.toList ++ ' ' :: ':' :: Chars.trimEnd line)) = .ok args :=
    ⟨_, by rw [flags]; rfl⟩
  have ran : engine.runTop source (Utf8.encode (definition name line)) = _ :=
    runLine_call runningBefore active (read_definition valid line) rfl
      (resolve_builtin sound builtin) whole decoded taken
  have checked (text : String) :
      command.validate ⟨command.name, args, text, false, true, none⟩ = .ok () := by
    unfold Command.validate Command.accepts
    simp [flags, arity]
  have defined := @define_stores engine name
    ⟨command.name, args, String.ofList (name.toList ++ ' ' :: ':' :: Chars.trimEnd line), false,
      true, none⟩ _ scope valid free stores rfl rfl
  rw [dispatch, checked, handler] at ran
  exact execute_eq_runTop (ran.trans defined) running

/-! ## Calls -/

theorem isActive_of_outside
    {engine : Engine}
    (outside : engine.scope.branches = {}) :
    engine.isActive :=
  congrArg Branches.isActive outside

/-- A call of the command runs the line in a frame of its own. -/
theorem runTop_stored
    {engine : Engine}
    {name : String}
    {line : List Char}
    {levels : Nat}
    (reachable : engine.Reachable)
    (active : engine.isActive)
    (allowed : engine.config.maxDepth = levels + 1)
    (valid : isValidName name)
    (stored : engine.scope.innermost.commands.get? name
      = some (Command.user name (storedBody line)))
    (noPercent : '%' ∉ line)
    (source : Source) :
    engine.runTop source (Utf8.ofString name)
      = leaveFrame (runLine { engine with scope := engine.scope.push } (runUser levels)
          ⟨source, 1⟩ (Utf8.encode line)) := by
  obtain ⟨-, running⟩ := reachable.sound
  have callable := isCallable_of_isValidName valid
  have resolved : Registry.resolve engine.chain name
      = .ok (Command.user name (storedBody line)) := by
    rw [reachable.chain]
    exact Registry.resolve_of_get? stored _
  have ran : engine.runTop source (Utf8.ofString name) = _ :=
    runLine_call running active callable callable.named resolved rfl (decode_ofString "")
      (arguments_nothing _ _)
  have called : calledText (storedBody line) ⟨name, [], "", false, false, none⟩
      = String.ofList (':' :: Chars.trimEnd line) := by
    rw [storedBody_eq_append,
      calledText_line fun member => noPercent (Chars.mem_of_mem_trimEnd member)]
    exact congrArg (fun chars => String.ofList (':' :: chars)) (List.append_nil _)
  have isLine : Utf8.ofString (String.ofList (':' :: Chars.trimEnd line))
      = Byte.colon :: Arguments.trim (Utf8.encode line) := by
    rw [Utf8.ofString, String.toList_ofList, Arguments.trim_encode_trimEnd]
    rfl
  rw [ran]
  show runUser engine.config.maxDepth { source } (storedBody line)
    ⟨name, [], "", false, false, none⟩ engine = _
  rw [allowed, runUser_succ, called, String.toList_ofList, isLine, runLine_colon, runLine_trim]
  rfl

/-- A call of the command does what the line does, for a line that closes the
blocks it opens. -/
theorem execute_stored
    {engine : Engine}
    {name : String}
    {line : List Char}
    (reachable : engine.Reachable)
    (outside : engine.scope.branches = {})
    (allowed : 1 ≤ engine.config.maxDepth)
    (valid : isValidName name)
    (stored : engine.scope.innermost.commands.get? name
      = some (Command.user name (storedBody line)))
    (noPercent : '%' ∉ line)
    (source : Source)
    (plain : Visit.RunsPlain ⟨engine, { source }, Utf8.encode line⟩)
    (closed : (engine.execute source (Utf8.encode line)).2.scope.branches = {}) :
    ∃ made, (engine.execute source (Utf8.encode line)).2.calls = engine.calls ++ made
      ∧ engine.execute source (Utf8.ofString name)
        = ((engine.execute source (Utf8.encode line)).1,
          { (engine.execute source (Utf8.encode line)).2 with
            scope := engine.scope
            calls := engine.calls ++ made.map HostCall.deeper }) := by
  obtain ⟨-, running⟩ := reachable.sound
  obtain ⟨levels, isSucc⟩ := Nat.exists_eq_add_of_le' allowed
  have active := isActive_of_outside outside
  -- the frame of the call is empty yet, and no call has been made
  have alike : Alike engine.calls engine engine.scope.push engine.calls :=
    ⟨.push outside running, [], (List.append_nil _).symm, (List.append_nil _).symm⟩
  obtain ⟨scope, calls, nested, alikeAfter⟩ := agrees_run _ plain alike levels
  obtain ⟨made, isMade, isDeeper⟩ := alikeAfter.calls
  have inner : runLine { engine with scope := engine.scope.push } (runUser levels) ⟨source, 1⟩
      (Utf8.encode line) = _ := nested
  have enclosing : scope.enclosing = engine.scope.frames := by
    have kept := (keeps_runLine levels { engine with scope := engine.scope.push } ⟨source, 1⟩
      (Utf8.encode line)).enclosing
    rwa [inner] at kept
  have innerClosed : scope.branches = {} := alikeAfter.scope.branches.trans closed
  refine ⟨made, isMade, ?_⟩
  have left : engine.runTop source (Utf8.ofString name)
      = ((engine.runTop source (Utf8.encode line)).1,
        (engine.runTop source (Utf8.encode line)).2.reseat engine.scope calls) := by
    rw [runTop_stored reachable active isSucc valid stored noPercent source, inner]
    exact leaveFrame_closed enclosing innerClosed _
  rw [execute_eq_runTop left running, ← isDeeper]
  rfl

/-- **Bodies run as typed.** After the definition of a user command by a line,
calling it gives the reply of the line and has its effects: the same launches,
environment, view and mappings, and the same host calls, one level deeper. Only
the variables and the blocks of the caller are not touched. The line has no
percent sign, it closes the blocks it opens, and it carries out plain commands
only. -/
theorem body_runs_as_typed
    {engine : Engine}
    {name : String}
    {line : List Char}
    (reachable : engine.Reachable)
    (outside : engine.scope.branches = {})
    (allowed : 1 ≤ engine.config.maxDepth)
    (valid : isValidName name)
    (free : engine.builtins.contains name = false)
    (noPercent : '%' ∉ line)
    (sourceOfDefinition source : Source) :
    let defining := engine.execute sourceOfDefinition (Utf8.encode (definition name line))
    let defined := defining.2
    let direct := defined.execute source (Utf8.encode line)
    let called := defined.execute source (Utf8.ofString name)
    defining.1 = .ok Outcome.done
      ∧ (Visit.RunsPlain ⟨defined, { source }, Utf8.encode line⟩ →
        direct.2.scope.branches = {} →
        ∃ made, direct.2.calls = defined.calls ++ made
          ∧ called = (direct.1, { direct.2 with
            scope := defined.scope
            calls := defined.calls ++ made.map HostCall.deeper })) := by
  have active := isActive_of_outside outside
  obtain ⟨sound, running⟩ := reachable.sound
  obtain ⟨registry, stores, stored⟩ := Scope.define_force
    (sound.guests engine.scope.innermost.commands List.mem_cons_self) name (storedBody line)
  have ran := execute_definition reachable active valid free stores running sourceOfDefinition
  intro defining defined direct called
  have isDefined : defined = engine.withCommands registry := congrArg Prod.snd ran
  have reachableDefined : defined.Reachable := .execute _ _ reachable
  refine ⟨congrArg Prod.fst ran, fun plain closed => ?_⟩
  refine execute_stored reachableDefined ?_ ?_ valid ?_ noPercent source plain closed
  · rw [isDefined]
    exact outside
  · rw [isDefined]
    exact allowed
  · rw [isDefined]
    exact stored

/-- An engine with a host command. -/
def oneHost : Engine where
  builtins := ⟨Command.builtins ++ [idleHost]⟩

theorem reachable_oneHost : oneHost.Reachable := by
  have registered : register {} idleHost = .ok oneHost := rfl
  refine .register idleHost (fun action isBuiltin => ?_) registered (.start _ _ _ _)
  cases isBuiltin

/-- A line that assigns a variable and calls the host, with an escaped blank
and a plain one at its end. -/
def setAndCall : List Char := "let x = 2|h x\\  ".toList

/-- The engine after the definition of `u` by that line. -/
def setAndCallDefined : Engine :=
  oneHost.withCommands ⟨[Command.user "u" ":let x = 2|h x\\ "]⟩

/-- The line, about to run. -/
def setAndCallStart : Visit := ⟨setAndCallDefined, { source := .typed }, Utf8.encode setAndCall⟩

/-- The engine after the first half of the line. -/
def setAndCallSet : Engine :=
  { setAndCallDefined with scope := setAndCallDefined.scope.set "x" (.int 2) }

/-- The call that the line makes, at its depth. -/
def setAndCallHost (depth : Nat) : HostCall :=
  ⟨⟨"h", ["x "], "x\\ ", false, false, none⟩, ⟨.typed, depth⟩⟩

theorem step_setAndCallStart : setAndCallStart.step
    = ⟨.call ((Registry.builtins.get? "let").get rfl)
        ⟨none, "let", false, Utf8.ofString "x = 2|h x\\  "⟩
        ⟨Utf8.ofString "x = 2", false, some (Utf8.ofString "h x\\  ")⟩,
      some (Utf8.ofString "h x\\  ")⟩ := by
  with_unfolding_all rfl

theorem performed_setAndCallStart :
    setAndCallStart.performed = (.ok (some Outcome.done), setAndCallSet) := by
  have built : Invocation.build setAndCallDefined ((Registry.builtins.get? "let").get rfl)
      ⟨none, "let", false, Utf8.ofString "x = 2|h x\\  "⟩
      ⟨Utf8.ofString "x = 2", false, some (Utf8.ofString "h x\\  ")⟩
        = .ok ⟨"let", ["x = 2"], "x = 2", false, false, none⟩ := by decide +kernel
  have assigned : setAndCallDefined.assigned "x = 2" = .ok (.var "x", .int 2) := by
    decide +kernel
  unfold Visit.performed
  rw [step_setAndCallStart]
  unfold perform
  simp only [setAndCallStart, built]
  show asStep (assign setAndCallDefined _) = _
  unfold assign
  simp only [assigned]
  rfl

/-- What is left of the line then makes the call. -/
theorem step_setAndCallSet : setAndCallSet.readStep (Utf8.ofString "h x\\  ")
    = ⟨.call idleHost ⟨none, "h", false, Utf8.ofString "x\\  "⟩
        ⟨Utf8.ofString "x\\  ", false, none⟩, none⟩ := by
  with_unfolding_all rfl

theorem runsPlain_setAndCall : setAndCallStart.RunsPlain := by
  refine .of_call (congrArg Step.plan step_setAndCallStart) (fun _ => rfl) fun rest left => ?_
  rw [step_setAndCallStart] at left
  cases left
  have readHost : (setAndCallStart.continued (Utf8.ofString "h x\\  ")).step
      = setAndCallSet.readStep (Utf8.ofString "h x\\  ") := by
    unfold Visit.continued Visit.step
    rw [performed_setAndCallStart]
  rw [step_setAndCallSet] at readHost
  refine .of_call (congrArg Step.plan readHost) (fun _ => rfl) fun rest left => ?_
  rw [readHost] at left
  cases left

/-- The line makes its call and sets its variable; the user command that it
defines makes the call one level deeper and sets none. -/
theorem body_runs_as_typed_set_and_call :
    oneHost.execute .typed (Utf8.encode (definition "u" setAndCall))
      = (.ok Outcome.done, setAndCallDefined)
    ∧ setAndCallDefined.execute .typed (Utf8.encode setAndCall)
      = (.ok Outcome.done, { setAndCallDefined with
        scope := setAndCallDefined.scope.set "x" (.int 2)
        calls := [setAndCallHost 0] })
    ∧ setAndCallDefined.execute .typed (Utf8.ofString "u")
      = (.ok Outcome.done, { setAndCallDefined with calls := [setAndCallHost 1] }) := by
  have defined : oneHost.execute .typed (Utf8.encode (definition "u" setAndCall))
      = (.ok Outcome.done, setAndCallDefined) :=
    execute_definition reachable_oneHost rfl rfl rfl rfl rfl .typed
  have direct : setAndCallDefined.execute .typed (Utf8.encode setAndCall)
      = (.ok Outcome.done, { setAndCallDefined with
        scope := setAndCallDefined.scope.set "x" (.int 2)
        calls := [setAndCallHost 0] }) := by
    have left : setAndCallStart.step.rest = some (Utf8.ofString "h x\\  ") :=
      congrArg Step.rest step_setAndCallStart
    have calls : setAndCallSet.perform (runUser setAndCallStart.levels) setAndCallStart.site
        (setAndCallSet.readStep (Utf8.ofString "h x\\  ")).plan
          = (.ok (some Outcome.done), { setAndCallSet with calls := [setAndCallHost 0] }) := by
      have built : Invocation.build setAndCallSet idleHost
          ⟨none, "h", false, Utf8.ofString "x\\  "⟩ ⟨Utf8.ofString "x\\  ", false, none⟩
            = .ok (setAndCallHost 0).invocation := by decide +kernel
      rw [step_setAndCallSet]
      unfold perform
      simp only [built]
      rfl
    have ran := runLine_first rfl performed_setAndCallStart left
    rw [runLine_last rfl calls (congrArg Step.rest step_setAndCallSet)] at ran
    exact execute_eq_runTop ran rfl
  have asTyped := @body_runs_as_typed oneHost "u" setAndCall reachable_oneHost rfl (by decide) rfl
    rfl (by decide) .typed .typed
  simp only [defined, direct] at asTyped
  obtain ⟨made, isMade, called⟩ := asTyped.2 runsPlain_setAndCall rfl
  have oneCall : made = [setAndCallHost 0] := isMade.symm
  rw [oneCall] at called
  exact ⟨defined, direct, called⟩

end Engine

end ExLine

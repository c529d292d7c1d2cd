import ExLine.Proofs.Engine.Conditions
import ExLine.Proofs.Engine.Reachable
import ExLine.Proofs.Engine.Unseen
import ExLine.Proofs.Line.Segment
import ExLine.Proofs.Script.Structured

/-!
Contract: what one line of a flattened program does.

Owns:
- the lines with a keyword, each as one move within the open blocks;
- the lines that call a command, which do the same in every branch that is
  taken, and nothing in any other.

Does not own: runs of several lines (`ExLine.Proofs.Script.Refinement`).
-/

set_option autoImplicit false

namespace ExLine

/-- Whether the command decides which commands run after it. -/
def Command.isFlow (command : Command) : Bool :=
  match command.handler with
  | .builtin action => action.isFlow
  | _ => false

/-- A step of a line that decides nothing about the lines after it. -/
structure Step.Passive (active : Bool) (step : Step) : Prop where
  /-- Nothing follows it on its line. -/
  single : step.rest = none
  noFlow : ∀ command head segment, step.plan = .call command head segment → command.isFlow = false
  /-- It asks for nothing in a branch that is not taken. -/
  skipped : active = false → step.plan = .skip

namespace Engine

/-! ## Lines with one sub-command -/

/-- A line that is one sub-command does what that one does. -/
theorem runTop_single
    {engine : Engine}
    {source : Source}
    {line : Bytes}
    (running : engine.scope.isFinished = false)
    (single : (engine.readStep line).rest = none) :
    engine.runTop source line =
      let result := engine.perform (runUser engine.config.maxDepth) { source }
        (engine.readStep line).plan
      (andThen result.1 (.ok Outcome.done), result.2) := by
  unfold runTop
  rw [runLine_eq, running, single]
  rfl

/-! ## Keywords with a condition -/

/-- The condition of a keyword is the text after it without the blanks around
it. -/
theorem condition?_of_isCondition
    {condition : List Char}
    (isCondition : Script.IsCondition condition)
    (name : String) :
    CommandHead.condition? ⟨none, name, false, Utf8.encode (condition.dropWhile Chars.isBlank)⟩
      = some (String.ofList (Chars.trimBlanks condition)) := by
  have whole := Segment.split_skipBlanks rfl isCondition.whole
  rw [Utf8.skipBlanks_encode] at whole
  have decoded : Arguments.decode
      (Arguments.trim (Utf8.encode (condition.dropWhile Chars.isBlank)))
        = .ok (String.ofList (Chars.trimBlanks condition)) := by
    unfold Arguments.decode
    rw [Arguments.trim_encode, Utf8.decode_encode]
    rfl
  have nonempty : (String.ofList (Chars.trimBlanks condition)).isEmpty = false := by
    have kept := Chars.trimBlanks_ne_nil isCondition.nonblank
    simpa using kept
  unfold CommandHead.condition?
  rw [whole]
  simp only [decoded, nonempty]
  rfl

/-- A line with a keyword and a condition hands the condition to the action of
the keyword. -/
theorem runTop_keyword
    {engine : Engine}
    {word condition : List Char}
    {command : Command}
    {action : Builtin}
    (sound : engine.Sound)
    (running : engine.scope.isFinished = false)
    (isWord : Chars.isWord word)
    (builtin : Registry.builtins.get? (String.ofList word) = some command)
    (takes : command.TakesCondition action)
    (isCondition : Script.IsCondition condition) :
    engine.runTop .script (Utf8.encode (word ++ ' ' :: condition))
      = engine.runBuiltin action { source := .script }
          (.ofCondition command.name (String.ofList (Chars.trimBlanks condition))) := by
  have readHead : Head.read (Utf8.encode (word ++ ' ' :: condition))
      = .ok (.command ⟨none, String.ofList word, false,
          Utf8.encode (condition.dropWhile Chars.isBlank)⟩) := by
    have ends : Chars.endsWord (' ' :: condition) := rfl
    exact @Head.read_encode [] _ _ rfl isWord ends
  have resolved := resolve_builtin sound builtin
  have single : (engine.readStep (Utf8.encode (word ++ ' ' :: condition))).rest = none := by
    have whole := Segment.split_skipBlanks rfl isCondition.whole
    rw [Utf8.skipBlanks_encode] at whole
    rw [readStep_condition takes readHead resolved]
    simp only [whole]
  rw [runTop_single running single,
    perform_condition takes readHead resolved (condition?_of_isCondition isCondition _)]
  simp only [asStep, andThen_done]

/-- An `if` opens a block, and looks at its condition only where that decides
anything. -/
theorem runTop_if
    {engine : Engine}
    {condition : List Char}
    (sound : engine.Sound)
    (running : engine.scope.isFinished = false)
    (isCondition : Script.IsCondition condition) :
    engine.runTop .script (Utf8.encode ("if".toList ++ ' ' :: condition)) =
      if engine.isActive then
        (conditionReply (engine.verdict condition),
          engine.withBranches (engine.scope.branches.openBlock (isTrue (engine.verdict condition))))
      else (.ok Outcome.done, engine.withBranches (engine.scope.branches.openBlock false)) := by
  exact runTop_keyword sound running rfl rfl (takesCondition_if rfl) isCondition

/-- An `elseif` moves within its block, and looks at its condition only where
that decides anything. -/
theorem runTop_elseif
    {engine : Engine}
    {condition : List Char}
    {level : Level}
    {outer : List Level}
    (sound : engine.Sound)
    (running : engine.scope.isFinished = false)
    (isCondition : Script.IsCondition condition)
    (inside : engine.scope.branches = ⟨level :: outer⟩)
    (notElse : level.seenElse = false) :
    engine.runTop .script (Utf8.encode ("elseif".toList ++ ' ' :: condition)) =
      if level.enclosingActive && !level.taken then
        (conditionReply (engine.verdict condition),
          engine.withBranches ⟨{ level with
            active := isTrue (engine.verdict condition)
            taken := isTrue (engine.verdict condition) } :: outer⟩)
      else (.ok Outcome.done, engine.withBranches ⟨{ level with active := false } :: outer⟩) := by
  refine (runTop_keyword sound running rfl rfl (takesCondition_elseif rfl)
    isCondition).trans ?_
  show engine.elseIfBranch _ = _
  unfold elseIfBranch Branches.needsCondition Branches.nextBranch moved
  simp only [inside, notElse]
  cases level.enclosingActive <;> cases level.taken <;> rfl

/-! ## Keywords alone -/

/-- A line that is a keyword runs its action. -/
theorem runTop_bare
    {engine : Engine}
    {word : List Char}
    {command : Command}
    {action : Builtin}
    (sound : engine.Sound)
    (running : engine.scope.isFinished = false)
    (isWord : Chars.isWord word)
    (builtin : Registry.builtins.get? (String.ofList word) = some command)
    (flags : command.flags = { control := true })
    (arity : command.minArgs = 0 ∧ command.maxArgs = some 0)
    (handler : command.handler = .builtin action) :
    engine.runTop .script (Utf8.encode word)
      = engine.runBuiltin action { source := .script } {
          name := command.name
          args := []
          text := ""
          background := false
          bang := false
          range := none } := by
  have readHead : Head.read (Utf8.encode word)
      = .ok (.command ⟨none, String.ofList word, false, []⟩) := by
    have read := @Head.read_encode [] word [] rfl isWord rfl
    rw [List.nil_append, List.append_nil] at read
    exact read
  have named := Chars.isEmpty_of_isWord isWord
  have step : engine.readStep (Utf8.encode word)
      = ⟨.call command ⟨none, String.ofList word, false, []⟩ ⟨[], false, none⟩, none⟩ := by
    unfold readStep Step.read
    rw [readHead]
    simp only [named, Bool.false_eq_true, if_false]
    unfold Step.named
    rw [resolve_builtin sound builtin]
    simp only [flags]
    cases engine.isActive <;> rfl
  have built : Invocation.build engine command ⟨none, String.ofList word, false, []⟩
      ⟨[], false, none⟩ = .ok ⟨command.name, [], "", false, false, none⟩ := by
    have noText : Arguments.decode (Arguments.trim []) = .ok "" := Arguments.decode_nil
    have noArguments : Invocation.arguments command.flags engine.env (Arguments.trim []) ""
        = .ok [] := by
      rw [flags]
      exact Arguments.split_nil _
    unfold Invocation.build
    simp only [noText, noArguments, bind, Except.bind]
    rfl
  rw [runTop_single running (by rw [step]), step]
  unfold perform
  simp only [built]
  unfold dispatch Command.validate Command.accepts
  simp only [arity.1, arity.2, handler]
  exact Prod.ext (andThen_done _) rfl

/-- An `else` moves to the fallback branch of its block. -/
theorem runTop_else
    {engine : Engine}
    {level : Level}
    {outer : List Level}
    (sound : engine.Sound)
    (running : engine.scope.isFinished = false)
    (inside : engine.scope.branches = ⟨level :: outer⟩)
    (notElse : level.seenElse = false) :
    engine.runTop .script (Utf8.encode "else".toList)
      = (.ok Outcome.done, engine.withBranches ⟨{ level with
          active := level.enclosingActive && !level.taken
          taken := true
          seenElse := true } :: outer⟩) := by
  refine (runTop_bare sound running rfl rfl rfl ⟨rfl, rfl⟩ rfl).trans ?_
  show engine.moved engine.scope.branches.fallback = _
  unfold Branches.fallback
  simp only [inside, notElse, Bool.false_eq_true, if_false]
  rfl

theorem runTop_endif
    {engine : Engine}
    {level : Level}
    {outer : List Level}
    (sound : engine.Sound)
    (running : engine.scope.isFinished = false)
    (inside : engine.scope.branches = ⟨level :: outer⟩) :
    engine.runTop .script (Utf8.encode "endif".toList)
      = (.ok Outcome.done, engine.withBranches ⟨outer⟩) := by
  refine (runTop_bare sound running rfl rfl rfl ⟨rfl, rfl⟩ rfl).trans ?_
  show engine.moved engine.scope.branches.closeBlock = _
  rw [inside]
  rfl

/-! ## Lines that call a command -/

/-- Of the built-in commands, only control commands and `finish` decide which
commands run after them. -/
theorem isFlow_of_mem_builtins :
    ∀ command ∈ Command.builtins, command.flags.control = false → command.name ≠ "finish" →
      command.isFlow = false := by
  decide

theorem isFlow_of_fixed
    {engine : Engine}
    {name : String}
    {command : Command}
    (sound : engine.Sound)
    (held : engine.builtins.get? name = some command)
    (plain : command.flags.control = false)
    (noFinish : command.name ≠ "finish") :
    command.isFlow = false := by
  obtain ⟨hosts, commands, foreign⟩ := sound.fixed
  have member : command ∈ Command.builtins ++ hosts := commands ▸ List.mem_of_find?_eq_some held
  rcases List.mem_append.mp member with builtin | host
  · exact isFlow_of_mem_builtins command builtin plain noFinish
  · unfold Command.isFlow
    split
    · rename_i action isAction
      exact absurd isAction (foreign command host action)
    · rfl

/-- A name is read as one sub-command if there is no bar after it, and passed
over in a branch that is not taken. -/
theorem passive_named
    {chain : List Registry}
    {head : CommandHead}
    {command : Command}
    (resolved : Registry.resolve chain head.name = .ok command)
    (plain : command.flags.control = false)
    (noFlow : command.isFlow = false)
    (noBar : Byte.bar ∉ head.tail)
    (active : Bool) :
    (Step.named chain active head).Passive active := by
  have noRest : plainRest head.tail = none := by
    unfold plainRest
    split
    · rename_i segment cutOff
      exact Segment.rest_of_split cutOff noBar
    · rfl
  unfold Step.named
  rw [resolved]
  simp only [plain, Bool.or_false]
  cases cutOff : Segment.split command.flags.tailMode head.tail with
  | error error =>
    cases active with
    | true =>
      show Step.Passive true ⟨.fail error, none⟩
      exact ⟨rfl, (fun _ _ _ call => nomatch call), nofun⟩
    | false =>
      show Step.Passive false ⟨.skip, plainRest head.tail⟩
      exact ⟨noRest, (fun _ _ _ call => nomatch call), fun _ => rfl⟩
  | ok segment =>
    have segmentRest := Segment.rest_of_split cutOff noBar
    cases active with
    | true =>
      show Step.Passive true ⟨.call command head segment, segment.rest⟩
      refine ⟨segmentRest, fun called head cut call => ?_, nofun⟩
      cases call
      exact noFlow
    | false =>
      show Step.Passive false ⟨.skip, segment.rest⟩
      exact ⟨segmentRest, (fun _ _ _ call => nomatch call), fun _ => rfl⟩

theorem readStep_leaf
    {engine : Engine}
    {text : List Char}
    (sound : engine.Sound)
    (leaf : Script.IsLeaf engine.builtins text) :
    (engine.readStep (Utf8.encode text)).Passive engine.isActive := by
  obtain ⟨blank, isWord, ends, held, plain, noFinish, noBar, -⟩ := leaf
  rename_i blanks word tail fixed
  obtain ⟨found, resolved, -, origin⟩ := resolve_fixed sound held
  have foundPlain : found.flags.control = false ∧ found.isFlow = false := by
    rcases origin with ⟨name, body, rfl, -⟩ | rfl
    · exact ⟨rfl, rfl⟩
    · exact ⟨plain, isFlow_of_fixed sound held plain noFinish⟩
  have noBarByte : Byte.bar ∉ Utf8.encode (tail.dropWhile Chars.isBlank) := by
    intro member
    obtain ⟨char, inTail, inside⟩ := List.mem_flatMap.mp member
    have isBar := Utf8.encodeChar_of_mem_ascii (by decide) inside
    have inText := List.mem_append_right blanks (List.mem_append_right word
      ((List.dropWhile_sublist Chars.isBlank).subset inTail))
    rw [isBar] at inText
    exact noBar inText
  have named := Chars.isEmpty_of_isWord isWord
  unfold readStep Step.read
  rw [Head.read_encode blank isWord ends]
  simp only [named, Bool.false_eq_true, if_false]
  exact passive_named resolved foundPlain.1 foundPlain.2 noBarByte engine.isActive

theorem runTop_leaf_skipped
    {engine : Engine}
    {text : List Char}
    (sound : engine.Sound)
    (running : engine.scope.isFinished = false)
    (leaf : Script.IsLeaf engine.builtins text)
    (inactive : engine.isActive = false) :
    engine.runTop .script (Utf8.encode text) = (.ok Outcome.done, engine) := by
  have step := readStep_leaf sound leaf
  rw [runTop_single running step.single, step.skipped inactive]
  rfl

/-- The line does not see a change of the scope by which it is still read and
run. -/
theorem blind_leaf
    {engine : Engine}
    {text : List Char}
    {change : Scope → Scope}
    (unseen : Scope.Unseen change)
    (sound : engine.Sound)
    (leaf : Script.IsLeaf engine.builtins text)
    (running : engine.scope.isFinished = false)
    (runningAfter : (engine.mapScope change).scope.isFinished = false)
    (sameActive : (engine.mapScope change).isActive = engine.isActive) :
    (engine.mapScope change).runTop .script (Utf8.encode text)
      = ((engine.runTop .script (Utf8.encode text)).1,
          (engine.runTop .script (Utf8.encode text)).2.mapScope change) := by
  have step := readStep_leaf sound leaf
  have sameStep : (engine.mapScope change).readStep (Utf8.encode text)
      = engine.readStep (Utf8.encode text) := by
    unfold readStep
    rw [chain_mapScope unseen, sameActive]
  have performed : (engine.mapScope change).perform (runUser engine.config.maxDepth)
      { source := .script } (engine.readStep (Utf8.encode text)).plan = _ :=
    blind_perform (blind_runUser unseen engine.config.maxDepth)
      (fun command head segment call action isAction site invocation => by
        have noFlow := step.noFlow command head segment call
        unfold Command.isFlow at noFlow
        rw [isAction] at noFlow
        exact blind_runBuiltin_of_unseen unseen invocation noFlow site)
      { source := .script } engine
  rw [runTop_single running step.single,
    runTop_single runningAfter (by rw [sameStep]; exact step.single), sameStep]
  simp only [show (engine.mapScope change).config = engine.config from rfl, performed]

end Engine

end ExLine

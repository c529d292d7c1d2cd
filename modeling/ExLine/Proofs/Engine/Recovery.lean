import ExLine.Proofs.Engine.Naming

/-!
Contract: what any session leaves can be worked with.

Owns:
- `Engine.AtRest`, by which only the root frame is left between two calls, and
  it runs;
- `Engine.execute_endif` and `Engine.afterAll_endifs`: one `endif` closes one
  block and changes nothing else;
- `Engine.usable_after_any_input`.

Does not own: what the words mean (`ExLine.Proofs.Engine.Sessions`,
`ExLine.Proofs.Engine.Naming`).

A line that is left in a branch that is not taken runs no host command. An
`endif` runs in every branch, so a caller who knows nothing of the lines before
gets out of all the blocks that they opened.
-/

set_option autoImplicit false

namespace ExLine.Engine

/-- Only the root frame is left, and it runs. -/
structure AtRest (engine : Engine) : Prop where
  atRoot : engine.scope.enclosing = []
  running : engine.scope.isFinished = false

namespace AtRest

theorem start (config : Config) (env : Env) (view : View) (launcher : Launcher) :
    AtRest { config, env, view, launcher } :=
  ⟨rfl, rfl⟩

theorem restore
    {engine restored : Engine}
    {saved : UserCommand}
    (atRest : engine.AtRest)
    (done : engine.restore saved = .ok restored) :
    restored.AtRest := by
  obtain ⟨-, registry, rfl, -⟩ := restore_eq done
  exact ⟨atRest.atRoot, atRest.running⟩

theorem after {engine : Engine} (call : Call) (atRest : engine.AtRest) :
    (engine.after call).AtRest := by
  cases call with
  | register command =>
    apply of_after_register atRest
    intro registered done
    rw [register_eq done]
    exact ⟨atRest.atRoot, atRest.running⟩
  | restore saved => exact of_restoreAll restore atRest saved
  | execute source line =>
    exact ⟨(keeps_runLine _ _ _ _).enclosing.trans atRest.atRoot, rfl⟩
  | script text => exact ⟨(keeps_runLines _ _).enclosing.trans atRest.atRoot, rfl⟩
  | surroundings view env => exact ⟨atRest.atRoot, atRest.running⟩

theorem afterAll
    (config : Config)
    (env : Env)
    (view : View)
    (launcher : Launcher)
    (calls : List Call) :
    (Engine.afterAll { config, env, view, launcher } calls).AtRest :=
  of_afterAll (fun call atRest => atRest.after call) (start config env view launcher) calls

end AtRest

/-! ## Lines that are one word -/

section OneWord

variable {engine : Engine} {command : Command} {name : String}

theorem runTop_word
    (running : engine.scope.isFinished = false)
    (runs : engine.isActive || command.flags.control)
    (isWord : Chars.isWord name.toList)
    (resolved : Registry.resolve engine.chain name = .ok command)
    (source : Source) :
    engine.runTop source (Utf8.ofString name)
      = engine.dispatch (runUser engine.config.maxDepth) { source } command
          ⟨command.name, [], "", false, false, none⟩ := by
  have callable := Head.isCallable_of_isWord isWord
  exact runLine_called running runs callable callable.named resolved rfl (decode_ofString "")
    (arguments_nothing _ _)

/-- The name of a host command calls it once, where commands run. -/
theorem execute_host
    {answer : HostCall → Reply}
    (running : engine.scope.isFinished = false)
    (active : engine.isActive)
    (isWord : Chars.isWord name.toList)
    (resolved : Registry.resolve engine.chain name = .ok command)
    (isHost : command.handler = .host answer)
    (accepts : command.accepts 0)
    (source : Source) :
    engine.execute source (Utf8.ofString name)
      = engine.callHost answer ⟨⟨command.name, [], "", false, false, none⟩, { source }⟩ := by
  have runs : engine.isActive || command.flags.control := by
    rw [active]
    rfl
  have ran : engine.runTop source (Utf8.ofString name)
      = engine.callHost answer ⟨⟨command.name, [], "", false, false, none⟩, { source }⟩ := by
    rw [runTop_word running runs isWord resolved source]
    unfold dispatch
    rw [validate_bare accepts, isHost]
  exact execute_eq_runTop ran running

end OneWord

/-! ## Closing blocks -/

/-- The line that closes a block. -/
def endifLine : Bytes := Utf8.ofString "endif"

/-- An `endif` closes the innermost block, in a branch that is not taken too. -/
theorem execute_endif
    {engine : Engine}
    {level : Level}
    {outer : List Level}
    (orderly : engine.Orderly)
    (running : engine.scope.isFinished = false)
    (inside : engine.scope.branches.levels = level :: outer)
    (source : Source) :
    engine.execute source endifLine = (.ok Outcome.done, engine.withBranches ⟨outer⟩) := by
  have isBuiltin : (Registry.builtins.get? "endif").get rfl ∈ Command.builtins :=
    List.mem_of_find?_eq_some (Option.some_get _).symm
  have resolved := orderly.resolve_builtin isBuiltin List.mem_cons_self
  have ran : engine.runTop source endifLine
      = (.ok Outcome.done, engine.withBranches ⟨outer⟩) := by
    refine (runTop_word running (Bool.or_true _) rfl resolved source).trans ?_
    show engine.moved engine.scope.branches.closeBlock = _
    unfold Branches.closeBlock
    rw [inside]
    rfl
  exact execute_eq_runTop ran running

/-- As many `endif`s as there are sources close as many blocks. -/
theorem afterAll_endifs
    {engine : Engine}
    (orderly : engine.Orderly)
    (running : engine.scope.isFinished = false)
    (sources : List Source)
    (enough : sources.length ≤ engine.scope.branches.depth) :
    engine.afterAll (sources.map (.execute · endifLine))
      = engine.withBranches ⟨engine.scope.branches.levels.drop sources.length⟩ := by
  induction sources generalizing engine with
  | nil => rfl
  | cons source rest inductionHypothesis =>
    cases inside : engine.scope.branches.levels with
    | nil =>
      unfold Branches.depth at enough
      rw [inside] at enough
      cases enough
    | cons level outer =>
      have closes := execute_endif orderly running inside source
      have first : engine.after (.execute source endifLine) = engine.withBranches ⟨outer⟩ :=
        congrArg Prod.snd closes
      have enoughLeft : rest.length ≤ outer.length := by
        unfold Branches.depth at enough
        rw [inside, List.length_cons, List.length_cons] at enough
        omega
      show (engine.after (.execute source endifLine)).afterAll _ = _
      rw [first]
      exact inductionHypothesis (orderly.of_grows (.congr rfl rfl)) running enoughLeft

/-! ## Host commands -/

/-- If host commands are added only where there is no user command, no user
command ever bears a name of one. -/
theorem unshadowed_of_hosts_first
    {config : Config}
    {env : Env}
    {view : View}
    {launcher : Launcher}
    {calls : List Call}
    (hostsFirst : ∀ earlier command later, calls = earlier ++ .register command :: later →
      ∀ name, ¬ (afterAll { config, env, view, launcher } earlier).Bears name) :
    (afterAll { config, env, view, launcher } calls).Unshadowed := by
  refine along_session (Guarded.start config env view launcher).unshadowed
    (fun earlier call later split unshadowed => ?_) (List.append_nil calls).symm
  apply unshadowed.after (Orderly.afterAll config env view launcher earlier)
  rintro command registered rfl - name - bears
  exact hostsFirst earlier command later split name bears

theorem Unshadowed.resolve
    {engine : Engine}
    {command : Command}
    {word : String}
    (orderly : engine.Orderly)
    (unshadowed : engine.Unshadowed)
    (isFixed : command ∈ engine.builtins.commands)
    (named : word ∈ command.names) :
    Registry.resolve engine.chain word = .ok command := by
  apply orderly.resolve_fixed isFixed named
  intro guest defined alsoNamed
  obtain ⟨name, body, rfl, -⟩ := orderly.guests guest defined
  have isName : word = name := List.mem_singleton.mp alsoNamed
  have free := unshadowed name (bears_iff.mpr ⟨_, defined, rfl⟩)
  have taken : engine.builtins.contains word = true := Registry.contains_of_mem isFixed named
  rw [isName, free] at taken
  cases taken

/-- **An engine stays usable after any input.** After a session that adds its
host commands while there is no user command, and executes and restores
whatever it likes, only the root frame is left. As long as a block is open
there, an `endif` succeeds and closes one block. When all are closed nothing but
the blocks has changed, and the name of a host command that takes no arguments
calls it once, without arguments, and hands its reply on. -/
theorem usable_after_any_input
    (config : Config)
    (env : Env)
    (view : View)
    (launcher : Launcher)
    (calls : List Call)
    (hostsFirst : ∀ earlier command later, calls = earlier ++ .register command :: later →
      ∀ name, ¬ (afterAll { config, env, view, launcher } earlier).Bears name)
    (sources : List Source) :
    let engine := afterAll { config, env, view, launcher } calls
    let closed := engine.afterAll (sources.map (.execute · endifLine))
    engine.scope.enclosing = []
    ∧ (sources.length < engine.scope.branches.depth → ∀ source,
        (closed.execute source endifLine).1 = .ok Outcome.done
        ∧ (closed.execute source endifLine).2.scope.branches.depth + 1
          = closed.scope.branches.depth)
    ∧ (sources.length = engine.scope.branches.depth →
        closed = engine.withBranches {}
        ∧ ∀ host answer source, host ∈ engine.builtins.commands → host.handler = .host answer →
            host.accepts 0 → Chars.isWord host.name.toList →
            closed.execute source (Utf8.ofString host.name)
              = closed.callHost answer ⟨⟨host.name, [], "", false, false, none⟩, { source }⟩) := by
  intro engine closed
  have orderly : engine.Orderly := Orderly.afterAll config env view launcher calls
  have atRest : engine.AtRest := AtRest.afterAll config env view launcher calls
  have unshadowed : engine.Unshadowed := unshadowed_of_hosts_first hostsFirst
  have openOrderly (branches : Branches) : (engine.withBranches branches).Orderly :=
    orderly.of_grows (.congr rfl rfl)
  have openRunning (branches : Branches) :
      (engine.withBranches branches).scope.isFinished = false := atRest.running
  refine ⟨atRest.atRoot, fun someLeft source => ?_, fun allClosed => ?_⟩
  · have closedIs : closed = _ :=
      afterAll_endifs orderly atRest.running sources (Nat.le_of_lt someLeft)
    obtain ⟨level, outer, inside⟩ :
        ∃ level outer, closed.scope.branches.levels = level :: outer := by
      rw [closedIs]
      exact ⟨_, _, List.drop_eq_getElem_cons someLeft⟩
    rw [execute_endif (closedIs ▸ openOrderly _) (closedIs ▸ openRunning _) inside]
    refine ⟨rfl, ?_⟩
    unfold Branches.depth
    rw [inside]
    rfl
  · have closedIs : closed = engine.withBranches {} := by
      refine (afterAll_endifs orderly atRest.running sources (Nat.le_of_eq allClosed)).trans ?_
      rw [allClosed]
      unfold Branches.depth
      rw [List.drop_length]
    have openUnshadowed : (engine.withBranches {}).Unshadowed :=
      unshadowed.of_grows (.congr rfl rfl)
    refine ⟨closedIs, fun host answer source isFixed isHost accepts isWord => ?_⟩
    have resolved := openUnshadowed.resolve (openOrderly {}) isFixed List.mem_cons_self
    rw [closedIs]
    exact execute_host (openRunning {}) rfl isWord resolved isHost accepts source

/-- A session that ends in a branch that is not taken, after a script that
stops within a block of its own and a line that is no text. -/
def leftOpen : List Call :=
  [.register idleHost, .execute .typed (Utf8.ofString "if 0|if 1"), .script "if 1\nfinish",
    .execute .script [0xFF]]

/-- The engine after that session. -/
def leftOpenEngine : Engine :=
  oneHost.withBranches ⟨[⟨false, false, false, false⟩, ⟨true, false, false, false⟩]⟩

/-- A condition that is false opens a block, and within it the next `if` is not looked
at. -/
theorem runTop_opensTwo (hosts : List Command) (source : Source) :
    let engine : Engine := { builtins := ⟨Command.builtins ++ hosts⟩ }
    engine.runTop source (Utf8.ofString "if 0|if 1")
      = (.ok Outcome.done, engine.withBranches
          ⟨[⟨false, false, false, false⟩, ⟨true, false, false, false⟩]⟩) := by
  intro engine
  let inside := engine.withBranches ⟨[⟨true, false, false, false⟩]⟩
  have opens : engine.perform (runUser 64) { source }
      (engine.readStep (Utf8.ofString "if 0|if 1")).plan
        = (.ok (some Outcome.done), inside) := by with_unfolding_all rfl
  have left : (engine.readStep (Utf8.ofString "if 0|if 1")).rest = some (Utf8.ofString "if 1") := by
    with_unfolding_all rfl
  have passes : inside.perform (runUser 64) { source } (inside.readStep (Utf8.ofString "if 1")).plan
      = (.ok (some Outcome.done), engine.withBranches
          ⟨[⟨false, false, false, false⟩, ⟨true, false, false, false⟩]⟩) := by
    with_unfolding_all rfl
  have noneLeft : (inside.readStep (Utf8.ofString "if 1")).rest = none := by
    with_unfolding_all rfl
  have ran := runLine_first rfl opens left
  rw [runLine_last rfl passes noneLeft] at ran
  exact ran

theorem afterAll_leftOpen : afterAll {} leftOpen = leftOpenEngine := by
  have registered : after {} (.register idleHost) = oneHost := rfl
  have opened : oneHost.after (.execute .typed (Utf8.ofString "if 0|if 1")) = leftOpenEngine :=
    congrArg Prod.snd (execute_eq_runTop (runTop_opensTwo [idleHost] .typed) rfl)
  have stopped : leftOpenEngine.after (.script "if 1\nfinish") = leftOpenEngine := by
    have lines : Script.logicalLines "if 1\nfinish"
        = [⟨1, "if 1".toList⟩, ⟨2, "finish".toList⟩] := by decide +kernel
    have opens : oneHost.runTop .script (Utf8.encode "if 1".toList)
        = (.ok Outcome.done, oneHost.withBranches ⟨[⟨true, true, true, false⟩]⟩) := by
      with_unfolding_all rfl
    have finishes : (oneHost.withBranches ⟨[⟨true, true, true, false⟩]⟩).runTop .script
        (Utf8.encode "finish".toList) = (.ok Outcome.done,
          (oneHost.withBranches ⟨[⟨true, true, true, false⟩]⟩).withFinished true) := by
      with_unfolding_all rfl
    have ran : (oneHost.runLines [⟨1, "if 1".toList⟩, ⟨2, "finish".toList⟩]).2
        = (oneHost.withBranches ⟨[⟨true, true, true, false⟩]⟩).withFinished true := by
      simp only [runLines, opens, finishes]
      rfl
    show ((oneHost.runLines (Script.logicalLines "if 1\nfinish")).2.withBranches _).withFinished
      false = _
    rw [lines, ran]
    rfl
  have refused : leftOpenEngine.after (.execute .script [0xFF]) = leftOpenEngine := by
    with_unfolding_all rfl
  unfold afterAll leftOpen
  rw [List.foldl_cons, registered, List.foldl_cons, opened, List.foldl_cons, stopped,
    List.foldl_cons, refused]
  rfl

/-- The one host command is added first. -/
theorem hostsFirst_leftOpen
    (earlier : List Call)
    (command : Command)
    (later : List Call)
    (split : leftOpen = earlier ++ .register command :: later)
    (name : String) :
    ¬ (afterAll {} earlier).Bears name := by
  cases earlier with
  | nil => exact not_bears_start {} {} {} (Launcher.ofList []) name
  | cons first rest =>
    have member : .register command ∈ leftOpen.tail := by
      rw [split]
      exact List.mem_append_right rest List.mem_cons_self
    simp [leftOpen] at member

/-- Two `endif`s lead out of the two blocks, and then the host is called. -/
theorem usable_after_any_input_left_open :
    leftOpenEngine.isActive = false
    ∧ (leftOpenEngine.execute .typed endifLine).1 = .ok Outcome.done
    ∧ leftOpenEngine.afterAll [.execute .typed endifLine, .execute .script endifLine] = oneHost
    ∧ oneHost.execute .typed (Utf8.ofString "h")
      = (.ok Outcome.done, { oneHost with
          calls := [⟨⟨"h", [], "", false, false, none⟩, ⟨.typed, 0⟩⟩] }) := by
  have law := usable_after_any_input {} {} {} (Launcher.ofList []) leftOpen hostsFirst_leftOpen
  simp only [afterAll_leftOpen] at law
  obtain ⟨-, closesOne, -⟩ := law []
  obtain ⟨-, -, closesAll⟩ := law [.typed, .script]
  obtain ⟨noneOpen, callsHost⟩ := closesAll rfl
  refine ⟨rfl, (closesOne (by decide) .typed).1, noneOpen, ?_⟩
  have called := callsHost idleHost _ .typed
    (List.mem_append_right _ (List.mem_singleton.mpr rfl)) rfl rfl rfl
  rw [noneOpen] at called
  exact called

end ExLine.Engine

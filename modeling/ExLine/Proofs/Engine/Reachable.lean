import ExLine.Proofs.Engine.Definitions

/-!
Contract: the states in which an engine waits for the next call.

Owns:
- `Engine.Reachable`, the states that a session can lead to;
- `Engine.Sound`, which commands such a state holds, kept by every line;
- `Engine.resolve_builtin`, by which the full name of a built-in command always
  means that command.

Does not own: what the commands of a session do (`ExLine.Engine.Script`).

No user command and no host command bears a name of a built-in command. The
checks stand where a command is added, so this is a law of the whole session
and not of one line.
-/

set_option autoImplicit false

namespace ExLine

/-- A user command that bears no name of a built-in command. -/
def Command.IsGuest (command : Command) : Prop :=
  ∃ name body, command = Command.user name body ∧ Registry.builtins.contains name = false

/-- A name that is free beside the built-in commands is none of theirs. -/
theorem Registry.free_of_extends
    {registry : Registry}
    {hosts : List Command}
    {name : String}
    (commands : registry.commands = Command.builtins ++ hosts)
    (free : registry.contains name = false) :
    Registry.builtins.contains name = false := by
  unfold Registry.contains at free ⊢
  rw [commands, List.any_append, Bool.or_eq_false_iff] at free
  exact free.1

namespace Engine

/-- The states between two calls of a session. -/
inductive Reachable : Engine → Prop where
  | start (config : Config) (env : Env) (view : View) (launcher : Launcher) :
      Reachable { config, env, view, launcher }
  /-- The surrounding program shows another view or sets other variables. -/
  | surroundings {engine : Engine} (view : View) (env : Env) (before : Reachable engine) :
      Reachable { engine with view, env }
  /-- The surrounding program adds a command of its own. -/
  | register
      {engine after : Engine}
      (command : Command)
      (foreign : ∀ action, command.handler ≠ .builtin action)
      (registered : engine.register command = .ok after)
      (before : Reachable engine) :
      Reachable after
  | restore {engine : Engine} (saved : List UserCommand) (before : Reachable engine) :
      Reachable (engine.restoreAll saved).2
  | execute {engine : Engine} (source : Source) (line : Bytes) (before : Reachable engine) :
      Reachable (engine.execute source line).2
  | script {engine : Engine} (text : String) (before : Reachable engine) :
      Reachable (engine.runScript text).2

/-- The commands that an engine holds: the built-in ones first among the fixed
ones, none of their actions elsewhere, and in the frames only user commands
that bear none of their names. -/
structure Sound (engine : Engine) : Prop where
  fixed : ∃ hosts, engine.builtins.commands = Command.builtins ++ hosts
    ∧ ∀ command ∈ hosts, ∀ action, command.handler ≠ .builtin action
  guests : ∀ registry ∈ engine.scope.chain, ∀ command ∈ registry.commands, command.IsGuest

namespace Sound

theorem congr
    {engine after : Engine}
    (sound : engine.Sound)
    (sameBuiltins : after.builtins = engine.builtins)
    (sameChain : after.scope.chain = engine.scope.chain) :
    after.Sound := by
  constructor
  · rw [sameBuiltins]
    exact sound.fixed
  · rw [sameChain]
    exact sound.guests

/-- The names of the built-in commands are taken in every sound engine. -/
theorem free_of_contains
    {engine : Engine}
    (sound : engine.Sound)
    {name : String}
    (free : engine.builtins.contains name = false) :
    Registry.builtins.contains name = false := by
  obtain ⟨hosts, commands, -⟩ := sound.fixed
  exact Registry.free_of_extends commands free

/-- New commands for the innermost frame keep the engine sound if all of them
are guests. -/
theorem withCommands
    {engine : Engine}
    {registry : Registry}
    (sound : engine.Sound)
    (guests : ∀ command ∈ registry.commands, command.IsGuest) :
    (engine.withCommands registry).Sound := by
  refine ⟨sound.fixed, fun held member command inside => ?_⟩
  rcases List.mem_cons.mp member with rfl | below
  · exact guests command inside
  · exact sound.guests held (List.mem_cons_of_mem _ below) command inside

theorem of_grows
    {before after : Engine}
    (sound : before.Sound)
    (grows : Grows before after) :
    after.Sound := by
  refine ⟨?_, fun registry member command inside => ?_⟩
  · rw [grows.builtins]
    exact sound.fixed
  · rcases grows.origin command ⟨registry, member, inside⟩ with
      ⟨held, isHeld, inHeld⟩ | ⟨name, body, rfl, -, free⟩
    · exact sound.guests held isHeld command inHeld
    · exact ⟨name, body, rfl, sound.free_of_contains free⟩

theorem runLine
    {engine : Engine}
    (sound : engine.Sound)
    (levels : Nat)
    (site : Site)
    (line : Bytes) :
    (engine.runLine (runUser levels) site line).2.Sound :=
  sound.of_grows (.runLine levels engine site line)

theorem runTop
    {engine : Engine}
    (sound : engine.Sound)
    (source : Source)
    (line : Bytes) :
    (engine.runTop source line).2.Sound :=
  sound.runLine engine.config.maxDepth { source } line

theorem runLines
    {engine : Engine}
    (sound : engine.Sound)
    (lines : List Script.LogicalLine) :
    (engine.runLines lines).2.Sound :=
  sound.of_grows (.runLines engine lines)

end Sound

/-! ## Commands that are added between calls -/

/-- A host command is added after all others, and nothing else changes. -/
theorem register_eq
    {engine after : Engine}
    {command : Command}
    (registered : engine.register command = .ok after) :
    after = { engine with builtins := ⟨engine.builtins.commands ++ [command]⟩ } := by
  unfold register Registry.register at registered
  simp only [bind, Except.bind, pure, Except.pure] at registered
  split at registered
  · cases registered
  · rename_i extended added
    cases registered
    split at added <;> cases added
    rfl

/-- A user command is restored by a definition, and only if its name is
free. -/
theorem restore_eq_define
    {engine after : Engine}
    {saved : UserCommand}
    (restored : engine.restore saved = .ok after) :
    engine.builtins.contains saved.name = false ∧
      ∃ scope, engine.scope.define (Command.user saved.name saved.body) true = .ok scope
        ∧ after = { engine with scope } := by
  unfold restore at restored
  split at restored
  · cases restored
  · rename_i free
    simp only [bind, Except.bind, pure, Except.pure] at restored
    split at restored
    · cases restored
    · rename_i scope defined
      cases restored
      exact ⟨Bool.eq_false_iff.mpr free, scope, defined, rfl⟩

/-- What is restored stands among the commands of the innermost frame. -/
theorem restore_eq
    {engine after : Engine}
    {saved : UserCommand}
    (restored : engine.restore saved = .ok after) :
    engine.builtins.contains saved.name = false ∧
      ∃ registry : Registry, after = engine.withCommands registry ∧
        ∀ command ∈ registry.commands, command ∈ engine.scope.innermost.commands.commands
          ∨ command = Command.user saved.name saved.body := by
  obtain ⟨free, scope, defined, rfl⟩ := restore_eq_define restored
  obtain ⟨registry, rfl, origin⟩ := define_eq_withCommands defined
  exact ⟨free, registry, rfl, origin⟩

/-- Restoring goes one command at a time, and keeps what one restoration
keeps. -/
theorem of_restoreAll
    {property : Engine → Prop}
    (kept : ∀ {engine after : Engine} {saved : UserCommand},
      property engine → engine.restore saved = .ok after → property after)
    {engine : Engine}
    (holds : property engine)
    (saved : List UserCommand) :
    property (engine.restoreAll saved).2 := by
  induction saved generalizing engine with
  | nil => exact holds
  | cons command rest inductionHypothesis =>
    unfold restoreAll
    split
    · rename_i after restored
      exact inductionHypothesis (kept holds restored)
    · exact holds

namespace Sound

theorem register
    {engine after : Engine}
    {command : Command}
    (sound : engine.Sound)
    (foreign : ∀ action, command.handler ≠ .builtin action)
    (registered : engine.register command = .ok after) :
    after.Sound := by
  obtain ⟨hosts, commands, others⟩ := sound.fixed
  rw [register_eq registered]
  refine ⟨⟨hosts ++ [command], ?_, fun held member => ?_⟩, sound.guests⟩
  · rw [commands, List.append_assoc]
  · rcases List.mem_append.mp member with earlier | new
    · exact others held earlier
    · rw [List.mem_singleton.mp new]
      exact foreign

theorem restore
    {engine after : Engine}
    {saved : UserCommand}
    (sound : engine.Sound)
    (restored : engine.restore saved = .ok after) :
    after.Sound := by
  obtain ⟨free, registry, rfl, origin⟩ := restore_eq restored
  refine sound.withCommands fun command member => ?_
  rcases origin command member with held | rfl
  · exact sound.guests _ List.mem_cons_self command held
  · exact ⟨_, _, rfl, sound.free_of_contains free⟩

theorem restoreAll
    {engine : Engine}
    (sound : engine.Sound)
    (saved : List UserCommand) :
    (engine.restoreAll saved).2.Sound
      ∧ (engine.restoreAll saved).2.scope.isFinished = engine.scope.isFinished := by
  refine @of_restoreAll
    (fun after => after.Sound ∧ after.scope.isFinished = engine.scope.isFinished)
    (fun held restored => ?_) engine ⟨sound, rfl⟩ saved
  refine ⟨held.1.restore restored, ?_⟩
  obtain ⟨-, registry, rfl, -⟩ := restore_eq restored
  exact held.2

end Sound

/-- Between two calls the engine is sound and no frame is stopped. -/
theorem Reachable.sound
    {engine : Engine}
    (reachable : engine.Reachable) :
    engine.Sound ∧ engine.scope.isFinished = false := by
  induction reachable with
  | start config env view launcher =>
    refine ⟨⟨⟨[], (List.append_nil _).symm, fun _ member => nomatch member⟩, ?_⟩, rfl⟩
    intro registry member command inside
    rw [List.mem_singleton.mp member] at inside
    cases inside
  | surroundings view env before inductionHypothesis =>
    exact ⟨inductionHypothesis.1.congr rfl rfl, inductionHypothesis.2⟩
  | register command foreign registered before inductionHypothesis =>
    refine ⟨inductionHypothesis.1.register foreign registered, ?_⟩
    rw [register_eq registered]
    exact inductionHypothesis.2
  | restore saved before inductionHypothesis =>
    obtain ⟨after, running⟩ := inductionHypothesis.1.restoreAll saved
    exact ⟨after, running.trans inductionHypothesis.2⟩
  | execute source line before inductionHypothesis =>
    exact ⟨(inductionHypothesis.1.runTop source line).congr rfl rfl, rfl⟩
  | script text before inductionHypothesis =>
    have opened : (withBranches _ {}).Sound := inductionHypothesis.1.congr rfl rfl
    have after := opened.runLines (Script.logicalLines text)
    exact ⟨after.congr rfl rfl, rfl⟩

/-! ## Full names -/

/-- The full name of a fixed command means that command, or a user command of
the same name that was there before the fixed one. -/
theorem resolve_fixed
    {engine : Engine}
    {name : String}
    {command : Command}
    (sound : engine.Sound)
    (fixed : engine.builtins.get? name = some command) :
    ∃ found, Registry.resolve engine.chain name = .ok found
      ∧ found.name = name ∧ (found.IsGuest ∨ found = command) := by
  have searched : (engine.chain.flatMap (·.commands)).find? (fun held => held.name == name)
      = ((engine.scope.chain.flatMap (·.commands)).find? fun held => held.name == name).or
          (some command) := by
    unfold chain
    rw [List.flatMap_append, List.flatMap_singleton, List.find?_append]
    exact congrArg _ fixed
  unfold Registry.resolve
  simp only [searched]
  cases shadowing : (engine.scope.chain.flatMap (·.commands)).find?
      fun held => held.name == name with
  | none =>
    have sameName := List.find?_some fixed
    exact ⟨command, rfl, by simpa using sameName, .inr rfl⟩
  | some guest =>
    have sameName := List.find?_some shadowing
    obtain ⟨registry, member, inside⟩ := List.mem_flatMap.mp (List.mem_of_find?_eq_some shadowing)
    exact ⟨guest, rfl, by simpa using sameName, .inl (sound.guests registry member guest inside)⟩

theorem Sound.get?_builtin
    {engine : Engine}
    {name : String}
    {command : Command}
    (sound : engine.Sound)
    (builtin : Registry.builtins.get? name = some command) :
    engine.builtins.get? name = some command := by
  obtain ⟨hosts, commands, -⟩ := sound.fixed
  unfold Registry.get?
  rw [commands, List.find?_append]
  exact congrArg (Option.or · _) builtin

/-- The full name of a built-in command means that command, whatever the user
and the surrounding program have added. -/
theorem resolve_builtin
    {engine : Engine}
    {name : String}
    {command : Command}
    (sound : engine.Sound)
    (builtin : Registry.builtins.get? name = some command) :
    Registry.resolve engine.chain name = .ok command := by
  obtain ⟨found, resolved, sameName, guest | rfl⟩ :=
    resolve_fixed sound (sound.get?_builtin builtin)
  · obtain ⟨guestName, body, rfl, free⟩ := guest
    have taken : Registry.builtins.contains name = true := by
      unfold Registry.contains
      refine List.any_eq_true.mpr ⟨command, List.mem_of_find?_eq_some builtin, ?_⟩
      have named := List.find?_some builtin
      simp only [beq_iff_eq] at named
      simp [Command.names, named]
    rw [show guestName = name from sameName, taken] at free
    cases free
  · exact resolved

end Engine

end ExLine

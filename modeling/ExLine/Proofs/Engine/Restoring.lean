import ExLine.Proofs.Engine.Recovery

/-!
Contract: saved user commands bring a table of commands back.

Owns:
- `Engine.Stores`, by which a list of saved commands is what an engine has
  besides the fixed ones, and `Engine.Stores.userCommands`, by which the listing
  is that list;
- `Engine.restoreAll_distinct`, by which restoring a list of distinct free names
  adds it as it stands;
- `Engine.saved_commands_restore_table`.

Does not own: the written form of saved commands (`ExLine.SavedCommands`).

The listing goes through all frames and puts an inner command in the place of an
outer one. A restoration goes through the check of names and replaces commands.
Between two calls there is one frame, and its names are distinct, so neither
path finds anything to replace.
-/

set_option autoImplicit false

namespace ExLine

/-- The command that a saved user command stands for. -/
def UserCommand.command (saved : UserCommand) : Command :=
  Command.user saved.name saved.body

@[simp]
theorem UserCommand.name_command (saved : UserCommand) : saved.command.name = saved.name :=
  rfl

@[simp]
theorem UserCommand.names_command (saved : UserCommand) : saved.command.names = [saved.name] :=
  rfl

theorem UserCommand.isNew_of_distinct
    {first : UserCommand}
    {earlier rest : List UserCommand}
    (distinct : ((earlier ++ [first] ++ rest).map (·.name)).Nodup) :
    first.name ∉ earlier.map (·.name) := by
  intro inEarlier
  rw [List.map_append, List.map_append] at distinct
  have apart := List.disjoint_of_nodup_append distinct.of_append_left
  exact apart inEarlier (List.mem_singleton.mpr rfl)

/-! ## Listing one frame -/

namespace Scope

theorem shadow_new
    {shown : List UserCommand}
    {command : UserCommand}
    (isNew : command.name ∉ shown.map (·.name)) :
    shadow shown command = shown ++ [command] := by
  induction shown with
  | nil => rfl
  | cons held rest inductionHypothesis =>
    rw [List.map_cons, List.mem_cons, not_or] at isNew
    obtain ⟨otherName, isNewInRest⟩ := isNew
    unfold shadow
    rw [if_neg (Ne.symm otherName), inductionHypothesis isNewInRest]
    rfl

theorem foldl_shadow
    (saved shown : List UserCommand)
    (distinct : ((shown ++ saved).map (·.name)).Nodup) :
    saved.foldl shadow shown = shown ++ saved := by
  induction saved generalizing shown with
  | nil => exact (List.append_nil shown).symm
  | cons first rest inductionHypothesis =>
    rw [List.append_cons] at distinct
    have firstIsNew := UserCommand.isNew_of_distinct distinct
    rw [List.foldl_cons, shadow_new firstIsNew, inductionHypothesis _ distinct, ← List.append_cons]

theorem userCommandsOf_map (saved : List UserCommand) :
    userCommandsOf ⟨saved.map UserCommand.command⟩ = saved := by
  unfold userCommandsOf
  rw [List.filterMap_map]
  exact List.filterMap_some

end Scope

/-- A registry of user commands is made of what its listing saves. -/
theorem Registry.map_command_userCommandsOf
    {registry : Registry}
    (guests : ∀ command ∈ registry.commands, command.IsGuest) :
    (Scope.userCommandsOf registry).map UserCommand.command = registry.commands := by
  obtain ⟨commands⟩ := registry
  unfold Scope.userCommandsOf
  induction commands with
  | nil => rfl
  | cons command rest inductionHypothesis =>
    obtain ⟨name, body, rfl, -⟩ := guests command List.mem_cons_self
    have others := inductionHypothesis fun held member =>
      guests held (List.mem_cons_of_mem _ member)
    exact congrArg (Command.user name body :: ·) others

namespace Engine

/-- Besides the fixed commands there are the saved ones, in their order, and
their names are distinct and free. -/
structure Stores (engine : Engine) (saved : List UserCommand) : Prop where
  atRoot : engine.scope.enclosing = []
  holds : engine.scope.innermost.commands = ⟨saved.map UserCommand.command⟩
  distinct : (saved.map (·.name)).Nodup
  free : ∀ command ∈ saved, engine.builtins.contains command.name = false

section OneFrame

variable {engine : Engine} {earlier saved : List UserCommand}

theorem Stores.chain (stores : engine.Stores saved) :
    engine.chain = [⟨saved.map UserCommand.command⟩, engine.builtins] := by
  unfold Engine.chain Scope.chain Scope.frames
  rw [stores.atRoot, ← stores.holds]
  rfl

theorem Stores.userCommands (stores : engine.Stores saved) : engine.userCommands = saved := by
  have oneFrame : engine.scope.chain = [⟨saved.map UserCommand.command⟩] := by
    unfold Scope.chain Scope.frames
    rw [stores.atRoot, List.map_singleton, stores.holds]
  unfold Engine.userCommands Scope.userCommands
  rw [oneFrame, List.reverse_singleton, List.flatMap_singleton, Scope.userCommandsOf_map]
  exact Scope.foldl_shadow saved [] stores.distinct

/-! ## Restoring into one frame -/

theorem restore_new
    {command : UserCommand}
    (holds : engine.scope.innermost.commands = ⟨earlier.map UserCommand.command⟩)
    (free : engine.builtins.contains command.name = false)
    (isNew : command.name ∉ earlier.map (·.name)) :
    engine.restore command
      = .ok (engine.withCommands ⟨(earlier ++ [command]).map UserCommand.command⟩) := by
  have absent : engine.scope.innermost.commands.get? command.name = none := by
    rw [holds]
    apply List.find?_eq_none.mpr
    intro held member sameName
    obtain ⟨other, isEarlier, rfl⟩ := List.mem_map.mp member
    apply isNew
    rw [UserCommand.name_command, beq_iff_eq] at sameName
    exact List.mem_map.mpr ⟨other, isEarlier, sameName⟩
  have registered : engine.scope.innermost.commands.register command.command
      = .ok ⟨(earlier ++ [command]).map UserCommand.command⟩ := by
    rw [holds, Registry.register_eq_ok_iff, List.map_append]
    refine ⟨fun held member name inHeld inCommand => ?_, rfl⟩
    obtain ⟨other, isEarlier, rfl⟩ := List.mem_map.mp member
    rw [UserCommand.names_command, List.mem_singleton] at inHeld inCommand
    apply isNew
    exact List.mem_map.mpr ⟨other, isEarlier, inHeld.symm.trans inCommand⟩
  have defined : engine.scope.define command.command true
      = .ok (engine.scope.withCommands ⟨(earlier ++ [command]).map UserCommand.command⟩) := by
    unfold Scope.define
    show (if (engine.scope.innermost.commands.get? command.name).isSome then _ else _) = _
    rw [absent, registered]
    rfl
  unfold restore
  rw [free]
  show (do let scope ← engine.scope.define command.command true
           return { engine with scope } : Except CommandError Engine) = _
  rw [defined]
  rfl

/-- Distinct free names are all taken in, one after the other. -/
theorem restoreAll_distinct
    (holds : engine.scope.innermost.commands = ⟨earlier.map UserCommand.command⟩)
    (free : ∀ command ∈ saved, engine.builtins.contains command.name = false)
    (distinct : ((earlier ++ saved).map (·.name)).Nodup) :
    engine.restoreAll saved
      = (.ok (), engine.withCommands ⟨(earlier ++ saved).map UserCommand.command⟩) := by
  induction saved generalizing engine earlier with
  | nil =>
    rw [List.append_nil, ← holds]
    rfl
  | cons first rest inductionHypothesis =>
    rw [List.append_cons] at distinct ⊢
    have restored := restore_new holds (free first List.mem_cons_self)
      (UserCommand.isNew_of_distinct distinct)
    unfold restoreAll
    rw [restored]
    exact inductionHypothesis rfl (fun command member => free command (List.mem_cons_of_mem _ member))
      distinct

/-- What one engine stores can be restored in any other that has the same fixed
commands and no user command. -/
theorem Stores.restoreAll
    {fresh : Engine}
    (stores : engine.Stores saved)
    (sameFixed : fresh.builtins = engine.builtins)
    (atRoot : fresh.scope.enclosing = [])
    (noneYet : fresh.scope.innermost.commands = ⟨[]⟩) :
    (fresh.restoreAll saved).1 = .ok ()
    ∧ (fresh.restoreAll saved).2.builtins = engine.builtins
    ∧ (fresh.restoreAll saved).2.Stores saved := by
  have free : ∀ command ∈ saved, fresh.builtins.contains command.name = false := by
    rw [sameFixed]
    exact stores.free
  have taken : fresh.restoreAll saved
      = (.ok (), fresh.withCommands ⟨saved.map UserCommand.command⟩) :=
    @restoreAll_distinct fresh [] saved noneYet free stores.distinct
  rw [taken]
  exact ⟨rfl, sameFixed, atRoot, rfl, stores.distinct, free⟩

end OneFrame

/-! ## Sessions -/

theorem DistinctNames.restore
    {engine restored : Engine}
    {saved : UserCommand}
    (distinct : engine.DistinctNames)
    (done : engine.restore saved = .ok restored) :
    restored.DistinctNames := by
  obtain ⟨-, scope, defined, rfl⟩ := restore_eq_define done
  have inner := Registry.nodup_names_define (distinct _ List.mem_cons_self) defined
  obtain ⟨registry, rfl, -⟩ := define_eq_withCommands defined
  exact distinct.withCommands inner

theorem DistinctNames.after
    {engine : Engine}
    (call : Call)
    (distinct : engine.DistinctNames) :
    (engine.after call).DistinctNames := by
  cases call with
  | register command =>
    apply of_after_register distinct
    intro registered done
    rw [register_eq done]
    exact distinct
  | restore saved => exact of_restoreAll DistinctNames.restore distinct saved
  | execute source line => exact (Grows.execute engine source line).distinct distinct
  | script text => exact (Grows.script engine text).distinct distinct
  | surroundings view env => exact distinct

theorem DistinctNames.afterAll
    (config : Config)
    (env : Env)
    (view : View)
    (launcher : Launcher)
    (calls : List Call) :
    (Engine.afterAll { config, env, view, launcher } calls).DistinctNames := by
  refine of_afterAll (fun call distinct => distinct.after call) ?_ calls
  intro registry member
  rw [List.mem_singleton.mp member]
  exact List.nodup_nil

def Call.isRegister : Call → Bool
  | .register _ => true
  | _ => false

/-- Only an added host command changes the fixed commands. -/
theorem builtins_after
    {engine : Engine}
    {call : Call}
    (other : call.isRegister = false) :
    (engine.after call).builtins = engine.builtins := by
  cases call with
  | register command => cases other
  | restore saved => exact (keeps_restoreAll engine saved).builtins
  | execute source line => exact (Grows.execute engine source line).builtins
  | script text => exact (Grows.script engine text).builtins
  | surroundings view env => rfl

/-- An added host command is checked against the fixed commands alone. -/
theorem after_register_congr
    {engine other : Engine}
    (same : other.builtins = engine.builtins)
    (command : Command) :
    other.after (.register command)
      = { other with builtins := (engine.after (.register command)).builtins } := by
  unfold after register
  simp only [same]
  cases engine.builtins.register command with
  | error error =>
    show other = { other with builtins := engine.builtins }
    rw [← same]
  | ok builtins => rfl

/-- Adding the host commands of a session to another engine gives it the fixed
commands of the session. -/
theorem afterAll_registers
    {engine other : Engine}
    (same : other.builtins = engine.builtins)
    (calls : List Call) :
    other.afterAll (calls.filter Call.isRegister)
      = { other with builtins := (engine.afterAll calls).builtins } := by
  induction calls generalizing engine other with
  | nil =>
    show other = { other with builtins := engine.builtins }
    rw [← same]
  | cons call rest inductionHypothesis =>
    cases isRegister : call.isRegister with
    | false =>
      rw [List.filter_cons_of_neg (by rw [isRegister]; exact Bool.false_ne_true)]
      exact inductionHypothesis (same.trans (builtins_after isRegister).symm)
    | true =>
      rw [List.filter_cons_of_pos isRegister]
      cases call with
      | register command =>
        have added := after_register_congr same command
        have sameAfter := congrArg Engine.builtins added
        have later := @inductionHypothesis (engine.after (.register command))
          (other.after (.register command)) sameAfter
        refine later.trans ?_
        rw [added]
        rfl
      | restore | execute | script | surroundings => cases isRegister

/-- A session that adds its host commands while there is no user command stores
commands under free names. -/
theorem exists_stores
    {config : Config}
    {env : Env}
    {view : View}
    {launcher : Launcher}
    {calls : List Call}
    (hostsFirst : ∀ earlier command later, calls = earlier ++ .register command :: later →
      ∀ name, ¬ (afterAll { config, env, view, launcher } earlier).Bears name) :
    ∃ saved, (afterAll { config, env, view, launcher } calls).Stores saved := by
  have orderly := Orderly.afterAll config env view launcher calls
  have atRest := AtRest.afterAll config env view launcher calls
  have unshadowed := unshadowed_of_hosts_first hostsFirst
  have distinctNames := DistinctNames.afterAll config env view launcher calls
  generalize afterAll { config, env, view, launcher } calls = engine at *
  have holds : engine.scope.innermost.commands
      = ⟨(Scope.userCommandsOf engine.scope.innermost.commands).map UserCommand.command⟩ := by
    rw [Registry.map_command_userCommandsOf]
    intro command inside
    exact orderly.guests command ⟨_, List.mem_cons_self, inside⟩
  generalize Scope.userCommandsOf engine.scope.innermost.commands = saved at holds
  have names : engine.scope.innermost.commands.names = saved.map (·.name) := by
    rw [holds]
    unfold Registry.names
    rw [List.map_map]
    rfl
  refine ⟨saved, atRest.atRoot, holds, ?_, ?_⟩
  · rw [← names]
    exact distinctNames _ List.mem_cons_self
  · intro command member
    apply unshadowed
    refine ⟨engine.scope.innermost.commands, List.mem_cons_self, ?_⟩
    rw [names]
    exact List.mem_map_of_mem member

/-- **Saved user commands restore the table of commands.** After a session that
adds its host commands while there is no user command, the visible user commands
are restored without an error in a new engine with the same host commands. They
are listed there in the same order, and every word means the same command, or
fails for the same reason, in both engines. -/
theorem saved_commands_restore_table
    (config : Config)
    (env : Env)
    (view : View)
    (launcher : Launcher)
    (calls : List Call)
    (hostsFirst : ∀ earlier command later, calls = earlier ++ .register command :: later →
      ∀ name, ¬ (afterAll { config, env, view, launcher } earlier).Bears name)
    (newConfig : Config)
    (newEnv : Env)
    (newView : View)
    (newLauncher : Launcher) :
    let engine := afterAll { config, env, view, launcher } calls
    let fresh := afterAll
      { config := newConfig, env := newEnv, view := newView, launcher := newLauncher }
      (calls.filter Call.isRegister)
    let restored := (fresh.restoreAll engine.userCommands).2
    (fresh.restoreAll engine.userCommands).1 = .ok ()
    ∧ restored.userCommands = engine.userCommands
    ∧ ∀ word, Registry.resolve restored.chain word = Registry.resolve engine.chain word := by
  intro engine fresh restored
  obtain ⟨saved, stores⟩ : ∃ saved, engine.Stores saved := exists_stores hostsFirst
  have freshIs : fresh = {
      config := newConfig
      env := newEnv
      view := newView
      launcher := newLauncher
      builtins := engine.builtins } :=
    @afterAll_registers { config, env, view, launcher }
      { config := newConfig, env := newEnv, view := newView, launcher := newLauncher } rfl calls
  obtain ⟨taken, sameFixed, storesToo⟩ : (fresh.restoreAll saved).1 = .ok ()
      ∧ (fresh.restoreAll saved).2.builtins = engine.builtins
      ∧ (fresh.restoreAll saved).2.Stores saved := by
    rw [freshIs]
    exact stores.restoreAll rfl rfl rfl
  have restoredIs : restored = (fresh.restoreAll saved).2 := by
    show (fresh.restoreAll engine.userCommands).2 = _
    rw [stores.userCommands]
  rw [stores.userCommands, restoredIs]
  refine ⟨taken, storesToo.userCommands, ?_⟩
  intro word
  rw [storesToo.chain, stores.chain, sameFixed]

/-- Commands that are restored, replaced and deleted after a host was added. -/
def keptCommands : List Call :=
  [.register idleHost, .restore [⟨"b", ":h"⟩, ⟨"a", ":b"⟩, ⟨"2go", ":h"⟩],
    .execute .typed (Utf8.ofString "command! b !ls"), .script "delcommand a"]

/-- A replaced command keeps its place in the list. -/
theorem saved_commands_restore_table_kept :
    (afterAll {} keptCommands).userCommands = [⟨"b", "!ls"⟩, ⟨"2go", ":h"⟩]
    ∧ (oneHost.restoreAll (afterAll {} keptCommands).userCommands).1 = .ok ()
    ∧ (oneHost.restoreAll (afterAll {} keptCommands).userCommands).2.userCommands
      = (afterAll {} keptCommands).userCommands
    ∧ ∀ word, Registry.resolve
          (oneHost.restoreAll (afterAll {} keptCommands).userCommands).2.chain word
        = Registry.resolve (afterAll {} keptCommands).chain word := by
  have hostsFirst : ∀ earlier command later, keptCommands = earlier ++ .register command :: later →
      ∀ name, ¬ (afterAll {} earlier).Bears name := by
    intro earlier command later split name
    cases earlier with
    | nil => exact not_bears_start {} {} {} (Launcher.ofList []) name
    | cons first rest =>
      have member : .register command ∈ keptCommands.tail := by
        rw [split]
        exact List.mem_append_right rest List.mem_cons_self
      simp [keptCommands] at member
  refine ⟨by decide +kernel, ?_⟩
  exact saved_commands_restore_table {} {} {} (Launcher.ofList []) keptCommands hostsFirst
    {} {} {} (Launcher.ofList [])

end Engine

end ExLine

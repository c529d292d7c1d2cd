import ExLine.Proofs.Engine.Sessions

/-!
Contract: the names that user commands can have.

Owns:
- `Engine.Guarded`, by which every user command has a name that a line may give
  it, and that no fixed command bears;
- `Call.Careful`, the calls that keep it so, and the law that these are all.

Does not own: what a name means (`ExLine.Proofs.Engine.Sessions`).

Names are given at three places: a line that defines a user command, a saved
user command that is restored, and a host command that is added. Only the first
place checks all that there is to check. A restored name is compared with the
fixed commands and otherwise taken as it is, and the name of a host command is
compared with the fixed commands only.
-/

set_option autoImplicit false

namespace ExLine.Engine

/-- Some frame holds a user command of that name. -/
def Bears (engine : Engine) (name : String) : Prop :=
  ∃ registry ∈ engine.scope.chain, name ∈ registry.names

theorem bears_iff {engine : Engine} {name : String} :
    engine.Bears name ↔ ∃ command, engine.Defines command ∧ command.name = name := by
  constructor
  · rintro ⟨registry, member, inNames⟩
    obtain ⟨command, inside, sameName⟩ := List.mem_map.mp inNames
    exact ⟨command, ⟨registry, member, inside⟩, sameName⟩
  · rintro ⟨command, ⟨registry, member, inside⟩, rfl⟩
    exact ⟨registry, member, List.mem_map_of_mem inside⟩

theorem not_bears_start
    (config : Config)
    (env : Env)
    (view : View)
    (launcher : Launcher)
    (name : String) :
    ¬ Bears { config, env, view, launcher } name := by
  rintro ⟨registry, member, inNames⟩
  rw [List.mem_singleton.mp member] at inNames
  cases inNames

/-- No user command bears a name or an abbreviation of a fixed command. -/
def Unshadowed (engine : Engine) : Prop :=
  ∀ name, engine.Bears name → engine.builtins.contains name = false

/-- Every user command has a name that a line may give it. -/
def WellNamed (engine : Engine) : Prop :=
  ∀ name, engine.Bears name → isValidName name

theorem Grows.bears
    {before after : Engine}
    (grows : Grows before after)
    {name : String}
    (bears : after.Bears name) :
    before.Bears name ∨ (isValidName name ∧ before.builtins.contains name = false) := by
  obtain ⟨command, defined, rfl⟩ := bears_iff.mp bears
  rcases grows.origin command defined with earlier | ⟨name, body, rfl, valid, free⟩
  · exact .inl (bears_iff.mpr ⟨command, earlier, rfl⟩)
  · exact .inr ⟨valid, free⟩

theorem Unshadowed.of_grows
    {before after : Engine}
    (unshadowed : before.Unshadowed)
    (grows : Grows before after) :
    after.Unshadowed := by
  intro name bears
  rw [grows.builtins]
  rcases grows.bears bears with earlier | ⟨-, free⟩
  · exact unshadowed name earlier
  · exact free

theorem WellNamed.of_grows
    {before after : Engine}
    (wellNamed : before.WellNamed)
    (grows : Grows before after) :
    after.WellNamed := by
  intro name bears
  rcases grows.bears bears with earlier | ⟨valid, -⟩
  · exact wellNamed name earlier
  · exact valid

/-! ## The calls that add names unchecked -/

/-- The saved commands that are restored: those up to the first one with a name
of a fixed command. -/
def restorable (engine : Engine) (saved : List UserCommand) : List UserCommand :=
  saved.takeWhile fun command => !engine.builtins.contains command.name

theorem bears_restore
    {engine restored : Engine}
    {saved : UserCommand}
    (done : engine.restore saved = .ok restored)
    (name : String) :
    restored.builtins = engine.builtins
      ∧ (restored.Bears name ↔ engine.Bears name ∨ name = saved.name) := by
  obtain ⟨-, scope, defined, rfl⟩ := restore_eq_define done
  obtain ⟨registry, rfl, names⟩ := Registry.mem_names_define defined
  refine ⟨rfl, ?_, ?_⟩
  · rintro ⟨held, member, inNames⟩
    rcases List.mem_cons.mp member with rfl | below
    · rcases (names name).mp inNames with earlier | isNew
      · exact .inl ⟨_, List.mem_cons_self, earlier⟩
      · exact .inr isNew
    · exact .inl ⟨held, List.mem_cons_of_mem _ below, inNames⟩
  · rintro (⟨held, member, inNames⟩ | isNew)
    · rcases List.mem_cons.mp member with rfl | below
      · exact ⟨registry, List.mem_cons_self, (names name).mpr (.inl inNames)⟩
      · exact ⟨held, List.mem_cons_of_mem _ below, inNames⟩
    · exact ⟨registry, List.mem_cons_self, (names name).mpr (.inr isNew)⟩

/-- A saved command is refused only for a name of a fixed command. -/
theorem restore_of_free
    {engine : Engine}
    {saved : UserCommand}
    (orderly : engine.Orderly)
    (free : engine.builtins.contains saved.name = false) :
    ∃ restored, engine.restore saved = .ok restored := by
  have guests : ∀ command ∈ engine.scope.innermost.commands.commands, command.IsGuest := by
    intro command inside
    exact orderly.guests command ⟨_, List.mem_cons_self, inside⟩
  obtain ⟨registry, defined, -⟩ := Scope.define_force guests saved.name saved.body
  refine ⟨engine.withCommands registry, ?_⟩
  unfold restore
  rw [free, defined]
  rfl

/-- The names after a restoration are those before it and the restored ones. -/
theorem bears_restoreAll
    {engine : Engine}
    (orderly : engine.Orderly)
    (saved : List UserCommand)
    (name : String) :
    (engine.restoreAll saved).2.builtins = engine.builtins
      ∧ ((engine.restoreAll saved).2.Bears name ↔
        engine.Bears name ∨ ∃ command ∈ engine.restorable saved, name = command.name) := by
  induction saved generalizing engine with
  | nil =>
    refine ⟨rfl, .inl, ?_⟩
    rintro (earlier | ⟨command, member, -⟩)
    · exact earlier
    · cases member
  | cons command rest inductionHypothesis =>
    unfold restoreAll
    by_cases taken : engine.builtins.contains command.name
    · have refused : engine.restore command = .error (.duplicateName command.name) := by
        unfold restore
        rw [if_pos taken]
      have noneLeft : engine.restorable (command :: rest) = [] :=
        List.takeWhile_cons_of_neg (by rw [taken]; exact Bool.false_ne_true)
      rw [refused, noneLeft]
      refine ⟨rfl, .inl, ?_⟩
      rintro (earlier | ⟨_, member, -⟩)
      · exact earlier
      · cases member
    · have free := Bool.eq_false_iff.mpr taken
      obtain ⟨restored, done⟩ := restore_of_free orderly free
      obtain ⟨sameBuiltins, first⟩ := bears_restore done name
      obtain ⟨sameAfter, others⟩ := inductionHypothesis (orderly.restore done)
      have oneMore : engine.restorable (command :: rest) = command :: restored.restorable rest := by
        unfold restorable
        rw [sameBuiltins, List.takeWhile_cons_of_pos (by rw [free]; rfl)]
      rw [done, oneMore]
      refine ⟨sameAfter.trans sameBuiltins, others.trans ?_⟩
      rw [first, List.exists_mem_cons_iff, or_assoc]

/-- A call that gives no user command a name that it should not have: a host
command that is added bears no name of a user command, and user commands that
are restored have names that a line may give. -/
def Call.Careful (engine : Engine) : Call → Prop
  | .register command =>
    (∃ registered, engine.register command = .ok registered) →
      ∀ name ∈ command.names, ¬ engine.Bears name
  | .restore saved => ∀ command ∈ engine.restorable saved, isValidName command.name
  | _ => True

theorem unshadowed_register_iff
    {engine registered : Engine}
    {command : Command}
    (unshadowed : engine.Unshadowed)
    (done : engine.register command = .ok registered) :
    registered.Unshadowed ↔ ∀ name ∈ command.names, ¬ engine.Bears name := by
  rw [register_eq done]
  constructor
  · intro after name named bears
    have free : Registry.contains ⟨engine.builtins.commands ++ [command]⟩ name = false :=
      after name bears
    have taken : Registry.contains ⟨engine.builtins.commands ++ [command]⟩ name = true :=
      Registry.contains_of_mem (List.mem_append_right _ (List.mem_singleton.mpr rfl)) named
    rw [free] at taken
    cases taken
  · intro spared name bears
    have free := unshadowed name bears
    rw [Bool.eq_false_iff] at free ⊢
    intro taken
    obtain ⟨held, member, named⟩ := Registry.contains_eq_true_iff.mp taken
    rcases List.mem_append.mp member with earlier | new
    · exact free (Registry.contains_of_mem earlier named)
    · rw [List.mem_singleton.mp new] at named
      exact spared name named bears

theorem restorable_free
    {engine : Engine}
    {saved : List UserCommand}
    {command : UserCommand}
    (member : command ∈ engine.restorable saved) :
    engine.builtins.contains command.name = false := by
  have passes := List.all_eq_true.mp List.all_takeWhile command member
  simpa using passes

/-! ## Along a session -/

/-- Only a host command can bring a shadow about. -/
theorem Unshadowed.after
    {engine : Engine}
    {call : Call}
    (orderly : engine.Orderly)
    (unshadowed : engine.Unshadowed)
    (spares : ∀ command registered, call = .register command →
      engine.register command = .ok registered → ∀ name ∈ command.names, ¬ engine.Bears name) :
    (engine.after call).Unshadowed := by
  cases call with
  | register command =>
    apply of_after_register unshadowed
    intro registered done
    exact (unshadowed_register_iff unshadowed done).mpr (spares command registered rfl done)
  | restore saved =>
    intro name bears
    obtain ⟨sameBuiltins, origin⟩ := bears_restoreAll orderly saved name
    show (engine.restoreAll saved).2.builtins.contains name = false
    rw [sameBuiltins]
    rcases origin.mp bears with earlier | ⟨command, member, rfl⟩
    · exact unshadowed name earlier
    · exact restorable_free member
  | execute source line => exact unshadowed.of_grows (.execute engine source line)
  | script text => exact unshadowed.of_grows (.script engine text)
  | surroundings view env => exact unshadowed.of_grows (.congr rfl rfl)

/-- Only a restored command can have a name that no line may give. -/
theorem wellNamed_after_iff
    {engine : Engine}
    {call : Call}
    (orderly : engine.Orderly)
    (wellNamed : engine.WellNamed) :
    (engine.after call).WellNamed ↔
      ∀ saved, call = .restore saved →
        ∀ command ∈ engine.restorable saved, isValidName command.name := by
  cases call with
  | restore saved =>
    constructor
    · rintro after _ ⟨⟩ command member
      apply after
      exact (bears_restoreAll orderly saved command.name).2.mpr (.inr ⟨command, member, rfl⟩)
    · intro valid name bears
      rcases (bears_restoreAll orderly saved name).2.mp bears with earlier | ⟨command, member, rfl⟩
      · exact wellNamed name earlier
      · exact valid saved rfl command member
  | register command =>
    refine ⟨nofun, fun _ => ?_⟩
    apply of_after_register wellNamed
    intro registered done
    rw [register_eq done]
    exact wellNamed
  | execute source line =>
    exact ⟨nofun, fun _ => wellNamed.of_grows (.execute engine source line)⟩
  | script text => exact ⟨nofun, fun _ => wellNamed.of_grows (.script engine text)⟩
  | surroundings view env => exact ⟨nofun, fun _ => wellNamed.of_grows (.congr rfl rfl)⟩

/-- Every user command of every frame has a name that a line may give it, and
that no fixed command bears. -/
structure Guarded (engine : Engine) : Prop where
  unshadowed : engine.Unshadowed
  wellNamed : engine.WellNamed

theorem Guarded.start (config : Config) (env : Env) (view : View) (launcher : Launcher) :
    Guarded { config, env, view, launcher } := by
  constructor
  · intro name bears
    exact absurd bears (not_bears_start config env view launcher name)
  · intro name bears
    exact absurd bears (not_bears_start config env view launcher name)

theorem Guarded.of_grows
    {before after : Engine}
    (guarded : before.Guarded)
    (grows : Grows before after) :
    after.Guarded :=
  ⟨guarded.unshadowed.of_grows grows, guarded.wellNamed.of_grows grows⟩

theorem guarded_after_iff
    {engine : Engine}
    (orderly : engine.Orderly)
    (guarded : engine.Guarded)
    (call : Call) :
    (engine.after call).Guarded ↔ call.Careful engine := by
  constructor
  · intro afterwards
    cases call with
    | register command =>
      rintro ⟨registered, done⟩
      rw [after_register done] at afterwards
      exact (unshadowed_register_iff guarded.unshadowed done).mp afterwards.unshadowed
    | restore saved =>
      exact (wellNamed_after_iff orderly guarded.wellNamed).mp afterwards.wellNamed saved rfl
    | execute | script | surroundings => trivial
  · intro careful
    constructor
    · apply guarded.unshadowed.after orderly
      rintro command registered rfl done
      exact careful ⟨registered, done⟩
    · apply (wellNamed_after_iff orderly guarded.wellNamed).mpr
      rintro saved rfl
      exact careful

/-- The names are guarded in every state of a session, and in every state that
the runs of its lines come by. -/
def GuardedThroughout (engine : Engine) (calls : List Call) : Prop :=
  ∀ earlier later, calls = earlier ++ later →
    (engine.afterAll earlier).Guarded
      ∧ ∀ start visit, Begins (engine.afterAll earlier) start →
          Relation.ReflTransGen Visit.Next start visit → visit.engine.Guarded

/-- **The names of user commands are guarded exactly by careful calls.**
Throughout a session every user command of every frame has a name that a line
may give it and that no built-in or host command bears, if and only if no call
of the session restores a user command under another kind of name, or adds a
host command under the name of a user command. -/
theorem user_names_guarded_iff
    (config : Config)
    (env : Env)
    (view : View)
    (launcher : Launcher)
    (calls : List Call) :
    GuardedThroughout { config, env, view, launcher } calls ↔
      ∀ earlier call later, calls = earlier ++ call :: later →
        call.Careful (afterAll { config, env, view, launcher } earlier) := by
  have orderly := Orderly.afterAll config env view launcher
  constructor
  · intro guarded earlier call later split
    have before := (guarded earlier (call :: later) split).1
    have afterwards := (guarded (earlier ++ [call]) later (by rw [split, List.append_assoc]; rfl)).1
    rw [afterAll_concat] at afterwards
    exact (guarded_after_iff (orderly earlier) before call).mp afterwards
  · intro careful earlier later split
    have between : (afterAll { config, env, view, launcher } earlier).Guarded :=
      along_session (Guarded.start config env view launcher)
        (fun earlier call later splitHere before =>
          (guarded_after_iff (orderly earlier) before call).mpr
            (careful earlier call later splitHere))
        split
    refine ⟨between, fun start visit begins visited => ?_⟩
    exact (between.of_grows (.of_begins begins)).of_grows (.of_visited visited)

/-- A host command that is added under the name of a user command. -/
def lateHost : List Call := [.restore [⟨"h", ":echo 1"⟩], .register idleHost]

/-- A user command that is restored under a name that begins with a digit. -/
def oddName : List Call := [.restore [⟨"2go", ":echo 1"⟩]]

/-- Neither session is careful, so neither keeps the names guarded. -/
theorem user_names_guarded_not_always :
    ¬ GuardedThroughout {} lateHost ∧ ¬ GuardedThroughout {} oddName := by
  have law := user_names_guarded_iff {} {} {} (Launcher.ofList [])
  refine ⟨fun guarded => ?_, fun guarded => ?_⟩
  · have spared := (law lateHost).mp guarded [.restore [⟨"h", ":echo 1"⟩]] _ [] rfl ⟨_, rfl⟩
    exact spared "h" List.mem_cons_self ⟨_, List.mem_cons_self, List.mem_cons_self⟩
  · have valid := (law oddName).mp guarded [] _ [] rfl ⟨"2go", ":echo 1"⟩ List.mem_cons_self
    revert valid
    decide

end ExLine.Engine

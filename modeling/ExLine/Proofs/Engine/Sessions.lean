import ExLine.Proofs.Command.Registry
import ExLine.Proofs.Engine.Bodies

/-!
Contract: sessions, and what the built-in words mean in them.

Owns:
- `Engine.Call` and `Engine.afterAll`, a session as the sequence of its calls;
- `Engine.Grows` along the calls of a session and the lines that a run comes by;
- `Engine.Orderly`, which commands every state of every run holds, and by which
  the names of the built-in commands keep their meaning.

Does not own: the names of the other commands (`ExLine.Proofs.Engine.Naming`).

`Engine.Reachable` forgets in which order the calls were made. A session keeps
the order, and it may add any command, also one with a built-in action.
-/

set_option autoImplicit false

namespace ExLine.Engine

/-- One call of a session. -/
inductive Call where
  | register (command : Command)
  | restore (saved : List UserCommand)
  | execute (source : Source) (line : Bytes)
  | script (text : String)
  /-- The surrounding program shows another view or sets other variables. -/
  | surroundings (view : View) (env : Env)

/-- The engine after a call, whether the call succeeds or not. -/
def after (engine : Engine) : Call → Engine
  | .register command =>
    match engine.register command with
    | .ok registered => registered
    | .error _ => engine
  | .restore saved => (engine.restoreAll saved).2
  | .execute source line => (engine.execute source line).2
  | .script text => (engine.runScript text).2
  | .surroundings view env => { engine with view, env }

def afterAll (engine : Engine) (calls : List Call) : Engine :=
  calls.foldl after engine

theorem afterAll_concat (engine : Engine) (calls : List Call) (call : Call) :
    engine.afterAll (calls ++ [call]) = (engine.afterAll calls).after call := by
  unfold afterAll
  rw [List.foldl_append]
  rfl

theorem after_register
    {engine registered : Engine}
    {command : Command}
    (done : engine.register command = .ok registered) :
    engine.after (.register command) = registered := by
  unfold after
  simp only [done]

/-- A command that is refused changes nothing. -/
theorem of_after_register
    {property : Engine → Prop}
    {engine : Engine}
    {command : Command}
    (holds : property engine)
    (kept : ∀ registered, engine.register command = .ok registered → property registered) :
    property (engine.after (.register command)) := by
  unfold after
  simp only
  split
  · rename_i registered done
    exact kept registered done
  · exact holds

/-- What each call of a session keeps, made in the state that it meets, holds in
every state of the session. -/
theorem along_session
    {property : Engine → Prop}
    {engine : Engine}
    {calls earlier later : List Call}
    (holds : property engine)
    (kept : ∀ earlier call later, calls = earlier ++ call :: later →
      property (engine.afterAll earlier) → property ((engine.afterAll earlier).after call))
    (split : calls = earlier ++ later) :
    property (engine.afterAll earlier) :=
  along_history holds kept split

/-- What every call keeps holds after every session. -/
theorem of_afterAll
    {property : Engine → Prop}
    (kept : ∀ {engine : Engine} (call : Call), property engine → property (engine.after call))
    {engine : Engine}
    (holds : property engine)
    (calls : List Call) :
    property (engine.afterAll calls) :=
  along_session holds (fun _ call _ _ => kept call) (List.append_nil calls).symm

/-! ## Growth along calls and runs -/

namespace Grows

theorem execute (engine : Engine) (source : Source) (line : Bytes) :
    Grows engine (engine.execute source line).2 := by
  have ran : Grows engine (engine.runTop source line).2 := runLine _ _ _ _
  exact ran.trans (congr rfl rfl)

theorem script (engine : Engine) (text : String) : Grows engine (engine.runScript text).2 := by
  have opened : Grows engine (engine.withBranches {}) := congr rfl rfl
  have ran := runLines (engine.withBranches {}) (Script.logicalLines text)
  exact (opened.trans ran).trans (congr rfl rfl)

/-- A frame is empty when it is entered. -/
theorem push (engine : Engine) : Grows engine { engine with scope := engine.scope.push } := by
  refine ⟨rfl, fun command defined => .inl ?_, fun distinct registry member => ?_⟩
  · obtain ⟨registry, member, inside⟩ := defined
    rcases List.mem_cons.mp member with rfl | below
    · cases inside
    · exact ⟨registry, below, inside⟩
  · rcases List.mem_cons.mp member with rfl | below
    · exact List.nodup_nil
    · exact distinct registry below

theorem of_next
    {visit next : Visit}
    (goes : Visit.Next visit next) :
    Grows visit.engine next.engine := by
  cases goes with
  | continues running left => exact of_change (change_perform _ _ _ _)
  | enters dispatched isUser isLine allowed => exact push visit.engine

theorem of_visited
    {start visit : Visit}
    (visited : Relation.ReflTransGen Visit.Next start visit) :
    Grows start.engine visit.engine := by
  induction visited with
  | refl => exact refl start.engine
  | tail _ goes inductionHypothesis => exact inductionHypothesis.trans (of_next goes)

theorem of_begins
    {engine : Engine}
    {start : Visit}
    (begins : Begins engine start) :
    Grows engine start.engine := by
  cases begins with
  | line source line => exact refl engine
  | @script text earlier later line lines =>
    have opened : Grows engine (engine.withBranches {}) := congr rfl rfl
    exact opened.trans (runLines _ earlier)

end Grows

/-! ## Built-in words -/

/-- The built-in commands come first among the fixed ones, no two of which
share a name, and the frames hold only user commands that bear none of the
built-in names. -/
structure Orderly (engine : Engine) : Prop where
  fixed : ∃ hosts, engine.builtins.commands = Command.builtins ++ hosts
  apart : engine.builtins.Apart
  guests : ∀ command, engine.Defines command → command.IsGuest

namespace Orderly

theorem start (config : Config) (env : Env) (view : View) (launcher : Launcher) :
    Orderly { config, env, view, launcher } := by
  refine ⟨⟨[], (List.append_nil _).symm⟩, Registry.apart_builtins, fun command defined => ?_⟩
  obtain ⟨registry, member, inside⟩ := defined
  rw [List.mem_singleton.mp member] at inside
  cases inside

theorem free_of_contains
    {engine : Engine}
    (orderly : engine.Orderly)
    {name : String}
    (free : engine.builtins.contains name = false) :
    Registry.builtins.contains name = false := by
  obtain ⟨hosts, commands⟩ := orderly.fixed
  exact Registry.free_of_extends commands free

theorem of_grows
    {before after : Engine}
    (orderly : before.Orderly)
    (grows : Grows before after) :
    after.Orderly := by
  refine ⟨?_, ?_, fun command defined => ?_⟩
  · rw [grows.builtins]
    exact orderly.fixed
  · rw [grows.builtins]
    exact orderly.apart
  · rcases grows.origin command defined with earlier | ⟨name, body, rfl, -, free⟩
    · exact orderly.guests command earlier
    · exact ⟨name, body, rfl, orderly.free_of_contains free⟩

theorem register
    {engine registered : Engine}
    {command : Command}
    (orderly : engine.Orderly)
    (done : engine.register command = .ok registered) :
    registered.Orderly := by
  obtain ⟨hosts, commands⟩ := orderly.fixed
  have added : engine.builtins.register command = .ok registered.builtins := by
    unfold Engine.register at done
    cases extended : engine.builtins.register command with
    | error error =>
      rw [extended] at done
      cases done
    | ok builtins =>
      rw [extended] at done
      cases done
      rfl
  have apart := orderly.apart.register added
  rw [register_eq done] at apart ⊢
  refine ⟨⟨hosts ++ [command], ?_⟩, apart, orderly.guests⟩
  rw [commands, List.append_assoc]

theorem restore
    {engine restored : Engine}
    {saved : UserCommand}
    (orderly : engine.Orderly)
    (done : engine.restore saved = .ok restored) :
    restored.Orderly := by
  obtain ⟨free, registry, rfl, origin⟩ := restore_eq done
  refine ⟨orderly.fixed, orderly.apart, fun command defined => ?_⟩
  rcases defines_withCommands.mp defined with inside | ⟨frame, isFrame, inside⟩
  · rcases origin command inside with held | rfl
    · exact orderly.guests command ⟨_, List.mem_cons_self, held⟩
    · exact ⟨_, _, rfl, orderly.free_of_contains free⟩
  · exact orderly.guests command
      ⟨_, List.mem_cons_of_mem _ (List.mem_map_of_mem isFrame), inside⟩

theorem after {engine : Engine} (call : Call) (orderly : engine.Orderly) :
    (engine.after call).Orderly := by
  cases call with
  | register command => exact of_after_register orderly fun _ done => orderly.register done
  | restore saved => exact of_restoreAll restore orderly saved
  | execute source line => exact orderly.of_grows (.execute engine source line)
  | script text => exact orderly.of_grows (.script engine text)
  | surroundings view env => exact orderly.of_grows (.congr rfl rfl)

theorem afterAll
    (config : Config)
    (env : Env)
    (view : View)
    (launcher : Launcher)
    (calls : List Call) :
    (Engine.afterAll { config, env, view, launcher } calls).Orderly :=
  of_afterAll (fun call orderly => orderly.after call) (start config env view launcher) calls

/-- A word means a fixed command or a user command. -/
theorem known_of_resolve
    {engine : Engine}
    {command : Command}
    {word : String}
    (orderly : engine.Orderly)
    (resolved : Registry.resolve engine.chain word = .ok command) :
    command ∈ engine.builtins.commands ∨ ∃ name body, command = Command.user name body := by
  obtain ⟨registry, member, inside⟩ := List.mem_flatMap.mp (Registry.mem_of_resolve resolved)
  rcases List.mem_append.mp member with inFrame | atEnd
  · obtain ⟨name, body, isUser, -⟩ := orderly.guests command ⟨registry, inFrame, inside⟩
    exact .inr ⟨name, body, isUser⟩
  · rw [List.mem_singleton.mp atEnd] at inside
    exact .inl inside

/-- A name or an abbreviation of a fixed command means that command, unless a
user command bears it. -/
theorem resolve_fixed
    {engine : Engine}
    {command : Command}
    {word : String}
    (orderly : engine.Orderly)
    (isFixed : command ∈ engine.builtins.commands)
    (named : word ∈ command.names)
    (spared : ∀ guest, engine.Defines guest → word ∉ guest.names) :
    Registry.resolve engine.chain word = .ok command := by
  have inChain : command ∈ engine.chain.flatMap (·.commands) := by
    apply List.mem_flatMap.mpr
    exact ⟨engine.builtins, List.mem_append_right _ (List.mem_singleton.mpr rfl), isFixed⟩
  apply Registry.resolve_of_unique inChain named
  intro held isHeld alsoNamed
  obtain ⟨registry, member, inside⟩ := List.mem_flatMap.mp isHeld
  rcases List.mem_append.mp member with inFrame | atEnd
  · exact absurd alsoNamed (spared held ⟨registry, inFrame, inside⟩)
  · rw [List.mem_singleton.mp atEnd] at inside
    exact orderly.apart.eq_of_shared inside isFixed alsoNamed named

/-- A name or an abbreviation of a built-in command means that command. -/
theorem resolve_builtin
    {engine : Engine}
    {command : Command}
    {word : String}
    (orderly : engine.Orderly)
    (builtin : command ∈ Command.builtins)
    (named : word ∈ command.names) :
    Registry.resolve engine.chain word = .ok command := by
  obtain ⟨hosts, commands⟩ := orderly.fixed
  have isFixed : command ∈ engine.builtins.commands := by
    rw [commands]
    exact List.mem_append_left hosts builtin
  apply orderly.resolve_fixed isFixed named
  intro guest defined alsoNamed
  -- A user command bears one name, and that name is no built-in one.
  obtain ⟨name, body, rfl, free⟩ := orderly.guests guest defined
  have isName : word = name := List.mem_singleton.mp alsoNamed
  have taken : Registry.builtins.contains word = true := Registry.contains_of_mem builtin named
  rw [isName, free] at taken
  cases taken

end Orderly

/-- The states that sessions come by, between two calls and within one. -/
inductive Occurs : Engine → Prop where
  | visited
      (config : Config)
      (env : Env)
      (view : View)
      (launcher : Launcher)
      (calls : List Call)
      {start visit : Visit}
      (begins : Begins (afterAll { config, env, view, launcher } calls) start)
      (visited : Relation.ReflTransGen Visit.Next start visit) :
      Occurs visit.engine

theorem Occurs.orderly {engine : Engine} (occurs : engine.Occurs) : engine.Orderly := by
  obtain ⟨config, env, view, launcher, calls, begins, visited⟩ := occurs
  have between := Orderly.afterAll config env view launcher calls
  exact (between.of_grows (.of_begins begins)).of_grows (.of_visited visited)

theorem Occurs.afterAll
    (config : Config)
    (env : Env)
    (view : View)
    (launcher : Launcher)
    (calls : List Call) :
    (Engine.afterAll { config, env, view, launcher } calls).Occurs :=
  .visited config env view launcher calls (.line .typed []) .refl

/-- **Built-in words keep their meaning.** In every state that any session
comes by, within bodies of any depth too, the name and the abbreviation of a
built-in command mean that command, whatever user commands and host commands
there are. -/
theorem builtin_words_keep_meaning
    (config : Config)
    (env : Env)
    (view : View)
    (launcher : Launcher)
    (calls : List Call)
    {start visit : Visit}
    (begins : Begins (afterAll { config, env, view, launcher } calls) start)
    (visited : Relation.ReflTransGen Visit.Next start visit)
    {command : Command}
    {word : String}
    (builtin : command ∈ Command.builtins)
    (named : word ∈ command.names) :
    Registry.resolve visit.engine.chain word = .ok command := by
  have between := Orderly.afterAll config env view launcher calls
  have atStart := between.of_grows (.of_begins begins)
  have onTheWay := atStart.of_grows (.of_visited visited)
  exact onTheWay.resolve_builtin builtin named

/-- A session that gives out names close to `en` and fails to give out `en`
itself. -/
def crowded : List Call :=
  [.restore [⟨"e", ":en"⟩, ⟨"end", ":e"⟩, ⟨"en", ":e"⟩], .register { idleHost with name := "endi" }]

/-- The call of `e` at the end of that session. -/
def crowdedStart : Visit := ⟨afterAll {} crowded, ⟨.typed, 0⟩, Utf8.ofString "e"⟩

/-- In the body of `e` the word `en` means the built-in `endif`. -/
theorem builtin_words_keep_meaning_crowded :
    crowdedStart.Next (crowdedStart.entered ":en")
    ∧ Registry.resolve (crowdedStart.entered ":en").engine.chain "en"
      = .ok ((Registry.builtins.get? "endif").get rfl) := by
  have calls : crowdedStart.Dispatches (Command.user "e" ":en")
      ⟨"e", [], "", false, false, none⟩ :=
    ⟨rfl, ⟨⟨none, "e", false, []⟩, ⟨[], false, none⟩,
      Step.read_eq_call_iff.mpr ⟨Head.isCallable_of_isWord rfl, rfl, rfl, rfl, rfl⟩,
      by decide +kernel⟩, rfl⟩
  have text : calledText ":en" ⟨"e", [], "", false, false, none⟩ = ":en" := rfl
  have enters : crowdedStart.Next (crowdedStart.entered ":en") := by
    have entersText := Visit.Next.enters calls rfl (by rw [text]; rfl) (by decide)
    rwa [text] at entersText
  refine ⟨enters, ?_⟩
  have isBuiltin : (Registry.builtins.get? "endif").get rfl ∈ Command.builtins :=
    List.mem_of_find?_eq_some (Option.some_get _).symm
  exact builtin_words_keep_meaning {} {} {} (Launcher.ofList []) crowded (.line .typed _)
    (.single enters) isBuiltin (by decide)

end ExLine.Engine

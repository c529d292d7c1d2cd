import ExLine.Engine.Run
import ExLine.Proofs.Command.Registry

/-!
Contract: what one sub-command can do to the engine.

Owns:
- `Engine.Effect`, the changes that each built-in action is confined to, and
  the law that it makes no other;
- `Engine.Change`, the changes of a whole sub-command, with the same law;
- `Engine.of_runLine`, by which a property that every change keeps holds after
  a line if it held before.

Does not own: the properties that are kept. Those are stated where they are
used, and follow from the constructors here without opening an action again.
-/

set_option autoImplicit false

namespace ExLine

/-- Whether the action opens, moves within or closes a conditional block. -/
def Builtin.isConditional : Builtin → Bool
  | .ifBlock | .elseIfBranch | .elseBranch | .endIf => true
  | _ => false

/-- Whether the action works on key mappings or abbreviations. -/
def Builtin.isMapping : Builtin → Bool
  | .map _ _ | .unmap _ | .abbreviate _ | .unabbreviate => true
  | _ => false

/-- Replaces the variables of the innermost frame. -/
def Scope.withVars (scope : Scope) (vars : Table Value) : Scope :=
  { scope with innermost := { scope.innermost with vars } }

namespace Engine

def withVars (engine : Engine) (vars : Table Value) : Engine :=
  { engine with scope := engine.scope.withVars vars }

/-- Replaces the user commands of the innermost frame. -/
def withCommands (engine : Engine) (commands : Registry) : Engine :=
  { engine with scope := engine.scope.withCommands commands }

/-- A user command that the engine lets a line define. -/
def Admits (engine : Engine) (command : Command) : Prop :=
  ∃ name body,
    command = Command.user name body ∧ isValidName name ∧ engine.builtins.contains name = false

/-- What a built-in action can make of an engine. -/
inductive Effect (engine : Engine) : Builtin → Engine → Prop where
  | none (action : Builtin) : Effect engine action engine
  | vars
      {action : Builtin}
      (assigns : action = .assign ∨ action = .unassign)
      (env : Env)
      (vars : Table Value) :
      Effect engine action ({ engine with env }.withVars vars)
  | branches
      {action : Builtin}
      (conditional : action.isConditional)
      (branches : Branches) :
      Effect engine action (engine.withBranches branches)
  | finished : Effect engine .finish (engine.withFinished true)
  | commands
      {action : Builtin}
      (manages : action = .define ∨ action = .delete ∨ action = .clear)
      (registry : Registry)
      (origin : ∀ command ∈ registry.commands,
        command ∈ engine.scope.innermost.commands.commands ∨ engine.Admits command)
      (distinct : engine.scope.innermost.commands.names.Nodup → registry.names.Nodup) :
      Effect engine action (engine.withCommands registry)
  | launch (request : Launch) :
      Effect engine .shell { engine with launches := engine.launches ++ [request] }
  | directory (path : String) : Effect engine .changeDirectory (engine.enterDirectory path)
  | mappings {action : Builtin} (maps : action.isMapping) (mappings : Mappings) :
      Effect engine action { engine with mappings }

/-! ## The built-in actions, one by one -/

section Actions

variable (engine : Engine) (invocation : Invocation)

theorem effect_echo : Effect engine .echo (engine.echo invocation).2 := by
  unfold echo
  split <;> exact .none _

theorem effect_assign : Effect engine .assign (engine.assign invocation).2 := by
  unfold assign
  split
  · rename_i target value _
    cases target with
    | env name => exact .vars (.inl rfl) (engine.env.insert name value.text) _
    | var name =>
      exact .vars (.inl rfl) engine.env (engine.scope.innermost.vars.insert name value)
  · exact .none _

/-- Removing variables one after the other still touches variables only. -/
theorem removeVariables_eq_withVars (arguments : List String) :
    ∃ env vars, (engine.removeVariables arguments).2 = { engine with env }.withVars vars := by
  induction arguments generalizing engine with
  | nil => exact ⟨engine.env, engine.scope.innermost.vars, rfl⟩
  | cons argument rest inductionHypothesis =>
    obtain ⟨env, vars, removed⟩ := inductionHypothesis (engine.removeVariable argument).2
    refine ⟨env, vars, ?_⟩
    show ((engine.removeVariable argument).2.removeVariables rest).2 = _
    rw [removed]
    unfold removeVariable
    split <;> rfl

theorem effect_unassign : Effect engine .unassign (engine.unassign invocation).2 := by
  obtain ⟨env, vars, removed⟩ := removeVariables_eq_withVars engine invocation.args
  unfold unassign
  simp only [removed]
  split <;> exact .vars (.inr rfl) env vars

theorem effect_ifBlock : Effect engine .ifBlock (engine.ifBlock invocation).2 := by
  unfold ifBlock
  simp only
  split <;> exact .branches rfl _

theorem effect_moved
    {action : Builtin}
    (conditional : action.isConditional)
    (result : Except ControlError Branches) :
    Effect engine action (engine.moved result).2 := by
  cases result with
  | error error => exact .none _
  | ok branches => exact .branches conditional branches

theorem effect_elseIfBranch : Effect engine .elseIfBranch (engine.elseIfBranch invocation).2 := by
  unfold elseIfBranch
  simp only
  split
  · split
    · exact .branches rfl _
    · exact .none _
  · exact effect_moved engine rfl _

theorem effect_finish (site : Site) : Effect engine .finish (engine.finish site).2 := by
  unfold finish
  split
  · exact .none _
  · exact .finished

theorem mem_replaceIn
    {command added : Command}
    {commands : List Command}
    (member : command ∈ Registry.replaceIn added commands) :
    command ∈ commands ∨ command = added := by
  induction commands with
  | nil => exact .inr (List.mem_singleton.mp member)
  | cons held rest inductionHypothesis =>
    unfold Registry.replaceIn at member
    split at member <;> grind

/-- A definition adds one command to those of the innermost frame, or puts it
in the place of another. -/
theorem define_eq_withCommands
    {scope defined : Scope}
    {added : Command}
    {force : Bool}
    (done : scope.define added force = .ok defined) :
    ∃ registry : Registry, defined = scope.withCommands registry ∧
      ∀ command ∈ registry.commands,
        command ∈ scope.innermost.commands.commands ∨ command = added := by
  unfold Scope.define Registry.register at done
  simp only [bind, Except.bind, pure, Except.pure] at done
  split at done
  · split at done
    · cases done
      exact ⟨_, rfl, fun command member => mem_replaceIn member⟩
    · cases done
  · split at done
    · cases done
    · rename_i extended registered
      cases done
      split at registered
      · cases registered
      · cases registered
        refine ⟨_, rfl, fun command member => ?_⟩
        rcases List.mem_append.mp member with held | new
        · exact .inl held
        · exact .inr (List.mem_singleton.mp new)

theorem effect_define : Effect engine .define (engine.define invocation).2 := by
  unfold define
  simp only
  split
  · exact .none _
  split
  · split <;> exact .none _
  split
  · exact .none _
  split
  · exact .none _
  rename_i validName notBuiltin
  split
  · rename_i scope defined
    obtain ⟨registry, rfl, origin⟩ := define_eq_withCommands defined
    refine .commands (.inl rfl) registry (fun command member => ?_)
      (fun distinct => Registry.nodup_names_define distinct defined)
    rcases origin command member with held | rfl
    · exact .inl held
    · exact .inr ⟨_, _, rfl, by simpa using validName, by simpa using notBuiltin⟩
  · exact .none _

theorem effect_delete : Effect engine .delete (engine.delete invocation).2 := by
  unfold delete
  split
  · exact .none _
  split
  · simp only
    split
    · exact .commands (.inr (.inl rfl)) _ (fun _ member => .inl (List.mem_of_mem_eraseP member))
        (fun distinct => Registry.nodup_names_erase distinct _)
    · exact .none _
  · exact .none _
  · exact .none _

theorem effect_clear : Effect engine .clear engine.clear.2 :=
  .commands (.inr (.inr rfl)) {} (fun _ member => nomatch member) (fun _ => List.nodup_nil)

/-- Every request to the shell is recorded once, and nothing else changes. -/
theorem runShell_eq_launch (command : String) (background : Bool) :
    ∃ request : Launch, (engine.runShell command background).2
      = { engine with launches := engine.launches ++ [request] } := by
  unfold runShell launch
  simp only
  split
  · exact ⟨_, rfl⟩
  · split <;> exact ⟨_, rfl⟩
  · exact ⟨_, rfl⟩

theorem effect_shell : Effect engine .shell (engine.shell invocation).2 := by
  obtain ⟨request, launched⟩ :=
    runShell_eq_launch engine (Text.trim invocation.text) invocation.background
  unfold shell
  rw [launched]
  exact .launch request

theorem effect_changeDirectory :
    Effect engine .changeDirectory (engine.changeDirectory invocation).2 := by
  unfold changeDirectory
  split
  · exact .directory _
  split
  · split
    · exact .directory _
    · exact .none _
  · exact .directory _

theorem effect_map (modes : List Mode) (noremap : Bool) :
    Effect engine (.map modes noremap) (engine.map modes noremap invocation).2 := by
  unfold map
  simp only
  split
  · exact .none _
  · exact .none _
  · exact .mappings rfl _

theorem effect_unmap (modes : List Mode) :
    Effect engine (.unmap modes) (engine.unmap modes invocation).2 := by
  unfold unmap
  split
  · exact .none _
  · simp only
    split
    · exact .mappings rfl _
    · exact .none _

theorem effect_abbreviate (noremap : Bool) :
    Effect engine (.abbreviate noremap) (engine.abbreviate noremap invocation).2 := by
  unfold abbreviate
  simp only
  split
  · split <;> exact .none _
  · split <;> exact .none _
  · exact .mappings rfl _

theorem effect_unabbreviate : Effect engine .unabbreviate (engine.unabbreviate invocation).2 := by
  unfold unabbreviate
  simp only
  split <;> exact .mappings rfl _

/-- Every built-in action makes one of the listed changes. -/
theorem effect_runBuiltin (action : Builtin) (site : Site) :
    Effect engine action (engine.runBuiltin action site invocation).2 := by
  cases action with
  | echo => exact effect_echo engine invocation
  | assign => exact effect_assign engine invocation
  | unassign => exact effect_unassign engine invocation
  | ifBlock => exact effect_ifBlock engine invocation
  | elseIfBranch => exact effect_elseIfBranch engine invocation
  | elseBranch => exact effect_moved engine rfl _
  | endIf => exact effect_moved engine rfl _
  | finish => exact effect_finish engine site
  | define => exact effect_define engine invocation
  | delete => exact effect_delete engine invocation
  | clear => exact effect_clear engine
  | shell => exact effect_shell engine invocation
  | changeDirectory => exact effect_changeDirectory engine invocation
  | map modes noremap => exact effect_map engine invocation modes noremap
  | unmap modes => exact effect_unmap engine invocation modes
  | abbreviate noremap => exact effect_abbreviate engine invocation noremap
  | unabbreviate => exact effect_unabbreviate engine invocation

end Actions

/-! ## Sub-commands and lines -/

/-- What a sub-command can make of an engine, given how user commands run. -/
inductive Change (call : UserCall) (engine : Engine) : Engine → Prop where
  | none : Change call engine engine
  /-- A lone range moves the cursor. -/
  | move (range : LineRange) : Change call engine (engine.moveTo range)
  | builtin {action : Builtin} {after : Engine} (effect : Effect engine action after) :
      Change call engine after
  | host (made : HostCall) : Change call engine { engine with calls := engine.calls ++ [made] }
  | user (site : Site) (body : String) (invocation : Invocation) :
      Change call engine (call site body invocation engine).2

theorem change_dispatch (engine : Engine) (call : UserCall) (site : Site) (command : Command)
    (invocation : Invocation) :
    Change call engine (engine.dispatch call site command invocation).2 := by
  unfold dispatch
  split
  · exact .none
  · split
    · exact .builtin (effect_runBuiltin engine invocation _ site)
    · exact .host _
    · exact .user site _ invocation

theorem change_perform (engine : Engine) (call : UserCall) (site : Site) (plan : Plan) :
    Change call engine (engine.perform call site plan).2 := by
  cases plan with
  | skip => exact .none
  | fail error => exact .none
  | move spec =>
    unfold perform
    simp only
    split
    · exact .move _
    · exact .none
  | call command head segment =>
    unfold perform
    simp only
    split
    · exact .none
    · exact change_dispatch engine call site command _

/-- A property that every change keeps holds after a line if it held before.
The induction is the one of the line: each sub-command leaves a shorter
rest. -/
theorem of_runLine
    {call : UserCall}
    {property : Engine → Prop}
    (kept : ∀ {engine after : Engine}, Change call engine after → property engine → property after)
    (engine : Engine)
    (site : Site)
    (line : Bytes)
    (holds : property engine) :
    property (engine.runLine call site line).2 := by
  fun_induction runLine engine call site line with
  | case1 => exact holds
  | case2 engine line _ step first afterFirst performed _ =>
    have performedIs : afterFirst = (engine.perform call site step.plan).2 := by rw [performed]
    exact performedIs ▸ kept (change_perform engine call site step.plan) holds
  | case3 engine line _ step first afterFirst performed rest _ later after ran
      inductionHypothesis =>
    have performedIs : afterFirst = (engine.perform call site step.plan).2 := by rw [performed]
    have held := inductionHypothesis
      (performedIs ▸ kept (change_perform engine call site step.plan) holds)
    rwa [ran] at held

end Engine

end ExLine

import ExLine.Proofs.Engine.Unseen
import ExLine.Proofs.Engine.Visits

/-!
Contract: a line in a frame of its own.

Owns:
- `Scope.Alike`, two scopes in which all names mean the same and the same
  branches are open, whatever frames they are made of;
- `Engine.Agrees`, two results with one reply, whose engines differ in an alike
  scope and in the depth of the calls made;
- `Engine.agrees_run`, by which a line of plain commands does the same in the
  frame of its caller and in a frame on top of it.

Does not own: how a line gets into the body of a user command
(`ExLine.Proofs.Engine.Bodies`).

An assignment lands in the innermost frame and a look-up falls through to the
enclosing ones, so the two scopes come to hold their variables in different
frames. The relation speaks of look-ups only. A removal is no plain command: it
does not reach the enclosing frames.
-/

set_option autoImplicit false

namespace ExLine

/-- The site of a body that is called from here. -/
def Site.deeper (site : Site) : Site :=
  { site with depth := site.depth + 1 }

def HostCall.deeper (call : HostCall) : HostCall :=
  { call with site := call.site.deeper }

/-- The action does the same in a frame of its own: it removes no variable,
stops no frame, and adds or removes no user command. -/
def Builtin.isPlain : Builtin → Bool
  | .unassign | .finish | .define | .delete | .clear => false
  | _ => true

/-- A call of the command does the same one level deeper: a plain built-in
action, or a host command whose reply to it does not depend on the depth. -/
def Command.IsPlain (command : Command) (call : HostCall) : Prop :=
  match command.handler with
  | .builtin action => action.isPlain
  | .host answer => answer call.deeper = answer call
  | .user _ => False

/-! ## Scopes -/

namespace Scope

theorem get?_set (scope : Scope) (name other : String) (value : Value) :
    (scope.set name value).get? other = if other = name then some value else scope.get? other := by
  rw [get?_eq, get?_eq]
  show ((scope.innermost.vars.insert name value).get? other).or _ = _
  by_cases same : other = name
  · subst same
    rw [if_pos rfl, Table.get?_insert_same]
    rfl
  · rw [if_neg same, Table.get?_insert_other _ same]
    rfl

/-- Everything that a line can look up is the same. -/
structure Alike (direct nested : Scope) : Prop where
  get? : ∀ name, nested.get? name = direct.get? name
  commands : nested.chain.flatMap (·.commands) = direct.chain.flatMap (·.commands)
  branches : nested.branches = direct.branches
  isFinished : nested.isFinished = direct.isFinished

namespace Alike

variable {direct nested : Scope}

/-- An empty frame on top is not seen where no block is open. -/
theorem push
    {scope : Scope}
    (outside : scope.branches = {})
    (running : scope.isFinished = false) :
    Alike scope scope.push where
  get? _ := rfl
  commands := rfl
  branches := outside.symm
  isFinished := running.symm

theorem set (alike : Alike direct nested) (name : String) (value : Value) :
    Alike (direct.set name value) (nested.set name value) where
  get? other := by rw [get?_set, get?_set, alike.get?]
  commands := alike.commands
  branches := alike.branches
  isFinished := alike.isFinished

theorem withBranches (alike : Alike direct nested) (branches : Branches) :
    Alike (direct.withBranches branches) (nested.withBranches branches) where
  get? := alike.get?
  commands := alike.commands
  branches := rfl
  isFinished := alike.isFinished

end Alike

end Scope

namespace Engine

/-! ## Results -/

/-- The engine with another scope and other calls. -/
def reseat (engine : Engine) (scope : Scope) (calls : List HostCall) : Engine :=
  { engine with scope, calls }

/-- The scope and the calls of an engine that runs the same line one level
deeper. The calls made since are the same ones, deeper. -/
structure Alike (earlier : List HostCall) (engine : Engine) (scope : Scope)
    (calls : List HostCall) : Prop where
  scope : Scope.Alike engine.scope scope
  calls : ∃ made, engine.calls = earlier ++ made ∧ calls = earlier ++ made.map HostCall.deeper

/-- The two results have one reply and alike engines. -/
def Agrees {α : Type} (earlier : List HostCall) (direct nested : α × Engine) : Prop :=
  ∃ scope calls, nested = (direct.1, direct.2.reseat scope calls)
    ∧ Alike earlier direct.2 scope calls

section Actions

variable {earlier : List HostCall} {engine : Engine} {scope : Scope} {calls : List HostCall}

theorem Alike.unchanged {α : Type} (alike : Alike earlier engine scope calls) (reply : α) :
    Agrees earlier (reply, engine) (reply, engine.reseat scope calls) :=
  ⟨scope, calls, rfl, alike⟩

/-- The action neither reads nor changes the scope and the calls. -/
def Steady (action : Engine → Reply × Engine) : Prop :=
  ∀ engine scope calls, action (engine.reseat scope calls)
    = ((action engine).1, (action engine).2.reseat scope calls)

theorem Steady.agrees
    {action : Engine → Reply × Engine}
    (steady : Steady action)
    (alike : Alike earlier engine scope calls) :
    Agrees earlier (action engine) (action (engine.reseat scope calls)) := by
  have own : (action engine).2 = (action engine).2.reseat engine.scope engine.calls :=
    congrArg Prod.snd (steady engine engine.scope engine.calls)
  have sameScope : (action engine).2.scope = engine.scope := by
    rw [own]
    rfl
  have sameCalls : (action engine).2.calls = engine.calls := by
    rw [own]
    rfl
  refine ⟨scope, calls, steady engine scope calls, ?_, ?_⟩
  · rw [sameScope]
    exact alike.scope
  · rw [sameCalls]
    exact alike.calls

variable (invocation : Invocation)

theorem steady_runShell (command : String) (background : Bool) :
    Steady (·.runShell command background) := by
  intro engine scope calls
  unfold runShell
  simp only [reseat, launch]
  split
  · rfl
  · split <;> rfl
  · rfl

theorem steady_changeDirectory : Steady (·.changeDirectory invocation) := by
  intro engine scope calls
  unfold changeDirectory
  split
  · rfl
  split
  · simp only [reseat]
    split <;> rfl
  · rfl

theorem steady_map (modes : List Mode) (noremap : Bool) :
    Steady (·.map modes noremap invocation) := by
  intro engine scope calls
  unfold map
  simp only
  split <;> rfl

theorem mappings_reseat (engine : Engine) (scope : Scope) (calls : List HostCall) :
    (engine.reseat scope calls).mappings = engine.mappings := by
  cases engine
  rfl

theorem steady_unmap (modes : List Mode) : Steady (·.unmap modes invocation) := by
  intro engine scope calls
  unfold unmap
  split
  · rfl
  · simp only [mappings_reseat]
    split <;> rfl

theorem steady_abbreviate (noremap : Bool) : Steady (·.abbreviate noremap invocation) := by
  intro engine scope calls
  unfold abbreviate
  simp only [mappings_reseat]
  split
  · split <;> rfl
  · split <;> rfl
  · rfl

theorem steady_unabbreviate : Steady (·.unabbreviate invocation) := by
  intro engine scope calls
  unfold unabbreviate
  simp only [mappings_reseat]
  split <;> rfl

/-! ## Actions that look names up -/

variable {invocation}

theorem Alike.bindings (alike : Alike earlier engine scope calls) :
    (engine.reseat scope calls).bindings = engine.bindings := by
  show (⟨scope.get?, engine.env.get?⟩ : Bindings) = _
  rw [funext alike.scope.get?]
  rfl

theorem Alike.held (alike : Alike earlier engine scope calls) (target : Target) :
    (engine.reseat scope calls).held target = engine.held target := by
  cases target with
  | env name => rfl
  | var name => exact alike.scope.get? name

theorem agrees_echo (alike : Alike earlier engine scope calls) :
    Agrees earlier (engine.echo invocation) ((engine.reseat scope calls).echo invocation) := by
  unfold echo valuesOf
  rw [alike.bindings]
  cases (do Expr.evalAll engine.bindings (← Expr.parseList invocation.text) :
    Except ExprError (List Value)) <;> exact alike.unchanged _

theorem agrees_store (alike : Alike earlier engine scope calls) (target : Target) (value : Value) :
    Agrees earlier (engine.store target value).done
      ((engine.reseat scope calls).store target value).done := by
  cases target with
  | env name => exact ⟨scope, calls, rfl, alike.scope, alike.calls⟩
  | var name => exact ⟨scope.set name value, calls, rfl, alike.scope.set name value, alike.calls⟩

theorem agrees_assign (alike : Alike earlier engine scope calls) :
    Agrees earlier (engine.assign invocation) ((engine.reseat scope calls).assign invocation) := by
  have same : (engine.reseat scope calls).assigned invocation.text
      = engine.assigned invocation.text := by
    unfold assigned
    simp only [alike.bindings, alike.held]
  unfold assign
  rw [same]
  cases engine.assigned invocation.text with
  | ok assigned => exact agrees_store alike assigned.1 assigned.2
  | error error => exact alike.unchanged _

/-! ## Conditionals -/

theorem agrees_withBranches {α : Type} (alike : Alike earlier engine scope calls) (reply : α)
    (branches : Branches) :
    Agrees earlier (reply, engine.withBranches branches)
      (reply, (engine.reseat scope calls).withBranches branches) :=
  ⟨scope.withBranches branches, calls, rfl, alike.scope.withBranches branches, alike.calls⟩

theorem Alike.condition (alike : Alike earlier engine scope calls) :
    (engine.reseat scope calls).condition invocation = engine.condition invocation := by
  unfold Engine.condition
  rw [alike.bindings]

theorem Alike.branches (alike : Alike earlier engine scope calls) :
    (engine.reseat scope calls).scope.branches = engine.scope.branches :=
  alike.scope.branches

theorem agrees_ifBlock (alike : Alike earlier engine scope calls) :
    Agrees earlier (engine.ifBlock invocation)
      ((engine.reseat scope calls).ifBlock invocation) := by
  unfold ifBlock
  simp only [alike.branches, alike.condition]
  split
  · exact agrees_withBranches alike _ _
  · exact agrees_withBranches alike _ _

theorem agrees_moved (alike : Alike earlier engine scope calls)
    (result : Except ControlError Branches) :
    Agrees earlier (engine.moved result) ((engine.reseat scope calls).moved result) := by
  cases result with
  | ok branches => exact agrees_withBranches alike _ branches
  | error error => exact alike.unchanged _

theorem agrees_elseIfBranch (alike : Alike earlier engine scope calls) :
    Agrees earlier (engine.elseIfBranch invocation)
      ((engine.reseat scope calls).elseIfBranch invocation) := by
  unfold elseIfBranch
  simp only [alike.branches, alike.condition]
  split
  · cases engine.scope.branches.nextBranch (isTrue (engine.condition invocation)) with
    | ok next => exact agrees_withBranches alike _ next
    | error error => exact alike.unchanged _
  · exact agrees_moved alike _

/-- Plain actions agree, at any two sites. -/
theorem agrees_runBuiltin
    {action : Builtin}
    (plain : action.isPlain)
    (alike : Alike earlier engine scope calls)
    (site siteNested : Site) :
    Agrees earlier (engine.runBuiltin action site invocation)
      ((engine.reseat scope calls).runBuiltin action siteNested invocation) := by
  cases action with
  | echo => exact agrees_echo alike
  | assign => exact agrees_assign alike
  | ifBlock => exact agrees_ifBlock alike
  | elseIfBranch => exact agrees_elseIfBranch alike
  | elseBranch =>
    show Agrees earlier _ ((engine.reseat scope calls).moved scope.branches.fallback)
    rw [alike.scope.branches]
    exact agrees_moved alike _
  | endIf =>
    show Agrees earlier _ ((engine.reseat scope calls).moved scope.branches.closeBlock)
    rw [alike.scope.branches]
    exact agrees_moved alike _
  | shell => exact (steady_runShell _ _).agrees alike
  | changeDirectory => exact (steady_changeDirectory invocation).agrees alike
  | map modes noremap => exact (steady_map invocation modes noremap).agrees alike
  | unmap modes => exact (steady_unmap invocation modes).agrees alike
  | abbreviate noremap => exact (steady_abbreviate invocation noremap).agrees alike
  | unabbreviate => exact (steady_unabbreviate invocation).agrees alike
  | unassign | finish | define | delete | clear => cases plain

theorem agrees_callHost
    {answer : HostCall → Reply}
    {call : HostCall}
    (blind : answer call.deeper = answer call)
    (alike : Alike earlier engine scope calls) :
    Agrees earlier (engine.callHost answer call)
      ((engine.reseat scope calls).callHost answer call.deeper) := by
  obtain ⟨made, direct, nested⟩ := alike.calls
  refine ⟨scope, calls ++ [call.deeper], ?_, alike.scope, made ++ [call], ?_, ?_⟩
  · unfold callHost
    rw [blind]
    rfl
  · show engine.calls ++ [call] = _
    rw [direct, List.append_assoc]
  · rw [nested, List.map_append, List.append_assoc]
    rfl

end Actions

/-! ## Sub-commands and lines -/

/-- Every command that is carried out on the way is plain. -/
def Visit.RunsPlain (start : Visit) : Prop :=
  ∀ visit, Relation.ReflTransGen Visit.Next start visit →
    ∀ command invocation, visit.Dispatches command invocation →
      command.IsPlain ⟨invocation, visit.site⟩

/-- The call of a plain command enters no body, so all that is to be looked at
is what is left of the line. -/
theorem Visit.RunsPlain.of_call
    {visit : Visit}
    {command : Command}
    {head : CommandHead}
    {segment : Segment}
    (calls : visit.step.plan = .call command head segment)
    (plain : ∀ invocation, command.IsPlain ⟨invocation, visit.site⟩)
    (later : ∀ rest, visit.step.rest = some rest → (visit.continued rest).RunsPlain) :
    visit.RunsPlain := by
  have own {other : Command} {invocation : Invocation}
      (dispatched : visit.Dispatches other invocation) :
      other.IsPlain ⟨invocation, visit.site⟩ := by
    obtain ⟨-, ⟨otherHead, otherSegment, isPlan, -⟩, -⟩ := dispatched
    rw [calls] at isPlan
    cases isPlan
    exact plain invocation
  intro reached visited
  rcases visited.cases_head with rfl | ⟨next, goes, more⟩
  · exact fun _ _ => own
  cases goes with
  | continues running left => exact later _ left reached more
  | enters dispatched isUser isLine allowed =>
    have isPlain := own dispatched
    unfold Command.IsPlain at isPlain
    rw [isUser] at isPlain
    exact isPlain.elim

section Lines

variable {earlier : List HostCall} {scope : Scope} {calls : List HostCall}

theorem agrees_dispatch
    {engine : Engine}
    {call callNested : UserCall}
    {site : Site}
    {command : Command}
    {invocation : Invocation}
    (plain : command.validate invocation = .ok () → command.IsPlain ⟨invocation, site⟩)
    (alike : Alike earlier engine scope calls) :
    Agrees earlier (engine.dispatch call site command invocation)
      ((engine.reseat scope calls).dispatch callNested site.deeper command invocation) := by
  unfold dispatch
  cases valid : command.validate invocation with
  | error error => exact alike.unchanged _
  | ok done =>
    have isPlain := plain valid
    unfold Command.IsPlain at isPlain
    simp only
    cases handles : command.handler with
    | builtin action =>
      rw [handles] at isPlain
      exact agrees_runBuiltin isPlain alike site site.deeper
    | host answer =>
      rw [handles] at isPlain
      exact agrees_callHost isPlain alike
    | user body =>
      rw [handles] at isPlain
      exact isPlain.elim

theorem view_reseat (engine : Engine) (scope : Scope) (calls : List HostCall) :
    (engine.reseat scope calls).view = engine.view := by
  cases engine
  rfl

theorem moveTo_reseat (engine : Engine) (range : LineRange) :
    (engine.reseat scope calls).moveTo range = (engine.moveTo range).reseat scope calls := by
  unfold moveTo
  simp only [reseat]
  split <;> rfl

theorem alike_moveTo
    {engine : Engine}
    (alike : Alike earlier engine scope calls)
    (range : LineRange) :
    Alike earlier (engine.moveTo range) scope calls := by
  unfold moveTo
  split
  · exact ⟨alike.scope, alike.calls⟩
  · exact alike

/-- A word means the same in alike scopes, so a line is read alike. -/
theorem Alike.readStep
    {engine : Engine}
    (alike : Alike earlier engine scope calls)
    (line : Bytes) :
    (engine.reseat scope calls).readStep line = engine.readStep line := by
  have sameCommands : (engine.reseat scope calls).chain.flatMap (·.commands)
      = engine.chain.flatMap (·.commands) := by
    show (scope.chain ++ [engine.builtins]).flatMap _ = (engine.scope.chain ++ _).flatMap _
    rw [List.flatMap_append, List.flatMap_append, alike.scope.commands]
  have sameWords (word : String) :
      Registry.resolve (engine.reseat scope calls).chain word
        = Registry.resolve engine.chain word := by
    unfold Registry.resolve
    simp only [sameCommands]
  have sameActive : (engine.reseat scope calls).isActive = engine.isActive :=
    congrArg Branches.isActive alike.scope.branches
  unfold Engine.readStep Step.read Step.named
  simp only [sameWords, sameActive]

theorem agrees_performed
    {visit : Visit}
    (running : visit.engine.scope.isFinished = false)
    (plain : ∀ command invocation, visit.Dispatches command invocation →
      command.IsPlain ⟨invocation, visit.site⟩)
    (alike : Alike earlier visit.engine scope calls)
    (levels : Nat) :
    Agrees earlier visit.performed
      ((visit.engine.reseat scope calls).perform (runUser levels) visit.site.deeper
        visit.step.plan) := by
  unfold Visit.performed
  cases isPlan : visit.step.plan with
  | skip => exact alike.unchanged _
  | fail error => exact alike.unchanged _
  | move spec =>
    unfold perform
    simp only [view_reseat, moveTo_reseat]
    cases spec.resolve visit.engine.view.cursor visit.engine.view.length with
    | ok range => exact (alike_moveTo alike range).unchanged _
    | error error => exact alike.unchanged _
  | call command head segment =>
    have sameBuild : Invocation.build (visit.engine.reseat scope calls) command head segment
        = Invocation.build visit.engine command head segment := rfl
    unfold perform
    simp only [sameBuild]
    cases built : Invocation.build visit.engine command head segment with
    | error error => exact alike.unchanged _
    | ok invocation =>
      have dispatches (valid : command.validate invocation = .ok ()) :
          command.IsPlain ⟨invocation, visit.site⟩ :=
        plain command invocation ⟨running, ⟨head, segment, isPlan, built⟩, valid⟩
      obtain ⟨scopeAfter, callsAfter, ran, alikeAfter⟩ :=
        @agrees_dispatch earlier scope calls _ (runUser visit.levels) (runUser levels) visit.site
          _ _ dispatches alike
      simp only [ran]
      exact ⟨scopeAfter, callsAfter, rfl, alikeAfter⟩

/-- A line of plain commands does the same in its caller's frame and, one level
deeper, in an alike scope. The induction goes along the sub-commands of the
line; no body is entered. -/
theorem agrees_run
    (visit : Visit)
    (plain : visit.RunsPlain)
    (alike : Alike earlier visit.engine scope calls)
    (levels : Nat) :
    Agrees earlier visit.run
      ((visit.engine.reseat scope calls).runLine (runUser levels) visit.site.deeper
        visit.line) := by
  induction visit using Visit.wellFounded_next.induction generalizing scope calls with
  | _ visit inductionHypothesis =>
    rw [visit.run_eq, runLine_eq, alike.readStep]
    rw [show (visit.engine.reseat scope calls).scope.isFinished = visit.engine.scope.isFinished
      from alike.scope.isFinished]
    cases running : visit.engine.scope.isFinished with
    | true => exact alike.unchanged _
    | false =>
      obtain ⟨scopeAfter, callsAfter, performed, alikeAfter⟩ :=
        agrees_performed running (plain visit .refl) alike levels
      have performedNested : (visit.engine.reseat scope calls).perform (runUser levels)
          visit.site.deeper (visit.engine.readStep visit.line).plan = _ := performed
      simp only [performedNested, Bool.false_eq_true, if_false]
      rw [show visit.engine.readStep visit.line = visit.step from rfl]
      cases left : visit.step.rest with
      | none => exact alikeAfter.unchanged _
      | some rest =>
        have goes : visit.Next (visit.continued rest) := .continues running left
        obtain ⟨scopeEnd, callsEnd, ran, alikeEnd⟩ := inductionHypothesis (visit.continued rest)
          goes (fun later visited => plain later (.head goes visited)) alikeAfter
        have ranNested : (visit.performed.2.reseat scopeAfter callsAfter).runLine (runUser levels)
            visit.site.deeper rest = _ := ran
        simp only [ranNested]
        exact ⟨scopeEnd, callsEnd, rfl, alikeEnd⟩

end Lines

end Engine

end ExLine

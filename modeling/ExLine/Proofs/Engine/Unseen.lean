import ExLine.Proofs.Engine.Frames

/-!
Contract: which parts of the scope a command cannot see.

Owns:
- `Scope.Unseen`, a change of the scope that keeps all that names stand for,
  and `Scope.Hidden`, one that keeps the open blocks too;
- `Engine.Blind`, by which an action does the same before and after a change;
- the law that a user command is blind to every unseen change, and a line to
  every hidden one.

Does not own: which line is run in which block (`ExLine.Proofs.Script`).

A user command runs on top of the frames of its caller. It looks names up
there, but never the open blocks, so a change that is unseen for the caller is
hidden for the line in the new frame. That is what the induction over the
levels goes by.
-/

set_option autoImplicit false

namespace ExLine

/-! ## Changes of a scope -/

/-- A change of the scope that keeps what names stand for. -/
structure Scope.Unseen (change : Scope → Scope) : Prop where
  get? : ∀ scope name, (change scope).get? name = scope.get? name
  chain : ∀ scope, (change scope).chain = scope.chain
  vars : ∀ scope, (change scope).innermost.vars = scope.innermost.vars
  withVars : ∀ scope vars, (change scope).withVars vars = change (scope.withVars vars)
  withCommands : ∀ scope commands,
    (change scope).withCommands commands = change (scope.withCommands commands)

/-- A change of the scope that keeps the open blocks and the end of the
innermost frame, too. -/
structure Scope.Hidden (change : Scope → Scope) : Prop extends Scope.Unseen change where
  branches : ∀ scope, (change scope).branches = scope.branches
  isFinished : ∀ scope, (change scope).isFinished = scope.isFinished
  withBranches : ∀ scope branches,
    (change scope).withBranches branches = change (scope.withBranches branches)
  withFinished : ∀ scope finished,
    (change scope).withFinished finished = change (scope.withFinished finished)

namespace Scope

/-- Other open blocks change nothing that names stand for. -/
theorem unseen_withBranches (branches : Branches) : Unseen (·.withBranches branches) :=
  ⟨fun _ _ => rfl, fun _ => rfl, fun _ => rfl, fun _ _ => rfl, fun _ _ => rfl⟩

theorem unseen_withFinished (finished : Bool) : Unseen (·.withFinished finished) :=
  ⟨fun _ _ => rfl, fun _ => rfl, fun _ => rfl, fun _ _ => rfl, fun _ _ => rfl⟩

/-- Applies a change to a stack of frames as to a scope, if it has any. -/
def changeFrames (change : Scope → Scope) : List Frame → List Frame
  | [] => []
  | frame :: frames => (change ⟨frame, frames⟩).frames

/-- Applies a change to the frames under the innermost one. -/
def under (change : Scope → Scope) (scope : Scope) : Scope :=
  { scope with enclosing := changeFrames change scope.enclosing }

theorem get?_eq (scope : Scope) (name : String) :
    scope.get? name
      = (scope.innermost.vars.get? name).or
        (scope.enclosing.findSome? fun frame => frame.vars.get? name) := by
  unfold get? frames
  rw [List.findSome?_cons]
  cases scope.innermost.vars.get? name <;> rfl

/-- What is unseen for the caller is hidden for a frame on top. -/
theorem Unseen.under {change : Scope → Scope} (unseen : Unseen change) :
    Hidden (Scope.under change) where
  get? scope name := by
    rw [get?_eq, get?_eq]
    unfold Scope.under
    cases scope.enclosing with
    | nil => rfl
    | cons frame frames => exact congrArg _ (unseen.get? ⟨frame, frames⟩ name)
  chain scope := by
    unfold Scope.under Scope.chain frames
    cases scope.enclosing with
    | nil => rfl
    | cons frame frames =>
      exact congrArg (scope.innermost.commands :: ·) (unseen.chain ⟨frame, frames⟩)
  vars _ := rfl
  withVars _ _ := rfl
  withCommands _ _ := rfl
  branches _ := rfl
  isFinished _ := rfl
  withBranches _ _ := rfl
  withFinished _ _ := rfl

namespace Unseen

variable {change : Scope → Scope}

theorem commands (unseen : Unseen change) (scope : Scope) :
    (change scope).innermost.commands = scope.innermost.commands := by
  have same := unseen.chain scope
  exact (List.cons.inj same).1

theorem set (unseen : Unseen change) (scope : Scope) (name : String) (value : Value) :
    (change scope).set name value = change (scope.set name value) := by
  show (change scope).withVars _ = _
  rw [unseen.vars, unseen.withVars]
  rfl

theorem unset (unseen : Unseen change) (scope : Scope) (name : String) :
    (change scope).unset name = ((scope.unset name).1, change (scope.unset name).2) := by
  show (_, (change scope).withVars _) = _
  rw [unseen.vars, unseen.withVars]
  rfl

theorem define (unseen : Unseen change) (scope : Scope) (command : Command) (force : Bool) :
    (change scope).define command force = (scope.define command force).map change := by
  unfold Scope.define
  simp only [unseen.commands, unseen.withCommands, bind, Except.bind, pure, Except.pure]
  split
  · split <;> rfl
  · cases scope.innermost.commands.register command <;> rfl

theorem delete (unseen : Unseen change) (scope : Scope) (name : String) :
    (change scope).delete name = ((scope.delete name).1, change (scope.delete name).2) := by
  unfold Scope.delete
  simp only [unseen.commands, unseen.withCommands]

theorem userCommands (unseen : Unseen change) (scope : Scope) :
    (change scope).userCommands = scope.userCommands := by
  unfold Scope.userCommands
  rw [unseen.chain]

end Unseen

end Scope

/-- Whether the action decides which commands run after it. -/
def Builtin.isFlow (action : Builtin) : Bool :=
  action.isConditional || action == .finish

namespace Engine

/-- The engine after a change of its scope. -/
def mapScope (change : Scope → Scope) (engine : Engine) : Engine :=
  { engine with scope := change engine.scope }

/-- The action does the same before and after a change of the scope. -/
def Blind {α : Type} (change : Scope → Scope) (action : Engine → α × Engine) : Prop :=
  ∀ engine, action (engine.mapScope change)
    = ((action engine).1, (action engine).2.mapScope change)

/-! ## The built-in actions, one by one -/

section Elsewhere

-- These actions work outside the scope, so they do not see any change of it.
variable (change : Scope → Scope) (invocation : Invocation)

theorem mappings_mapScope (engine : Engine) :
    (engine.mapScope change).mappings = engine.mappings := by
  cases engine
  rfl

theorem blind_runShell (command : String) (background : Bool) :
    Blind change (·.runShell command background) := by
  intro engine
  unfold runShell
  simp only [mapScope, launch]
  split
  · rfl
  · split <;> rfl
  · rfl

theorem blind_changeDirectory : Blind change (·.changeDirectory invocation) := by
  intro engine
  unfold changeDirectory
  split
  · rfl
  split
  · simp only [mapScope]
    split <;> rfl
  · rfl

theorem blind_map (modes : List Mode) (noremap : Bool) :
    Blind change (·.map modes noremap invocation) := by
  intro engine
  unfold map
  simp only
  split <;> rfl

theorem blind_unmap (modes : List Mode) : Blind change (·.unmap modes invocation) := by
  intro engine
  unfold unmap
  split
  · rfl
  · rename_i lhs _ _
    simp only [mappings_mapScope]
    split <;> rfl

theorem blind_abbreviate (noremap : Bool) : Blind change (·.abbreviate noremap invocation) := by
  intro engine
  unfold abbreviate
  simp only [mappings_mapScope]
  split
  · split <;> rfl
  · split <;> rfl
  · rfl

theorem blind_unabbreviate : Blind change (·.unabbreviate invocation) := by
  intro engine
  unfold unabbreviate
  simp only [mappings_mapScope]
  split <;> rfl

end Elsewhere

section Unseen

variable {change : Scope → Scope} (unseen : Scope.Unseen change) (invocation : Invocation)
include unseen

theorem bindings_mapScope (engine : Engine) :
    (engine.mapScope change).bindings = engine.bindings := by
  show (⟨(change engine.scope).get?, engine.env.get?⟩ : Bindings) = _
  rw [funext (unseen.get? engine.scope)]
  rfl

theorem chain_mapScope (engine : Engine) : (engine.mapScope change).chain = engine.chain := by
  show (change engine.scope).chain ++ [engine.builtins] = _
  rw [unseen.chain]
  rfl

theorem blind_echo : Blind change (·.echo invocation) := by
  intro engine
  unfold echo valuesOf
  simp only [bindings_mapScope unseen]
  split <;> rfl

theorem held_mapScope (engine : Engine) (target : Target) :
    (engine.mapScope change).held target = engine.held target := by
  cases target with
  | env name => rfl
  | var name => exact unseen.get? engine.scope name

theorem store_mapScope (engine : Engine) (target : Target) (value : Value) :
    (engine.mapScope change).store target value = (engine.store target value).mapScope change := by
  cases target with
  | env name => rfl
  | var name =>
    show { engine with scope := (change engine.scope).set name value } = _
    rw [unseen.set]
    rfl

theorem blind_assign : Blind change (·.assign invocation) := by
  intro engine
  unfold assign assigned
  simp only [bindings_mapScope unseen, held_mapScope unseen, store_mapScope unseen]
  split <;> rfl

theorem blind_removeVariable (argument : String) : Blind change (·.removeVariable argument) := by
  intro engine
  unfold removeVariable
  split
  · rfl
  · show (((change engine.scope).unset argument).1,
      { engine with scope := ((change engine.scope).unset argument).2 }) = _
    rw [unseen.unset]
    rfl

theorem blind_removeVariables (arguments : List String) :
    Blind change (·.removeVariables arguments) := by
  intro engine
  induction arguments generalizing engine with
  | nil => rfl
  | cons argument rest inductionHypothesis =>
    have first : (engine.mapScope change).removeVariable argument = _ :=
      blind_removeVariable unseen argument engine
    have later : ((engine.removeVariable argument).2.mapScope change).removeVariables rest = _ :=
      inductionHypothesis (engine.removeVariable argument).2
    simp only [removeVariables, first, later]

theorem blind_unassign : Blind change (·.unassign invocation) := by
  intro engine
  unfold unassign
  simp only [blind_removeVariables unseen invocation.args engine]
  split <;> rfl

theorem commandListing_mapScope (engine : Engine) (start : String) :
    (engine.mapScope change).commandListing start = engine.commandListing start := by
  unfold commandListing
  show Text.join _ ((((change engine.scope).userCommands).filter _).map _) = _
  rw [unseen.userCommands]

theorem blind_define : Blind change (·.define invocation) := by
  intro engine
  unfold define
  simp only [commandListing_mapScope unseen]
  split
  · rfl
  split
  · split <;> rfl
  split
  · rfl
  simp only [mapScope, unseen.define]
  split
  · rfl
  · cases engine.scope.define _ invocation.bang <;> rfl

theorem blind_delete : Blind change (·.delete invocation) := by
  intro engine
  unfold delete
  split
  · rfl
  · rename_i word _ _
    simp only [mapScope, unseen.commands, unseen.delete]
    cases Registry.resolve [engine.scope.innermost.commands] word with
    | ok command =>
      simp only
      split <;> rfl
    | error error => cases error <;> rfl

theorem blind_clear : Blind change clear := by
  intro engine
  show ({ engine with scope := (change engine.scope).withCommands {} } : Engine).done = _
  rw [unseen.withCommands]
  rfl

/-- An action that decides nothing about what runs after it does not see an
unseen change. -/
theorem blind_runBuiltin_of_unseen
    {action : Builtin}
    (noFlow : action.isFlow = false)
    (site : Site) :
    Blind change (·.runBuiltin action site invocation) := by
  cases action with
  | echo => exact blind_echo unseen invocation
  | assign => exact blind_assign unseen invocation
  | unassign => exact blind_unassign unseen invocation
  | define => exact blind_define unseen invocation
  | delete => exact blind_delete unseen invocation
  | clear => exact blind_clear unseen
  | shell => exact blind_runShell change _ _
  | changeDirectory => exact blind_changeDirectory change invocation
  | map modes noremap => exact blind_map change invocation modes noremap
  | unmap modes => exact blind_unmap change invocation modes
  | abbreviate noremap => exact blind_abbreviate change invocation noremap
  | unabbreviate => exact blind_unabbreviate change invocation
  | ifBlock | elseIfBranch | elseBranch | endIf | finish => cases noFlow

end Unseen

section Hidden

variable {change : Scope → Scope} (hidden : Scope.Hidden change) (invocation : Invocation)
include hidden

theorem condition_mapScope (engine : Engine) :
    (engine.mapScope change).condition invocation = engine.condition invocation := by
  unfold condition
  rw [bindings_mapScope hidden.toUnseen]

theorem isActive_mapScope (engine : Engine) :
    (engine.mapScope change).isActive = engine.isActive :=
  congrArg Branches.isActive (hidden.branches engine.scope)

theorem withBranches_mapScope (engine : Engine) (branches : Branches) :
    (engine.mapScope change).withBranches branches
      = (engine.withBranches branches).mapScope change := by
  show { engine with scope := (change engine.scope).withBranches branches } = _
  rw [hidden.withBranches]
  rfl

theorem blind_ifBlock : Blind change (·.ifBlock invocation) := by
  intro engine
  unfold ifBlock
  simp only [show (engine.mapScope change).scope.branches = _ from hidden.branches engine.scope,
    condition_mapScope hidden, withBranches_mapScope hidden]
  split <;> rfl

theorem blind_moved (result : Except ControlError Branches) : Blind change (·.moved result) := by
  intro engine
  cases result with
  | error error => rfl
  | ok branches =>
    show ((engine.mapScope change).withBranches branches).done = _
    rw [withBranches_mapScope hidden]
    rfl

theorem blind_elseIfBranch : Blind change (·.elseIfBranch invocation) := by
  intro engine
  unfold elseIfBranch
  simp only [show (engine.mapScope change).scope.branches = _ from hidden.branches engine.scope,
    condition_mapScope hidden, withBranches_mapScope hidden]
  split
  · split <;> rfl
  · exact blind_moved hidden _ engine

theorem blind_finish (site : Site) : Blind change (·.finish site) := by
  intro engine
  unfold finish
  split
  · rfl
  · show ({ engine with scope := (change engine.scope).withFinished true } : Engine).done = _
    rw [hidden.withFinished]
    rfl

/-- No action sees a hidden change. -/
theorem blind_runBuiltin_of_hidden (action : Builtin) (site : Site) :
    Blind change (·.runBuiltin action site invocation) := by
  cases noFlow : action.isFlow with
  | false => exact blind_runBuiltin_of_unseen hidden.toUnseen invocation noFlow site
  | true =>
    intro engine
    have sameBlocks : (engine.mapScope change).scope.branches = engine.scope.branches :=
      hidden.branches engine.scope
    cases action with
    | ifBlock => exact blind_ifBlock hidden invocation engine
    | elseIfBranch => exact blind_elseIfBranch hidden invocation engine
    | elseBranch =>
      show (engine.mapScope change).moved (engine.mapScope change).scope.branches.fallback = _
      rw [sameBlocks]
      exact blind_moved hidden _ engine
    | endIf =>
      show (engine.mapScope change).moved (engine.mapScope change).scope.branches.closeBlock = _
      rw [sameBlocks]
      exact blind_moved hidden _ engine
    | finish => exact blind_finish hidden site engine
    | echo | assign | unassign | define | delete | clear | shell | changeDirectory | map | unmap
    | abbreviate | unabbreviate => cases noFlow

end Hidden

/-! ## Calls, sub-commands and lines -/

section Lines

variable {change : Scope → Scope} {call : UserCall}

theorem blind_dispatch
    (calls : ∀ site body invocation, Blind change (call site body invocation))
    {command : Command}
    (actions : ∀ action, command.handler = .builtin action →
      ∀ site invocation, Blind change (·.runBuiltin action site invocation))
    (site : Site)
    (invocation : Invocation) :
    Blind change (·.dispatch call site command invocation) := by
  intro engine
  unfold dispatch
  simp only
  split
  · rfl
  · split
    · rename_i action isAction
      exact actions action isAction site invocation engine
    · rfl
    · exact calls site _ invocation engine

theorem moveTo_mapScope (engine : Engine) (range : LineRange) :
    (engine.mapScope change).moveTo range = (engine.moveTo range).mapScope change := by
  unfold moveTo
  simp only [mapScope]
  split <;> rfl

theorem blind_perform
    (calls : ∀ site body invocation, Blind change (call site body invocation))
    {plan : Plan}
    (actions : ∀ command head segment, plan = .call command head segment →
      ∀ action, command.handler = .builtin action →
      ∀ site invocation, Blind change (·.runBuiltin action site invocation))
    (site : Site) :
    Blind change (·.perform call site plan) := by
  intro engine
  cases plan with
  | skip => rfl
  | fail error => rfl
  | move spec =>
    unfold perform
    simp only [moveTo_mapScope]
    simp only [mapScope]
    split <;> rfl
  | call command head segment =>
    have sameCall : Invocation.build (engine.mapScope change) command head segment
        = Invocation.build engine command head segment := rfl
    unfold perform
    simp only [sameCall]
    split
    · rfl
    · rename_i invocation _
      have dispatched : (engine.mapScope change).dispatch call site command invocation = _ :=
        blind_dispatch calls (actions command head segment rfl) site invocation engine
      rw [dispatched]
      rfl

/-- A line does not see a hidden change, if the user commands that it calls do
not. -/
theorem blind_runLine
    (hidden : Scope.Hidden change)
    (calls : ∀ site body invocation, Blind change (call site body invocation))
    (site : Site)
    (line : Bytes) :
    Blind change (·.runLine call site line) := by
  intro engine
  have sameStep (engine : Engine) (line : Bytes) :
      (engine.mapScope change).readStep line = engine.readStep line := by
    unfold readStep
    rw [chain_mapScope hidden.toUnseen, isActive_mapScope hidden]
  have sameEnd (engine : Engine) :
      (engine.mapScope change).scope.isFinished = engine.scope.isFinished :=
    hidden.isFinished engine.scope
  have performed (engine : Engine) (plan : Plan) :
      (engine.mapScope change).perform call site plan
        = ((engine.perform call site plan).1,
            (engine.perform call site plan).2.mapScope change) :=
    blind_perform calls
      (fun _ _ _ _ action _ site invocation =>
        blind_runBuiltin_of_hidden hidden invocation action site)
      site engine
  induction isLength : line.length using Nat.strongRecOn generalizing line engine with
  | _ length inductionHypothesis =>
    show (engine.mapScope change).runLine call site line
      = ((engine.runLine call site line).1, (engine.runLine call site line).2.mapScope change)
    rw [runLine_eq, runLine_eq engine, sameEnd, sameStep, performed]
    split
    · rfl
    · simp only
      cases left : (engine.readStep line).rest with
      | none => rfl
      | some rest =>
        have shorter : rest.length < length := isLength ▸ Step.length_lt_of_read left
        have rested := inductionHypothesis rest.length shorter rest
          (engine.perform call site (engine.readStep line).plan).2 rfl
        simp only [rested]

end Lines

/-! ## User commands -/

/-- Leaving a frame uncovers a change of the frames under it. -/
theorem leaveFrame_under
    {change : Scope → Scope}
    {result : Reply × Engine}
    {frame : Frame}
    {frames : List Frame}
    (below : result.2.scope.enclosing = frame :: frames) :
    leaveFrame (result.1, result.2.mapScope (Scope.under change))
      = ((leaveFrame result).1, (leaveFrame result).2.mapScope change) := by
  have popped : (result.2.scope.under change).pop
      = some (result.2.scope.innermost, change ⟨frame, frames⟩) := by
    unfold Scope.pop Scope.under
    rw [below]
    rfl
  have poppedBefore : result.2.scope.pop = some (result.2.scope.innermost, ⟨frame, frames⟩) := by
    unfold Scope.pop
    rw [below]
  unfold leaveFrame
  simp only [mapScope, popped, poppedBefore]
  split
  · rfl
  · split <;> rfl

/-- A user command sees no change of the open blocks of its callers, nor any
other change that is unseen for the line that calls it. -/
theorem blind_runUser
    {change : Scope → Scope}
    (unseen : Scope.Unseen change)
    (levels : Nat)
    (site : Site)
    (body : String)
    (invocation : Invocation) :
    Blind change (runUser levels site body invocation) := by
  intro engine
  induction levels generalizing change site body invocation engine with
  | zero => rfl
  | succ levels inductionHypothesis =>
    unfold runUser
    simp only
    split
    · -- What is unseen here is hidden for the body, which runs one frame further in.
      generalize { site with depth := site.depth + 1 } = inner
      generalize Utf8.ofString _ = line
      have ran := blind_runLine unseen.under
        (fun site body invocation engine =>
          inductionHypothesis unseen.under.toUnseen site body invocation engine)
        inner line { engine with scope := engine.scope.push }
      have below := (keeps_runLine levels { engine with scope := engine.scope.push }
        inner line).enclosing
      exact (congrArg leaveFrame ran).trans (leaveFrame_under below)
    · unfold runShellBody
      split
      · rfl
      · exact blind_runShell change _ _ engine

end Engine

end ExLine

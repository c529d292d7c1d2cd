import ExLine.Proofs.Engine.Plans
import ExLine.Proofs.Engine.Stopping
import ExLine.Proofs.Script.Isolation

/-!
Contract: what is passed over in a branch that is not taken.

Owns:
- `Engine.ControlBuiltIn`, by which no command of the host is a control command;
- `Visit.Skipped`, a line all of whose sub-commands meet such a branch;
- `Engine.inactive_branches_have_no_effect`, from one sub-command to sequences of
  lines and the lines of scripts.

Does not own: which branch is taken (`ExLine.Proofs.Engine.Conditions`).

A sub-command that is passed over is still read, resolved and cut, and a control
command is even carried out. What it can change then is the stack of open blocks
of its own frame.
-/

set_option autoImplicit false

namespace ExLine

/-- Whether the command opens, moves within or closes a conditional block. -/
def Command.isConditional (command : Command) : Bool :=
  match command.handler with
  | .builtin action => action.isConditional
  | _ => false

theorem Command.isConditional_of_mem_builtins :
    ∀ command ∈ Command.builtins, command.flags.control → command.isConditional := by
  decide

namespace Engine

namespace SameButBlocks

theorem refl (engine : Engine) : SameButBlocks engine engine :=
  rfl

theorem trans
    {first second third : Engine}
    (early : SameButBlocks first second)
    (late : SameButBlocks second third) :
    SameButBlocks first third :=
  Eq.trans early late

theorem builtins
    {first second : Engine}
    (same : SameButBlocks first second) :
    second.builtins = first.builtins := by
  rw [same.eq_withBranches]
  rfl

theorem isFinished
    {first second : Engine}
    (same : SameButBlocks first second) :
    second.scope.isFinished = first.scope.isFinished := by
  rw [same.eq_withBranches]
  rfl

theorem orderly
    {first second : Engine}
    (same : SameButBlocks first second)
    (holds : first.Orderly) :
    second.Orderly := by
  rw [same.eq_withBranches]
  exact holds.of_grows (.congr rfl rfl)

/-- An action on conditional blocks changes nothing but these. -/
theorem of_effect
    {engine after : Engine}
    {action : Builtin}
    (conditional : action.isConditional)
    (effect : Effect engine action after) :
    SameButBlocks engine after := by
  cases effect with
  | none | branches => rfl
  | vars assigns =>
    rcases assigns with rfl | rfl <;> cases conditional
  | commands manages =>
    rcases manages with rfl | rfl | rfl <;> cases conditional
  | finished | launch | directory => cases conditional
  | mappings maps =>
    cases action <;> simp_all [Builtin.isMapping, Builtin.isConditional]

end SameButBlocks

/-- No command of the host runs in branches that are not taken. -/
def ControlBuiltIn (engine : Engine) : Prop :=
  ∀ command ∈ engine.builtins.commands, command.flags.control → command ∈ Command.builtins

/-! ## One sub-command -/

section Inactive

variable {engine : Engine}
  (orderly : engine.Orderly)
  (controlBuiltIn : engine.ControlBuiltIn)

include orderly controlBuiltIn

/-- Control commands are the words of conditional blocks. -/
theorem isConditional_of_resolve
    {word : String}
    {command : Command}
    (resolved : Registry.resolve engine.chain word = .ok command)
    (control : command.flags.control) :
    command.isConditional := by
  rcases orderly.known_of_resolve resolved with isFixed | ⟨name, body, rfl⟩
  · apply Command.isConditional_of_mem_builtins command _ control
    exact controlBuiltIn command isFixed control
  · cases control

/-- A sub-command that meets a branch that is not taken changes at most the
stack of open blocks. -/
theorem sameButBlocks_perform
    (inactive : engine.isActive = false)
    (call : UserCall)
    (site : Site)
    (line : Bytes) :
    SameButBlocks engine (engine.perform call site (engine.readStep line).plan).2 := by
  cases plan : (engine.readStep line).plan with
  | skip => exact .refl engine
  | fail error => exact .refl engine
  | move range =>
    rw [Step.active_of_move plan] at inactive
    cases inactive
  | call command head segment =>
    obtain ⟨-, -, resolved, -, runs⟩ := Step.read_eq_call_iff.mp plan
    have control : command.flags.control := by
      rwa [inactive, Bool.false_or] at runs
    have conditional := isConditional_of_resolve orderly controlBuiltIn resolved control
    unfold perform
    simp only
    split
    · exact .refl engine
    · unfold dispatch
      split
      · exact .refl engine
      · unfold Command.isConditional at conditional
        split at conditional
        · rename_i action isAction
          rw [isAction]
          exact .of_effect conditional (effect_runBuiltin engine _ action site)
        · cases conditional

end Inactive

/-! ## Lines -/

namespace Visit

/-- Every sub-command of the line meets a branch that is not taken. -/
def Skipped (visit : Visit) : Prop :=
  ∀ replies last, visit.Reaches replies last → last.engine.isActive = false

theorem Skipped.inactive
    {visit : Visit}
    (skipped : visit.Skipped) :
    visit.engine.isActive = false :=
  skipped [] visit (.here visit)

theorem Skipped.continued
    {visit : Visit}
    {rest : Bytes}
    (skipped : visit.Skipped)
    (running : visit.engine.scope.isFinished = false)
    (left : visit.step.rest = some rest) :
    (visit.continued rest).Skipped := by
  intro replies last reaches
  exact skipped _ last (.step running left reaches)

theorem skipped_of_rest
    {visit : Visit}
    (inactive : visit.engine.isActive = false)
    (later : ∀ rest, visit.step.rest = some rest → (visit.continued rest).Skipped) :
    visit.Skipped := by
  intro replies last reaches
  cases reaches with
  | here => exact inactive
  | step running left reaches => exact later _ left _ last reaches

/-- The run of a line follows from its sub-commands, the last of which leaves no
rest. -/
theorem sameButBlocks_run
    (visit : Visit)
    (orderly : visit.engine.Orderly)
    (controlBuiltIn : visit.engine.ControlBuiltIn)
    (skipped : visit.Skipped) :
    SameButBlocks visit.engine visit.run.2 := by
  induction visit using wellFounded_next.induction with
  | _ visit inductionHypothesis =>
    have first : SameButBlocks visit.engine visit.performed.2 :=
      sameButBlocks_perform orderly controlBuiltIn skipped.inactive _ _ _
    rw [Visit.run_eq]
    split
    · exact .refl visit.engine
    · rename_i notStopped
      have running := Bool.eq_false_iff.mpr notStopped
      split
      · exact first
      · rename_i rest left
        apply first.trans
        apply inductionHypothesis (visit.continued rest) (.continues running left)
        · exact first.orderly orderly
        · unfold ControlBuiltIn
          rw [show (visit.continued rest).engine.builtins = _ from first.builtins]
          exact controlBuiltIn
        · exact skipped.continued running left

end Visit

/-! ## Sequences of lines -/

section Sequences

variable {engine : Engine}
  (orderly : engine.Orderly)
  (controlBuiltIn : engine.ControlBuiltIn)

include orderly controlBuiltIn

/-- What holds of a line holds as well in the states that passed lines leave. -/
theorem sameButBlocks_runTop
    {reached : Engine}
    {source : Source}
    {line : Bytes}
    (same : SameButBlocks engine reached)
    (skipped : Visit.Skipped ⟨reached, { source }, line⟩) :
    SameButBlocks engine (reached.runTop source line).2 := by
  apply same.trans
  apply Visit.sameButBlocks_run ⟨reached, { source }, line⟩ (same.orderly orderly) _ skipped
  unfold ControlBuiltIn
  rw [show Engine.builtins _ = _ from same.builtins]
  exact controlBuiltIn

theorem sameButBlocks_afterAll
    (running : engine.scope.isFinished = false)
    {calls : List Call}
    (executed : ∀ call ∈ calls, ∃ source line, call = .execute source line)
    (skipped : ∀ earlier source line later, calls = earlier ++ .execute source line :: later →
      Visit.Skipped ⟨engine.afterAll earlier, { source }, line⟩) :
    SameButBlocks engine (engine.afterAll calls) := by
  refine @along_session (SameButBlocks engine) engine calls calls [] (.refl engine)
    (fun earlier call later split same => ?_) (List.append_nil calls).symm
  obtain ⟨source, line, rfl⟩ := executed call (by rw [split]; simp)
  have ran : SameButBlocks engine ((engine.afterAll earlier).runTop source line).2 :=
    sameButBlocks_runTop orderly controlBuiltIn same (skipped earlier source line later split)
  -- The frame has not been stopped, so there is nothing to let run again.
  show SameButBlocks engine (((engine.afterAll earlier).runTop source line).2.withFinished false)
  rw [withFinished_of_running (ran.isFinished.trans running)]
  exact ran

theorem sameButBlocks_runLines
    {reached : Engine}
    (same : SameButBlocks engine reached)
    {lines : List Script.LogicalLine}
    (skipped : ∀ earlier line later, lines = earlier ++ line :: later →
      Visit.Skipped ⟨(reached.runLines earlier).2, { source := .script }, Utf8.encode line.text⟩) :
    SameButBlocks engine (reached.runLines lines).2 := by
  induction lines generalizing reached with
  | nil => exact same
  | cons line rest inductionHypothesis =>
    have first : SameButBlocks engine (reached.runTop .script (Utf8.encode line.text)).2 :=
      sameButBlocks_runTop orderly controlBuiltIn same (skipped [] line rest rfl)
    unfold runLines
    simp only
    split
    · exact first
    · rename_i notStopped
      apply inductionHypothesis first
      intro earlier later following split
      have lineFirst : (reached.runLines (line :: earlier)).2
          = ((reached.runTop .script (Utf8.encode line.text)).2.runLines earlier).2 := by
        rw [runLines]
        simp only [notStopped]
        rfl
      rw [← lineFirst]
      exact skipped (line :: earlier) later following (by rw [split]; rfl)

end Sequences

/-- **Inactive branches have no effect.** In every state that a session comes by,
as long as no command of the host is a control command: a sub-command that meets
a branch that is not taken, whatever its bytes, changes at most the stack of open
blocks of its frame. So does a line all of whose sub-commands meet such branches,
a sequence of executed lines like that, and a sequence of such lines of a
script. -/
theorem inactive_branches_have_no_effect
    {engine : Engine}
    (occurs : engine.Occurs)
    (controlBuiltIn : engine.ControlBuiltIn) :
    (engine.isActive = false → ∀ (call : UserCall) (site : Site) (line : Bytes),
      let after := (engine.perform call site (engine.readStep line).plan).2
      after = engine.withBranches after.scope.branches)
    ∧ (∀ (site : Site) (line : Bytes), Visit.Skipped ⟨engine, site, line⟩ →
      let after := (Visit.run ⟨engine, site, line⟩).2
      after = engine.withBranches after.scope.branches)
    ∧ (engine.scope.isFinished = false → ∀ calls : List Call,
      (∀ call ∈ calls, ∃ source line, call = .execute source line) →
      (∀ earlier source line later, calls = earlier ++ .execute source line :: later →
        Visit.Skipped ⟨engine.afterAll earlier, { source }, line⟩) →
      let after := engine.afterAll calls
      after = engine.withBranches after.scope.branches)
    ∧ (∀ lines : List Script.LogicalLine,
      (∀ earlier line later, lines = earlier ++ line :: later →
        Visit.Skipped
          ⟨(engine.runLines earlier).2, { source := .script }, Utf8.encode line.text⟩) →
      let after := (engine.runLines lines).2
      after = engine.withBranches after.scope.branches) := by
  have orderly := occurs.orderly
  refine ⟨fun inactive call site line => ?_, fun site line skipped => ?_,
    fun running calls executed skipped => ?_, fun lines skipped => ?_⟩
  · exact (sameButBlocks_perform orderly controlBuiltIn inactive call site line).eq_withBranches
  · exact (Visit.sameButBlocks_run _ orderly controlBuiltIn skipped).eq_withBranches
  · exact (sameButBlocks_afterAll orderly controlBuiltIn running executed skipped).eq_withBranches
  · exact (sameButBlocks_runLines orderly controlBuiltIn (.refl engine) skipped).eq_withBranches

/-- A line that calls the host, closes the inner block and sets a variable. -/
def passedOver : Visit := ⟨leftOpenEngine, ⟨.typed, 0⟩, Utf8.ofString "h|endif|let $A = 1"⟩

theorem skipped_passedOver : passedOver.Skipped := by
  have calls : passedOver.step.rest = some (Utf8.ofString "endif|let $A = 1") := by decide +kernel
  have closes : (passedOver.continued (Utf8.ofString "endif|let $A = 1")).step.rest
      = some (Utf8.ofString "let $A = 1") := by decide +kernel
  have sets : ((passedOver.continued (Utf8.ofString "endif|let $A = 1")).continued
      (Utf8.ofString "let $A = 1")).step.rest = none := by decide +kernel
  refine Visit.skipped_of_rest rfl fun rest left => ?_
  cases calls.symm.trans left
  refine Visit.skipped_of_rest (by decide +kernel) fun rest left => ?_
  cases closes.symm.trans left
  refine Visit.skipped_of_rest (by decide +kernel) fun rest left => ?_
  cases sets.symm.trans left

theorem controlBuiltIn_leftOpenEngine : leftOpenEngine.ControlBuiltIn := by
  intro command member control
  rcases List.mem_append.mp member with builtin | host
  · exact builtin
  · rw [List.mem_singleton.mp host] at control
    cases control

/-- The inner block is closed, and the host is not called. -/
theorem inactive_branches_have_no_effect_left_open :
    leftOpenEngine.isActive = false
    ∧ (Visit.performed passedOver).2
      = leftOpenEngine.withBranches (Visit.performed passedOver).2.scope.branches
    ∧ leftOpenEngine.afterAll [.execute .typed passedOver.line]
      = oneHost.withBranches ⟨[⟨true, false, false, false⟩]⟩ := by
  have occurs : leftOpenEngine.Occurs :=
    afterAll_leftOpen ▸ Occurs.afterAll {} {} {} (Launcher.ofList []) leftOpen
  obtain ⟨oneStep, -, sequence, -⟩ :=
    inactive_branches_have_no_effect occurs controlBuiltIn_leftOpenEngine
  refine ⟨rfl, oneStep rfl _ _ _, ?_⟩
  have kept := sequence rfl [.execute .typed passedOver.line]
    (fun call member => ⟨.typed, passedOver.line, List.mem_singleton.mp member⟩)
    (fun earlier source line later split => by
      obtain ⟨rfl, same⟩ := List.append_eq_singleton_iff.mp split.symm |>.resolve_right (by simp)
      cases same
      exact skipped_passedOver)
  refine kept.trans ?_
  have closed : (leftOpenEngine.afterAll [.execute .typed passedOver.line]).scope.branches
      = ⟨[⟨true, false, false, false⟩]⟩ := by decide +kernel
  rw [closed]
  rfl

end Engine

end ExLine

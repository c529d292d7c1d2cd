import ExLine.Proofs.Engine.Effects

/-!
Contract: which frames a command line can reach.

Owns:
- `Engine.Keeps`, the settings, the fixed commands and the enclosing frames,
  which stay as they are while a line runs;
- `Engine.keeps_runLine` and `Engine.scope_runUser`: a line changes its own
  frame only, and a user command changes no frame that was there before it;
- `Engine.runLine_eq`, `runLine_first` and `runLine_last`, a line by its first
  sub-command.

Does not own: what happens within the innermost frame
(`ExLine.Proofs.Engine.Effects`).

A body is text that enters the interpreter again, so the law of a line and the
law of a user command need each other. The recursion runs over the levels that
are left; within a level a line goes by its own recursion.
-/

set_option autoImplicit false

namespace ExLine.Engine

/-- What no line changes. -/
structure Keeps (before after : Engine) : Prop where
  config : after.config = before.config
  builtins : after.builtins = before.builtins
  enclosing : after.scope.enclosing = before.scope.enclosing

namespace Keeps

theorem refl (engine : Engine) : Keeps engine engine :=
  ⟨rfl, rfl, rfl⟩

theorem trans {first second third : Engine} (early : Keeps first second)
    (late : Keeps second third) : Keeps first third :=
  ⟨late.config.trans early.config, late.builtins.trans early.builtins,
    late.enclosing.trans early.enclosing⟩

/-- Every built-in action works on the innermost frame, or on what belongs to
no frame. -/
theorem of_effect {engine after : Engine} {action : Builtin}
    (effect : Effect engine action after) : Keeps engine after := by
  cases effect <;> exact ⟨rfl, rfl, rfl⟩

theorem moveTo (engine : Engine) (range : LineRange) : Keeps engine (engine.moveTo range) := by
  unfold Engine.moveTo
  split <;> exact ⟨rfl, rfl, rfl⟩

theorem of_change
    {call : UserCall}
    {engine after : Engine}
    (calls : ∀ site body invocation engine, Keeps engine (call site body invocation engine).2)
    (change : Change call engine after) :
    Keeps engine after := by
  cases change with
  | none => exact refl engine
  | move range => exact moveTo engine range
  | builtin effect => exact of_effect effect
  | host made => exact ⟨rfl, rfl, rfl⟩
  | user site body invocation => exact calls site body invocation engine

theorem of_runLine
    {call : UserCall}
    (calls : ∀ site body invocation engine, Keeps engine (call site body invocation engine).2)
    (engine : Engine)
    (site : Site)
    (line : Bytes) :
    Keeps engine (engine.runLine call site line).2 :=
  Engine.of_runLine (fun change held => held.trans (of_change calls change)) engine site line
    (refl engine)

end Keeps

/-! ## User commands -/

/-- Leaving a frame uncovers exactly the frames under it. -/
theorem scope_leaveFrame
    {result : Reply × Engine}
    {frame : Frame}
    {frames : List Frame}
    (under : result.2.scope.enclosing = frame :: frames) :
    (leaveFrame result).2 = { result.2 with scope := ⟨frame, frames⟩ } := by
  unfold leaveFrame Scope.pop
  rw [under]
  simp only
  split
  · rfl
  · split <;> rfl

theorem keeps_runShellBody (engine : Engine) (text : String) (invocation : Invocation) :
    Keeps engine (engine.runShellBody text invocation).2
      ∧ (engine.runShellBody text invocation).2.scope = engine.scope := by
  unfold runShellBody
  split
  · exact ⟨Keeps.refl engine, rfl⟩
  · rename_i segment _
    obtain ⟨request, launched⟩ := runShell_eq_launch engine
      (Text.trimRight (String.ofList (Utf8.decodeLossy segment.body)))
      (invocation.background || segment.background)
    rw [launched]
    exact ⟨⟨rfl, rfl, rfl⟩, rfl⟩

/-- A user command leaves the settings, the fixed commands and all frames as
they were. -/
theorem keeps_runUser (levels : Nat) (site : Site) (body : String) (invocation : Invocation)
    (engine : Engine) :
    Keeps engine (runUser levels site body invocation engine).2
      ∧ (runUser levels site body invocation engine).2.scope = engine.scope := by
  induction levels generalizing site body invocation engine with
  | zero => exact ⟨Keeps.refl engine, rfl⟩
  | succ levels inductionHypothesis =>
    unfold runUser
    simp only
    split
    · -- The line runs on top of all frames of the caller, and keeps what is under its own.
      generalize { site with depth := site.depth + 1 } = inner
      generalize Utf8.ofString _ = line
      have ran := Keeps.of_runLine
        (fun site body invocation engine => (inductionHypothesis site body invocation engine).1)
        { engine with scope := engine.scope.push } inner line
      rw [scope_leaveFrame ran.enclosing]
      exact ⟨⟨ran.config, ran.builtins, rfl⟩, rfl⟩
    · exact keeps_runShellBody engine _ invocation

theorem scope_runUser (levels : Nat) (site : Site) (body : String) (invocation : Invocation)
    (engine : Engine) :
    (runUser levels site body invocation engine).2.scope = engine.scope :=
  (keeps_runUser levels site body invocation engine).2

theorem keeps_runLine (levels : Nat) (engine : Engine) (site : Site) (line : Bytes) :
    Keeps engine (engine.runLine (runUser levels) site line).2 :=
  Keeps.of_runLine
    (fun site body invocation engine => (keeps_runUser levels site body invocation engine).1)
    engine site line

/-! ## Isolation -/

/-- What follows a sub-command on its line runs at the site of the line, in the
frames that the sub-command left. -/
theorem runLine_eq (engine : Engine) (call : UserCall) (site : Site) (line : Bytes) :
    engine.runLine call site line =
      if engine.scope.isFinished then engine.done
      else
        let first := engine.perform call site (engine.readStep line).plan
        match (engine.readStep line).rest with
        | none => (andThen first.1 (.ok Outcome.done), first.2)
        | some rest =>
          let later := first.2.runLine call site rest
          (andThen first.1 later.1, later.2) := by
  rw [runLine]
  split
  · rfl
  · simp only
    split <;> rename_i left <;> rw [left]

section SubCommands

variable {engine after : Engine} {call : UserCall} {site : Site} {line rest : Bytes}
  {first : StepReply}

/-- A line goes on in the engine that its first sub-command left. -/
theorem runLine_first
    (running : engine.scope.isFinished = false)
    (performed : engine.perform call site (engine.readStep line).plan = (first, after))
    (left : (engine.readStep line).rest = some rest) :
    engine.runLine call site line
      = (andThen first (after.runLine call site rest).1, (after.runLine call site rest).2) := by
  rw [runLine_eq, running, left, performed]
  rfl

theorem runLine_last
    (running : engine.scope.isFinished = false)
    (performed : engine.perform call site (engine.readStep line).plan = (first, after))
    (left : (engine.readStep line).rest = none) :
    engine.runLine call site line = (andThen first (.ok Outcome.done), after) := by
  rw [runLine_eq, running, left, performed]
  rfl

end SubCommands

theorem andThen_done (reply : Reply) : andThen (reply.map some) (.ok Outcome.done) = reply := by
  cases reply <;> rfl

/-- **User commands are isolated.** A line leaves the number of frames and
every frame under its own as they were. A user command leaves all frames as
they were, whatever its body does and whatever it replies. The depth belongs
to the site, and after a user command as after any other sub-command the line
goes on at its own site. -/
theorem user_commands_isolated (levels : Nat) :
    (∀ (engine : Engine) (site : Site) (line : Bytes),
      (engine.runLine (runUser levels) site line).2.scope.depth = engine.scope.depth
        ∧ (engine.runLine (runUser levels) site line).2.scope.enclosing = engine.scope.enclosing)
    ∧ (∀ (site : Site) (body : String) (invocation : Invocation) (engine : Engine),
      (runUser levels site body invocation engine).2.scope = engine.scope)
    ∧ (∀ (engine : Engine) (site : Site) (line : Bytes),
      engine.runLine (runUser levels) site line =
        if engine.scope.isFinished then engine.done
        else
          let first := engine.perform (runUser levels) site (engine.readStep line).plan
          match (engine.readStep line).rest with
          | none => (andThen first.1 (.ok Outcome.done), first.2)
          | some rest =>
            let later := first.2.runLine (runUser levels) site rest
            (andThen first.1 later.1, later.2)) := by
  refine ⟨fun engine site line => ?_, scope_runUser levels, fun engine site line => ?_⟩
  · have kept := (keeps_runLine levels engine site line).enclosing
    exact ⟨congrArg List.length kept, kept⟩
  · exact runLine_eq engine (runUser levels) site line

end ExLine.Engine

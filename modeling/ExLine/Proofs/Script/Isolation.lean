import ExLine.Proofs.Engine.Recovery

/-!
Contract: scripts and the open blocks of their caller.

Owns:
- `Engine.SameButBlocks`, by which two engines differ in the open blocks of
  their innermost frame and in nothing else;
- `Script.runScript_sameButBlocks`, the two runs of a script on such engines;
- `Script.scripts_isolated_from_blocks`.

Does not own: the blocks that a script opens itself
(`ExLine.Proofs.Script.Refinement`).

A script can close blocks that it did not open, stop within a block, and call
commands that do either. All of this happens to a stack that is empty at its
first line and is dropped after its last one.
-/

set_option autoImplicit false

namespace ExLine

/-! ## Engines that differ in their blocks -/

/-- The engines differ at most in the open blocks of the innermost frame. -/
def Engine.SameButBlocks (first second : Engine) : Prop :=
  first.withBranches {} = second.withBranches {}

namespace Engine.SameButBlocks

theorem eq_withBranches
    {first second : Engine}
    (same : SameButBlocks first second) :
    second = first.withBranches second.scope.branches := by
  unfold SameButBlocks at same
  calc second
    _ = (second.withBranches {}).withBranches second.scope.branches := rfl
    _ = (first.withBranches {}).withBranches second.scope.branches := by rw [same]
    _ = first.withBranches second.scope.branches := rfl

end Engine.SameButBlocks

/-! ## Two runs of a script -/

namespace Script

open Engine

/-- The lines of a script run in an engine without open blocks, and the blocks
of the caller come back at the end. -/
theorem runScript_snd (engine : Engine) (text : String) :
    (engine.runScript text).2
      = (((engine.withBranches {}).runLines (logicalLines text)).2.withBranches
          engine.scope.branches).withFinished false :=
  rfl

theorem runScript_sameButBlocks
    {first second : Engine}
    (same : SameButBlocks first second)
    (text : String) :
    (second.runScript text).1 = (first.runScript text).1
    ∧ SameButBlocks (first.runScript text).2 (second.runScript text).2 := by
  have sameStart : first.withBranches {} = second.withBranches {} := same
  constructor
  · unfold runScript
    rw [sameStart]
  · rw [runScript_snd, runScript_snd, sameStart]
    rfl

/-- **Scripts are isolated from the blocks of their caller.** After a script
between two calls of any session, only the root frame is left, its open blocks
are those from before, and it runs. In two sessions that came to the same state
up to these blocks, the script gives the same report, and the states after it
are again the same up to these blocks. -/
theorem scripts_isolated_from_blocks
    (config : Config)
    (env : Env)
    (view : View)
    (launcher : Launcher)
    (calls : List Call)
    (text : String) :
    let engine := afterAll { config, env, view, launcher } calls
    ((engine.runScript text).2.scope.enclosing = []
      ∧ (engine.runScript text).2.scope.branches = engine.scope.branches
      ∧ (engine.runScript text).2.scope.isFinished = false)
    ∧ ∀ (otherConfig : Config) (otherEnv : Env) (otherView : View) (otherLauncher : Launcher)
        (otherCalls : List Call),
      let other := afterAll
        { config := otherConfig, env := otherEnv, view := otherView, launcher := otherLauncher }
        otherCalls
      other = engine.withBranches other.scope.branches →
        (other.runScript text).1 = (engine.runScript text).1
        ∧ (other.runScript text).2
          = (engine.runScript text).2.withBranches (other.runScript text).2.scope.branches := by
  intro engine
  have atRest : engine.AtRest := AtRest.afterAll config env view launcher calls
  have atRestAfter : (engine.runScript text).2.AtRest := atRest.after (.script text)
  refine ⟨⟨atRestAfter.atRoot, rfl, atRestAfter.running⟩, ?_⟩
  intro otherConfig otherEnv otherView otherLauncher otherCalls other differ
  have same : SameButBlocks engine other := by
    unfold SameButBlocks
    rw [differ]
    rfl
  obtain ⟨sameReport, sameAfter⟩ := runScript_sameButBlocks same text
  exact ⟨sameReport, sameAfter.eq_withBranches⟩

/-- A session that ends within a branch that is not taken. -/
def notTaken : List Call :=
  [.execute .typed (Utf8.ofString "if 0|if 1")]

/-- A script that closes a block too many and stops within one of its own. -/
def unruly : String := "endif\nlet a = 1\nif 1\nfinish\necho a"

theorem scripts_isolated_from_blocks_not_taken :
    (afterAll {} notTaken).isActive = false
    ∧ ((afterAll {} notTaken).runScript unruly).1
      = ⟨Outcome.done, [⟨1, .control .endifWithoutIf⟩], false⟩
    ∧ ((afterAll {} notTaken).runScript unruly).2.scope.branches
      = (afterAll {} notTaken).scope.branches := by
  have kept := (scripts_isolated_from_blocks {} {} {} (Launcher.ofList []) notTaken unruly).1.2.1
  have notTakenOnlyOpens : afterAll {} notTaken
      = Engine.withBranches {} (afterAll {} notTaken).scope.branches := by
    have opened : afterAll {} notTaken = _ :=
      congrArg Prod.snd (execute_eq_runTop (runTop_opensTwo [] .typed) rfl)
    rw [opened]
    rfl
  obtain ⟨sameReport, -⟩ :=
    (scripts_isolated_from_blocks {} {} {} (Launcher.ofList []) [] unruly).2
      {} {} {} (Launcher.ofList []) notTaken notTakenOnlyOpens
  refine ⟨by decide +kernel, sameReport.trans ?_, kept⟩
  show (Engine.runScript {} unruly).1 = _
  decide +kernel

end Script

end ExLine

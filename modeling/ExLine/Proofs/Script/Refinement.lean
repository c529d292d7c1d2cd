import ExLine.Proofs.Script.Lines
import ExLine.Proofs.Script.Steps

/-!
Contract: conditionals mean what their block structure says.

Owns:
- `Engine.Ready`, the engines in which a program starts and ends;
- the run of a flattened program in a branch that is taken, and in one that is
  not;
- `Script.runScript_structured`, by which a script that is a flattened program
  does what the interpreter of blocks does.

Does not own: what the lines do one by one (`ExLine.Proofs.Script.Steps`).

The lines keep one level for each open block, so the laws are stated for any
levels further out. The innermost level is in one of three states: its branch
is running, no branch has been chosen yet, or none can be chosen any more. Code
is run in the first state and passed over in the others; the rest of a block
chooses in the second and is passed over in the others.
-/

set_option autoImplicit false

namespace ExLine

/-- No block is open and nothing is stopped, so that a line runs. -/
structure Engine.Ready (commands : Registry) (engine : Engine) : Prop where
  sound : engine.Sound
  builtins : engine.builtins = commands
  running : engine.scope.isFinished = false
  outside : engine.scope.branches = {}

namespace Engine

/-- The open blocks do not matter for the value of a condition. -/
theorem verdict_withBranches (engine : Engine) (branches : Branches) (condition : List Char) :
    (engine.withBranches branches).verdict condition = engine.verdict condition := by
  have same : (engine.withBranches branches).bindings = engine.bindings :=
    bindings_mapScope (Scope.unseen_withBranches branches) engine
  unfold verdict
  rw [same]

theorem Sound.withBranches {engine : Engine} (sound : engine.Sound) (branches : Branches) :
    (engine.withBranches branches).Sound :=
  sound.congr rfl rfl

/-! ## Lines that call a command -/

section Leaf

variable {engine : Engine} {commands : Registry} {text : List Char}

/-- In a branch that is taken the line does what it does outside of all
blocks. -/
theorem Ready.runTop_leaf
    (ready : engine.Ready commands)
    (leaf : Script.IsLeaf commands text)
    {branches : Branches}
    (active : branches.isActive) :
    (engine.withBranches branches).runTop .script (Utf8.encode text)
      = ((engine.runTop .script (Utf8.encode text)).1,
          (engine.runTop .script (Utf8.encode text)).2.withBranches branches) := by
  have isActive : engine.isActive = true := by
    unfold Engine.isActive
    rw [ready.outside]
    rfl
  exact blind_leaf (Scope.unseen_withBranches branches) ready.sound (ready.builtins ▸ leaf)
    ready.running ready.running (active.trans isActive.symm)

/-- The line leaves the engine as ready as it was. -/
theorem Ready.leaf
    (ready : engine.Ready commands)
    (leaf : Script.IsLeaf commands text) :
    (engine.runTop .script (Utf8.encode text)).2.Ready commands := by
  have kept := keeps_runLine engine.config.maxDepth engine { source := .script } (Utf8.encode text)
  -- An engine that a change leaves alone is left alone by it after the line, too.
  have sameBlocks : engine.mapScope (·.withBranches {}) = engine := by
    have same : engine.mapScope (·.withBranches engine.scope.branches) = engine := rfl
    rwa [ready.outside] at same
  have sameEnd : engine.mapScope (·.withFinished false) = engine := by
    have same : engine.mapScope (·.withFinished engine.scope.isFinished) = engine := rfl
    rwa [ready.running] at same
  refine ⟨ready.sound.runTop .script _, kept.builtins.trans ready.builtins, ?_, ?_⟩
  · have blind := blind_leaf (Scope.unseen_withFinished false) ready.sound (ready.builtins ▸ leaf)
      ready.running rfl rfl
    rw [sameEnd] at blind
    rw [congrArg Prod.snd blind]
    rfl
  · have blind := blind_leaf (Scope.unseen_withBranches {}) ready.sound (ready.builtins ▸ leaf)
      ready.running ready.running (by rw [sameBlocks])
    rw [sameBlocks] at blind
    rw [congrArg Prod.snd blind]
    rfl

end Leaf

/-! ## Keywords -/

section Keywords

variable {engine : Engine} {commands : Registry} {condition : List Char} {branches : Branches}

/-- Where nothing runs, a block is opened in which no branch can be chosen. -/
theorem Ready.runTop_if_inactive
    (ready : engine.Ready commands)
    (isCondition : Script.IsCondition condition)
    (inactive : branches.isActive = false) :
    (engine.withBranches branches).runTop .script (Utf8.encode ("if".toList ++ ' ' :: condition))
      = (.ok Outcome.done,
          engine.withBranches ⟨⟨false, false, false, false⟩ :: branches.levels⟩) := by
  have opened := runTop_if (ready.sound.withBranches branches) ready.running isCondition
  have dead : branches.openBlock false = ⟨⟨false, false, false, false⟩ :: branches.levels⟩ := by
    unfold Branches.openBlock
    rw [inactive]
    rfl
  have inactiveHere : (engine.withBranches branches).isActive = false := inactive
  rw [inactiveHere] at opened
  exact opened.trans (congrArg (fun blocks => (_, engine.withBranches blocks)) dead)

/-- Elsewhere the condition decides whether the first branch is chosen. -/
theorem Ready.runTop_if_active
    (ready : engine.Ready commands)
    (isCondition : Script.IsCondition condition)
    (active : branches.isActive) :
    (engine.withBranches branches).runTop .script (Utf8.encode ("if".toList ++ ' ' :: condition))
      = (conditionReply (engine.verdict condition),
          engine.withBranches ⟨⟨true, isTrue (engine.verdict condition),
            isTrue (engine.verdict condition), false⟩ :: branches.levels⟩) := by
  have opened := runTop_if (ready.sound.withBranches branches) ready.running isCondition
  have activeHere : (engine.withBranches branches).isActive = true := active
  have level (verdict : Bool) : branches.openBlock verdict
      = ⟨⟨true, verdict, verdict, false⟩ :: branches.levels⟩ := by
    unfold Branches.openBlock
    rw [active]
    rfl
  rw [activeHere, verdict_withBranches] at opened
  exact opened.trans (congrArg (fun blocks => (_, engine.withBranches blocks)) (level _))

end Keywords

namespace Runs

/-- A line without output and error in front of a run. -/
theorem silent
    {engine middle after : Engine}
    {text : List Char}
    {rest : List (List Char)}
    {trace : Trace}
    (first : engine.runTop .script (Utf8.encode text) = (.ok Outcome.done, middle))
    (goesOn : middle.scope.isFinished = false)
    (later : Runs middle rest trace after) :
    Runs engine (text :: rest) trace after := by
  rw [← Trace.empty_append trace]
  exact .cons first goesOn later

/-- A run without output and error in front of another. -/
theorem append_of_silent
    {engine middle after : Engine}
    {early late : List (List Char)}
    {trace : Trace}
    (before : Runs engine early Trace.empty middle)
    (behind : Runs middle late trace after) :
    Runs engine (early ++ late) trace after := by
  rw [← Trace.empty_append trace]
  exact before.append behind

end Runs

end Engine

namespace Script

open Engine

/-- The end of a block, whatever became of its branches. -/
theorem runs_endif
    {engine : Engine}
    {commands : Registry}
    (ready : engine.Ready commands)
    (level : Level)
    (outer : List Level) :
    Runs (engine.withBranches ⟨level :: outer⟩) ["endif".toList] Trace.empty
      (engine.withBranches ⟨outer⟩) :=
  .silent (runTop_endif (ready.sound.withBranches ⟨level :: outer⟩) ready.running rfl)
    ready.running (.nil _)

/-! ## Code that is passed over -/

section Skips

variable {engine : Engine} {commands : Registry} (ready : engine.Ready commands)
include ready

mutual

/-- In a branch that is not taken, code does nothing and its conditions are
not looked at. -/
theorem Code.skips
    (branches : Branches)
    (inactive : branches.isActive = false) :
    (code : Code) → code.WellFormed commands →
      Runs (engine.withBranches branches) code.lines Trace.empty (engine.withBranches branches)
  | .done, _ => .nil _
  | .line text next, wellFormed => by
    have skipped := runTop_leaf_skipped (ready.sound.withBranches branches) ready.running
      (ready.builtins ▸ wellFormed.1) inactive
    exact .silent skipped ready.running (next.skips branches inactive wellFormed.2)
  | .block condition body arms next, wellFormed => by
    obtain ⟨isCondition, bodyOk, armsOk, nextOk⟩ := wellFormed
    have opened := ready.runTop_if_inactive isCondition inactive
    have bodyRun := body.skips ⟨⟨false, false, false, false⟩ :: branches.levels⟩ rfl bodyOk
    have armsRun := arms.skips ⟨false, false, false, false⟩ branches.levels rfl rfl armsOk
    have nextRun := next.skips branches inactive nextOk
    exact ((Runs.silent opened ready.running bodyRun).append_of_silent armsRun).append_of_silent
      nextRun

/-- Where no branch can be chosen any more, the rest of a block does nothing
but close the block. -/
theorem Arms.skips
    (level : Level)
    (outer : List Level)
    (spent : (level.enclosingActive && !level.taken) = false)
    (notElse : level.seenElse = false) :
    (arms : Arms) → arms.WellFormed commands →
      Runs (engine.withBranches ⟨level :: outer⟩) arms.lines Trace.empty
        (engine.withBranches ⟨outer⟩)
  | .close, _ => runs_endif ready level outer
  | .fallback body, wellFormed => by
    have moved := runTop_else (ready.sound.withBranches ⟨level :: outer⟩) ready.running rfl notElse
    rw [spent] at moved
    have bodyRun := body.skips ⟨{ level with
      active := false, taken := true, seenElse := true } :: outer⟩ rfl wellFormed
    exact (Runs.silent moved ready.running bodyRun).append_of_silent (runs_endif ready _ outer)
  | .branch condition body arms, wellFormed => by
    obtain ⟨isCondition, bodyOk, armsOk⟩ := wellFormed
    have moved := runTop_elseif (ready.sound.withBranches ⟨level :: outer⟩) ready.running
      isCondition rfl notElse
    rw [if_neg (by simp [spent])] at moved
    have bodyRun := body.skips ⟨{ level with active := false } :: outer⟩ rfl bodyOk
    have armsRun := arms.skips { level with active := false } outer spent notElse armsOk
    exact (Runs.silent moved ready.running bodyRun).append_of_silent armsRun

end

end Skips

/-! ## Code that is run -/

/-- The lines do what the structured run does, whatever blocks are open around
the taken branch that they stand in. -/
structure Agrees (commands : Registry) (lines : List (List Char)) (start : Branches → Branches)
    (engine : Engine) (result : Trace × Engine) : Prop where
  ready : result.2.Ready commands
  runs : ∀ branches, branches.isActive →
    Runs (engine.withBranches (start branches)) lines result.1 (result.2.withBranches branches)

/-- After a condition that was looked at: the branch is run if the condition is
true, and else the rest of the block chooses. -/
theorem agrees_chosen
    {commands : Registry}
    {engine : Engine}
    {body : Code}
    {arms : Arms}
    (ready : engine.Ready commands)
    (bodyOk : body.WellFormed commands)
    (armsOk : arms.WellFormed commands)
    (bodyAgrees : Agrees commands body.lines id engine (body.run engine))
    (armsAgree : Agrees commands arms.lines
      (fun branches => ⟨⟨true, false, false, false⟩ :: branches.levels⟩) engine (arms.run engine))
    (chosen : Bool) :
    Agrees commands (body.lines ++ arms.lines)
      (fun branches => ⟨⟨true, chosen, chosen, false⟩ :: branches.levels⟩) engine
      (if chosen then body.run engine else arms.run engine) := by
  cases chosen with
  | true =>
    refine ⟨bodyAgrees.ready, fun branches _ => ?_⟩
    have bodyRun := bodyAgrees.runs ⟨⟨true, true, true, false⟩ :: branches.levels⟩ rfl
    have armsRun := arms.skips bodyAgrees.ready ⟨true, true, true, false⟩ branches.levels rfl rfl
      armsOk
    rw [if_pos rfl, ← Trace.append_empty (body.run engine).1]
    exact bodyRun.append armsRun
  | false =>
    refine ⟨armsAgree.ready, fun branches active => ?_⟩
    have bodyRun := body.skips ready ⟨⟨true, false, false, false⟩ :: branches.levels⟩ rfl bodyOk
    exact bodyRun.append_of_silent (armsAgree.runs branches active)

mutual

/-- Code in a taken branch does what its blocks say. -/
theorem Code.agrees
    {commands : Registry}
    {engine : Engine}
    (ready : engine.Ready commands) :
    (code : Code) → code.WellFormed commands →
      Agrees commands code.lines id engine (code.run engine)
  | .done, _ => ⟨ready, fun _ _ => .nil _⟩
  | .line text next, wellFormed => by
    have after := ready.leaf wellFormed.1
    have later := next.agrees after wellFormed.2
    refine ⟨later.ready, fun branches active => ?_⟩
    exact .cons (ready.runTop_leaf wellFormed.1 active) after.running (later.runs branches active)
  | .block condition body arms next, wellFormed => by
    obtain ⟨isCondition, bodyOk, armsOk, nextOk⟩ := wellFormed
    have chosen := agrees_chosen ready bodyOk armsOk (body.agrees ready bodyOk)
      (arms.agrees ready armsOk) (isTrue (engine.verdict condition))
    have later := next.agrees chosen.ready nextOk
    refine ⟨later.ready, fun branches active => ?_⟩
    have opened := ready.runTop_if_active isCondition active
    exact (Runs.cons opened ready.running (chosen.runs branches active)).append
      (later.runs branches active)

/-- The rest of a block without a chosen branch does what it says. -/
theorem Arms.agrees
    {commands : Registry}
    {engine : Engine}
    (ready : engine.Ready commands) :
    (arms : Arms) → arms.WellFormed commands →
      Agrees commands arms.lines (fun branches => ⟨⟨true, false, false, false⟩ :: branches.levels⟩)
        engine (arms.run engine)
  | .close, _ => ⟨ready, fun branches _ => runs_endif ready _ branches.levels⟩
  | .fallback body, wellFormed => by
    have inside := body.agrees ready wellFormed
    refine ⟨inside.ready, fun branches _ => ?_⟩
    have moved := runTop_else
      (ready.sound.withBranches ⟨⟨true, false, false, false⟩ :: branches.levels⟩) ready.running
      rfl rfl
    have bodyRun := inside.runs ⟨⟨true, true, true, true⟩ :: branches.levels⟩ rfl
    have closed := runs_endif inside.ready ⟨true, true, true, true⟩ branches.levels
    show Runs _ _ (body.run engine).1 _
    rw [← Trace.append_empty (body.run engine).1]
    exact (Runs.silent moved ready.running bodyRun).append closed
  | .branch condition body arms, wellFormed => by
    obtain ⟨isCondition, bodyOk, armsOk⟩ := wellFormed
    have chosen := agrees_chosen ready bodyOk armsOk (body.agrees ready bodyOk)
      (arms.agrees ready armsOk) (isTrue (engine.verdict condition))
    refine ⟨chosen.ready, fun branches active => ?_⟩
    have moved := runTop_elseif
      (ready.sound.withBranches ⟨⟨true, false, false, false⟩ :: branches.levels⟩) ready.running
      isCondition rfl rfl
    rw [verdict_withBranches] at moved
    exact Runs.cons moved ready.running (chosen.runs branches active)

end

/-! ## Scripts -/

/-- A script that closes its blocks and does not stop gives the blocks of its
caller back. -/
theorem runScript_of_balanced
    {engine after : Engine}
    {text : String}
    (ended : ((engine.withBranches {}).runLines (logicalLines text)).2 = after.withBranches {})
    (running : after.scope.isFinished = false) :
    engine.runScript text
      = (((engine.withBranches {}).runLines (logicalLines text)).1,
          after.withBranches engine.scope.branches) := by
  have sameEnd : after.withFinished false = after := by
    have same : after.withFinished after.scope.isFinished = after := rfl
    rwa [running] at same
  unfold runScript
  simp only [ended]
  refine Prod.ext ?_ ?_
  · show reportOpenBlock _ {} _ = _
    unfold reportOpenBlock
    rw [if_neg (by simp [Branches.isEmpty])]
  · show (after.withFinished false).withBranches engine.scope.branches = _
    rw [sameEnd]

/-- **Conditionals mean what their block structure says.** In every state
between calls, running the text of a program leaves the engine as the
interpreter of blocks leaves it, but for the blocks that the caller has open,
which the script neither sees nor changes. The combined outcome is the same,
and so are the errors in their order. -/
theorem runScript_structured
    {engine : Engine}
    {code : Code}
    (reachable : engine.Reachable)
    (wellFormed : code.WellFormed engine.builtins) :
    let structured := code.run (engine.withBranches {})
    let flat := engine.runScript code.text
    flat.2 = structured.2.withBranches engine.scope.branches
      ∧ flat.1.outcome = structured.1.outcome
      ∧ flat.1.failures.map (·.error) = structured.1.errors
      ∧ flat.1.completed = true := by
  intro structured flat
  obtain ⟨sound, running⟩ := reachable.sound
  have ready : (engine.withBranches {}).Ready engine.builtins :=
    ⟨sound.withBranches {}, rfl, running, rfl⟩
  have agrees := code.agrees ready wellFormed
  have texts : (logicalLines code.text).map (·.text) = code.lines := logicalLines_texts
    (fun line member => (code.standsAlone wellFormed line member).oneLine)
    (fun line member => (code.standsAlone wellFormed line member).separate)
  have runs := agrees.runs {} rfl
  rw [← texts] at runs
  obtain ⟨sameEngine, sameOutcome, sameErrors, complete⟩ := runs.runLines
  have flatIs : flat = _ := runScript_of_balanced sameEngine agrees.ready.running
  rw [flatIs]
  exact ⟨rfl, sameOutcome, sameErrors, complete⟩

/-- In a new engine: a block whose first condition cannot be evaluated, and
whose second branch holds a block of its own. The error is reported once, and
only the innermost fallback has run. -/
theorem runScript_structured_in_new_engine :
    let code : Code :=
      .block "unknown".toList (.line "let x = 1".toList .done)
        (.branch " 1 == 1 ".toList
          (.block "0".toList (.line "let x = 2".toList .done)
            (.fallback (.line "\tlet x = 3".toList .done)) .done)
          (.fallback (.line "echo 4".toList .done)))
        .done
    code.WellFormed Registry.builtins
      ∧ (runScript {} code.text).1.failures.map (·.error) = [.expression (.undefined "unknown")]
      ∧ (runScript {} code.text).2.scope.get? "x" = some (.int 3) := by
  intro code
  have assignment (blanks : List Char) (value : Char)
      (blank : blanks.all Chars.isBlank)
      (noBar : '|' ∉ blanks ++ ("let".toList ++ (" x = ".toList ++ [value])))
      (oneLine : OneLine (blanks ++ ("let".toList ++ (" x = ".toList ++ [value])))) :
      IsLeaf Registry.builtins (blanks ++ ("let".toList ++ (" x = ".toList ++ [value]))) :=
    .intro blank (by decide) rfl rfl rfl (by decide) noBar oneLine
  have printing : IsLeaf Registry.builtins ([] ++ ("echo".toList ++ " 4".toList)) :=
    .intro (by decide) (by decide) rfl rfl rfl (by decide) (by decide) (by decide)
  have wellFormed : code.WellFormed Registry.builtins := by
    refine ⟨⟨rfl, by decide, by decide⟩, ⟨?_, trivial⟩,
      ⟨⟨rfl, by decide, by decide⟩, ⟨⟨rfl, by decide, by decide⟩, ⟨?_, trivial⟩,
        ⟨?_, trivial⟩, trivial⟩, ⟨printing, trivial⟩⟩, trivial⟩
    · exact assignment [] '1' (by decide) (by decide) (by decide)
    · exact assignment [] '2' (by decide) (by decide) (by decide)
    · exact assignment ['\t'] '3' (by decide) (by decide) (by decide)
  obtain ⟨sameEngine, -, sameErrors, -⟩ :=
    runScript_structured (.start {} {} {} (Launcher.ofList [])) wellFormed
  refine ⟨wellFormed, sameErrors.trans (by decide +kernel), ?_⟩
  rw [sameEngine]
  decide +kernel

end Script

end ExLine

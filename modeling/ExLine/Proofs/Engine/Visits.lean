import ExLine.Proofs.Engine.Reachable
import ExLine.Proofs.Line.Rest
import Mathlib.Logic.Relation

/-!
Contract: the lines that a run comes by.

Owns:
- `Engine.Visit`, a line that is about to run in an engine, at a site;
- `Engine.Visit.Next`, which leads from a line to what is left of it, and from
  the call of a user command to the line of its body;
- `Visit.run_eq` and `Visit.runUser_eq`, the equations of a run, in which the
  depth of the site is the only measure of how far it may go;
- `Visit.wellFounded_next`, by which no run goes on for ever, and
  `Visit.InStep`, by which the depth counts the frames all along a run.

Does not own: what the sub-commands do (`ExLine.Proofs.Engine.Effects`).

The line of a body is text made at run time and can be longer than the line
that called it. What gets smaller then is the number of levels that are left,
so the order is lexicographic: first the levels, then the bytes of the line.
-/

set_option autoImplicit false

namespace ExLine.Engine

/-- A line that is about to run. -/
structure Visit where
  engine : Engine
  site : Site
  line : Bytes

/-- The text that the body of a user command stands for in a call. -/
def calledText (body : String) (invocation : Invocation) : String :=
  Text.skipBlanks (String.ofList (expandBody invocation.text.toList body.toList))

theorem runUser_succ (levels : Nat) (site : Site) (body : String) (invocation : Invocation)
    (engine : Engine) :
    runUser (levels + 1) site body invocation engine =
      if (calledText body invocation).toList.head? == some ':' then
        leaveFrame (runLine { engine with scope := engine.scope.push } (runUser levels)
          { site with depth := site.depth + 1 } (Utf8.ofString (calledText body invocation)))
      else engine.runShellBody (calledText body invocation) invocation :=
  rfl

namespace Visit

/-- How many user commands may still be entered. -/
def levels (visit : Visit) : Nat :=
  visit.engine.config.maxDepth - visit.site.depth

def run (visit : Visit) : Reply × Engine :=
  visit.engine.runLine (runUser visit.levels) visit.site visit.line

/-- The sub-command at the front of the line. -/
def step (visit : Visit) : Step :=
  visit.engine.readStep visit.line

/-- What the sub-command at the front of the line does. -/
def performed (visit : Visit) : StepReply × Engine :=
  visit.engine.perform (runUser visit.levels) visit.site visit.step.plan

/-- What is left of the line, after its first sub-command. -/
def continued (visit : Visit) (rest : Bytes) : Visit :=
  { visit with engine := visit.performed.2, line := rest }

/-- The line of a body, in a frame of its own and one level deeper. -/
def entered (visit : Visit) (text : String) : Visit where
  engine := { visit.engine with scope := visit.engine.scope.push }
  site := { visit.site with depth := visit.site.depth + 1 }
  line := Utf8.ofString text

/-- The sub-command at the front is a call that reaches what carries it
out. -/
structure Dispatches (visit : Visit) (command : Command) (invocation : Invocation) : Prop where
  running : visit.engine.scope.isFinished = false
  calls : ∃ head segment, visit.step.plan = .call command head segment
    ∧ Invocation.build visit.engine command head segment = .ok invocation
  valid : command.validate invocation = .ok ()

/-- The lines that run next, within a run. -/
inductive Next (visit : Visit) : Visit → Prop where
  | continues
      {rest : Bytes}
      (running : visit.engine.scope.isFinished = false)
      (left : visit.step.rest = some rest) :
      Next visit (visit.continued rest)
  | enters
      {command : Command}
      {invocation : Invocation}
      {body : String}
      (dispatched : visit.Dispatches command invocation)
      (isUser : command.handler = .user body)
      (isLine : (calledText body invocation).toList.head? = some ':')
      (allowed : visit.site.depth < visit.engine.config.maxDepth) :
      Next visit (visit.entered (calledText body invocation))

/-! ## The equations of a run -/

theorem keeps_performed (visit : Visit) : Keeps visit.engine visit.performed.2 :=
  Keeps.of_change (fun site body invocation engine =>
    (keeps_runUser visit.levels site body invocation engine).1)
    (change_perform visit.engine (runUser visit.levels) visit.site visit.step.plan)

theorem levels_continued (visit : Visit) (rest : Bytes) :
    (visit.continued rest).levels = visit.levels := by
  unfold levels continued
  rw [visit.keeps_performed.config]

/-- A line runs its first sub-command, and then what is left of it. -/
theorem run_eq (visit : Visit) :
    visit.run =
      if visit.engine.scope.isFinished then visit.engine.done
      else
        match visit.step.rest with
        | none => (andThen visit.performed.1 (.ok Outcome.done), visit.performed.2)
        | some rest =>
          let later := (visit.continued rest).run
          (andThen visit.performed.1 later.1, later.2) := by
  unfold run
  rw [runLine_eq]
  simp only [levels_continued]
  rfl

/-- A user command runs by the depth of its call: the line of its body one
level deeper if that is allowed, and nothing otherwise. -/
theorem runUser_eq (visit : Visit) (body : String) (invocation : Invocation) :
    runUser visit.levels visit.site body invocation visit.engine =
      if visit.site.depth < visit.engine.config.maxDepth then
        if (calledText body invocation).toList.head? == some ':' then
          leaveFrame (visit.entered (calledText body invocation)).run
        else visit.engine.runShellBody (calledText body invocation) invocation
      else visit.engine.refuse (.nestingLimit visit.engine.config.maxDepth) := by
  split
  · rename_i allowed
    obtain ⟨levels, isSucc⟩ : ∃ levels, visit.levels = levels + 1 :=
      Nat.exists_eq_add_one.mpr (Nat.sub_pos_of_lt allowed)
    have oneLess : visit.engine.config.maxDepth - (visit.site.depth + 1) = levels := by
      unfold Visit.levels at isSucc
      omega
    have inside (text : String) : (visit.entered text).run
        = runLine { visit.engine with scope := visit.engine.scope.push } (runUser levels)
          { visit.site with depth := visit.site.depth + 1 } (Utf8.ofString text) :=
      congrArg (fun left => runLine _ (runUser left) _ _) oneLess
    rw [isSucc, runUser_succ, inside]
  · rename_i tooDeep
    have noLevels : visit.levels = 0 := Nat.sub_eq_zero_of_le (Nat.not_lt.mp tooDeep)
    rw [noLevels]
    rfl

/-! ## Every run ends -/

/-- Within a line the rest is a shorter suffix; a body runs deeper. -/
theorem Next.shrinks
    {visit next : Visit}
    (goes : Next visit next) :
    (next.site = visit.site ∧ next.line <:+ visit.line ∧ next.line.length < visit.line.length)
      ∨ (next.site = { visit.site with depth := visit.site.depth + 1 }
        ∧ visit.site.depth < visit.engine.config.maxDepth) := by
  cases goes with
  | continues running left =>
    exact .inl ⟨rfl, Step.suffix_of_read left, Step.length_lt_of_read left⟩
  | enters dispatched isUser isLine allowed => exact .inr ⟨rfl, allowed⟩

theorem Next.keeps_config
    {visit next : Visit}
    (goes : Next visit next) :
    next.engine.config = visit.engine.config := by
  cases goes with
  | continues running left => exact visit.keeps_performed.config
  | enters dispatched isUser isLine allowed => rfl

/-- The levels that are left, and the bytes of the line. -/
def measure (visit : Visit) : Nat × Nat :=
  (visit.levels, visit.line.length)

theorem Next.measure_lt
    {visit next : Visit}
    (goes : Next visit next) :
    Prod.Lex (· < ·) (· < ·) next.measure visit.measure := by
  have sameConfig := goes.keeps_config
  rcases goes.shrinks with ⟨sameSite, -, shorter⟩ | ⟨deeper, allowed⟩
  · have sameLevels : next.levels = visit.levels := by
      unfold levels
      rw [sameConfig, sameSite]
    unfold measure
    rw [sameLevels]
    exact .right _ shorter
  · refine .left _ _ ?_
    unfold levels
    rw [sameConfig, deeper]
    simp only
    omega

/-- No run goes on for ever. -/
theorem wellFounded_next : WellFounded fun later earlier : Visit => Next earlier later :=
  Subrelation.wf Next.measure_lt (InvImage.wf measure (Prod.lex Nat.lt_wfRel Nat.lt_wfRel).wf)

/-! ## Depth and frames -/

/-- The depth counts the frames above the root, and is within the limit. -/
structure InStep (config : Config) (visit : Visit) : Prop where
  sameConfig : visit.engine.config = config
  frames : visit.site.depth = visit.engine.scope.depth
  bounded : visit.site.depth ≤ config.maxDepth

theorem InStep.next
    {config : Config}
    {visit next : Visit}
    (inStep : visit.InStep config)
    (goes : Next visit next) :
    next.InStep config := by
  have sameConfig := goes.keeps_config.trans inStep.sameConfig
  cases goes with
  | continues running left =>
    have sameFrames := visit.keeps_performed.enclosing
    exact ⟨sameConfig, inStep.frames.trans (congrArg List.length sameFrames).symm, inStep.bounded⟩
  | enters dispatched isUser isLine allowed =>
    rw [inStep.sameConfig] at allowed
    exact ⟨sameConfig, congrArg (· + 1) inStep.frames, allowed⟩

theorem InStep.of_visited
    {config : Config}
    {start visit : Visit}
    (inStep : start.InStep config)
    (visited : Relation.ReflTransGen Next start visit) :
    visit.InStep config := by
  induction visited with
  | refl => exact inStep
  | tail _ goes inductionHypothesis => exact inductionHypothesis.next goes

end Visit

/-! ## Where runs begin -/

/-- The lines that a call of the engine begins with: a line that is executed,
or a line of a script, in the engine that the lines before it leave. -/
inductive Begins (engine : Engine) : Visit → Prop where
  | line (source : Source) (line : Bytes) : Begins engine ⟨engine, { source }, line⟩
  | script
      {text : String}
      {earlier later : List Script.LogicalLine}
      {line : Script.LogicalLine}
      (lines : Script.logicalLines text = earlier ++ line :: later) :
      Begins engine ⟨((engine.withBranches {}).runLines earlier).2, { source := .script },
        Utf8.encode line.text⟩

theorem keeps_runLines (engine : Engine) (lines : List Script.LogicalLine) :
    Keeps engine (engine.runLines lines).2 := by
  induction lines generalizing engine with
  | nil => exact Keeps.refl engine
  | cons line rest inductionHypothesis =>
    have first : Keeps engine (engine.runTop .script (Utf8.encode line.text)).2 :=
      keeps_runLine _ _ _ _
    unfold runLines
    simp only
    split
    · exact first
    · exact first.trans (inductionHypothesis _)

theorem keeps_restoreAll (engine : Engine) (saved : List UserCommand) :
    Keeps engine (engine.restoreAll saved).2 := by
  refine of_restoreAll (fun kept restored => kept.trans ?_) (Keeps.refl engine) saved
  obtain ⟨-, registry, rfl, -⟩ := restore_eq restored
  exact ⟨rfl, rfl, rfl⟩

/-- Between two calls the engine has its root frame only. -/
theorem Reachable.enclosing
    {engine : Engine}
    (reachable : engine.Reachable) :
    engine.scope.enclosing = [] := by
  induction reachable with
  | start config env view launcher => rfl
  | surroundings view env before inductionHypothesis => exact inductionHypothesis
  | register command foreign registered before inductionHypothesis =>
    rw [register_eq registered]
    exact inductionHypothesis
  | restore saved before inductionHypothesis =>
    exact (keeps_restoreAll _ saved).enclosing.trans inductionHypothesis
  | execute source line before inductionHypothesis =>
    exact (keeps_runLine _ _ _ _).enclosing.trans inductionHypothesis
  | script text before inductionHypothesis =>
    exact (keeps_runLines _ _).enclosing.trans inductionHypothesis

/-- Then a name is looked up in the commands of that frame and in the built-in
ones. -/
theorem Reachable.chain
    {engine : Engine}
    (reachable : engine.Reachable) :
    engine.chain = [engine.scope.innermost.commands, engine.builtins] := by
  unfold Engine.chain Scope.chain Scope.frames
  rw [reachable.enclosing]
  rfl

theorem Begins.inStep
    {engine : Engine}
    {start : Visit}
    (reachable : engine.Reachable)
    (begins : Begins engine start) :
    start.InStep engine.config := by
  have atRoot := reachable.enclosing
  cases begins with
  | line source line =>
    exact ⟨rfl, (congrArg List.length atRoot).symm, Nat.zero_le _⟩
  | @script text earlier later line lines =>
    have kept := keeps_runLines (engine.withBranches {}) earlier
    exact ⟨kept.config, (congrArg List.length (kept.enclosing.trans atRoot)).symm, Nat.zero_le _⟩

theorem runTop_eq_run (engine : Engine) (source : Source) (line : Bytes) :
    engine.runTop source line = Visit.run ⟨engine, { source }, line⟩ :=
  rfl

end ExLine.Engine

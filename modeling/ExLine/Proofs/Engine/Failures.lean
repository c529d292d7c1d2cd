import ExLine.Proofs.Engine.Calls

/-!
Contract: what a built-in action that fails leaves behind, and what an assignment
that succeeds changes.

Owns:
- `Engine.AfterFailure`, the engines that a failed action can leave, with the law
  that it leaves no other;
- `Engine.AssignsOnly`, by which an assignment changes its target alone;
- `Engine.failing_builtins_keep_state`, both of a whole sub-command.

Does not own: what actions can do when they succeed (`ExLine.Proofs.Engine.Effects`).

Every action checks before it writes, with two exceptions on purpose: a condition that
cannot be evaluated still opens its block or moves within it. The action that removes
variables writes before it checks, and is left out.
-/

set_option autoImplicit false

namespace ExLine.Engine

/-- What a built-in action that fails can make of an engine. -/
inductive AfterFailure (engine : Engine) : Builtin → Engine → Prop where
  | unchanged (action : Builtin) : AfterFailure engine action engine
  | opened :
      AfterFailure engine .ifBlock (engine.withBranches (engine.scope.branches.openBlock false))
  | moved {level : Level} {outer : List Level}
      (inside : engine.scope.branches.levels = level :: outer) :
      AfterFailure engine .elseIfBranch
        (engine.withBranches ⟨{ level with active := false } :: outer⟩)
  | launched (request : Launch) :
      AfterFailure engine .shell { engine with launches := engine.launches ++ [request] }

/-! ## The built-in actions, one by one -/

section Actions

variable {engine : Engine} {invocation : Invocation} {error : CommandError}

theorem afterFailure_echo : AfterFailure engine .echo (engine.echo invocation).2 := by
  unfold echo
  split <;> exact .unchanged _

theorem afterFailure_assign
    (failed : (engine.assign invocation).1 = .error error) :
    AfterFailure engine .assign (engine.assign invocation).2 := by
  unfold assign at failed ⊢
  split
  · rename_i assigned
    rw [assigned] at failed
    cases failed
  · exact .unchanged _

/-- A condition that fails is not true. -/
theorem isTrue_of_conditionReply
    {verdict : Except ExprError Bool}
    (failed : conditionReply verdict = .error error) :
    isTrue verdict = false := by
  cases verdict with
  | ok flag => cases failed
  | error cause => rfl

theorem afterFailure_ifBlock
    (failed : (engine.ifBlock invocation).1 = .error error) :
    AfterFailure engine .ifBlock (engine.ifBlock invocation).2 := by
  unfold ifBlock at failed ⊢
  simp only at failed ⊢
  split
  · rename_i active
    rw [if_pos active] at failed
    rw [isTrue_of_conditionReply failed]
    exact .opened
  · rename_i inactive
    rw [if_neg inactive] at failed
    cases failed

theorem afterFailure_moved
    {result : Except ControlError Branches}
    (action : Builtin)
    (failed : (engine.moved result).1 = .error error) :
    AfterFailure engine action (engine.moved result).2 := by
  cases result with
  | ok branches => cases failed
  | error cause => exact .unchanged action

theorem levels_of_nextBranch_false
    {branches next : Branches}
    (moved : branches.nextBranch false = .ok next) :
    ∃ level outer, branches.levels = level :: outer
      ∧ next = ⟨{ level with active := false } :: outer⟩ := by
  unfold Branches.nextBranch at moved
  split at moved
  · cases moved
  · rename_i level outer inside
    split at moved
    · cases moved
    · simp only [Bool.and_false, Bool.or_false] at moved
      cases moved
      exact ⟨level, outer, inside, rfl⟩

theorem afterFailure_elseIfBranch
    (failed : (engine.elseIfBranch invocation).1 = .error error) :
    AfterFailure engine .elseIfBranch (engine.elseIfBranch invocation).2 := by
  unfold elseIfBranch at failed ⊢
  simp only at failed ⊢
  split
  · rename_i needed
    rw [if_pos needed] at failed
    cases next : engine.scope.branches.nextBranch (isTrue (engine.condition invocation)) with
    | error cause => exact .unchanged _
    | ok branches =>
      rw [next] at failed
      rw [isTrue_of_conditionReply failed] at next
      obtain ⟨level, outer, inside, rfl⟩ := levels_of_nextBranch_false next
      exact .moved inside
  · rename_i notNeeded
    rw [if_neg notNeeded] at failed
    exact afterFailure_moved _ failed

theorem afterFailure_finish
    {site : Site}
    (failed : (engine.finish site).1 = .error error) :
    AfterFailure engine .finish (engine.finish site).2 := by
  unfold finish at failed ⊢
  split
  · exact .unchanged _
  · rename_i allowed
    rw [if_neg allowed] at failed
    cases failed

theorem afterFailure_define
    (failed : (engine.define invocation).1 = .error error) :
    AfterFailure engine .define (engine.define invocation).2 := by
  unfold define at failed ⊢
  simp only at failed ⊢
  split
  · exact .unchanged _
  split
  · split <;> exact .unchanged _
  split
  · exact .unchanged _
  split
  · exact .unchanged _
  rename_i given hasBody valid free
  split
  · rename_i defined
    rw [if_neg given, if_neg hasBody, if_neg valid, if_neg free, defined] at failed
    cases failed
  · exact .unchanged _

theorem afterFailure_delete
    (failed : (engine.delete invocation).1 = .error error) :
    AfterFailure engine .delete (engine.delete invocation).2 := by
  unfold delete at failed ⊢
  split at failed
  · cases failed
  split at failed
  · simp only at failed
    split at failed <;> cases failed
  · cases failed
  · exact .unchanged _

theorem afterFailure_shell : AfterFailure engine .shell (engine.shell invocation).2 := by
  obtain ⟨request, launched⟩ :=
    runShell_eq_launch engine (Text.trim invocation.text) invocation.background
  unfold shell
  rw [launched]
  exact .launched request

variable (engine invocation) in
/-- The actions on directories, key mappings and the whole of the user commands
report by their exit code, if at all. -/
theorem exists_outcome
    {action : Builtin}
    (obliging : action = .clear ∨ action = .changeDirectory ∨ action.isMapping)
    (site : Site) :
    ∃ outcome, (engine.runBuiltin action site invocation).1 = .ok outcome := by
  cases action with
  | clear => exact ⟨_, rfl⟩
  | changeDirectory =>
    unfold runBuiltin changeDirectory
    simp only
    split
    · exact ⟨_, rfl⟩
    · split
      · split <;> exact ⟨_, rfl⟩
      · exact ⟨_, rfl⟩
  | map modes noremap =>
    unfold runBuiltin map
    simp only
    split <;> exact ⟨_, rfl⟩
  | unmap modes =>
    unfold runBuiltin unmap
    simp only
    split
    · exact ⟨_, rfl⟩
    · split <;> exact ⟨_, rfl⟩
  | abbreviate noremap =>
    unfold runBuiltin abbreviate
    simp only
    split
    · split <;> exact ⟨_, rfl⟩
    · split <;> exact ⟨_, rfl⟩
    · exact ⟨_, rfl⟩
  | unabbreviate =>
    unfold runBuiltin unabbreviate
    simp only
    split <;> exact ⟨_, rfl⟩
  | _ => simp [Builtin.isMapping] at obliging

/-- Every built-in action but the removal of variables leaves one of the listed
engines when it fails. -/
theorem afterFailure_runBuiltin
    {action : Builtin}
    {site : Site}
    (notRemoval : action ≠ .unassign)
    (failed : (engine.runBuiltin action site invocation).1 = .error error) :
    AfterFailure engine action (engine.runBuiltin action site invocation).2 := by
  have obliging {action : Builtin}
      (isSo : action = .clear ∨ action = .changeDirectory ∨ action.isMapping)
      (failed : (engine.runBuiltin action site invocation).1 = .error error) :
      AfterFailure engine action (engine.runBuiltin action site invocation).2 := by
    obtain ⟨outcome, replied⟩ := exists_outcome engine invocation isSo site
    rw [replied] at failed
    cases failed
  cases action with
  | echo => exact afterFailure_echo
  | assign => exact afterFailure_assign failed
  | unassign => exact absurd rfl notRemoval
  | ifBlock => exact afterFailure_ifBlock failed
  | elseIfBranch => exact afterFailure_elseIfBranch failed
  | elseBranch => exact afterFailure_moved _ failed
  | endIf => exact afterFailure_moved _ failed
  | finish => exact afterFailure_finish failed
  | define => exact afterFailure_define failed
  | delete => exact afterFailure_delete failed
  | shell => exact afterFailure_shell
  | clear => exact obliging (.inl rfl) failed
  | changeDirectory => exact obliging (.inr (.inl rfl)) failed
  | map modes noremap => exact obliging (.inr (.inr rfl)) failed
  | unmap modes => exact obliging (.inr (.inr rfl)) failed
  | abbreviate noremap => exact obliging (.inr (.inr rfl)) failed
  | unabbreviate => exact obliging (.inr (.inr rfl)) failed

end Actions

/-! ## Sub-commands -/

section Step

variable {engine : Engine} {call : UserCall} {site : Site} {line : Bytes} {head : CommandHead}
  {command : Command} {action : Builtin}

/-- A sub-command whose word means a built-in command runs its action on the call that
it makes, or else ends without an outcome, and if by an error then with nothing
changed. -/
theorem perform_builtin_cases
    (readHead : Head.read line = .ok (.command head))
    (resolved : Registry.resolve engine.chain head.name = .ok command)
    (handled : command.handler = .builtin action) :
    (∃ segment invocation,
      Segment.split command.flags.tailMode head.tail = .ok segment
      ∧ Invocation.build engine command head segment = .ok invocation
      ∧ engine.perform call site (engine.readStep line).plan
        = asStep (engine.runBuiltin action site invocation))
    ∨ ((∀ outcome, (engine.perform call site (engine.readStep line).plan).1 ≠ .ok (some outcome))
      ∧ ∀ error, (engine.perform call site (engine.readStep line).plan).1 = .error error →
        (engine.perform call site (engine.readStep line).plan).2 = engine) := by
  cases plan : (engine.readStep line).plan with
  | skip => exact .inr ⟨fun outcome => by simp [perform], fun error _ => rfl⟩
  | fail cause => exact .inr ⟨fun outcome => by simp [perform], fun error _ => rfl⟩
  | move range =>
    right
    unfold perform
    simp only
    split
    · exact ⟨fun outcome => by simp, fun error failed => by simp at failed⟩
    · exact ⟨fun outcome => by simp, fun error _ => rfl⟩
  | call meant found segment =>
    obtain ⟨start, -, means, cut, -⟩ := Step.read_eq_call_iff.mp plan
    cases readHead.symm.trans start
    cases resolved.symm.trans means
    unfold perform
    simp only
    split
    · exact .inr ⟨fun outcome => by simp, fun error _ => rfl⟩
    · rename_i invocation built
      unfold dispatch
      split
      · exact .inr ⟨fun outcome => by simp [asStep, refuse, Except.map], fun error _ => rfl⟩
      · rw [handled]
        exact .inl ⟨segment, invocation, cut, built, rfl⟩

theorem asStep_eq_error_iff
    {result : Reply × Engine}
    {error : CommandError} :
    (asStep result).1 = .error error ↔ result.1 = .error error := by
  unfold asStep
  cases result.1 <;> simp [Except.map]

theorem afterFailure_perform
    (readHead : Head.read line = .ok (.command head))
    (resolved : Registry.resolve engine.chain head.name = .ok command)
    (handled : command.handler = .builtin action)
    (notRemoval : action ≠ .unassign)
    {error : CommandError}
    (failed : (engine.perform call site (engine.readStep line).plan).1 = .error error) :
    AfterFailure engine action (engine.perform call site (engine.readStep line).plan).2 := by
  rcases perform_builtin_cases readHead resolved handled
    with ⟨segment, invocation, -, -, performed⟩ | ⟨-, unchanged⟩
  · rw [performed] at failed ⊢
    exact afterFailure_runBuiltin notRemoval (asStep_eq_error_iff.mp failed)
  · rw [unchanged error failed]
    exact .unchanged action

end Step

/-! ## Assignments -/

/-- The target of an assignment holds a value, in the environment as text, and nothing
else differs. -/
def AssignsOnly (engine : Engine) (target : Target) (value : Value) (after : Engine) : Prop :=
  match target with
  | .env name =>
    after = { engine with env := after.env }
    ∧ after.env.get? name = some value.text
    ∧ ∀ other, other ≠ name → after.env.get? other = engine.env.get? other
  | .var name =>
    after = engine.withVars after.scope.innermost.vars
    ∧ after.scope.innermost.vars.get? name = some value
    ∧ ∀ other, other ≠ name →
      after.scope.innermost.vars.get? other = engine.scope.innermost.vars.get? other

theorem assignsOnly_store (engine : Engine) (target : Target) (value : Value) :
    engine.AssignsOnly target value (engine.store target value) := by
  cases target with
  | env name =>
    exact ⟨rfl, Table.get?_insert_same _ _ _, fun other differs =>
      Table.get?_insert_other _ differs _⟩
  | var name =>
    exact ⟨rfl, Table.get?_insert_same _ _ _, fun other differs =>
      Table.get?_insert_other _ differs _⟩

/-- An assignment is read, evaluated and combined with what its target holds. -/
theorem assigned_eq_ok_iff
    {engine : Engine}
    {text : String}
    {target : Target}
    {value : Value} :
    engine.assigned text = .ok (target, value) ↔ ∃ assignment given,
      Assignment.parse text = .ok assignment
      ∧ assignment.target = target
      ∧ assignment.value.eval engine.bindings = .ok given
      ∧ assignment.op.combine (nameOf target) (engine.held target) given = .ok value := by
  simp only [assigned, bind_eq_ok_iff, pure_eq_ok_iff, Prod.mk.injEq]
  grind

theorem asStep_eq_ok_iff
    {result : Reply × Engine}
    {outcome : Outcome} :
    (asStep result).1 = .ok (some outcome) ↔ result.1 = .ok outcome := by
  unfold asStep
  cases result.1 <;> simp [Except.map]

theorem assign_cases
    {engine : Engine}
    {invocation : Invocation}
    {outcome : Outcome}
    (succeeded : (engine.assign invocation).1 = .ok outcome) :
    ∃ target value, engine.assigned invocation.text = .ok (target, value)
      ∧ (engine.assign invocation).2 = engine.store target value := by
  unfold assign at succeeded ⊢
  split
  · rename_i target value assigned
    exact ⟨target, value, assigned, rfl⟩
  · rename_i cause failed
    rw [failed] at succeeded
    cases succeeded

/-- **Built-in commands that fail leave the engine alone.** Take any engine and any
sub-command whose word means a built-in command, and let it end in an error. Unless it
removes variables, nothing differs afterwards but the blocks open in the innermost
frame and, after a shell command, the record of programs that were asked for. The
blocks are those from before, with one more that is not active after an `if`, and with
the innermost one not active after an `elseif`. An assignment that succeeds leaves its
target with the value of its text, combined with what the target held, and everything
else as it was. -/
theorem failing_builtins_keep_state
    {engine : Engine}
    {call : UserCall}
    {site : Site}
    {line : Bytes}
    {head : CommandHead}
    {command : Command}
    {action : Builtin}
    (readHead : Head.read line = .ok (.command head))
    (resolved : Registry.resolve engine.chain head.name = .ok command)
    (handled : command.handler = .builtin action) :
    let result := engine.perform call site (engine.readStep line).plan
    (∀ error, action ≠ .unassign → result.1 = .error error →
      result.2 = { engine with launches := result.2.launches }.withBranches result.2.scope.branches
      ∧ (action ≠ .shell → result.2.launches = engine.launches)
      ∧ (result.2.scope.branches = engine.scope.branches
        ∨ (action = .ifBlock ∧ ∃ level, level.active = false
          ∧ result.2.scope.branches.levels = level :: engine.scope.branches.levels)
        ∨ (action = .elseIfBranch ∧ ∃ level outer,
          engine.scope.branches.levels = level :: outer
          ∧ result.2.scope.branches.levels = { level with active := false } :: outer)))
    ∧ (∀ outcome, action = .assign → result.1 = .ok (some outcome) →
      ∃ segment text assignment given value,
        Segment.split command.flags.tailMode head.tail = .ok segment
        ∧ Arguments.decode (Arguments.trim segment.body) = .ok text
        ∧ Assignment.parse text = .ok assignment
        ∧ assignment.value.eval engine.bindings = .ok given
        ∧ assignment.op.combine (nameOf assignment.target) (engine.held assignment.target) given
          = .ok value
        ∧ engine.AssignsOnly assignment.target value result.2) := by
  intro result
  constructor
  · intro error notRemoval failed
    have left : AfterFailure engine action result.2 :=
      afterFailure_perform readHead resolved handled notRemoval failed
    generalize result.2 = after at left ⊢
    cases left with
    | unchanged => exact ⟨rfl, fun _ => rfl, .inl rfl⟩
    | opened =>
      exact ⟨rfl, fun _ => rfl, .inr (.inl ⟨rfl, _, Bool.and_false _, rfl⟩)⟩
    | moved inside => exact ⟨rfl, fun _ => rfl, .inr (.inr ⟨rfl, _, _, inside, rfl⟩)⟩
    | launched request => exact ⟨rfl, fun notShell => absurd rfl notShell, .inl rfl⟩
  · rintro outcome rfl succeeded
    rcases perform_builtin_cases readHead resolved handled
      with ⟨segment, invocation, cut, built, performed⟩ | ⟨noOutcome, -⟩
    · have resultIs : result = asStep (engine.assign invocation) := performed
      rw [resultIs] at succeeded ⊢
      obtain ⟨target, value, assigned, stored⟩ := assign_cases (asStep_eq_ok_iff.mp succeeded)
      obtain ⟨assignment, given, parsed, rfl, evaluated, combined⟩ := assigned_eq_ok_iff.mp assigned
      obtain ⟨text, decoded, args, -, range, -, rfl⟩ := Invocation.build_eq_ok_iff.mp built
      refine ⟨segment, text, assignment, given, value, cut, decoded, parsed, evaluated, combined,
        ?_⟩
      show engine.AssignsOnly assignment.target value (engine.assign _).2
      rw [stored]
      exact assignsOnly_store engine assignment.target value
    · exact absurd succeeded (noOutcome outcome)

/-- In a new engine, an `if` with an undefined condition leaves everything but the open
blocks, and an assignment leaves everything but its variable. -/
theorem failing_builtins_keep_state_in_new_engine :
    (perform {} (runUser 0) ⟨.typed, 0⟩ (readStep {} (Utf8.ofString "if y")).plan).2
      = withBranches {} (perform {} (runUser 0) ⟨.typed, 0⟩
          (readStep {} (Utf8.ofString "if y")).plan).2.scope.branches
    ∧ AssignsOnly {} (.var "x") (.int 1)
        (perform {} (runUser 0) ⟨.typed, 0⟩ (readStep {} (Utf8.ofString "let x=1")).plan).2 := by
  constructor
  · have readHead : Head.read (Utf8.ofString "if y")
        = .ok (.command ⟨none, "if", false, [121]⟩) := by decide +kernel
    have resolved : Registry.resolve (chain {}) "if" = .ok Command.builtins[3] := rfl
    have failed : (perform {} (runUser 0) ⟨.typed, 0⟩
        (readStep {} (Utf8.ofString "if y")).plan).1 = .error (.expression (.undefined "y")) := by
      decide +kernel
    obtain ⟨same, noLaunch, -⟩ :=
      (failing_builtins_keep_state readHead resolved rfl).1 _ (by decide) failed
    rwa [noLaunch (by decide)] at same
  · have succeeded : (perform {} (runUser 0) ⟨.typed, 0⟩
        (readStep {} (Utf8.ofString "let x=1")).plan).1 = .ok (some Outcome.done) := by decide +kernel
    have readHead : Head.read (Utf8.ofString "let x=1")
        = .ok (.command ⟨none, "let", false, [120, 61, 49]⟩) := by decide +kernel
    have cutHere : Segment.split .expression [120, 61, 49]
        = .ok ⟨[120, 61, 49], false, none⟩ := rfl
    have decodedHere : Arguments.decode (Arguments.trim [120, 61, 49]) = .ok "x=1" := rfl
    have parsedHere : Assignment.parse "x=1" = .ok ⟨.var "x", .set, .int 1⟩ := by decide +kernel
    have resolved : Registry.resolve (chain {}) "let" = .ok Command.builtins[1] := rfl
    obtain ⟨segment, text, assignment, given, value, cut, decoded, parsed, evaluated, combined,
        only⟩ :=
      (failing_builtins_keep_state readHead resolved rfl).2 _ rfl succeeded
    cases cutHere.symm.trans cut
    cases decodedHere.symm.trans decoded
    cases parsedHere.symm.trans parsed
    cases evaluated
    cases combined
    exact only

end ExLine.Engine

import ExLine.Proofs.Engine.Calls

/-!
Contract: what becomes of the view while commands run.

Owns:
- `View.Update`, the two ways in which a sub-command can change the view, and
  `View.Updates`, any number of such changes;
- the laws that runs, scripts and sessions change the view by updates only;
- `Visit.performed_loneRange`, what a lone range does;
- `Engine.cursor_stays_in_view`.

Does not own: which ranges are in view (`ExLine.Proofs.Range.InView`).

An update of the cursor carries the range that it comes from, resolved against the
view as it is at that moment. The cursor may have been moved before by the body of
a user command, so the law of a run is about updates in a row, and what holds of
the cursor is then a matter of one update.
-/

set_option autoImplicit false

namespace ExLine

namespace View

/-- What a sub-command can make of the view. -/
inductive Update (view : View) : View → Prop where
  | directory (cwd : String) (previous : Option String) : Update view { view with cwd, previous }
  | cursor
      {spec : RangeSpec}
      {range : LineRange}
      {line : Nat}
      (resolved : spec.resolve view.cursor view.length = .ok range)
      (last : range.lastLine view.length = some line) :
      Update view { view with cursor := line }

abbrev Updates : View → View → Prop :=
  Relation.ReflTransGen Update

/-- The view has so many lines, and the cursor is on one of them. -/
structure Holds (length : Nat) (view : View) : Prop where
  length_eq : view.length = length
  cursor_lt : view.cursor < length

theorem Holds.update
    {length : Nat}
    {before after : View}
    (bounded : length < 2 ^ 63)
    (holds : before.Holds length)
    (update : Update before after) :
    after.Holds length := by
  cases update with
  | directory cwd previous => exact ⟨holds.length_eq, holds.cursor_lt⟩
  | @cursor spec range line resolved last =>
    refine ⟨holds.length_eq, ?_⟩
    rw [holds.length_eq] at resolved last
    have inView := (RangeSpec.inView_of_resolve bounded resolved).2
    cases range with
    | whole =>
      have notEmpty : length ≠ 0 := Nat.ne_zero_of_lt holds.cursor_lt
      unfold LineRange.lastLine at last
      rw [if_neg notEmpty] at last
      cases last
      exact Nat.sub_one_lt notEmpty
    | lines first final =>
      cases last
      exact inView.2

theorem Holds.updates
    {length : Nat}
    {before after : View}
    (bounded : length < 2 ^ 63)
    (holds : before.Holds length)
    (updates : Updates before after) :
    after.Holds length := by
  induction updates with
  | refl => exact holds
  | tail _ update inductionHypothesis => exact inductionHypothesis.update bounded update

end View

open View

namespace Engine

/-! ## Sub-commands -/

theorem updates_of_effect
    {engine after : Engine}
    {action : Builtin}
    (effect : Effect engine action after) :
    Updates engine.view after.view := by
  cases effect with
  | directory path => exact .single (.directory _ _)
  | none | vars | branches | finished | commands | launch | mappings => exact .refl

/-- The cursor goes to the last line of a range that has been resolved. -/
theorem updates_moveTo
    {engine : Engine}
    {spec : RangeSpec}
    {range : LineRange}
    (resolved : spec.resolve engine.view.cursor engine.view.length = .ok range) :
    Updates engine.view (engine.moveTo range).view := by
  unfold moveTo
  split
  · rename_i line last
    exact .single (.cursor resolved last)
  · exact .refl

theorem view_runShellBody (engine : Engine) (text : String) (invocation : Invocation) :
    (engine.runShellBody text invocation).2.view = engine.view := by
  unfold runShellBody
  split
  · rfl
  · simp only
    obtain ⟨request, launched⟩ := runShell_eq_launch engine _ _
    rw [launched]

theorem view_leaveFrame (result : Reply × Engine) :
    (leaveFrame result).2.view = result.2.view := by
  unfold leaveFrame
  split
  · rfl
  · simp only
    split
    · rfl
    · split <;> rfl

namespace Visit

/-- A sub-command leaves the engine alone, moves the cursor, or makes a call that
reaches what carries it out. -/
theorem performed_cases
    {visit : Visit}
    (running : visit.engine.scope.isFinished = false) :
    visit.performed.2 = visit.engine
      ∨ (∃ (spec : RangeSpec) (range : LineRange),
        spec.resolve visit.engine.view.cursor visit.engine.view.length = .ok range
          ∧ visit.performed.2 = visit.engine.moveTo range)
      ∨ ∃ command invocation, visit.Dispatches command invocation := by
  unfold performed perform
  cases plan : visit.step.plan with
  | skip => exact .inl rfl
  | fail error => exact .inl rfl
  | move spec =>
    simp only
    cases resolved : spec.resolve visit.engine.view.cursor visit.engine.view.length with
    | error error => exact .inl rfl
    | ok range => exact .inr (.inl ⟨spec, range, resolved, rfl⟩)
  | call command head segment =>
    simp only
    cases built : Invocation.build visit.engine command head segment with
    | error error => exact .inl rfl
    | ok invocation =>
      cases valid : command.validate invocation with
      | error error =>
        unfold dispatch
        simp only [valid]
        exact .inl rfl
      | ok _ =>
        exact .inr (.inr ⟨command, invocation, running, ⟨head, segment, plan, built⟩, valid⟩)

/-- A sub-command updates the view as its range, its action or the line of its body
does. -/
theorem updates_performed
    {visit : Visit}
    (running : visit.engine.scope.isFinished = false)
    (entered : ∀ next, visit.Next next → Updates next.engine.view next.run.2.view) :
    Updates visit.engine.view visit.performed.2.view := by
  rcases performed_cases running
    with same | ⟨spec, range, resolved, moved⟩ | ⟨command, invocation, dispatched⟩
  · rw [same]
  · rw [moved]
    exact updates_moveTo resolved
  · rw [performed_eq_dispatch dispatched]
    unfold dispatch asStep
    simp only [dispatched.valid]
    cases handler : command.handler with
    | builtin action => exact updates_of_effect (effect_runBuiltin visit.engine invocation action _)
    | host answer => exact .refl
    | user body =>
      simp only
      rw [runUser_eq]
      split
      · rename_i allowed
        split
        · rename_i isLine
          rw [view_leaveFrame]
          exact entered _ (.enters dispatched handler (by simpa using isLine) allowed)
        · rw [view_runShellBody]
      · exact .refl

/-! ## Runs -/

/-- By the order in which the lines of bodies come after the lines that call
them. -/
theorem updates_run (visit : Visit) : Updates visit.engine.view visit.run.2.view := by
  induction visit using wellFounded_next.induction with
  | _ visit inductionHypothesis =>
    rw [run_eq]
    split
    · exact .refl
    · rename_i notStopped
      have running := Bool.eq_false_iff.mpr notStopped
      have first := updates_performed running inductionHypothesis
      split
      · exact first
      · rename_i rest left
        exact first.trans (inductionHypothesis _ (.continues running left))

theorem updates_of_next
    {visit next : Visit}
    (goes : visit.Next next) :
    Updates visit.engine.view next.engine.view := by
  cases goes with
  | continues running left => exact updates_performed running fun next _ => updates_run next
  | enters dispatched isUser isLine allowed => exact .refl

theorem updates_of_visited
    {start visit : Visit}
    (visited : Relation.ReflTransGen Next start visit) :
    Updates start.engine.view visit.engine.view := by
  induction visited with
  | refl => exact .refl
  | tail _ goes inductionHypothesis => exact inductionHypothesis.trans (updates_of_next goes)

end Visit

theorem updates_runLines (engine : Engine) (lines : List Script.LogicalLine) :
    Updates engine.view (engine.runLines lines).2.view := by
  induction lines generalizing engine with
  | nil => exact .refl
  | cons line rest inductionHypothesis =>
    have first : Updates engine.view (engine.runTop .script (Utf8.encode line.text)).2.view :=
      Visit.updates_run ⟨engine, { source := .script }, _⟩
    unfold runLines
    simp only
    split
    · exact first
    · exact first.trans (inductionHypothesis _)

theorem updates_of_begins
    {engine : Engine}
    {start : Visit}
    (begins : Begins engine start) :
    Updates engine.view start.engine.view := by
  cases begins with
  | line source line => exact .refl
  | @script text earlier later line lines => exact updates_runLines (engine.withBranches {}) earlier

/-! ## Sessions -/

/-- Whether the call is one of the session itself, and not the surrounding program
showing another view. -/
def Call.isOwn : Call → Bool
  | .surroundings _ _ => false
  | _ => true

theorem updates_after (engine : Engine) {call : Call} (own : call.isOwn) :
    Updates engine.view (engine.after call).view := by
  cases call with
  | register command =>
    apply @of_after_register (fun after => Updates engine.view after.view) engine command .refl
    intro registered done
    rw [register_eq done]
  | restore saved =>
    refine @of_restoreAll (fun after => Updates engine.view after.view)
      (fun updates restored => ?_) engine .refl saved
    obtain ⟨-, registry, rfl, -⟩ := restore_eq restored
    exact updates
  | execute source line => exact Visit.updates_run ⟨engine, { source }, line⟩
  | script text => exact updates_runLines (engine.withBranches {}) _
  | surroundings view env => cases own

theorem updates_afterAll
    (engine : Engine)
    {calls : List Call}
    (own : ∀ call ∈ calls, call.isOwn) :
    Updates engine.view (engine.afterAll calls).view := by
  induction calls generalizing engine with
  | nil => exact .refl
  | cons call rest inductionHypothesis =>
    have first := updates_after engine (own call List.mem_cons_self)
    exact first.trans (inductionHypothesis _ fun other member =>
      own other (List.mem_cons_of_mem _ member))

/-! ## Lone ranges -/

/-- The sub-command at the front of the line is nothing but a range. -/
structure Visit.LoneRange (visit : Visit) (head : CommandHead) (spec : RangeSpec) : Prop where
  read : Head.read visit.line = .ok (.command head)
  noName : head.name.isEmpty = true
  range : head.range = some spec
  blank : (plainBody head.tail).all Byte.isBlank = true

/-- A lone range moves the cursor where commands run and it can be resolved, and
otherwise does nothing. -/
theorem Visit.performed_loneRange
    {visit : Visit}
    {head : CommandHead}
    {spec : RangeSpec}
    (lone : visit.LoneRange head spec) :
    visit.performed =
      if visit.engine.isActive then
        match spec.resolve visit.engine.view.cursor visit.engine.view.length with
        | .ok range => (.ok none, visit.engine.moveTo range)
        | .error error => (.error (.invalidRange error), visit.engine)
      else (.ok none, visit.engine) := by
  have named : visit.step = Step.nameless visit.engine.isActive head := by
    unfold step readStep Step.read
    simp only [lone.read, lone.noName, if_true]
  have plan : visit.step.plan = if visit.engine.isActive then .move spec else .skip := by
    rw [named]
    unfold Step.nameless
    cases visit.engine.isActive with
    | false => rfl
    | true => simp only [lone.range, lone.blank, Bool.not_true, Bool.false_eq_true, if_false, if_true]
  unfold performed
  rw [plan]
  cases visit.engine.isActive with
  | false => rfl
  | true =>
    cases resolved : spec.resolve visit.engine.view.cursor visit.engine.view.length with
    | ok range => simp only [if_true, perform, resolved]
    | error error => simp only [if_true, perform, resolved]

/-- A range that cannot be read does nothing, and is an error. -/
theorem Visit.performed_of_unread
    {visit : Visit}
    {error : RangeError}
    (unread : Head.read visit.line = .error error) :
    visit.performed = (.error (.invalidRange error), visit.engine) := by
  unfold performed step readStep Step.read
  rw [unread]
  rfl

/-- **The cursor stays in view.** If the cursor is on a line of the view, then it
still is after any session of lines, scripts, definitions and host commands, and
within the next call of that session before and after every sub-command, at any
depth; and the number of lines is the same all along. A range that cannot be read
leaves the engine as it is. So does a lone range that cannot be resolved or that
stands in a branch that is not taken; any other one moves the cursor to its last
line. -/
theorem cursor_stays_in_view
    {engine : Engine}
    (inView : engine.view.cursor < engine.view.length)
    (bounded : engine.view.length < 2 ^ 63)
    (calls : List Call)
    (own : ∀ call ∈ calls, call.isOwn) :
    (engine.afterAll calls).view.Holds engine.view.length
    ∧ (∀ start visit, Begins (engine.afterAll calls) start →
        Relation.ReflTransGen Visit.Next start visit →
        visit.engine.view.Holds engine.view.length
          ∧ (visit.engine.scope.isFinished = false →
            visit.performed.2.view.Holds engine.view.length))
    ∧ ∀ visit : Visit,
        (∀ error, Head.read visit.line = .error error →
          visit.performed = (.error (.invalidRange error), visit.engine))
        ∧ ∀ head spec, visit.LoneRange head spec →
          visit.performed =
            if visit.engine.isActive then
              match spec.resolve visit.engine.view.cursor visit.engine.view.length with
              | .ok range => (.ok none, visit.engine.moveTo range)
              | .error error => (.error (.invalidRange error), visit.engine)
            else (.ok none, visit.engine) := by
  have atStart : engine.view.Holds engine.view.length := ⟨rfl, inView⟩
  have between := atStart.updates bounded (updates_afterAll engine own)
  refine ⟨between, fun start visit begins visited => ?_, fun visit => ⟨?_, ?_⟩⟩
  · have begun := between.updates bounded (updates_of_begins begins)
    have onTheWay := begun.updates bounded (Visit.updates_of_visited visited)
    refine ⟨onTheWay, fun running => onTheWay.updates bounded ?_⟩
    exact Visit.updates_performed running fun next _ => Visit.updates_run next
  · exact fun error unread => Visit.performed_of_unread unread
  · exact fun head spec lone => Visit.performed_loneRange lone

/-- A view of three lines. -/
def threeLineView : Engine := { view := { length := 3 } }

/-- A session that moves the cursor to the last line by a user command. -/
def movedInBody : List Call :=
  [.restore [⟨"u", ":3,1"⟩], .execute .typed (Utf8.ofString "u")]

/-- The cursor moved there, and a range beyond the view leaves it there. -/
theorem cursor_stays_in_view_moved_in_body :
    (threeLineView.afterAll movedInBody).view.cursor = 2
    ∧ (threeLineView.afterAll movedInBody).view.Holds 3
    ∧ Visit.performed ⟨threeLineView.afterAll movedInBody, ⟨.typed, 0⟩, Utf8.ofString ".+1"⟩
      = (.error (.invalidRange (.outsideView 4 3)), threeLineView.afterAll movedInBody) := by
  obtain ⟨between, -, ranges⟩ := @cursor_stays_in_view threeLineView (by decide) (by decide)
    movedInBody (by decide)
  have atLast : (threeLineView.afterAll movedInBody).view.cursor = 2 := by decide +kernel
  refine ⟨atLast, between, ?_⟩
  have oneFurther : Head.read (Utf8.ofString ".+1")
      = .ok (.command ⟨some (.single ⟨.current, 1⟩), "", false, []⟩) := by decide +kernel
  refine ((ranges _).2 _ _ ⟨oneFurther, rfl, rfl, rfl⟩).trans ?_
  have active : (threeLineView.afterAll movedInBody).isActive = true := by decide +kernel
  simp only [active, if_true, atLast, between.length_eq]
  rfl

end Engine

end ExLine

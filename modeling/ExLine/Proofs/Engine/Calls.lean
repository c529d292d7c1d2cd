import ExLine.Proofs.Engine.Plans
import ExLine.Proofs.Engine.Sessions
import ExLine.Proofs.Engine.Stopping
import ExLine.Proofs.Range.InView

/-!
Contract: what a call has to be to reach what carries it out.

Owns:
- `Command.Receives`, a call that keeps to what its command takes;
- `Command.Takes`, a sub-command that makes such a call;
- `Engine.Records`, by which a run adds calls of that kind to those that reached
  the host, and no others;
- `Engine.handlers_receive_valid_calls`.

Does not own: how a sub-command is read (`ExLine.Proofs.Engine.Plans`) and which
ranges are in view (`ExLine.Proofs.Range.InView`).

The range is resolved and its mark checked when the call is built, and the other
marks and the number of arguments are checked after that. Both checks stand
before every handler, so whatever leads to a call, a body within a body too, the
handler may rely on them.
-/

set_option autoImplicit false

namespace ExLine

namespace Command

theorem accepts_iff {command : Command} {count : Nat} :
    command.accepts count = true ↔
      command.minArgs ≤ count ∧ ∀ bound, command.maxArgs = some bound → count ≤ bound := by
  unfold accepts
  rw [Bool.and_eq_true, decide_eq_true_eq, Option.all_eq_true]
  simp only [decide_eq_true_eq]

theorem validate_eq_ok_iff {command : Command} {invocation : Invocation} :
    command.validate invocation = .ok () ↔
      (invocation.bang → command.flags.bang)
      ∧ (invocation.background → command.flags.background)
      ∧ (invocation.range.isSome → command.flags.range)
      ∧ command.accepts invocation.args.length := by
  unfold validate
  grind

/-- The call keeps to what the command takes, in a view of that many lines. -/
structure Receives (command : Command) (length : Nat) (invocation : Invocation) : Prop where
  name : invocation.name = command.name
  enough : command.minArgs ≤ invocation.args.length
  notTooMany : ∀ bound, command.maxArgs = some bound → invocation.args.length ≤ bound
  bang : invocation.bang → command.flags.bang
  background : invocation.background → command.flags.background
  range : invocation.range.isSome → command.flags.range
  /-- A range is the whole view, or lines of it in order. -/
  inView : ∀ range, invocation.range = some range → range.InView length
  /-- A command that takes a whole text has it as its only argument, if there is
  any. -/
  wholeText : command.flags.raw || command.flags.expression →
    (invocation.args = [] ↔ invocation.text = "")
      ∧ (invocation.args ≠ [] → invocation.args = [invocation.text])

/-- The sub-command has only the marks that the command allows, a range that is
in view, and as many arguments as the command takes. -/
structure Takes (command : Command) (engine : Engine) (head : CommandHead) (segment : Segment) :
    Prop where
  bang : head.bang → command.flags.bang
  background : segment.background → command.flags.background
  range : head.range.isSome → command.flags.range
  inView : ∀ spec, head.range = some spec → spec.InView engine.view.cursor engine.view.length
  arguments : ∃ text args, Arguments.decode (Arguments.trim segment.body) = .ok text
    ∧ Invocation.arguments command.flags engine.env (Arguments.trim segment.body) text = .ok args
    ∧ command.minArgs ≤ args.length
    ∧ ∀ bound, command.maxArgs = some bound → args.length ≤ bound

end Command

/-! ## Building a call -/

namespace Invocation

theorem lines_eq_ok_iff
    {command : Command}
    {view : View}
    {written : Option RangeSpec}
    {range : Option LineRange} :
    Invocation.lines command view written = .ok range ↔
      (written = none ∧ range = none)
      ∨ (command.flags.range ∧ ∃ spec found, written = some spec ∧ range = some found
        ∧ spec.resolve view.cursor view.length = .ok found) := by
  unfold Invocation.lines
  cases written with
  | none => simp only [Except.ok.injEq]; grind
  | some spec =>
    simp only
    cases command.flags.range with
    | false => simp
    | true =>
      cases resolved : spec.resolve view.cursor view.length <;>
        simp [liftError, Except.map, resolved, eq_comm]

theorem build_eq_ok_iff
    {engine : Engine}
    {command : Command}
    {head : CommandHead}
    {segment : Segment}
    {invocation : Invocation} :
    Invocation.build engine command head segment = .ok invocation ↔
      ∃ text, Arguments.decode (Arguments.trim segment.body) = .ok text
        ∧ ∃ args, Invocation.arguments command.flags engine.env (Arguments.trim segment.body) text
            = .ok args
        ∧ ∃ range, Invocation.lines command engine.view head.range = .ok range
        ∧ invocation = ⟨command.name, args, text, segment.background, head.bang, range⟩ := by
  simp only [Invocation.build, bind_eq_ok_iff, pure_eq_ok_iff]

theorem arguments_whole
    {flags : Flags}
    {env : Env}
    {body : Bytes}
    {text : String}
    {args : List String}
    (whole : flags.raw || flags.expression)
    (found : Invocation.arguments flags env body text = .ok args) :
    (args = [] ↔ text = "") ∧ (args ≠ [] → args = [text]) := by
  unfold Invocation.arguments at found
  rw [if_pos whole] at found
  cases found
  by_cases empty : text = ""
  · simp [empty]
  · simp [empty]

end Invocation

/-! ## Sub-commands -/

section Bounded

variable {engine : Engine} {command : Command} {head : CommandHead} {segment : Segment}
  (bounded : engine.view.length < 2 ^ 63)

include bounded

theorem Command.receives_of_build
    {invocation : Invocation}
    (built : Invocation.build engine command head segment = .ok invocation)
    (valid : command.validate invocation = .ok ()) :
    command.Receives engine.view.length invocation := by
  obtain ⟨bang, background, range, accepted⟩ := Command.validate_eq_ok_iff.mp valid
  obtain ⟨enough, notTooMany⟩ := Command.accepts_iff.mp accepted
  obtain ⟨text, -, args, isArgs, resolved, isLines, rfl⟩ := Invocation.build_eq_ok_iff.mp built
  refine ⟨rfl, enough, notTooMany, bang, background, range, fun found isFound => ?_,
    fun whole => Invocation.arguments_whole whole isArgs⟩
  rcases Invocation.lines_eq_ok_iff.mp isLines
    with ⟨-, none⟩ | ⟨-, spec, lines, -, some, isResolved⟩
  · cases none.symm.trans isFound
  · cases some.symm.trans isFound
    exact (RangeSpec.inView_of_resolve bounded isResolved).2

/-- A call is built and passes the checks if and only if the command takes the
sub-command. -/
theorem Command.takes_iff :
    command.Takes engine head segment ↔
      ∃ invocation, Invocation.build engine command head segment = .ok invocation
        ∧ command.validate invocation = .ok () := by
  constructor
  · intro takes
    obtain ⟨text, args, isText, isArgs, enough, notTooMany⟩ := takes.arguments
    obtain ⟨range, isLines, sameMark⟩ : ∃ range,
        Invocation.lines command engine.view head.range = .ok range
          ∧ range.isSome = head.range.isSome := by
      cases written : head.range with
      | none => exact ⟨none, rfl, rfl⟩
      | some spec =>
        obtain ⟨found, isFound⟩ :=
          (RangeSpec.exists_resolve_iff bounded).mpr (takes.inView spec written)
        have allowed := takes.range (by rw [written]; rfl)
        exact ⟨some found, Invocation.lines_eq_ok_iff.mpr
          (.inr ⟨allowed, spec, found, rfl, rfl, isFound⟩), rfl⟩
    refine ⟨_, Invocation.build_eq_ok_iff.mpr ⟨text, isText, args, isArgs, range, isLines, rfl⟩, ?_⟩
    refine Command.validate_eq_ok_iff.mpr ⟨takes.bang, takes.background, ?_, ?_⟩
    · rw [sameMark]
      exact takes.range
    · exact Command.accepts_iff.mpr ⟨enough, notTooMany⟩
  · rintro ⟨invocation, built, valid⟩
    obtain ⟨bang, background, -, accepted⟩ := Command.validate_eq_ok_iff.mp valid
    obtain ⟨enough, notTooMany⟩ := Command.accepts_iff.mp accepted
    obtain ⟨text, isText, args, isArgs, resolved, isLines, rfl⟩ :=
      Invocation.build_eq_ok_iff.mp built
    have marked := Invocation.lines_eq_ok_iff.mp isLines
    refine ⟨bang, background, fun hasRange => ?_, fun spec written => ?_,
      text, args, isText, isArgs, enough, notTooMany⟩
    · rcases marked with ⟨none, -⟩ | ⟨allowed, -⟩
      · rw [none] at hasRange
        cases hasRange
      · exact allowed
    · rcases marked with ⟨none, -⟩ | ⟨-, found, lines, some, -, isResolved⟩
      · cases none.symm.trans written
      · cases some.symm.trans written
        exact (RangeSpec.inView_of_resolve bounded isResolved).1

end Bounded

namespace Engine

/-! ## Runs -/

/-- The call is one that a host command of the engine takes. -/
def Answers (engine : Engine) (made : HostCall) : Prop :=
  ∃ command answer, engine.builtins.get? made.invocation.name = some command
    ∧ command.handler = .host answer
    ∧ command.Receives engine.view.length made.invocation

/-- Nothing but calls that host commands take is added to the calls of the
host. -/
structure Records (before after : Engine) : Prop where
  builtins : after.builtins = before.builtins
  length : after.view.length = before.view.length
  calls : ∃ made, after.calls = before.calls ++ made ∧ ∀ call ∈ made, before.Answers call

namespace Records

theorem congr
    {before after : Engine}
    (builtins : after.builtins = before.builtins)
    (length : after.view.length = before.view.length)
    (calls : after.calls = before.calls) :
    Records before after := by
  refine ⟨builtins, length, [], ?_, fun call none => nomatch none⟩
  rw [calls, List.append_nil]

theorem refl (engine : Engine) : Records engine engine :=
  congr rfl rfl rfl

theorem trans
    {first second third : Engine}
    (early : Records first second)
    (late : Records second third) :
    Records first third := by
  obtain ⟨madeEarly, callsEarly, takenEarly⟩ := early.calls
  obtain ⟨madeLate, callsLate, takenLate⟩ := late.calls
  refine ⟨late.builtins.trans early.builtins, late.length.trans early.length,
    madeEarly ++ madeLate, ?_, fun call member => ?_⟩
  · rw [callsLate, callsEarly, List.append_assoc]
  · rcases List.mem_append.mp member with inEarly | inLate
    · exact takenEarly call inEarly
    · have taken := takenLate call inLate
      unfold Answers at taken ⊢
      rwa [early.builtins, early.length] at taken

theorem of_effect
    {engine after : Engine}
    {action : Builtin}
    (effect : Effect engine action after) :
    Records engine after := by
  cases effect <;> exact congr rfl rfl rfl

theorem moveTo (engine : Engine) (range : LineRange) : Records engine (engine.moveTo range) := by
  unfold Engine.moveTo
  split <;> exact congr rfl rfl rfl

theorem runShellBody (engine : Engine) (text : String) (invocation : Invocation) :
    Records engine (engine.runShellBody text invocation).2 := by
  unfold Engine.runShellBody
  split
  · exact refl engine
  · simp only
    obtain ⟨request, launched⟩ := runShell_eq_launch engine _ _
    rw [launched]
    exact congr rfl rfl rfl

theorem leaveFrame
    {before : Engine}
    {result : Reply × Engine}
    (records : Records before result.2) :
    Records before (leaveFrame result).2 := by
  apply records.trans
  unfold Engine.leaveFrame
  split
  · exact refl result.2
  · simp only
    split
    · exact congr rfl rfl rfl
    · split <;> exact congr rfl rfl rfl

end Records

theorem Orderly.answers
    {engine : Engine}
    {command : Command}
    {answer : HostCall → Reply}
    {made : HostCall}
    {word : String}
    (orderly : engine.Orderly)
    (resolved : Registry.resolve engine.chain word = .ok command)
    (isHost : command.handler = .host answer)
    (receives : command.Receives engine.view.length made.invocation) :
    engine.Answers made := by
  refine ⟨command, answer, ?_, isHost, receives⟩
  rcases orderly.known_of_resolve resolved with isFixed | ⟨name, body, rfl⟩
  · rw [receives.name]
    exact orderly.apart.get?_of_mem isFixed
  · cases isHost

namespace Visit

variable {visit : Visit}
  (orderly : visit.engine.Orderly)
  (bounded : visit.engine.view.length < 2 ^ 63)

include orderly bounded

/-- A sub-command adds at most the call that it makes, and what the line of a
body adds that it enters. -/
theorem records_performed
    (running : visit.engine.scope.isFinished = false)
    (entered : ∀ next, visit.Next next → Records visit.engine next.engine →
      Records next.engine next.run.2) :
    Records visit.engine visit.performed.2 := by
  cases plan : visit.step.plan with
  | skip =>
    unfold performed
    rw [plan]
    exact .refl visit.engine
  | fail error =>
    unfold performed
    rw [plan]
    exact .refl visit.engine
  | move spec =>
    unfold performed perform
    rw [plan]
    simp only
    split
    · exact .moveTo visit.engine _
    · exact .refl visit.engine
  | call command head segment =>
    cases built : Invocation.build visit.engine command head segment with
    | error error =>
      unfold performed perform
      rw [plan]
      simp only [built]
      exact .refl visit.engine
    | ok invocation =>
      cases valid : command.validate invocation with
      | error error =>
        unfold performed perform dispatch
        rw [plan]
        simp only [built, valid]
        exact .refl visit.engine
      | ok _ =>
        have dispatched : visit.Dispatches command invocation :=
          ⟨running, ⟨head, segment, plan, built⟩, valid⟩
        rw [performed_eq_dispatch dispatched]
        unfold dispatch asStep
        simp only [valid]
        cases handler : command.handler with
        | builtin action => exact .of_effect (effect_runBuiltin visit.engine invocation action _)
        | host answer =>
          obtain ⟨-, -, resolved, -⟩ := Step.read_eq_call_iff.mp plan
          have receives := Command.receives_of_build bounded built valid
          refine ⟨rfl, rfl, [⟨invocation, visit.site⟩], rfl, fun call member => ?_⟩
          rw [List.mem_singleton.mp member]
          exact orderly.answers resolved handler receives
        | user body =>
          simp only
          rw [runUser_eq]
          split
          · rename_i allowed
            split
            · rename_i isLine
              have goes := Next.enters dispatched handler (by simpa using isLine) allowed
              have pushed : Records visit.engine
                  (visit.entered (calledText body invocation)).engine := .congr rfl rfl rfl
              exact .leaveFrame (pushed.trans (entered _ goes pushed))
            · exact .runShellBody visit.engine _ invocation
          · exact .refl visit.engine

end Visit

/-- The run of a line follows from its sub-commands, by the order in which the
lines of bodies come after the lines that call them. -/
theorem Visit.records_run
    (visit : Visit)
    (orderly : visit.engine.Orderly)
    (bounded : visit.engine.view.length < 2 ^ 63) :
    Records visit.engine visit.run.2 := by
  induction visit using wellFounded_next.induction with
  | _ visit inductionHypothesis =>
    have later : ∀ next, visit.Next next → Records visit.engine next.engine →
        Records next.engine next.run.2 := by
      intro next goes records
      apply inductionHypothesis next goes (orderly.of_grows (.of_next goes))
      rw [records.length]
      exact bounded
    rw [Visit.run_eq]
    split
    · exact .refl visit.engine
    · rename_i notStopped
      have running := Bool.eq_false_iff.mpr notStopped
      have first := records_performed orderly bounded running later
      split
      · exact first
      · rename_i rest left
        exact first.trans (later _ (.continues running left) first)

theorem records_runLines
    (engine : Engine)
    (orderly : engine.Orderly)
    (bounded : engine.view.length < 2 ^ 63)
    (lines : List Script.LogicalLine) :
    Records engine (engine.runLines lines).2 := by
  induction lines generalizing engine with
  | nil => exact .refl engine
  | cons line rest inductionHypothesis =>
    have first : Records engine (engine.runTop .script (Utf8.encode line.text)).2 :=
      Visit.records_run ⟨engine, { source := .script }, _⟩ orderly bounded
    unfold runLines
    simp only
    split
    · exact first
    · have stillOrderly : (engine.runTop .script (Utf8.encode line.text)).2.Orderly :=
        orderly.of_grows (.runLine _ _ _ _)
      exact first.trans (inductionHypothesis _ stillOrderly (first.length.trans_lt bounded))

theorem calls_after
    {engine : Engine}
    (orderly : engine.Orderly)
    (bounded : engine.view.length < 2 ^ 63)
    (call : Call) :
    ∃ made, (engine.after call).calls = engine.calls ++ made
      ∧ ∀ hostCall ∈ made, engine.Answers hostCall := by
  cases call with
  | register command =>
    refine ⟨[], ?_, fun hostCall none => nomatch none⟩
    rw [List.append_nil]
    apply @of_after_register (·.calls = engine.calls) engine command rfl
    intro registered done
    rw [register_eq done]
  | restore saved =>
    refine ⟨[], ?_, fun hostCall none => nomatch none⟩
    rw [List.append_nil]
    refine @of_restoreAll (·.calls = engine.calls) (fun same restored => ?_) engine rfl saved
    obtain ⟨-, registry, rfl, -⟩ := restore_eq restored
    exact same
  | execute source line =>
    exact (Visit.records_run ⟨engine, { source }, line⟩ orderly bounded).calls
  | script text =>
    have opened : (engine.withBranches {}).Orderly := orderly.of_grows (.congr rfl rfl)
    exact (records_runLines (engine.withBranches {}) opened bounded _).calls
  | surroundings view env => exact ⟨[], (List.append_nil _).symm, fun hostCall none => nomatch none⟩

/-! ## Sub-commands that are not taken -/

/-- Where commands run, a sub-command that has been resolved and cut makes a call
if and only if its command takes it. -/
theorem Visit.dispatches_iff
    {visit : Visit}
    {command : Command}
    {head : CommandHead}
    {segment : Segment}
    (bounded : visit.engine.view.length < 2 ^ 63)
    (running : visit.engine.scope.isFinished = false)
    (plan : visit.step.plan = .call command head segment) :
    (∃ invocation, visit.Dispatches command invocation) ↔
      command.Takes visit.engine head segment := by
  rw [Command.takes_iff bounded]
  constructor
  · rintro ⟨invocation, -, ⟨samehead, sameSegment, samePlan, built⟩, valid⟩
    cases plan.symm.trans samePlan
    exact ⟨invocation, built, valid⟩
  · rintro ⟨invocation, built, valid⟩
    exact ⟨invocation, running, ⟨head, segment, plan, built⟩, valid⟩

theorem Visit.performed_of_not_takes
    {visit : Visit}
    {command : Command}
    {head : CommandHead}
    {segment : Segment}
    (bounded : visit.engine.view.length < 2 ^ 63)
    (plan : visit.step.plan = .call command head segment)
    (refused : ¬ command.Takes visit.engine head segment) :
    ∃ error, visit.performed = (.error error, visit.engine) := by
  rw [Command.takes_iff bounded] at refused
  unfold Visit.performed perform
  rw [plan]
  simp only
  cases built : Invocation.build visit.engine command head segment with
  | error error => exact ⟨error, rfl⟩
  | ok invocation =>
    cases valid : command.validate invocation with
    | error error =>
      unfold dispatch
      simp only [valid]
      exact ⟨error, rfl⟩
    | ok _ => exact absurd ⟨invocation, built, valid⟩ refused

/-- **Handlers receive valid calls.** Whatever is called next in a session, every
call that reaches a host command then keeps to what this command takes, if the
view has fewer lines than a word can count. Where commands run, a sub-command
that has been resolved and cut makes its call if and only if the command takes
it, and then makes one that keeps to that; otherwise it fails and changes
nothing, and its error is the reply of the line. -/
theorem handlers_receive_valid_calls
    (config : Config)
    (env : Env)
    (view : View)
    (launcher : Launcher)
    (calls : List Call) :
    (let engine := afterAll { config, env, view, launcher } calls;
      engine.view.length < 2 ^ 63 → ∀ call,
        ∃ made, (engine.after call).calls = engine.calls ++ made
          ∧ ∀ hostCall ∈ made, engine.Answers hostCall)
    ∧ ∀ (visit : Visit) (head : CommandHead) (command : Command) (segment : Segment),
      visit.engine.view.length < 2 ^ 63 → visit.engine.scope.isFinished = false →
      visit.engine.isActive →
      Head.read visit.line = .ok (.command head) → head.name.isEmpty = false →
      Registry.resolve visit.engine.chain head.name = .ok command →
      Segment.split command.flags.tailMode head.tail = .ok segment →
        ((∃ invocation, visit.Dispatches command invocation) ↔
          command.Takes visit.engine head segment)
        ∧ (∀ invocation, visit.Dispatches command invocation →
          command.Receives visit.engine.view.length invocation)
        ∧ (¬ command.Takes visit.engine head segment →
          ∃ error, visit.performed = (.error error, visit.engine)
            ∧ visit.run.1 = .error error) := by
  constructor
  · intro engine bounded call
    exact calls_after (Orderly.afterAll config env view launcher calls) bounded call
  · intro visit head command segment bounded running active start hasName resolved cut
    have plan : visit.step.plan = .call command head segment := by
      refine Step.read_eq_call_iff.mpr ⟨start, hasName, resolved, cut, ?_⟩
      rw [active, Bool.true_or]
    refine ⟨Visit.dispatches_iff bounded running plan, fun invocation dispatched => ?_,
      fun refused => ?_⟩
    · obtain ⟨_, _, -, built⟩ := dispatched.calls
      exact Command.receives_of_build bounded built dispatched.valid
    · obtain ⟨error, failed⟩ := Visit.performed_of_not_takes bounded plan refused
      refine ⟨error, failed, ?_⟩
      rw [Visit.run_eq, running, failed]
      cases visit.step.rest <;> rfl

/-- A host command that takes a range, an exclamation mark and one text. -/
def mover : Command where
  name := "mv"
  flags := { range := true, bang := true, raw := true }
  minArgs := 1
  maxArgs := some 1
  handler := .host fun _ => .ok Outcome.done

/-- A session that adds the command and shows three lines. -/
def threeLines : List Call := [.register mover, .surroundings { length := 3 } {}]

/-- A sub-command whose range is not in view. -/
def beyondView : Visit := ⟨afterAll {} threeLines, ⟨.typed, 0⟩, Utf8.ofString "4mv x"⟩

/-- The host is called with the lines in order, and not at all with a line that
the view does not have. -/
theorem handlers_receive_valid_calls_three_lines :
    (afterAll {} threeLines).Answers
      ⟨⟨"mv", ["a b"], "a b", false, true, some (.lines 0 2)⟩, ⟨.typed, 0⟩⟩
    ∧ ∃ error, beyondView.performed = (.error error, beyondView.engine)
        ∧ beyondView.run.1 = .error error := by
  obtain ⟨answered, refused⟩ :=
    handlers_receive_valid_calls {} {} {} (Launcher.ofList []) threeLines
  constructor
  · obtain ⟨made, calls, taken⟩ :=
      answered (by decide) (.execute .typed (Utf8.ofString "3,1mv! a b"))
    have one : made = [⟨⟨"mv", ["a b"], "a b", false, true, some (.lines 0 2)⟩, ⟨.typed, 0⟩⟩] := by
      rw [← List.nil_append made]
      refine calls.symm.trans ?_
      decide +kernel
    exact taken _ (one ▸ List.mem_singleton.mpr rfl)
  · have law := refused beyondView ⟨some (.single ⟨.line 4, 0⟩), "mv", false, Utf8.ofString "x"⟩
      mover ⟨Utf8.ofString "x", false, none⟩ (by decide) rfl rfl (by decide +kernel) (by decide)
      rfl (by decide +kernel)
    apply law.2.2
    intro takes
    exact absurd (takes.inView _ rfl).2 (by decide)

end Engine

end ExLine

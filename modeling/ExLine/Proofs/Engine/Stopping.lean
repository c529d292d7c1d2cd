import ExLine.Proofs.Engine.Plans
import ExLine.Proofs.Engine.Visits
import ExLine.Proofs.Script.Lines

/-!
Contract: how the body of a user command ends, and what it replies.

Owns:
- `Engine.summary`, what the replies of sub-commands come to;
- `Visit.Reaches`, the sub-commands of a line that run one after the other, and
  the two ends that such a row can have, `Visit.Finishes` and `Visit.Ends`;
- the exact cases in which a body that `finish` stops replies with the summary
  of what ran before.

Does not own: scripts, in which `finish` drops all open blocks
(`ExLine.Engine.Script`).

A frame is left by the same steps whether `finish` stopped it or its line came
to the end. Blocks that are open then count as left open in both cases.
-/

set_option autoImplicit false

namespace ExLine.Engine

/-! ## Replies in a row -/

def firstError? (replies : List StepReply) : Option CommandError :=
  replies.findSome? fun
    | .error error => some error
    | .ok _ => none

/-- The outcomes among the replies, combined in order. -/
def combined (replies : List StepReply) : Outcome :=
  let outcomes := replies.filterMap fun
    | .error _ => none
    | .ok outcome => outcome
  outcomes.foldl Outcome.combine Outcome.done

/-- The first error, or else the outcomes combined. -/
def summary (replies : List StepReply) : Reply :=
  match firstError? replies with
  | some error => .error error
  | none => .ok (combined replies)

theorem foldl_combine (outcomes : List Outcome) (first : Outcome) :
    outcomes.foldl Outcome.combine first
      = first.combine (outcomes.foldl Outcome.combine Outcome.done) := by
  induction outcomes generalizing first with
  | nil => rfl
  | cons outcome rest inductionHypothesis =>
    rw [List.foldl_cons, List.foldl_cons, inductionHypothesis,
      inductionHypothesis (Outcome.done.combine outcome), Outcome.done_combine,
      Outcome.combine_assoc]

theorem combined_cons (outcome : Outcome) (replies : List StepReply) :
    combined (.ok (some outcome) :: replies) = outcome.combine (combined replies) := by
  show List.foldl Outcome.combine (Outcome.done.combine outcome) _ = _
  rw [Outcome.done_combine]
  exact foldl_combine _ outcome

/-- A line joins its replies from the last one backwards. -/
theorem foldr_andThen (replies : List StepReply) :
    replies.foldr andThen (.ok Outcome.done) = summary replies := by
  induction replies with
  | nil => rfl
  | cons reply rest inductionHypothesis =>
    rw [List.foldr_cons, inductionHypothesis]
    cases reply with
    | error error => rfl
    | ok outcome =>
      have sameError : firstError? (.ok outcome :: rest) = firstError? rest := rfl
      unfold summary
      rw [sameError]
      cases firstError? rest with
      | some error => rfl
      | none =>
        cases outcome with
        | none => rfl
        | some outcome =>
          rw [combined_cons]
          rfl

/-- Of the built-in actions only `finish` stops a frame. -/
theorem Effect.finish_of_stopped
    {engine after : Engine}
    {action : Builtin}
    (effect : Effect engine action after)
    (running : engine.scope.isFinished = false)
    (stopped : after.scope.isFinished = true) :
    action = .finish := by
  cases effect with
  | finished => rfl
  | none | vars | branches | commands | launch | directory | mappings =>
    rw [show engine.scope.isFinished = true from stopped] at running
    cases running

namespace Visit

/-- The line of the first visit comes to the second one, after sub-commands with
these replies. -/
inductive Reaches : Visit → List StepReply → Visit → Prop where
  | here (visit : Visit) : Reaches visit [] visit
  | step
      {visit last : Visit}
      {rest : Bytes}
      {replies : List StepReply}
      (running : visit.engine.scope.isFinished = false)
      (left : visit.step.rest = some rest)
      (later : Reaches (visit.continued rest) replies last) :
      Reaches visit (visit.performed.1 :: replies) last

theorem Reaches.run_eq
    {start last : Visit}
    {replies : List StepReply}
    (reaches : start.Reaches replies last) :
    start.run = (replies.foldr andThen last.run.1, last.run.2) := by
  induction reaches with
  | here visit => rfl
  | step running left later inductionHypothesis =>
    rw [Visit.run_eq, running, left]
    simp only [inductionHypothesis, Bool.false_eq_true, if_false, List.foldr_cons]

/-! ## The end of a line -/

/-- The sub-command at the front is a `finish` that is carried out. -/
structure Finishes (visit : Visit) : Prop where
  dispatched : ∃ command invocation, visit.Dispatches command invocation
    ∧ command.handler = .builtin .finish
  allowed : visit.site.source = .script ∨ 0 < visit.site.depth

/-- The sub-command at the front is the last one, and does not stop its
frame. -/
structure Ends (visit : Visit) : Prop where
  running : visit.engine.scope.isFinished = false
  noRest : visit.step.rest = none
  stillRunning : visit.performed.2.scope.isFinished = false

theorem performed_eq_dispatch
    {visit : Visit}
    {command : Command}
    {invocation : Invocation}
    (dispatched : visit.Dispatches command invocation) :
    visit.performed
      = asStep (visit.engine.dispatch (runUser visit.levels) visit.site command invocation) := by
  obtain ⟨head, segment, plan, built⟩ := dispatched.calls
  unfold performed perform
  rw [plan]
  simp only [built]

theorem Finishes.performed_eq {visit : Visit} (finishes : visit.Finishes) :
    visit.performed = (.ok (some Outcome.done), visit.engine.withFinished true) := by
  obtain ⟨command, invocation, dispatched, isFinish⟩ := finishes.dispatched
  have notRefused : (visit.site.source != .script && visit.site.depth == 0) = false := by
    rcases finishes.allowed with script | inBody
    · rw [script]
      rfl
    · have deep : (visit.site.depth == 0) = false := by
        rw [beq_eq_false_iff_ne]
        omega
      rw [deep, Bool.and_false]
  rw [performed_eq_dispatch dispatched]
  unfold dispatch
  simp only [dispatched.valid, isFinish]
  show asStep (visit.engine.finish visit.site) = _
  unfold finish
  rw [notRefused]
  rfl

/-- A `finish` ends its line there, whatever follows it. -/
theorem Finishes.run_eq {visit : Visit} (finishes : visit.Finishes) :
    visit.run = (.ok Outcome.done, visit.engine.withFinished true) := by
  obtain ⟨_, _, dispatched, -⟩ := finishes.dispatched
  rw [Visit.run_eq, dispatched.running, finishes.performed_eq]
  cases left : visit.step.rest with
  | none => rfl
  | some rest =>
    have same : (visit.continued rest).engine = visit.engine.withFinished true := by
      unfold continued
      rw [finishes.performed_eq]
    have stopped : (visit.continued rest).engine.scope.isFinished = true := by
      rw [same]
      rfl
    have noMore : (visit.continued rest).run = (visit.continued rest).engine.done := by
      rw [Visit.run_eq, if_pos stopped]
    simp only [noMore, same]
    rfl

theorem Ends.run_eq {visit : Visit} (ends : visit.Ends) :
    visit.run = ([visit.performed.1].foldr andThen (.ok Outcome.done), visit.performed.2) := by
  rw [Visit.run_eq, ends.running, ends.noRest]
  rfl

/-- Only a call of a built-in command touches the frames. -/
theorem scope_performed
    {visit : Visit}
    (running : visit.engine.scope.isFinished = false) :
    visit.performed.2.scope = visit.engine.scope
      ∨ ∃ command invocation action, visit.Dispatches command invocation
        ∧ command.handler = .builtin action := by
  cases plan : visit.step.plan with
  | skip =>
    left
    unfold performed
    rw [plan]
    rfl
  | fail error =>
    left
    unfold performed
    rw [plan]
    rfl
  | move spec =>
    left
    unfold performed perform moveTo
    rw [plan]
    simp only
    split
    · split <;> rfl
    · rfl
  | call command head segment =>
    cases built : Invocation.build visit.engine command head segment with
    | error error =>
      left
      unfold performed perform
      rw [plan]
      simp only [built]
    | ok invocation =>
      cases valid : command.validate invocation with
      | error error =>
        left
        unfold performed perform dispatch
        rw [plan]
        simp only [built, valid]
        rfl
      | ok _ =>
        have dispatched : visit.Dispatches command invocation :=
          ⟨running, ⟨head, segment, plan, built⟩, valid⟩
        cases handler : command.handler with
        | builtin action => exact .inr ⟨command, invocation, action, dispatched, handler⟩
        | host answer =>
          left
          rw [performed_eq_dispatch dispatched]
          unfold dispatch
          simp only [valid, handler]
          rfl
        | user body =>
          left
          rw [performed_eq_dispatch dispatched]
          unfold dispatch
          simp only [valid, handler]
          exact scope_runUser visit.levels visit.site body invocation visit.engine

/-- Nothing but a `finish` stops a frame. -/
theorem finishes_of_stopped
    {visit : Visit}
    (running : visit.engine.scope.isFinished = false)
    (stopped : visit.performed.2.scope.isFinished = true) :
    visit.Finishes := by
  rcases scope_performed running with same | ⟨command, invocation, action, dispatched, isAction⟩
  · rw [same, running] at stopped
    cases stopped
  have performedIs : visit.performed
      = asStep (visit.engine.runBuiltin action visit.site invocation) := by
    rw [performed_eq_dispatch dispatched]
    unfold dispatch
    simp only [dispatched.valid, isAction]
  rw [performedIs] at stopped
  have isFinish : action = .finish :=
    (effect_runBuiltin visit.engine invocation action visit.site).finish_of_stopped running stopped
  subst isFinish
  refine ⟨⟨command, invocation, dispatched, isAction⟩, ?_⟩
  have stoppedHere : (visit.engine.finish visit.site).2.scope.isFinished = true := stopped
  unfold finish at stoppedHere
  split at stoppedHere
  · rw [show visit.engine.scope.isFinished = true from stoppedHere] at running
    cases running
  · rename_i notRefused
    simp only [Bool.and_eq_true, bne_iff_ne, beq_iff_eq, not_and] at notRefused
    by_cases script : visit.site.source = .script
    · exact .inl script
    · exact .inr (Nat.pos_of_ne_zero (notRefused script))

/-- Every line that runs comes to one of its two ends. -/
theorem exists_end
    (visit : Visit)
    (running : visit.engine.scope.isFinished = false) :
    ∃ replies last, visit.Reaches replies last ∧ (last.Finishes ∨ last.Ends) := by
  induction visit using wellFounded_next.induction with
  | _ visit inductionHypothesis =>
    by_cases stopped : visit.performed.2.scope.isFinished = true
    · exact ⟨[], visit, .here visit, .inl (finishes_of_stopped running stopped)⟩
    have goesOn := Bool.eq_false_iff.mpr stopped
    cases left : visit.step.rest with
    | none => exact ⟨[], visit, .here visit, .inr ⟨running, left, goesOn⟩⟩
    | some rest =>
      obtain ⟨replies, last, reaches, atEnd⟩ :=
        inductionHypothesis (visit.continued rest) (.continues running left) goesOn
      exact ⟨_, last, .step running left reaches, atEnd⟩

end Visit

/-! ## Leaving a body -/

/-- The reply of a body: the one of its line, or an error if that one is an
outcome and a block is left open. -/
theorem reply_leaveFrame
    {result : Reply × Engine}
    {frame : Frame}
    {frames : List Frame}
    (under : result.2.scope.enclosing = frame :: frames) :
    (leaveFrame result).1 =
      match result.1 with
      | .error error => .error error
      | .ok outcome =>
        if result.2.scope.branches.isEmpty then .ok outcome else .error (.control .missingEndif) := by
  obtain ⟨reply, after⟩ := result
  unfold leaveFrame Scope.pop
  rw [under]
  cases reply with
  | error error => rfl
  | ok outcome =>
    simp only
    by_cases noneOpen : after.scope.branches.isEmpty = true
    · rw [if_pos noneOpen, if_pos (show after.scope.innermost.branches.isEmpty = true from noneOpen)]
    · rw [if_neg noneOpen,
        if_neg (show ¬ after.scope.innermost.branches.isEmpty = true from noneOpen)]
      rfl

/-- What a body replies whose sub-commands replied so, with these blocks open
at the end. -/
def bodyReply (replies : List StepReply) (branches : Branches) : Reply :=
  match firstError? replies with
  | some error => .error error
  | none =>
    if branches.isEmpty then .ok (combined replies) else .error (.control .missingEndif)

theorem reply_body
    {visit : Visit}
    {body : String}
    {invocation : Invocation}
    {replies : List StepReply}
    (allowed : visit.site.depth < visit.engine.config.maxDepth)
    (isLine : (calledText body invocation).toList.head? = some ':')
    (replied : (visit.entered (calledText body invocation)).run.1 = summary replies) :
    (runUser visit.levels visit.site body invocation visit.engine).1
      = bodyReply replies (visit.entered (calledText body invocation)).run.2.scope.branches := by
  have kept : (visit.entered (calledText body invocation)).run.2.scope.enclosing
      = visit.engine.scope.frames := (keeps_runLine _ _ _ _).enclosing
  rw [Visit.runUser_eq, if_pos allowed, if_pos (by rw [isLine]; rfl), reply_leaveFrame kept,
    replied]
  unfold summary bodyReply
  cases firstError? replies with
  | some error => rfl
  | none => rfl

/-- **A body that `finish` stops drops its open blocks exactly if an error came
first.** Every body within the limit comes to an end, by a `finish` in its own
frame or with its last sub-command. In the first case the reply is the summary
of the sub-commands before the `finish` if one of them failed or no block is
open; with a block open and no earlier error it is a missing `endif` instead of
the combined outcome. In the second case a block that is open is an error, too,
unless there was an earlier one. -/
theorem finish_drops_blocks_iff
    {visit : Visit}
    {body : String}
    {invocation : Invocation}
    (allowed : visit.site.depth < visit.engine.config.maxDepth)
    (isLine : (calledText body invocation).toList.head? = some ':') :
    let start := visit.entered (calledText body invocation)
    let reply := (runUser visit.levels visit.site body invocation visit.engine).1
    (∃ replies last, start.Reaches replies last ∧ (last.Finishes ∨ last.Ends))
    ∧ (∀ replies last, start.Reaches replies last → last.Finishes →
        (reply = summary replies ↔
          (firstError? replies).isSome ∨ last.engine.scope.branches.isEmpty)
        ∧ (firstError? replies = none → last.engine.scope.branches.isEmpty = false →
          reply = .error (.control .missingEndif)))
    ∧ (∀ replies last, start.Reaches replies last → last.Ends →
        last.performed.2.scope.branches.isEmpty = false →
        reply = .error
          ((firstError? (replies ++ [last.performed.1])).getD (.control .missingEndif))) := by
  intro start reply
  refine ⟨Visit.exists_end start rfl, fun replies last reaches finishes => ?_,
    fun replies last reaches ends someOpen => ?_⟩
  · have ran := reaches.run_eq
    rw [finishes.run_eq, foldr_andThen] at ran
    have replied : reply = bodyReply replies last.engine.scope.branches := by
      rw [show reply = _ from reply_body allowed isLine (congrArg Prod.fst ran)]
      exact congrArg (fun result => bodyReply replies result.2.scope.branches) ran
    rw [replied]
    unfold bodyReply summary
    cases firstError? replies with
    | some error => simp
    | none => cases last.engine.scope.branches.isEmpty <;> simp
  · have ran := reaches.run_eq
    rw [ends.run_eq, ← List.foldr_append, foldr_andThen] at ran
    have replied : reply = bodyReply (replies ++ [last.performed.1])
        last.performed.2.scope.branches := by
      rw [show reply = _ from reply_body allowed isLine (congrArg Prod.fst ran)]
      exact congrArg (fun result => bodyReply _ result.2.scope.branches) ran
    rw [replied]
    unfold bodyReply
    cases firstError? (replies ++ [last.performed.1]) with
    | some error => rfl
    | none => rw [someOpen]; rfl

/-- A place in a new engine where a user command is called. -/
def newCaller : Visit := ⟨{}, ⟨.typed, 0⟩, []⟩

/-- A call without arguments. -/
def bareCall : Invocation := ⟨"u", [], "", false, false, none⟩

/-- The body `:if 1|finish|endif` of such a call, in the block that it opens. -/
def stoppedInBlock : Visit :=
  ⟨withBranches { scope := Scope.push {} } ⟨[⟨true, true, true, false⟩]⟩, ⟨.typed, 1⟩,
    Utf8.ofString "finish|endif"⟩

theorem finishes_stoppedInBlock : stoppedInBlock.Finishes := by
  refine ⟨⟨(Registry.builtins.get? "finish").get rfl, ⟨"finish", [], "", false, false, none⟩,
    ⟨rfl, ⟨⟨none, "finish", false, Utf8.ofString "|endif"⟩,
      ⟨[], false, some (Utf8.ofString "endif")⟩, ?_, by decide +kernel⟩, rfl⟩, rfl⟩,
    .inr (by decide)⟩
  exact Step.read_eq_call_iff.mpr ⟨by decide +kernel, rfl, rfl, by decide +kernel, rfl⟩

theorem reaches_stoppedInBlock :
    (newCaller.entered ":if 1|finish|endif").Reaches [.ok (some Outcome.done)] stoppedInBlock := by
  have performed : (newCaller.entered ":if 1|finish|endif").performed
      = (.ok (some Outcome.done), stoppedInBlock.engine) := by with_unfolding_all rfl
  have left : (newCaller.entered ":if 1|finish|endif").step.rest
      = some (Utf8.ofString "finish|endif") := by decide +kernel
  have continued : (newCaller.entered ":if 1|finish|endif").continued (Utf8.ofString "finish|endif")
      = stoppedInBlock := by
    unfold Visit.continued
    rw [performed]
    rfl
  have reaches := Visit.Reaches.step rfl left (.here _)
  rwa [performed, continued] at reaches

/-- A body that stops within a block fails for want of an `endif`, though none of
its sub-commands failed. -/
theorem finish_drops_blocks_in_new_engine :
    stoppedInBlock.Finishes
    ∧ (newCaller.entered ":if 1|finish|endif").Reaches [.ok (some Outcome.done)] stoppedInBlock
    ∧ stoppedInBlock.engine.scope.branches.depth = 1
    ∧ (runUser newCaller.levels newCaller.site ":if 1|finish|endif" bareCall newCaller.engine).1
      = .error (.control .missingEndif) := by
  have within : newCaller.site.depth < newCaller.engine.config.maxDepth := by decide
  have text : calledText ":if 1|finish|endif" bareCall = ":if 1|finish|endif" := rfl
  have law := (@finish_drops_blocks_iff newCaller ":if 1|finish|endif" bareCall within
    (by rw [text]; rfl)).2.1
  rw [text] at law
  refine ⟨finishes_stoppedInBlock, reaches_stoppedInBlock, rfl, ?_⟩
  exact (law _ _ reaches_stoppedInBlock finishes_stoppedInBlock).2 rfl rfl

end ExLine.Engine

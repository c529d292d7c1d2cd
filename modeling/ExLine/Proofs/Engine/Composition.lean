import ExLine.Proofs.Engine.Frames
import ExLine.Proofs.Line.BeforeBar
import ExLine.Proofs.Script.Lines

/-!
Contract: a chain of sub-commands and its parts.

Owns:
- `Engine.followedBy`, what two replies in a row come to, with its laws;
- `Engine.goOn`, which runs more unless the frame has been stopped, and
  `Engine.inTurn`, which runs lines one after the other;
- `Engine.runLine_bar`, the law of a line with a separating bar;
- `Engine.Chain`, the lines that are cut where their sub-commands end;
- `Engine.chains_compose`.

Does not own: where a sub-command ends (`ExLine.Proofs.Line.BeforeBar`).

The law of one bar and the associativity of the replies are all there is to it:
every way of cutting a chain comes down to running its parts in turn.
-/

set_option autoImplicit false

namespace ExLine.Engine

/-! ## Replies -/

/-- The reply of a line followed by the reply of another one: the first error,
or else the outcomes combined. -/
def followedBy (first later : Reply) : Reply :=
  match first, later with
  | .error error, _ => .error error
  | .ok _, .error error => .error error
  | .ok earlier, .ok later => .ok (earlier.combine later)

theorem followedBy_done (reply : Reply) : followedBy reply (.ok Outcome.done) = reply := by
  cases reply <;> rfl

theorem done_followedBy (reply : Reply) : followedBy (.ok Outcome.done) reply = reply := by
  cases reply with
  | error error => rfl
  | ok outcome => exact congrArg Except.ok (Outcome.done_combine outcome)

theorem followedBy_assoc (first second third : Reply) :
    followedBy (followedBy first second) third = followedBy first (followedBy second third) := by
  cases first with
  | error error => rfl
  | ok first =>
    cases second with
    | error error => rfl
    | ok second =>
      cases third with
      | error error => rfl
      | ok third => exact congrArg Except.ok (Outcome.combine_assoc first second third)

/-- The reply of a sub-command is as good as that of a line of its own. -/
theorem andThen_eq_followedBy (reply : StepReply) (later : Reply) :
    andThen reply later = followedBy (andThen reply (.ok Outcome.done)) later := by
  cases reply with
  | error error => rfl
  | ok outcome =>
    cases outcome with
    | none =>
      show andThen (.ok none) later = followedBy (.ok Outcome.done) later
      rw [done_followedBy]
      cases later <;> rfl
    | some outcome => cases later <;> rfl

/-! ## One thing after another -/

/-- Runs more after what ran already, unless that stopped the frame. -/
def goOn (first : Reply × Engine) (more : Engine → Reply × Engine) : Reply × Engine :=
  if first.2.scope.isFinished then first
  else
    let later := more first.2
    (followedBy first.1 later.1, later.2)

section Lines

variable {call : UserCall} {site : Site} {engine : Engine}

theorem goOn_congr
    {first : Reply × Engine}
    {more other : Engine → Reply × Engine}
    (same : first.2.scope.isFinished = false → more first.2 = other first.2) :
    goOn first more = goOn first other := by
  unfold goOn
  cases finished : first.2.scope.isFinished with
  | true => rfl
  | false => rw [same finished]

theorem goOn_assoc (first : Reply × Engine) (more further : Engine → Reply × Engine) :
    goOn (goOn first more) further = goOn first fun after => goOn (more after) further := by
  unfold goOn
  cases finished : first.2.scope.isFinished with
  | true => simp only [finished, if_true]
  | false =>
    simp only [Bool.false_eq_true, if_false]
    cases (more first.2).2.scope.isFinished with
    | true => rfl
    | false => simp only [Bool.false_eq_true, if_false, followedBy_assoc]

theorem goOn_done (first : Reply × Engine) : goOn first done = first := by
  unfold goOn
  split
  · rfl
  · exact congrArg (·, first.2) (followedBy_done first.1)

theorem done_goOn
    (running : engine.scope.isFinished = false)
    (more : Engine → Reply × Engine) :
    goOn engine.done more = more engine := by
  have sameEngine : engine.done.2 = engine := rfl
  unfold goOn
  rw [sameEngine, running, if_neg Bool.false_ne_true]
  exact congrArg (·, (more engine).2) (done_followedBy _)

theorem perform_of_asksSame
    {plan other : Plan}
    (same : Plan.AsksSame plan other) :
    engine.perform call site plan = engine.perform call site other := by
  cases same <;> rfl

/-- A line with a separating bar runs what is in front of the bar, and then what
is behind it. -/
theorem runLine_bar
    {text rest : Bytes}
    (running : engine.scope.isFinished = false)
    (single : rest.head? ≠ some Byte.bar)
    (left : (engine.readStep (text ++ Byte.bar :: rest)).rest = some rest) :
    engine.runLine call site (text ++ Byte.bar :: rest)
      = goOn (engine.runLine call site text) fun after => after.runLine call site rest := by
  have alone : Step.Alone (engine.readStep text) (engine.readStep (text ++ Byte.bar :: rest)) :=
    Step.read_alone single left
  have samePerformed := @perform_of_asksSame call site engine _ _ alone.plan
  rw [runLine_eq, runLine_eq engine call site text, running, left, alone.last, samePerformed]
  simp only [Bool.false_eq_true, if_false]
  generalize engine.perform call site (engine.readStep text).plan = first
  unfold goOn
  simp only
  cases finished : first.2.scope.isFinished with
  | true =>
    rw [runLine_eq, finished]
    rfl
  | false =>
    rw [andThen_eq_followedBy]
    rfl

/-! ## Parts in turn -/

variable (call site) in
/-- Runs lines one after the other, up to one that stops the frame. -/
def inTurn (engine : Engine) : List Bytes → Reply × Engine
  | [] => engine.done
  | line :: lines => goOn (engine.runLine call site line) fun after => after.inTurn lines

/-- The parts of a chain, with bars between them. -/
def joined : List Bytes → Bytes
  | [] => []
  | [part] => part
  | part :: next :: more => part ++ Byte.bar :: joined (next :: more)

variable (call site) in
/-- The parts are the sub-commands at the front of their chain, one after the
other. The last part is what is left, and may hold more of them. -/
inductive Chain : Engine → List Bytes → Prop where
  | nil (engine : Engine) : Chain engine []
  | last (engine : Engine) (part : Bytes) : Chain engine [part]
  | cons
      {engine : Engine}
      {part next : Bytes}
      {more : List Bytes}
      (single : (joined (next :: more)).head? ≠ some Byte.bar)
      (left : (engine.readStep (part ++ Byte.bar :: joined (next :: more))).rest
        = some (joined (next :: more)))
      (later : (engine.runLine call site part).2.scope.isFinished = false →
        Chain (engine.runLine call site part).2 (next :: more)) :
      Chain engine (part :: next :: more)

variable (call site) in
/-- Each group of parts is a chain of its own when it is its turn. -/
inductive Chains : Engine → List (List Bytes) → Prop where
  | nil (engine : Engine) : Chains engine []
  | cons
      {engine : Engine}
      {group : List Bytes}
      {groups : List (List Bytes)}
      (chain : Chain call site engine group)
      (later : (engine.inTurn call site group).2.scope.isFinished = false →
        Chains (engine.inTurn call site group).2 groups) :
      Chains engine (group :: groups)

theorem runLine_nil (running : engine.scope.isFinished = false) :
    engine.runLine call site [] = engine.done := by
  rw [runLine_eq, running]
  rfl

theorem inTurn_append
    (running : engine.scope.isFinished = false)
    (early late : List Bytes) :
    engine.inTurn call site (early ++ late)
      = goOn (engine.inTurn call site early) fun after => after.inTurn call site late := by
  induction early generalizing engine with
  | nil => exact (done_goOn running fun after => after.inTurn call site late).symm
  | cons line early inductionHypothesis =>
    rw [List.cons_append, inTurn, inTurn, goOn_assoc]
    exact goOn_congr inductionHypothesis

/-- A chain runs its parts in turn. -/
theorem runLine_joined
    {parts : List Bytes}
    (running : engine.scope.isFinished = false)
    (chain : Chain call site engine parts) :
    engine.runLine call site (joined parts) = engine.inTurn call site parts := by
  induction chain with
  | nil engine => exact runLine_nil running
  | last engine part => exact (goOn_done _).symm
  | cons single left later inductionHypothesis =>
    rw [joined, runLine_bar running single left, inTurn]
    exact goOn_congr fun goesOn => inductionHypothesis goesOn goesOn

/-- Running groups of parts as lines is running the parts in turn. -/
theorem inTurn_joined
    {groups : List (List Bytes)}
    (running : engine.scope.isFinished = false)
    (chains : Chains call site engine groups) :
    engine.inTurn call site (groups.map joined) = engine.inTurn call site groups.flatten := by
  induction chains with
  | nil engine => rfl
  | cons chain later inductionHypothesis =>
    rw [List.map_cons, List.flatten_cons, inTurn_append running, inTurn,
      runLine_joined running chain]
    exact goOn_congr fun goesOn => inductionHypothesis goesOn goesOn

end Lines

/-- **Chains compose.** A line whose first sub-command ends at a bar runs as what
is in front of the bar and, unless that stops the frame, what is behind it: the
engine is the same afterwards, with every call and launch, and the reply is the
first error, or else both outcomes combined. Combining is associative and the
empty outcome is its identity. So a chain runs its parts in turn, and it does not
matter how these are grouped into lines. -/
theorem chains_compose (call : UserCall) (site : Site) :
    (∀ (engine : Engine) (text rest : Bytes),
      engine.scope.isFinished = false →
      rest.head? ≠ some Byte.bar →
      (engine.readStep (text ++ Byte.bar :: rest)).rest = some rest →
      engine.runLine call site (text ++ Byte.bar :: rest)
        = goOn (engine.runLine call site text) fun after => after.runLine call site rest)
    ∧ (∀ first second third : Outcome,
        (first.combine second).combine third = first.combine (second.combine third))
    ∧ (∀ outcome : Outcome,
        Outcome.done.combine outcome = outcome ∧ outcome.combine Outcome.done = outcome)
    ∧ (∀ (engine : Engine) (parts : List Bytes),
        engine.scope.isFinished = false →
        Chain call site engine parts →
        engine.runLine call site (joined parts) = engine.inTurn call site parts)
    ∧ ∀ (engine : Engine) (groups : List (List Bytes)),
        engine.scope.isFinished = false →
        Chains call site engine groups →
        engine.inTurn call site (groups.map joined)
          = engine.inTurn call site groups.flatten := by
  refine ⟨?_, Outcome.combine_assoc, ?_, ?_, ?_⟩
  · exact fun engine text rest running single left => runLine_bar running single left
  · exact fun outcome => ⟨Outcome.done_combine outcome, Outcome.combine_done outcome⟩
  · exact fun engine parts running chain => runLine_joined running chain
  · exact fun engine groups running chains => inTurn_joined running chains

/-- A view of three lines, and a host command that prints its quoted arguments. -/
def repeating : Engine where
  builtins := ⟨Command.builtins ++ [{
    name := "say"
    flags := { quotes := true }
    handler := .host fun call => .ok (.success (Text.join " " call.invocation.args)) }]⟩
  view := { length := 3 }

/-- The line `say 'a|b' |2|say c` is cut behind its first sub-command, and then
behind the second one. -/
theorem chains_compose_quoted_bar :
    repeating.runLine (runUser 64) ⟨.typed, 0⟩ (Utf8.ofString "say 'a|b' |2|say c")
      = goOn (repeating.runLine (runUser 64) ⟨.typed, 0⟩ (Utf8.ofString "say 'a|b' "))
          (fun after => after.runLine (runUser 64) ⟨.typed, 0⟩ (Utf8.ofString "2|say c"))
    ∧ repeating.inTurn (runUser 64) ⟨.typed, 0⟩
        [Utf8.ofString "say 'a|b' |2", Utf8.ofString "say c"]
      = repeating.runLine (runUser 64) ⟨.typed, 0⟩ (Utf8.ofString "say 'a|b' |2|say c")
    ∧ (repeating.runLine (runUser 64) ⟨.typed, 0⟩ (Utf8.ofString "say 'a|b' |2|say c")).1
      = .ok (.success "a|b\nc") := by
  have whole : Chain (runUser 64) ⟨.typed, 0⟩ repeating
      [Utf8.ofString "say 'a|b' ", Utf8.ofString "2", Utf8.ofString "say c"] :=
    .cons (by decide) (by decide +kernel) fun _ =>
      .cons (by decide) (by decide +kernel) fun _ => .last _ _
  have early : Chain (runUser 64) ⟨.typed, 0⟩ repeating
      [Utf8.ofString "say 'a|b' ", Utf8.ofString "2"] :=
    .cons (by decide) (by decide +kernel) fun _ => .last _ _
  have groups : Chains (runUser 64) ⟨.typed, 0⟩ repeating
      [[Utf8.ofString "say 'a|b' ", Utf8.ofString "2"], [Utf8.ofString "say c"]] :=
    .cons early fun _ => .cons (.last _ _) fun _ => .nil _
  obtain ⟨atBar, -, -, inParts, inGroups⟩ := chains_compose (runUser 64) ⟨.typed, 0⟩
  refine ⟨?_, ?_, by decide +kernel⟩
  · exact atBar repeating (Utf8.ofString "say 'a|b' ") (Utf8.ofString "2|say c") rfl (by decide)
      (by decide +kernel)
  · exact (inGroups repeating _ rfl groups).trans (inParts repeating _ rfl whole).symm

end ExLine.Engine

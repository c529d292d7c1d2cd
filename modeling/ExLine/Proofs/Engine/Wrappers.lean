import ExLine.Proofs.Engine.Expansion
import ExLine.Proofs.Engine.Plans
import ExLine.Proofs.Engine.Visits
import ExLine.Proofs.Line.Arguments
import ExLine.Proofs.Line.Names

/-!
Contract: user commands that call one another.

Owns:
- `Engine.Forwards`, a row of user commands of which each calls the next and
  the last calls a command that is none;
- `Engine.runLine_forwards`, by which running the first of the row makes the
  call of the last, at the depth that the row is long, or fails at the limit;
- `Engine.nesting_is_bounded`: every run ends, the depth counts the frames, and
  the limit is exact.

Does not own: argument texts (`ExLine.Proofs.Engine.Handover`), and the expansion of
bodies (`ExLine.Proofs.Engine.Expansion`).

The first line of the row is typed and the others come out of bodies. All that
the induction needs of a line is its head, so it holds for every line with that
head.
-/

set_option autoImplicit false

namespace ExLine

/-! ## Command words -/

namespace Registry

theorem resolve_push (chain : List Registry) (word : String) :
    resolve ({} :: chain) word = resolve chain word :=
  rfl

/-- The full name of a command in the first registry means that command. -/
theorem resolve_of_get?
    {registry : Registry}
    {name : String}
    {command : Command}
    (found : registry.get? name = some command)
    (chain : List Registry) :
    resolve (registry :: chain) name = .ok command := by
  have first : ((registry :: chain).flatMap (·.commands)).find? (fun held => held.name == name)
      = some command := by
    rw [List.flatMap_cons, List.find?_append]
    exact congrArg (Option.or · _) found
  unfold resolve
  simp only [first]

/-- If the first registry has no command of a name, the next one decides. -/
theorem resolve_of_get?_later
    {first second : Registry}
    {name : String}
    {command : Command}
    (absent : first.get? name = none)
    (found : second.get? name = some command)
    (chain : List Registry) :
    resolve (first :: second :: chain) name = .ok command := by
  have later : ((first :: second :: chain).flatMap (·.commands)).find?
      (fun held => held.name == name) = some command := by
    rw [List.flatMap_cons, List.find?_append, List.flatMap_cons, List.find?_append]
    show (first.get? name).or ((second.get? name).or _) = _
    rw [absent, found]
    rfl
  unfold resolve
  simp only [later]

end Registry

/-! ## Bodies -/

namespace Engine

/-- A body that is a line stands for that line. -/
theorem calledText_line
    {chars : List Char}
    (noPercent : '%' ∉ chars)
    (arguments : String)
    (invocation : Invocation) :
    calledText (":" ++ String.ofList chars ++ arguments) invocation
      = String.ofList (':' :: (chars ++ expandBody invocation.text.toList arguments.toList)) := by
  have expanded : expandBody invocation.text.toList
      (":" ++ String.ofList chars ++ arguments).toList
        = ':' :: (chars ++ expandBody invocation.text.toList arguments.toList) := by
    simp only [String.toList_append, String.toList_ofList]
    have noPercentAfterColon : '%' ∉ ':' :: chars := by
      intro member
      rcases List.mem_cons.mp member with isColon | later
      · cases isColon
      · exact noPercent later
    exact expandBody_append noPercentAfterColon _ _
  unfold calledText
  rw [expanded]
  unfold Text.skipBlanks
  rw [String.toList_ofList, List.dropWhile_cons_of_neg (by decide)]

/-! ## Lines that are one call -/

section OneCall

variable {engine : Engine} {call : UserCall} {site : Site} {line tail : Bytes} {name text : String}
  {bang : Bool} {command : Command} {args : List String}

/-- A line that is one call without a range and a background marker hands the
call on, if the command runs where it stands. -/
theorem runLine_called
    (running : engine.scope.isFinished = false)
    (runs : engine.isActive || command.flags.control)
    (asks : Head.read line = .ok (.command ⟨none, name, bang, tail⟩))
    (named : name.isEmpty = false)
    (resolved : Registry.resolve engine.chain name = .ok command)
    (whole : Segment.split command.flags.tailMode tail = .ok ⟨tail, false, none⟩)
    (decoded : Arguments.decode (Arguments.trim tail) = .ok text)
    (taken : Invocation.arguments command.flags engine.env (Arguments.trim tail) text = .ok args) :
    engine.runLine call site line
      = engine.dispatch call site command ⟨command.name, args, text, false, bang, none⟩ := by
  have step : engine.readStep line
      = ⟨.call command ⟨none, name, bang, tail⟩ ⟨tail, false, none⟩, none⟩ := by
    unfold readStep Step.read
    rw [asks]
    simp only [named, Bool.false_eq_true, if_false]
    unfold Step.named
    simp only [resolved, whole, runs, if_true]
  have built : Invocation.build engine command ⟨none, name, bang, tail⟩ ⟨tail, false, none⟩
      = .ok ⟨command.name, args, text, false, bang, none⟩ := by
    unfold Invocation.build
    simp only [decoded, bind, Except.bind, taken]
    rfl
  rw [runLine_eq, running, step]
  simp only [perform, built, asStep, andThen_done, Bool.false_eq_true, if_false]

/-- Every command runs in a branch that is taken. -/
theorem runLine_call
    (running : engine.scope.isFinished = false)
    (active : engine.isActive)
    (asks : Head.read line = .ok (.command ⟨none, name, bang, tail⟩))
    (named : name.isEmpty = false)
    (resolved : Registry.resolve engine.chain name = .ok command)
    (whole : Segment.split command.flags.tailMode tail = .ok ⟨tail, false, none⟩)
    (decoded : Arguments.decode (Arguments.trim tail) = .ok text)
    (taken : Invocation.arguments command.flags engine.env (Arguments.trim tail) text = .ok args) :
    engine.runLine call site line
      = engine.dispatch call site command ⟨command.name, args, text, false, bang, none⟩ := by
  have runs : engine.isActive || command.flags.control := by
    rw [active]
    rfl
  exact runLine_called running runs asks named resolved whole decoded taken

theorem validate_bare
    (accepts : command.accepts args.length) :
    command.validate ⟨command.name, args, text, false, false, none⟩ = .ok () := by
  unfold Command.validate
  simp only [Bool.false_and, Option.isSome_none, Bool.false_eq_true, if_false, accepts, if_true]

end OneCall

/-! ## Rows of user commands -/

/-- The name calls the target through that many user commands, each of which
has a body that is a line: the next name, with the same text after it. -/
inductive Forwards (commands : Registry) (arguments target : String) : Nat → String → Prop where
  | target : Forwards commands arguments target 0 target
  | wrapper
      {count : Nat}
      {name next : String}
      (callable : Head.IsCallable name)
      (defined : commands.get? name = some (Command.user name (":" ++ next ++ arguments)))
      (forwards : Forwards commands arguments target count next) :
      Forwards commands arguments target (count + 1) name

/-- The text that stands after each name hands an argument text on. -/
structure Carries (arguments text : String) : Prop where
  whole : Segment.split .plain (Utf8.ofString text) = .ok ⟨Utf8.ofString text, false, none⟩
  trimmed : Arguments.trim (Utf8.ofString text) = Utf8.ofString text
  words : ∃ args, Arguments.split ⟨false, none⟩ (Utf8.ofString text) = .ok args
  read : ∀ {name : String}, Head.IsCallable name →
    Head.read (Utf8.encode (name.toList ++ expandBody text.toList arguments.toList))
      = .ok (.command ⟨none, name, false, Utf8.ofString text⟩)

/-- In this engine the commands of a registry, and a host command, are called
by their full names. -/
structure Offers (engine : Engine) (commands : Registry) (target : String) (host : Command) :
    Prop where
  running : engine.scope.isFinished = false
  active : engine.isActive
  resolves : ∀ {name command}, commands.get? name = some command →
    Registry.resolve engine.chain name = .ok command
  resolvesTarget : Registry.resolve engine.chain target = .ok host

theorem Offers.push
    {engine : Engine}
    {commands : Registry}
    {target : String}
    {host : Command}
    (offers : engine.Offers commands target host) :
    Offers { engine with scope := engine.scope.push } commands target host where
  running := rfl
  active := rfl
  resolves found := (Registry.resolve_push _ _).trans (offers.resolves found)
  resolvesTarget := (Registry.resolve_push _ _).trans offers.resolvesTarget

theorem decode_ofString (text : String) : Arguments.decode (Utf8.ofString text) = .ok text := by
  unfold Arguments.decode Utf8.ofString
  rw [Utf8.decode_encode, String.ofList_toList]
  rfl

/-- A frame without open blocks hands the reply of its line on. -/
theorem leaveFrame_closed
    {after : Engine}
    {scope : Scope}
    (enclosing : after.scope.enclosing = scope.frames)
    (closed : after.scope.branches = {})
    (reply : Reply) :
    leaveFrame (reply, after) = (reply, { after with scope }) := by
  have noneOpen : after.scope.innermost.branches.isEmpty = true := by
    show after.scope.branches.isEmpty = true
    rw [closed]
    rfl
  unfold leaveFrame Scope.pop
  rw [enclosing]
  cases reply with
  | error error => rfl
  | ok outcome =>
    simp only [Scope.frames, noneOpen, if_true]

theorem withFinished_of_running
    {engine : Engine}
    (running : engine.scope.isFinished = false) :
    engine.withFinished false = engine := by
  unfold withFinished Scope.withFinished
  rw [← running]
  rfl

/-- A line that stops nothing is executed by running it. -/
theorem execute_eq_runTop
    {engine : Engine}
    {source : Source}
    {line : Bytes}
    {result : Reply × Engine}
    (ran : engine.runTop source line = result)
    (running : result.2.scope.isFinished = false) :
    engine.execute source line = result := by
  unfold execute
  rw [ran]
  exact congrArg (Prod.mk result.1) (withFinished_of_running running)

section Row

variable {commands : Registry} {arguments text target name : String} {count : Nat} {host : Command}
  {answer : HostCall → Reply} {args : List String}

/-- The first of a row makes the call of the last if the row is within the
limit, and no call otherwise. -/
theorem runLine_forwards
    (engine : Engine)
    {line : Bytes}
    (forwards : Forwards commands arguments target count name)
    (carries : Carries arguments text)
    (callable : Head.IsCallable target)
    (isHost : host.handler = .host answer)
    (whole : Segment.split host.flags.tailMode (Utf8.ofString text)
      = .ok ⟨Utf8.ofString text, false, none⟩)
    (taken : Invocation.arguments host.flags engine.env (Utf8.ofString text) text = .ok args)
    (accepts : host.accepts args.length)
    (offers : engine.Offers commands target host)
    (asks : Head.read line = .ok (.command ⟨none, name, false, Utf8.ofString text⟩))
    (levels : Nat)
    (site : Site) :
    engine.runLine (runUser levels) site line =
      if count ≤ levels then
        engine.callHost answer
          ⟨⟨host.name, args, text, false, false, none⟩,
            { site with depth := site.depth + count }⟩
      else engine.refuse (.nestingLimit engine.config.maxDepth) := by
  have decoded : Arguments.decode (Arguments.trim (Utf8.ofString text)) = .ok text := by
    rw [carries.trimmed]
    exact decode_ofString text
  induction forwards generalizing engine line levels site with
  | target =>
    rw [runLine_call offers.running offers.active asks callable.named offers.resolvesTarget whole
      decoded (by rwa [carries.trimmed])]
    unfold dispatch
    rw [validate_bare accepts, isHost]
    rfl
  | @wrapper count name next callableName defined forwards inductionHypothesis =>
    obtain ⟨words, split⟩ := carries.words
    have takenByUser : Invocation.arguments
        (Command.user name (":" ++ next ++ arguments)).flags engine.env
        (Arguments.trim (Utf8.ofString text)) text = .ok words := by
      rw [carries.trimmed]
      exact split
    rw [runLine_call offers.running offers.active asks callableName.named
      (offers.resolves defined) carries.whole decoded takenByUser]
    show runUser levels site (":" ++ next ++ arguments)
      ⟨name, words, text, false, false, none⟩ engine = _
    cases levels with
    | zero => rfl
    | succ levels =>
      have callableNext : Head.IsCallable next := by
        cases forwards with
        | target => exact callable
        | wrapper callableNext => exact callableNext
      have isLine := @calledText_line next.toList (Head.percent_not_mem_name callableNext) arguments
        ⟨name, words, text, false, false, none⟩
      rw [String.ofList_toList] at isLine
      have asksNext : Head.read (Utf8.ofString (calledText (":" ++ next ++ arguments)
          ⟨name, words, text, false, false, none⟩))
            = .ok (.command ⟨none, next, false, Utf8.ofString text⟩) := by
        rw [isLine, Utf8.ofString, String.toList_ofList]
        exact (Head.read_colon _).trans (carries.read callableNext)
      rw [runUser_succ, inductionHypothesis { engine with scope := engine.scope.push } taken
        offers.push asksNext, isLine, String.toList_ofList]
      simp only [List.head?_cons, BEq.rfl, if_true]
      by_cases within : count ≤ levels
      · have depth : site.depth + 1 + count = site.depth + (count + 1) := by omega
        rw [if_pos within, if_pos (Nat.succ_le_succ within), depth]
        exact leaveFrame_closed rfl rfl _
      · rw [if_neg within, if_neg (fun more => within (Nat.le_of_succ_le_succ more))]
        exact leaveFrame_closed rfl rfl _

/-- At top level, between two calls. -/
theorem execute_forwards
    {engine : Engine}
    {line : Bytes}
    (reachable : engine.Reachable)
    (active : engine.isActive)
    (forwards : Forwards engine.scope.innermost.commands arguments target count name)
    (carries : Carries arguments text)
    (callable : Head.IsCallable target)
    (registered : engine.builtins.get? target = some host)
    (unshadowed : engine.scope.innermost.commands.get? target = none)
    (isHost : host.handler = .host answer)
    (whole : Segment.split host.flags.tailMode (Utf8.ofString text)
      = .ok ⟨Utf8.ofString text, false, none⟩)
    (taken : Invocation.arguments host.flags engine.env (Utf8.ofString text) text = .ok args)
    (accepts : host.accepts args.length)
    (asks : Head.read line = .ok (.command ⟨none, name, false, Utf8.ofString text⟩))
    (source : Source) :
    engine.execute source line =
      if count ≤ engine.config.maxDepth then
        engine.callHost answer
          ⟨⟨target, args, text, false, false, none⟩, { source, depth := count }⟩
      else engine.refuse (.nestingLimit engine.config.maxDepth) := by
  obtain ⟨-, running⟩ := reachable.sound
  have offers : engine.Offers engine.scope.innermost.commands target host := by
    refine ⟨running, active, fun found => ?_, ?_⟩
    · rw [reachable.chain]
      exact Registry.resolve_of_get? found _
    · rw [reachable.chain]
      exact Registry.resolve_of_get?_later unshadowed registered _
  have sameName : host.name = target := by
    simpa using List.find?_some registered
  have ran := runLine_forwards engine forwards carries callable isHost whole taken accepts offers
    asks engine.config.maxDepth { source }
  rw [sameName, Nat.zero_add] at ran
  apply execute_eq_runTop ran
  split <;> exact running

end Row

/-! ## The limit -/

theorem carries_nothing : Carries "" "" where
  whole := rfl
  trimmed := rfl
  words := ⟨[], Arguments.split_nil _⟩
  read callable := by
    show Head.read (Utf8.encode (_ ++ [])) = _
    rw [List.append_nil]
    exact callable

theorem arguments_nothing (flags : Flags) (env : Env) :
    Invocation.arguments flags env (Utf8.ofString "") "" = .ok [] := by
  unfold Invocation.arguments
  split
  · rfl
  · exact Arguments.split_nil _

/-- **Nesting is bounded.** Every run ends: a line goes on with a shorter suffix
of itself, or enters the body of a user command at a larger depth, which is
within the limit, and these steps cannot go on for ever. The equations say that
a run takes no other step. Wherever a run comes, the depth is the number of frames
above the root and within the limit. The limit is exact: a row
of user commands makes the call at its end once if it is no longer than the
limit, and otherwise fails without a call. -/
theorem nesting_is_bounded :
    (WellFounded fun later earlier : Visit => Visit.Next earlier later)
    ∧ (∀ visit next : Visit, Visit.Next visit next →
        (next.site = visit.site ∧ next.line <:+ visit.line
            ∧ next.line.length < visit.line.length)
          ∨ (next.site = { visit.site with depth := visit.site.depth + 1 }
            ∧ visit.site.depth < visit.engine.config.maxDepth))
    ∧ (∀ (engine : Engine) (source : Source) (line : Bytes),
        engine.runTop source line = Visit.run ⟨engine, { source }, line⟩)
    ∧ (∀ visit : Visit, visit.run =
        if visit.engine.scope.isFinished then visit.engine.done
        else
          match visit.step.rest with
          | none => (andThen visit.performed.1 (.ok Outcome.done), visit.performed.2)
          | some rest =>
            let later := (visit.continued rest).run
            (andThen visit.performed.1 later.1, later.2))
    ∧ (∀ (visit : Visit) (body : String) (invocation : Invocation),
        runUser visit.levels visit.site body invocation visit.engine =
          if visit.site.depth < visit.engine.config.maxDepth then
            if (calledText body invocation).toList.head? == some ':' then
              leaveFrame (visit.entered (calledText body invocation)).run
            else visit.engine.runShellBody (calledText body invocation) invocation
          else visit.engine.refuse (.nestingLimit visit.engine.config.maxDepth))
    ∧ (∀ (engine : Engine) (start visit : Visit),
        engine.Reachable → Begins engine start → Relation.ReflTransGen Visit.Next start visit →
        visit.site.depth = visit.engine.scope.depth
          ∧ visit.site.depth ≤ engine.config.maxDepth)
    ∧ (∀ (engine : Engine) (source : Source) (count : Nat) (name target : String)
        (host : Command) (answer : HostCall → Reply),
        engine.Reachable → engine.isActive →
        Forwards engine.scope.innermost.commands "" target count name →
        Chars.isWord target.toList → engine.builtins.get? target = some host →
        engine.scope.innermost.commands.get? target = none →
        host.handler = .host answer → host.accepts 0 →
        engine.execute source (Utf8.ofString name) =
          if count ≤ engine.config.maxDepth then
            engine.callHost answer ⟨⟨target, [], "", false, false, none⟩, ⟨source, count⟩⟩
          else (.error (.nestingLimit engine.config.maxDepth), engine)) := by
  refine ⟨Visit.wellFounded_next, fun visit next goes => goes.shrinks, runTop_eq_run, Visit.run_eq,
    Visit.runUser_eq, ?_, ?_⟩
  · intro engine start visit reachable begins visited
    have inStep := (begins.inStep reachable).of_visited visited
    exact ⟨inStep.frames, inStep.bounded⟩
  · intro engine source count name target host answer reachable active forwards isWord registered
      unshadowed isHost accepts
    have callable := Head.isCallable_of_isWord isWord
    have asks : Head.IsCallable name := by
      cases forwards with
      | target => exact callable
      | wrapper callableName => exact callableName
    exact execute_forwards reachable active forwards carries_nothing callable registered unshadowed
      isHost rfl (arguments_nothing _ _) accepts asks source

/-- A host command that takes any arguments and does nothing. -/
def idleHost : Command where
  name := "h"
  handler := .host fun _ => .ok Outcome.done

/-- An engine in which `a` calls `b`, and `b` calls a host command. -/
def twoDeep (limit : Nat) : Engine where
  config := { maxDepth := limit }
  builtins := ⟨Command.builtins ++ [idleHost]⟩
  scope := { innermost := { commands := ⟨[Command.user "a" ":b", Command.user "b" ":h"]⟩ } }

theorem reachable_twoDeep (limit : Nat) : (twoDeep limit).Reachable := by
  have registered : register { config := { maxDepth := limit } } idleHost
      = .ok { twoDeep limit with scope := {} } := rfl
  have withHost : Reachable { twoDeep limit with scope := {} } := by
    refine .register idleHost (fun action isBuiltin => ?_) registered (.start _ _ _ _)
    cases isBuiltin
  have restored : (restoreAll { twoDeep limit with scope := {} } [⟨"a", ":b"⟩, ⟨"b", ":h"⟩]).2
      = twoDeep limit := rfl
  rw [← restored]
  exact .restore _ withHost

theorem forwards_twoDeep (limit : Nat) :
    Forwards (twoDeep limit).scope.innermost.commands "" "h" 2 "a" := by
  have last : Forwards (twoDeep limit).scope.innermost.commands "" "h" 1 "b" :=
    .wrapper (Head.isCallable_of_isWord rfl) rfl .target
  exact .wrapper (Head.isCallable_of_isWord rfl) rfl last

/-- The line that calls `a`, within a limit of two. -/
def twoDeepStart : Visit := ⟨twoDeep 2, ⟨.typed, 0⟩, Utf8.ofString "a"⟩

/-- Two user commands reach the host within a limit of two and not within a
limit of one. On the way `b` stands at depth one, in one frame above the root. -/
theorem nesting_is_bounded_two_deep :
    twoDeepStart.Next (twoDeepStart.entered ":b")
    ∧ ((twoDeepStart.entered ":b").site.depth = (twoDeepStart.entered ":b").engine.scope.depth
      ∧ (twoDeepStart.entered ":b").site.depth ≤ 2)
    ∧ execute (twoDeep 2) .typed (Utf8.ofString "a")
        = (.ok Outcome.done, { twoDeep 2 with
            calls := [⟨⟨"h", [], "", false, false, none⟩, ⟨.typed, 2⟩⟩] })
    ∧ execute (twoDeep 1) .typed (Utf8.ofString "a") = (.error (.nestingLimit 1), twoDeep 1) := by
  obtain ⟨-, -, -, -, -, inStep, limitIsExact⟩ := nesting_is_bounded
  have calls : twoDeepStart.Dispatches (Command.user "a" ":b") ⟨"a", [], "", false, false, none⟩ :=
    ⟨rfl, ⟨⟨none, "a", false, []⟩, ⟨[], false, none⟩,
      Step.read_eq_call_iff.mpr ⟨Head.isCallable_of_isWord rfl, rfl, rfl, rfl, rfl⟩,
      by decide +kernel⟩, rfl⟩
  have text : calledText ":b" ⟨"a", [], "", false, false, none⟩ = ":b" := rfl
  have enters : twoDeepStart.Next (twoDeepStart.entered ":b") := by
    have entersText := Visit.Next.enters calls rfl rfl Nat.zero_lt_two
    rwa [text] at entersText
  have ran (limit : Nat) := limitIsExact (twoDeep limit) .typed 2 "a" "h" idleHost _
    (reachable_twoDeep limit) rfl (forwards_twoDeep limit) rfl rfl rfl rfl rfl
  refine ⟨enters, ?_, ?_, ?_⟩
  · exact inStep _ _ _ (reachable_twoDeep 2) (.line .typed _) (.single enters)
  · exact (ran 2).trans (if_pos (Nat.le_refl 2))
  · exact (ran 1).trans (if_neg (by decide))

end Engine

end ExLine

import ExLine.Engine.Run

/-!
Contract: when the words `if` and `elseif` reach the open blocks.

Owns:
- `CommandHead.condition?`, the condition that such a word hands to its action;
- `Engine.perform_condition` and `Engine.perform_no_condition`, what one
  sub-command with such a word does;
- the exact cases in which an `if` opens its block and an `elseif` moves within
  it.

Does not own: how a condition is evaluated (`ExLine.Engine.Conditional`).

A condition that is handed over opens its block however its evaluation ends.
One that is refused before that, while the line is read or the call is checked,
leaves the engine as it was.
-/

set_option autoImplicit false

namespace ExLine

/-- The condition that follows a word such as `if`. There is none if the text
has an open quote or a background marker, is malformed or missing, or if the
word carries a range or a bang. -/
def CommandHead.condition? (head : CommandHead) : Option String :=
  match Segment.split .expression head.tail with
  | .error _ => none
  | .ok segment =>
    match Arguments.decode (Arguments.trim segment.body) with
    | .error _ => none
    | .ok text =>
      if head.range.isSome || head.bang || segment.background || text.isEmpty then none
      else some text

/-- A command that takes a condition and runs in branches that are not taken,
too. -/
structure Command.TakesCondition (command : Command) (action : Builtin) : Prop where
  /-- The empty word does not mean it. -/
  named : "" ∉ command.names
  flags : command.flags = Command.conditionFlags
  minArgs : command.minArgs = 1
  maxArgs : command.maxArgs = some 1
  handler : command.handler = .builtin action

/-- The call that a condition makes. -/
def Invocation.ofCondition (name text : String) : Invocation where
  name
  args := [text]
  text
  background := false
  bang := false
  range := none

namespace Engine

/-- Whether a condition evaluates to true. -/
def holds (engine : Engine) (text : String) : Bool :=
  isTrue (engine.condition (.ofCondition "" text))

theorem isTrue_condition (engine : Engine) (name text : String) :
    isTrue (engine.condition (.ofCondition name text)) = engine.holds text :=
  rfl

/-- A word that means a command is empty only if the command bears the empty
name. -/
theorem isEmpty_of_resolve
    {chain : List Registry}
    {word : String}
    {command : Command}
    (resolved : Registry.resolve chain word = .ok command)
    (named : "" ∉ command.names) :
    word.isEmpty = false := by
  rw [Bool.eq_false_iff]
  intro empty
  obtain rfl : word = "" := by simpa using empty
  apply named
  unfold Registry.resolve at resolved
  simp only at resolved
  split at resolved
  · rename_i found
    cases resolved
    have sameName := List.find?_some found
    simp only [beq_iff_eq] at sameName
    simp [Command.names, sameName]
  split at resolved
  · rename_i found
    cases resolved
    have sameAbbreviation := List.find?_some found
    simp only [beq_iff_eq] at sameAbbreviation
    simp [Command.names, sameAbbreviation]
  · simp [Registry.withPrefix] at resolved

/-! ## One sub-command -/

section Step

variable {engine : Engine} {call : UserCall} {site : Site} {line : Bytes} {head : CommandHead}
  {command : Command} {action : Builtin}

theorem readStep_condition
    (takes : command.TakesCondition action)
    (readHead : Head.read line = .ok (.command head))
    (resolved : Registry.resolve engine.chain head.name = .ok command) :
    engine.readStep line =
      match Segment.split .expression head.tail with
      | .error error =>
        if engine.isActive then ⟨.fail error, none⟩ else ⟨.skip, plainRest head.tail⟩
      | .ok segment => ⟨.call command head segment, segment.rest⟩ := by
  have mode : command.flags.tailMode = .expression := by rw [takes.flags]; rfl
  have control : command.flags.control = true := by rw [takes.flags]; rfl
  have named := isEmpty_of_resolve resolved takes.named
  unfold readStep Step.read
  rw [readHead]
  simp only [named, Bool.false_eq_true, if_false]
  unfold Step.named
  rw [resolved]
  simp only [mode]
  cases Segment.split .expression head.tail with
  | error error => rfl
  | ok segment => simp only [control, Bool.or_true, if_true]

/-- The call of a condition is made exactly if nothing about the sub-command is
refused before. -/
theorem build_condition
    (takes : command.TakesCondition action)
    {segment : Segment}
    {text : String}
    (decoded : Arguments.decode (Arguments.trim segment.body) = .ok text) :
    Invocation.build engine command head segment =
      match head.range with
      | some _ => .error (.markNotSupported command.name .range)
      | none => .ok {
          name := command.name
          args := if text.isEmpty then [] else [text]
          text
          background := segment.background
          bang := head.bang
          range := none } := by
  have expression : (command.flags.raw || command.flags.expression) = true := by
    rw [takes.flags]; rfl
  have noRange : command.flags.range = false := by rw [takes.flags]; rfl
  unfold Invocation.build Invocation.arguments Invocation.lines
  simp only [decoded, expression, noRange, if_true, bind, Except.bind, pure, Except.pure]
  cases head.range <;> rfl

/-- A call of such a command passes the checks only if it has one argument and
no mark. -/
theorem unmarked_of_validate
    (takes : command.TakesCondition action)
    {invocation : Invocation}
    (passes : command.validate invocation = .ok ()) :
    invocation.bang = false ∧ invocation.background = false ∧ invocation.args.length = 1 := by
  have noBang : command.flags.bang = false := by rw [takes.flags]; rfl
  have noBackground : command.flags.background = false := by rw [takes.flags]; rfl
  unfold Command.validate Command.accepts at passes
  simp only [noBang, noBackground, takes.minArgs, takes.maxArgs] at passes
  grind

/-- A sub-command with a condition runs its action on it. -/
theorem perform_condition
    (takes : command.TakesCondition action)
    (readHead : Head.read line = .ok (.command head))
    (resolved : Registry.resolve engine.chain head.name = .ok command)
    {text : String}
    (condition : head.condition? = some text) :
    engine.perform call site (engine.readStep line).plan
      = asStep (engine.runBuiltin action site (.ofCondition command.name text)) := by
  rw [readStep_condition takes readHead resolved]
  unfold CommandHead.condition? at condition
  split at condition
  · cases condition
  rename_i segment cut
  split at condition
  · cases condition
  rename_i decoded isText
  split at condition
  · cases condition
  rename_i unmarked
  simp only [Bool.or_eq_true, not_or, Bool.not_eq_true] at unmarked
  obtain ⟨⟨⟨noRange, noBang⟩, noBackground⟩, nonempty⟩ := unmarked
  cases condition
  have noRange : head.range = none := by simpa using noRange
  unfold perform
  simp only [build_condition takes isText, noRange, nonempty, noBackground, noBang,
    Bool.false_eq_true, if_false]
  show asStep (engine.dispatch call site command (.ofCondition command.name text)) = _
  unfold dispatch Command.validate Command.accepts
  simp only [takes.minArgs, takes.maxArgs, takes.handler]
  rfl

/-- A sub-command without a condition changes nothing, whatever it replies. -/
theorem perform_no_condition
    (takes : command.TakesCondition action)
    (readHead : Head.read line = .ok (.command head))
    (resolved : Registry.resolve engine.chain head.name = .ok command)
    (condition : head.condition? = none) :
    (engine.perform call site (engine.readStep line).plan).2 = engine := by
  rw [readStep_condition takes readHead resolved]
  unfold CommandHead.condition? at condition
  split at condition
  · split <;> rfl
  rename_i segment cut
  unfold perform
  simp only
  split at condition
  · rename_i error malformed
    have refused : Invocation.build engine command head segment = .error error := by
      unfold Invocation.build
      simp only [malformed, bind, Except.bind]
    rw [refused]
  rename_i text isText
  rw [build_condition takes isText]
  split at condition
  · rename_i marked
    cases ranged : head.range with
    | some range => rfl
    | none =>
      unfold dispatch
      simp only
      split
      · rfl
      · rename_i passes
        obtain ⟨noBang, noBackground, oneArgument⟩ := unmarked_of_validate takes passes
        simp only at noBang noBackground oneArgument
        grind
  · cases condition

end Step

/-! ## Blocks -/

section Blocks

variable {engine : Engine} {site : Site} {name text : String}

/-- An `if` opens a block whatever its condition evaluates to. -/
theorem branches_ifBlock :
    (engine.ifBlock (.ofCondition name text)).2.scope.branches
      = engine.scope.branches.openBlock (engine.isActive && engine.holds text) := by
  unfold ifBlock
  simp only [isTrue_condition]
  split
  · rename_i active
    rw [show engine.isActive = true from active, Bool.true_and]
    rfl
  · rename_i inactive
    rw [show engine.isActive = false from Bool.eq_false_iff.mpr inactive, Bool.false_and]
    rfl

/-- An `elseif` moves within its block whatever its condition evaluates to. -/
theorem branches_elseIfBranch
    {level : Level}
    {enclosing : List Level}
    (inside : engine.scope.branches.levels = level :: enclosing)
    (notElse : level.seenElse = false) :
    (engine.elseIfBranch (.ofCondition name text)).2.scope.branches.levels
      = { level with
          active := level.enclosingActive && !level.taken && engine.holds text
          taken := level.taken || (level.enclosingActive && engine.holds text) } :: enclosing := by
  unfold elseIfBranch Branches.needsCondition Branches.nextBranch
  simp only [inside, notElse, isTrue_condition]
  cases level.enclosingActive <;> cases level.taken <;> rfl

end Blocks

/-- The condition of a sub-command evaluates to true. -/
def ConditionHolds (engine : Engine) (head : CommandHead) : Prop :=
  ∃ text, head.condition? = some text ∧ engine.holds text

theorem takesCondition_if
    {command : Command}
    (builtin : Registry.builtins.get? "if" = some command) :
    command.TakesCondition .ifBlock := by
  cases builtin
  exact ⟨by decide, rfl, rfl, rfl, rfl⟩

theorem takesCondition_elseif
    {command : Command}
    (builtin : Registry.builtins.get? "elseif" = some command) :
    command.TakesCondition .elseIfBranch := by
  cases builtin
  exact ⟨by decide, rfl, rfl, rfl, rfl⟩

/-- The sub-command opens a block: there is one more level, and it is active
only if the code around it was and the condition holds. -/
def OpensBlock (engine : Engine) (head : CommandHead) (after : Engine) : Prop :=
  after.scope.branches.depth = engine.scope.branches.depth + 1
    ∧ (after.isActive → engine.isActive ∧ engine.ConditionHolds head)

/-- The sub-command moves within the block of a level: there are as many levels
as before, and the innermost is active only if no branch of it was taken, the
code around it is active and the condition holds. -/
def MovesWithin (engine : Engine) (level : Level) (head : CommandHead) (after : Engine) : Prop :=
  after.scope.branches.depth = engine.scope.branches.depth
    ∧ (after.isActive → level.taken = false ∧ level.enclosingActive ∧ engine.ConditionHolds head)

section Verdicts

variable {engine after : Engine} {head : CommandHead} {text : String} {level : Level}
  {enclosing : List Level}

theorem opensBlock_of_branches
    (condition : head.condition? = some text)
    (opened : after.scope.branches
      = engine.scope.branches.openBlock (engine.isActive && engine.holds text)) :
    engine.OpensBlock head after := by
  refine ⟨?_, fun active => ?_⟩
  · rw [opened]
    rfl
  · have both : engine.isActive && (engine.isActive && engine.holds text) := by
      rw [isActive, opened] at active
      exact active
    simp only [Bool.and_eq_true] at both
    exact ⟨both.1, text, condition, both.2.2⟩

theorem not_opensBlock_self : ¬ engine.OpensBlock head engine := by
  intro opens
  exact absurd opens.1 (Nat.ne_of_lt (Nat.lt_succ_self _))

theorem movesWithin_of_levels
    (condition : head.condition? = some text)
    (inside : engine.scope.branches.levels = level :: enclosing)
    (moved : after.scope.branches.levels
      = { level with
          active := level.enclosingActive && !level.taken && engine.holds text
          taken := level.taken || (level.enclosingActive && engine.holds text) } :: enclosing) :
    engine.MovesWithin level head after := by
  refine ⟨?_, fun active => ?_⟩
  · rw [Branches.depth, Branches.depth, moved, inside]
    rfl
  · have all : level.enclosingActive && !level.taken && engine.holds text := by
      rw [isActive, Branches.isActive, moved] at active
      exact active
    simp only [Bool.and_eq_true, Bool.not_eq_true'] at all
    exact ⟨all.1.2, all.1.1, text, condition, all.2⟩

/-- Without a condition, staying in place is right only in a branch that is not
taken. -/
theorem movesWithin_self_iff
    (condition : head.condition? = none)
    (inside : engine.scope.branches.levels = level :: enclosing) :
    engine.MovesWithin level head engine ↔ level.active = false := by
  have activeIs : engine.isActive = level.active := by
    rw [isActive, Branches.isActive, inside]
  constructor
  · intro moves
    rw [Bool.eq_false_iff]
    intro active
    obtain ⟨-, -, text, given, -⟩ := moves.2 (activeIs.trans active)
    rw [condition] at given
    cases given
  · intro inactive
    refine ⟨rfl, fun active => ?_⟩
    rw [activeIs, inactive] at active
    cases active

end Verdicts

/-- **A block follows exactly the conditions that are handed over.** An `if`
opens its block if and only if its condition is not refused before it is
looked at. An `elseif` moves within its block if and only if the same holds, or
the block was in a branch that is not taken anyway. A condition that is refused
leaves the engine as it was: the next `endif` then closes an outer block, and
the branch before an `elseif` goes on. -/
theorem block_follows_condition_iff
    {engine : Engine}
    {call : UserCall}
    {site : Site}
    {line : Bytes}
    {head : CommandHead}
    {command : Command}
    (readHead : Head.read line = .ok (.command head))
    (resolved : Registry.resolve engine.chain head.name = .ok command) :
    let after := (engine.perform call site (engine.readStep line).plan).2
    (Registry.builtins.get? "if" = some command →
      (engine.OpensBlock head after ↔ head.condition?.isSome)
        ∧ (head.condition? = none → after = engine))
    ∧ (Registry.builtins.get? "elseif" = some command →
      ∀ level enclosing, engine.scope.branches.levels = level :: enclosing →
        level.seenElse = false →
        (engine.MovesWithin level head after ↔ head.condition?.isSome ∨ level.active = false)
          ∧ (head.condition? = none → after = engine)) := by
  intro after
  constructor
  · intro builtin
    have takes := takesCondition_if builtin
    cases condition : head.condition? with
    | none =>
      have same : after = engine := perform_no_condition takes readHead resolved condition
      rw [same]
      simp [not_opensBlock_self]
    | some text =>
      have opened : engine.OpensBlock head after := by
        refine opensBlock_of_branches condition ?_
        show (engine.perform call site (engine.readStep line).plan).2.scope.branches = _
        rw [perform_condition takes readHead resolved condition]
        exact branches_ifBlock
      simp [opened]
  · intro builtin level enclosing inside notElse
    have takes := takesCondition_elseif builtin
    cases condition : head.condition? with
    | none =>
      have same : after = engine := perform_no_condition takes readHead resolved condition
      rw [same, movesWithin_self_iff condition inside]
      simp
    | some text =>
      have moved : engine.MovesWithin level head after := by
        refine movesWithin_of_levels condition inside ?_
        show (engine.perform call site (engine.readStep line).plan).2.scope.branches.levels = _
        rw [perform_condition takes readHead resolved condition]
        exact branches_elseIfBranch inside notElse
      simp [moved]

/-- In a new engine, an `if` with an undefined variable opens its block and one
with nothing after it does not. After a branch that was taken, an `elseif` with
an open quote leaves that branch running. -/
theorem block_follows_condition_in_new_engine :
    OpensBlock {} ⟨none, "if", false, Utf8.ofString "unknown"⟩
        (perform {} (runUser 64) ⟨.script, 0⟩ (readStep {} (Utf8.ofString "if unknown")).plan).2
    ∧ ¬ OpensBlock {} ⟨none, "if", false, []⟩
        (perform {} (runUser 64) ⟨.script, 0⟩ (readStep {} (Utf8.ofString "if")).plan).2
    ∧ ¬ MovesWithin (withBranches {} ⟨[⟨true, true, true, false⟩]⟩) ⟨true, true, true, false⟩
        ⟨none, "elseif", false, Utf8.ofString "'a"⟩
        (perform (withBranches {} ⟨[⟨true, true, true, false⟩]⟩) (runUser 64) ⟨.script, 0⟩
          (readStep (withBranches {} ⟨[⟨true, true, true, false⟩]⟩)
            (Utf8.ofString "elseif 'a")).plan).2 := by
  have isIf : Registry.resolve (chain {}) "if" = .ok Command.builtins[3] := rfl
  refine ⟨?_, ?_, ?_⟩
  · have readHead : Head.read (Utf8.ofString "if unknown")
        = .ok (.command ⟨none, "if", false, Utf8.ofString "unknown"⟩) := by with_unfolding_all rfl
    exact ((block_follows_condition_iff readHead isIf).1 rfl).1.mpr (by decide +kernel)
  · intro opens
    have readHead : Head.read (Utf8.ofString "if") = .ok (.command ⟨none, "if", false, []⟩) := by
      with_unfolding_all rfl
    have handedOver := ((block_follows_condition_iff readHead isIf).1 rfl).1.mp opens
    exact absurd handedOver (by decide +kernel)
  · intro moves
    have readHead : Head.read (Utf8.ofString "elseif 'a")
        = .ok (.command ⟨none, "elseif", false, Utf8.ofString "'a"⟩) := by with_unfolding_all rfl
    have isElseIf : Registry.resolve (chain (withBranches {} ⟨[⟨true, true, true, false⟩]⟩)) "elseif"
        = .ok Command.builtins[4] := rfl
    have handedOver :=
      ((block_follows_condition_iff readHead isElseIf).2 rfl _ [] rfl rfl).1.mp moves
    exact absurd handedOver (by decide +kernel)

end Engine

end ExLine

import ExLine.Engine.Script
import ExLine.Proofs.Line.Arguments

/-!
Contract: scripts in blocks, and what their block structure says they mean.

Owns:
- `Script.Code` and `Script.Arms`, programs of lines and nested blocks;
- their flattening, one line for each line or keyword;
- `Script.Code.run`, the interpreter that goes by the block structure;
- `Script.Code.WellFormed`, the lines and conditions that a program may hold.

Does not own: that running the flattened program means the same
(`ExLine.Proofs.Script.Refinement`).

The interpreter knows no stack of open blocks. It evaluates the conditions of a
block in order until one is true, runs the branch of that one, and passes over
all others without looking at them.
-/

set_option autoImplicit false

namespace ExLine

/-! ## Traces -/

/-- What a part of a script yields: the combined outcome of its lines, and
their errors in order. -/
structure Trace where
  outcome : Outcome
  errors : List CommandError
  deriving DecidableEq, Repr

namespace Trace

def empty : Trace := ⟨Outcome.done, []⟩

/-- One part of a script after another. -/
def append (earlier later : Trace) : Trace :=
  ⟨earlier.outcome.combine later.outcome, earlier.errors ++ later.errors⟩

/-- The trace of one reply: an error leaves no outcome. -/
def ofReply : Reply → Trace
  | .ok outcome => ⟨outcome, []⟩
  | .error error => ⟨Outcome.done, [error]⟩

end Trace

/-- The truth value of a condition as it is written. -/
def Engine.verdict (engine : Engine) (condition : List Char) : Except ExprError Bool := do
  let expr ← Expr.parse (String.ofList (Chars.trimBlanks condition))
  let value ← expr.eval engine.bindings
  return value.isTruthy

namespace Script

/-! ## Programs -/

mutual

/-- A program of lines and blocks. -/
inductive Code where
  | done
  | line (text : List Char) (next : Code)
  /-- A block: its first condition and branch, its other branches, and what
  follows it. -/
  | block (condition : List Char) (body : Code) (arms : Arms) (next : Code)

/-- The other branches of a block, up to its end. -/
inductive Arms where
  | close
  | fallback (body : Code)
  | branch (condition : List Char) (body : Code) (arms : Arms)

end

mutual

/-- The program as lines of a script. -/
def Code.lines : Code → List (List Char)
  | .done => []
  | .line text next => text :: next.lines
  | .block condition body arms next =>
    ("if".toList ++ ' ' :: condition) :: body.lines ++ arms.lines ++ next.lines

/-- The rest of a block as lines of a script. -/
def Arms.lines : Arms → List (List Char)
  | .close => ["endif".toList]
  | .fallback body => "else".toList :: body.lines ++ ["endif".toList]
  | .branch condition body arms =>
    ("elseif".toList ++ ' ' :: condition) :: body.lines ++ arms.lines

end

/-- The program as the text of a script. -/
def Code.text (code : Code) : String :=
  String.ofList (code.lines.flatMap fun line => line ++ ['\n'])

/-! ## What a program means -/

mutual

/-- Runs a program by its block structure. -/
def Code.run (engine : Engine) : Code → Trace × Engine
  | .done => (Trace.empty, engine)
  | .line text next =>
    let (reply, after) := engine.runTop .script (Utf8.encode text)
    let (later, last) := next.run after
    ((Trace.ofReply reply).append later, last)
  | .block condition body arms next =>
    let verdict := engine.verdict condition
    let (inside, after) := if Engine.isTrue verdict then body.run engine else arms.run engine
    let (later, last) := next.run after
    (((Trace.ofReply (Engine.conditionReply verdict)).append inside).append later, last)

/-- Chooses among the other branches of a block and runs the one chosen. -/
def Arms.run (engine : Engine) : Arms → Trace × Engine
  | .close => (Trace.empty, engine)
  | .fallback body => body.run engine
  | .branch condition body arms =>
    let verdict := engine.verdict condition
    let (inside, after) := if Engine.isTrue verdict then body.run engine else arms.run engine
    ((Trace.ofReply (Engine.conditionReply verdict)).append inside, after)

end

/-! ## Which lines and conditions a program may hold -/

/-- The text stays on one line. -/
def OneLine (text : List Char) : Prop :=
  '\n' ∉ text ∧ '\r' ∉ text

instance : DecidablePred OneLine := fun text =>
  inferInstanceAs (Decidable ('\n' ∉ text ∧ '\r' ∉ text))

/-- A line that calls a fixed command by its full name, other than one that
decides which lines run. -/
inductive IsLeaf (commands : Registry) : List Char → Prop where
  | intro
      {blanks word tail : List Char}
      {command : Command}
      (blank : blanks.all Chars.isBlank)
      (isWord : Chars.isWord word)
      (ends : Chars.endsWord tail)
      (held : commands.get? (String.ofList word) = some command)
      (plain : command.flags.control = false)
      (noFinish : command.name ≠ "finish")
      (noBar : '|' ∉ blanks ++ (word ++ tail))
      (oneLine : OneLine (blanks ++ (word ++ tail))) :
      IsLeaf commands (blanks ++ (word ++ tail))

/-- A condition that makes up the arguments of its line. -/
structure IsCondition (condition : List Char) : Prop where
  whole : Segment.split .expression (Utf8.encode condition)
    = .ok ⟨Utf8.encode condition, false, none⟩
  nonblank : condition.all Chars.isBlank = false
  oneLine : OneLine condition

mutual

/-- All lines and conditions of a program are as they may be. -/
def Code.WellFormed (commands : Registry) : Code → Prop
  | .done => True
  | .line text next => IsLeaf commands text ∧ next.WellFormed commands
  | .block condition body arms next =>
    IsCondition condition ∧ body.WellFormed commands ∧ arms.WellFormed commands
      ∧ next.WellFormed commands

/-- All lines and conditions of the rest of a block are as they may be. -/
def Arms.WellFormed (commands : Registry) : Arms → Prop
  | .close => True
  | .fallback body => body.WellFormed commands
  | .branch condition body arms =>
    IsCondition condition ∧ body.WellFormed commands ∧ arms.WellFormed commands

end

end Script

end ExLine

import ExLine.Engine.Conditional
import ExLine.Engine.KeyMappings
import ExLine.Engine.Navigation
import ExLine.Engine.Plan
import ExLine.Engine.Shell
import ExLine.Engine.UserCommands
import ExLine.Engine.Variables

/-!
Contract: running command lines.

Owns:
- `Engine.dispatch`, which hands a call to what carries it out;
- `Engine.runLine`, which runs the sub-commands of a line in order;
- `Engine.runUser`, which runs a user command;
- `Engine.execute`, one line at top level.

Does not own: scripts (`ExLine.Engine.Script`).

A host command is assumed to reply and to leave the engine alone: of its call only
the record in `Engine.calls` remains.

Running a line is parametric in how user commands run. `Engine.runUser` closes
the knot by recursion on the number of levels that are left, so a user command
that calls itself ends at the limit.
-/

set_option autoImplicit false

namespace ExLine

/-- How a user command runs: where it is called, its body and the call. -/
abbrev UserCall := Site → String → Invocation → Engine → Reply × Engine

/-- The body of a user command with `%a` replaced by the argument text and
`%%` by a percent sign. Any other percent sign stands for itself. -/
def expandBody (args : List Char) : List Char → List Char
  | [] => []
  | '%' :: 'a' :: rest => args ++ expandBody args rest
  | '%' :: '%' :: rest => '%' :: expandBody args rest
  | char :: rest => char :: expandBody args rest

namespace Engine

/-! ## One call -/

/-- Carries a built-in action out. -/
def runBuiltin (engine : Engine) (action : Builtin) (site : Site) (invocation : Invocation) :
    Reply × Engine :=
  match action with
  | .echo => engine.echo invocation
  | .assign => engine.assign invocation
  | .unassign => engine.unassign invocation
  | .ifBlock => engine.ifBlock invocation
  | .elseIfBranch => engine.elseIfBranch invocation
  | .elseBranch => engine.elseBranch
  | .endIf => engine.endIf
  | .finish => engine.finish site
  | .define => engine.define invocation
  | .delete => engine.delete invocation
  | .clear => engine.clear
  | .shell => engine.shell invocation
  | .changeDirectory => engine.changeDirectory invocation
  | .map modes noremap => engine.map modes noremap invocation
  | .unmap modes => engine.unmap modes invocation
  | .abbreviate noremap => engine.abbreviate noremap invocation
  | .unabbreviate => engine.unabbreviate invocation

/-- Hands a call to the host and records it. The host is assumed to change nothing
of the engine. -/
def callHost (engine : Engine) (answer : HostCall → Reply) (call : HostCall) : Reply × Engine :=
  (answer call, { engine with calls := engine.calls ++ [call] })

/-- Checks a call and hands it to what carries it out. -/
def dispatch (engine : Engine) (call : UserCall) (site : Site) (command : Command)
    (invocation : Invocation) : Reply × Engine :=
  match command.validate invocation with
  | .error error => engine.refuse error
  | .ok () =>
    match command.handler with
    | .builtin action => engine.runBuiltin action site invocation
    | .host answer => engine.callHost answer { invocation, site }
    | .user body => call site body invocation engine

/-! ## One sub-command -/

/-- The reply of a sub-command: no outcome if it asked for nothing. -/
abbrev StepReply := Except CommandError (Option Outcome)

/-- The reply of a call as the reply of a sub-command. -/
def asStep (result : Reply × Engine) : StepReply × Engine :=
  (result.1.map some, result.2)

/-- Carries a plan out. -/
def perform (engine : Engine) (call : UserCall) (site : Site) (plan : Plan) :
    StepReply × Engine :=
  match plan with
  | .skip => (.ok none, engine)
  | .fail error => (.error error, engine)
  | .move spec =>
    match spec.resolve engine.view.cursor engine.view.length with
    | .ok range => (.ok none, engine.moveTo range)
    | .error error => (.error (.invalidRange error), engine)
  | .call command head segment =>
    match Invocation.build engine command head segment with
    | .error error => (.error error, engine)
    | .ok invocation => asStep (engine.dispatch call site command invocation)

/-- Reads the sub-command at the front of a line. -/
def readStep (engine : Engine) (line : Bytes) : Step :=
  Step.read engine.chain engine.isActive line

/-! ## Lines -/

/-- The reply of a sub-command followed by the reply of the rest of its line:
the first error, or else the outcomes combined. -/
def andThen (first : StepReply) (rest : Reply) : Reply :=
  match first, rest with
  | .error error, _ => .error error
  | .ok _, .error error => .error error
  | .ok none, .ok outcome => .ok outcome
  | .ok (some earlier), .ok later => .ok (earlier.combine later)

/-- Runs the sub-commands of a line in order. A failing one does not keep the
later ones from running; the first error is the reply. The line ends early if
its frame is stopped. -/
def runLine (engine : Engine) (call : UserCall) (site : Site) (line : Bytes) : Reply × Engine :=
  if engine.scope.isFinished then engine.done
  else
    let step := engine.readStep line
    let (first, afterFirst) := engine.perform call site step.plan
    match _left : step.rest with
    | none => (andThen first (.ok Outcome.done), afterFirst)
    | some rest =>
      let (later, after) := afterFirst.runLine call site rest
      (andThen first later, after)
termination_by line.length
decreasing_by
  exact Step.length_lt_of_read _left

/-! ## User commands -/

/-- Leaves the frame of a user command. A block that its body left open is an
error, unless there was an earlier one. -/
def leaveFrame (result : Reply × Engine) : Reply × Engine :=
  match result.2.scope.pop with
  | none => result
  | some (frame, scope) =>
    let after := { result.2 with scope }
    match result.1 with
    | .error error => after.refuse error
    | .ok outcome =>
      if frame.branches.isEmpty then (.ok outcome, after)
      else after.refuse (.control .missingEndif)

/-- Runs a text by the shell, in the background if either the call or the text
says so. -/
def runShellBody (engine : Engine) (text : String) (invocation : Invocation) : Reply × Engine :=
  match Segment.split (.raw true) (Utf8.ofString text) with
  | .error error => engine.refuse error
  | .ok segment =>
    let command := String.ofList (Utf8.decodeLossy segment.body)
    engine.runShell (Text.trimRight command) (invocation.background || segment.background)

/-- Runs a user command with a number of levels left. A body that starts with
a colon is a command line, and runs in a frame of its own; any other body is a
shell command. -/
def runUser : Nat → UserCall
  | 0 => fun _ _ _ engine => engine.refuse (.nestingLimit engine.config.maxDepth)
  | levels + 1 => fun site body invocation engine =>
    let expanded := String.ofList (expandBody invocation.text.toList body.toList)
    let text := Text.skipBlanks expanded
    if text.toList.head? == some ':' then
      let inner := { site with depth := site.depth + 1 }
      let entered := { engine with scope := engine.scope.push }
      leaveFrame (entered.runLine (runUser levels) inner (Utf8.ofString text))
    else engine.runShellBody text invocation

/-- Runs a line at top level, within the configured limit. -/
def runTop (engine : Engine) (source : Source) (line : Bytes) : Reply × Engine :=
  engine.runLine (runUser engine.config.maxDepth) { source } line

/-- Executes one command line. -/
def execute (engine : Engine) (source : Source) (line : Bytes) : Reply × Engine :=
  let (reply, after) := engine.runTop source line
  (reply, after.withFinished false)

/-- Executes one command line that is text. -/
def executeText (engine : Engine) (source : Source) (line : String) : Reply × Engine :=
  engine.execute source (Utf8.ofString line)

end Engine

end ExLine

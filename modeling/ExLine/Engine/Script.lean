import ExLine.Engine.Run

/-!
Contract: running scripts, and the commands of a whole session.

Owns:
- `Script.logicalLines`, the lines of a script with continuations joined;
- `Engine.runScript` and its report;
- adding host commands and restoring saved user commands.

Does not own: single lines (`ExLine.Engine.Run`).
-/

set_option autoImplicit false

namespace ExLine

/-! ## The lines of a script -/

namespace Script

/-- A line after joining, with the 1-based number of its first physical
line. -/
structure LogicalLine where
  number : Nat
  text : List Char
  deriving DecidableEq, Repr

/-- The text without a carriage return at its end. -/
def dropReturn (line : List Char) : List Char :=
  if line.getLast? == some '\r' then line.dropLast else line

/-- The lines of the parts between line feeds. The last part has no line feed
after it: it is no line if it is empty, and keeps a carriage return. -/
def linesOfParts : List (List Char) → List (List Char)
  | [] => []
  | [last] => if last.isEmpty then [] else [last]
  | part :: parts => dropReturn part :: linesOfParts parts

/-- The lines of a text. A line ends with a line feed, or a carriage return and
a line feed. -/
def physicalLines (text : List Char) : List (List Char) :=
  linesOfParts (Chars.splitOn '\n' text)

/-- What a line adds to the line before it, if its first character after
blanks is a backslash. -/
def continuation? (line : List Char) : Option (List Char) :=
  match line.dropWhile Chars.isBlank with
  | '\\' :: rest => some rest
  | _ => none

/-- Whether a line continues the one before it. -/
def isContinuation (line : List Char) : Bool :=
  (continuation? line).isSome

/-- Joins the continuations to the lines that they continue. The first line
continues nothing and stays as it is. -/
def joinLines (number : Nat) (lines : List (List Char)) : List LogicalLine :=
  match lines with
  | [] => []
  | line :: rest =>
    let continued := rest.takeWhile isContinuation
    { number, text := line ++ continued.flatMap fun text => (continuation? text).getD [] }
      :: joinLines (number + 1 + continued.length) (rest.dropWhile isContinuation)
termination_by lines.length
decreasing_by
  have shorter := (List.dropWhile_sublist (l := rest) isContinuation).length_le
  simp only [List.length_cons]
  omega

/-- The lines of a script with continuations joined. -/
def logicalLines (script : String) : List LogicalLine :=
  joinLines 1 (physicalLines script.toList)

end Script

/-! ## Running a script -/

/-- A line of a script that failed. -/
structure ScriptFailure where
  line : Nat
  error : CommandError
  deriving DecidableEq, Repr

/-- What running a script yields. -/
structure ScriptReport where
  outcome : Outcome
  failures : List ScriptFailure
  /-- Every line was reached. -/
  completed : Bool
  deriving DecidableEq, Repr

namespace ScriptReport

/-- The report of a script without lines. -/
def empty : ScriptReport := ⟨Outcome.done, [], true⟩

/-- Whether nothing failed. -/
def isOk (report : ScriptReport) : Bool :=
  report.failures.isEmpty && report.outcome.isOk

/-- Puts the reply of an earlier line in front. -/
def cons (line : Nat) (reply : Reply) (later : ScriptReport) : ScriptReport :=
  match reply with
  | .ok outcome => { later with outcome := outcome.combine later.outcome }
  | .error error => { later with failures := ⟨line, error⟩ :: later.failures }

end ScriptReport

namespace Engine

/-- Runs the lines of a script until one stops it. -/
def runLines (engine : Engine) : List Script.LogicalLine → ScriptReport × Engine
  | [] => (ScriptReport.empty, engine)
  | line :: rest =>
    let (reply, afterFirst) := engine.runTop .script (Utf8.encode line.text)
    if afterFirst.scope.isFinished then
      (({ ScriptReport.empty with completed := false }).cons line.number reply, afterFirst)
    else
      let (report, after) := afterFirst.runLines rest
      (report.cons line.number reply, after)

/-- The report of a script that left a block open, if it ran to its end. -/
def reportOpenBlock (report : ScriptReport) (branches : Branches) (lastLine : Nat) :
    ScriptReport :=
  if report.completed && !branches.isEmpty then
    { report with failures := report.failures ++ [⟨lastLine, .control .missingEndif⟩] }
  else report

/-- Runs a script. The script has open blocks of its own: it neither sees nor
changes those of its caller, and a block that it leaves open at its end is
reported. Variables and user commands that it defines stay. -/
def runScript (engine : Engine) (script : String) : ScriptReport × Engine :=
  let lines := Script.logicalLines script
  let outer := engine.scope.branches
  let (report, after) := (engine.withBranches {}).runLines lines
  let lastLine := (lines.getLast?.map (·.number)).getD 0
  (reportOpenBlock report after.scope.branches lastLine,
    (after.withBranches outer).withFinished false)

/-! ## The commands of a session -/

/-- Adds a host command. -/
def register (engine : Engine) (command : Command) : Except CommandError Engine := do
  let builtins ← engine.builtins.register command
  return { engine with builtins }

/-- Restores one user command, in place of one of the same name. -/
def restore (engine : Engine) (saved : UserCommand) : Except CommandError Engine :=
  if engine.builtins.contains saved.name then .error (.duplicateName saved.name)
  else do
    let scope ← engine.scope.define (Command.user saved.name saved.body) true
    return { engine with scope }

/-- Restores user commands in order, up to the first that cannot be. -/
def restoreAll (engine : Engine) : List UserCommand → Except CommandError Unit × Engine
  | [] => (.ok (), engine)
  | saved :: rest =>
    match engine.restore saved with
    | .ok after => after.restoreAll rest
    | .error error => (.error error, engine)

/-- The visible user commands. -/
def userCommands (engine : Engine) : List UserCommand :=
  engine.scope.userCommands

/-- The names of all commands, user commands last. -/
def commandNames (engine : Engine) : List String :=
  engine.builtins.names ++ engine.userCommands.map (·.name)

/-- Whether a block is open at top level. -/
def inConditional (engine : Engine) : Bool :=
  !engine.scope.branches.isEmpty

end Engine

end ExLine

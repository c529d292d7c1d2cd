import ExLine.Console
import ExLine.Shell.Spawn

/-!
Contract: the whole program, from its files and its input to what it prints.

Owns:
- `Setup`, what the program finds when it starts;
- `Transcript`, what it prints and how it ends;
- `Program.script`, which runs one script, and `Program.interact`, which
  answers the lines of its input.

Does not own: the files and streams themselves (`ExLine.Main`).
-/

set_option autoImplicit false

namespace ExLine

/-- A file: its path, and its content if it exists. -/
structure FileContent where
  path : String
  content : Option Bytes := none

/-- What the program finds when it starts. -/
structure Setup where
  env : Env
  cwd : String
  config : FileContent
  startup : FileContent
  commands : FileContent

/-- What the program prints, how it ends, and the user commands to keep. -/
structure Transcript where
  stdout : String := ""
  stderr : String := ""
  code : Nat := 0
  saved : Option String := none
  deriving DecidableEq, Repr

namespace Transcript

/-- The transcript with more output. -/
def print (transcript : Transcript) (text : String) : Transcript :=
  { transcript with stdout := transcript.stdout ++ text }

/-- The transcript with more error output. -/
def printError (transcript : Transcript) (text : String) : Transcript :=
  { transcript with stderr := transcript.stderr ++ text }

end Transcript

namespace Program

/-- What a failure to read or understand a file comes down to. -/
def cause? : ConsoleError → Option String
  | .config (.unreadable _) => some "the file cannot be read as text"
  | .config (.malformed _) => some "the text is not a valid settings document"
  | .scriptUnreadable _ => some "the file cannot be read as text"
  | .unreadable _ => some "the file cannot be read as text"
  | .malformed _ => some "the text is not a list of user commands"
  | _ => none

/-- The last words of a run that fails. -/
def fail (transcript : Transcript) (error : ConsoleError) : Transcript :=
  let causes := match cause? error with
    | some cause => "\n\nCaused by:\n    " ++ cause
    | none => ""
  { transcript.printError ("Error: " ++ error.message ++ causes ++ "\n") with code := 1 }

/-- The settings of the program: those of its file, or the defaults if there is
none. -/
def configOf (file : FileContent) : Except ConsoleError Config :=
  match file.content with
  | none => .ok {}
  | some bytes =>
    match ConfigFile.load file.path (some bytes) with
    | .ok config => .ok config
    | .error error => .error (.config error)

/-- The console that the program starts with. Saved commands that cannot be
restored are passed over. -/
def start (setup : Setup) : Except ConsoleError Console := do
  let config ← configOf setup.config
  let engine : Engine := {
    config
    env := setup.env
    view := { cwd := setup.cwd }
    launcher := Shell.launcher setup.env setup.cwd }
  return (Console.loadCommands { engine } setup.commands.path setup.commands.content).2

/-- What the programs print that were launched between two states. Those in the
background print nothing. -/
def launched (setup : Setup) (before after : Engine) (transcript : Transcript) : Transcript :=
  let launches := after.launches.drop before.launches.length
  (launches.filter fun launch => !launch.background).foldl (fun printed launch =>
    match Shell.spawn setup.env setup.cwd launch.argv with
    | .ok effect => (printed.print effect.stdout).printError effect.stderr
    | .error _ => printed) transcript

/-! ## Scripts -/

/-- The line that reports a failure. -/
def failureLine (path : String) (failure : ScriptFailure) : String :=
  path ++ ":" ++ toString failure.line ++ ": " ++ failure.error.message ++ "\n"

/-- Runs one script. -/
def script (setup : Setup) (file : FileContent) : Transcript :=
  match start setup with
  | .error error => fail {} error
  | .ok console =>
    let (result, after) := console.runScript file.path file.content
    match result with
    | .error error => fail {} error
    | .ok report =>
      let printed := launched setup console.engine after.engine {}
      let shown :=
        if report.outcome.out.isEmpty then printed
        else printed.print (report.outcome.out ++ "\n")
      let reported := shown.printError
        (Text.join "" (report.failures.map (failureLine file.path)))
      if report.isOk then reported else fail reported (.scriptFailed file.path)

/-! ## Interaction -/

/-- What the program prints before its first prompt. -/
def banner : String :=
  "excmd v0.3.0\nType /help for commands, /quit to exit.\n\n"

/-- Answers one line; the transcript gets what is printed. -/
def answer (setup : Setup) (console : Console) (line : String) (transcript : Transcript) :
    Transcript × Console :=
  let (result, after) := console.enter line
  let printed := launched setup console.engine after.engine transcript
  let shown :=
    match result with
    | .ok (some text) => printed.print (text ++ "\n")
    | .ok none => printed
    | .error error => printed.printError ("Error: " ++ error.message ++ "\n")
  (shown, after)

/-- Answers lines until one asks to leave or the input ends. -/
def converse (setup : Setup) (console : Console) (transcript : Transcript) :
    List String → Transcript × Console
  | [] =>
    if console.quit then (transcript, console)
    else (transcript.print (console.prompt ++ "^D\n"), console)
  | line :: rest =>
    if console.quit then (transcript, console)
    else
      let (next, after) := answer setup console line (transcript.print console.prompt)
      converse setup after next rest

/-- Starts the program for interaction: the startup script runs before the
banner is shown. -/
def greet (setup : Setup) : Except Transcript (Transcript × Console) :=
  match start setup with
  | .error error => .error (fail {} error)
  | .ok console =>
    let (result, after) := console.startUp setup.startup.path setup.startup.content
    let printed := launched setup console.engine after.engine {}
    match result with
    | .error error => .error (fail printed error)
    | .ok () => .ok (printed.print banner, after)

/-- Answers the lines of an input, and keeps the user commands at the end. -/
def interact (setup : Setup) (input : String) : Transcript :=
  match greet setup with
  | .error transcript => transcript
  | .ok (transcript, console) =>
    let lines := (Script.physicalLines input.toList).map String.ofList
    let (last, after) := converse setup console transcript lines
    { last with saved := some after.savedCommands }

end Program

end ExLine

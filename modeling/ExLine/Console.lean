import ExLine.ConfigFile
import ExLine.Engine.Script
import ExLine.SavedCommands

/-!
Contract: an interactive session around an engine.

Owns:
- `Console`, an engine with the wish to leave, and `Console.enter`, which
  answers a line that was typed;
- the console's own commands, which start with a slash;
- running scripts and keeping user commands by the content of their files.

Does not own: reading lines and files (`ExLine.Program`).
-/

set_option autoImplicit false

namespace ExLine

/-- Why the console could not do what was asked. -/
inductive ConsoleError where
  | command (error : CommandError)
  | config (error : ConfigFile.ConfigError)
  | unreadable (path : String)
  | malformed (path : String)
  | scriptUnreadable (path : String)
  | scriptFailed (path : String)
  deriving DecidableEq, Repr

/-- The wording of a console error. -/
def ConsoleError.message : ConsoleError → String
  | .command error => error.message
  | .config error => error.message
  | .unreadable path => "failed to read " ++ path
  | .malformed path => "failed to parse " ++ path
  | .scriptUnreadable path => "failed to read script " ++ path
  | .scriptFailed path => "script " ++ path ++ " failed"

/-- An engine with the wish to leave. -/
structure Console where
  engine : Engine
  quit : Bool := false

namespace Console

/-- What `/help` shows. -/
def helpText : String :=
  "excmd REPL

Meta-commands:
  /help, /h, /?     Show this help
  /quit, /q, /exit  Exit the REPL
  /vars             Show top-level variables
  /commands         List command names
  /cwd              Show the current directory

Language:
  echo 'a' . 1 + 2          Evaluate and print expressions
  let $VAR = 'value'        Set an environment variable
  let n += 1                Update a variable
  if n > 1 | ... | endif    Conditionals (also across lines)
  command name :echo %a     Define a user command (`:` runs excmd)
  command name make %a &    Define a shell-bodied user command
  !ls -l &                  Run a shell command in the background
  cd -                      Go back to the previous directory
  nnoremap tj gg            Key mappings
  cabbrev q quit            Command-line abbreviations
  cmd1 | cmd2               Chain commands
"

/-- The listing of the variables. -/
def variableListing (engine : Engine) : String :=
  let names := engine.scope.names
  if names.isEmpty then "(no variables set)"
  else
    let lines := names.filterMap fun name =>
      (engine.scope.get? name).map fun value => "\n  " ++ name ++ " = " ++ value.text
    "Variables:" ++ Text.join "" lines

/-- Answers one of the console's own commands. -/
def own (console : Console) (word : String) : Option String × Console :=
  if ["/quit", "/q", "/exit"].contains word then (none, { console with quit := true })
  else
    let shown :=
      if ["/help", "/h", "/?"].contains word then helpText
      else if word = "/vars" then variableListing console.engine
      else if word = "/commands" then Text.join "\n" console.engine.commandNames
      else if word = "/cwd" then console.engine.view.cwd
      else "Unknown command: " ++ word ++ "\nType /help for available commands."
    (some shown, console)

/-- What the console shows for an outcome: its output, and after a failure the
code and the error text. -/
def render (outcome : Outcome) : Option String :=
  let failure := "E" ++ toString outcome.code ++ ": " ++ outcome.err
  let shown := if outcome.isOk then outcome.out else Outcome.joinLines outcome.out failure
  if shown.isEmpty then none else some shown

/-- Answers a line that was typed. -/
def enter (console : Console) (line : String) :
    Except ConsoleError (Option String) × Console :=
  let trimmed := (Text.trim line).toList
  match trimmed with
  | [] => (.ok none, console)
  | '/' :: _ =>
    let word := trimmed.takeWhile fun char => !Chars.isWhitespace char
    let (shown, after) := console.own (String.ofList word)
    (.ok shown, after)
  | _ =>
    let (reply, engine) := console.engine.executeText .typed line
    let after := { console with engine }
    match reply with
    | .ok outcome => (.ok (render outcome), after)
    | .error error => (.error (.command error), after)

/-- Runs a script that has been read from a file. -/
def runScript (console : Console) (path : String) (content : Option Bytes) :
    Except ConsoleError ScriptReport × Console :=
  match content.map Utf8.decode with
  | some (.ok script) =>
    let (report, engine) := console.engine.runScript script
    (.ok report, { console with engine })
  | _ => (.error (.scriptUnreadable path), console)

/-- Runs the startup script, if there is one. What fails in it does not
matter. -/
def startUp (console : Console) (path : String) (content : Option Bytes) :
    Except ConsoleError Unit × Console :=
  match content with
  | none => (.ok (), console)
  | some bytes =>
    let (result, after) := console.runScript path (some bytes)
    (result.map fun _ => (), after)

/-- Restores the user commands of a file, if there is one. -/
def loadCommands (console : Console) (path : String) (content : Option Bytes) :
    Except ConsoleError Unit × Console :=
  match content.map Utf8.decode with
  | none => (.ok (), console)
  | some (.error _) => (.error (.unreadable path), console)
  | some (.ok text) =>
    match SavedCommands.decode text with
    | none => (.error (.malformed path), console)
    | some saved =>
      let (result, engine) := console.engine.restoreAll saved
      let after := { console with engine }
      match result with
      | .ok () => (.ok (), after)
      | .error error => (.error (.command error), after)

/-- The file that keeps the user commands. -/
def savedCommands (console : Console) : String :=
  SavedCommands.encode console.engine.userCommands

/-- The prompt in front of a line: a longer one inside a block. -/
def prompt (console : Console) : String :=
  if console.engine.inConditional then ":> " else ": "

end Console

end ExLine

import ExLine.Program

/-!
Contract: the command line of the program.

Owns: finding and reading the program's files, its input and its output.

Does not own: what is printed for them (`ExLine.Program`).
-/

set_option autoImplicit false

namespace ExLine.Main

/-- The content of a file, if it can be read. -/
def readFile? (path : String) : IO (Option Bytes) := do
  try
    let content ← IO.FS.readBinFile path
    return some content.toList
  catch _ => return none

/-- The value of an environment variable that names a directory, or else a
directory below the home directory. -/
def directory (name fallback : String) : IO String := do
  match ← IO.getEnv name with
  | some value =>
    if Directory.isAbsolute value.toList then return value else home
  | none => home
where
  /-- The directory below the home directory. -/
  home : IO String := do
    return ((← IO.getEnv "HOME").getD "/tmp") ++ "/" ++ fallback

/-- The environment variables that the program passes on. -/
def inherited : List String := ["HOME", "PATH", "TERM", "XDG_CONFIG_HOME", "XDG_DATA_HOME"]

/-- What the program finds when it starts. -/
def findSetup : IO Setup := do
  let configDir := (← directory "XDG_CONFIG_HOME" ".config") ++ "/excmd"
  let dataDir := (← directory "XDG_DATA_HOME" ".local/share") ++ "/excmd"
  let bindings ← inherited.filterMapM fun name => do
    return (← IO.getEnv name).map fun value => (name, value)
  let file (path : String) : IO FileContent := do
    return { path, content := ← readFile? path }
  return {
    env := Table.ofList bindings
    cwd := (← IO.currentDir).toString
    config := ← file (configDir ++ "/config.toml")
    startup := ← file (configDir ++ "/excmdrc")
    commands := ← file (dataDir ++ "/commands.json") }

/-- Prints a transcript. -/
def emit (transcript : Transcript) : IO Unit := do
  (← IO.getStdout).putStr transcript.stdout
  (← IO.getStdout).flush
  (← IO.getStderr).putStr transcript.stderr

/-- Answers lines from standard input until one asks to leave. -/
partial def converse (setup : Setup) (console : Console) : IO Console := do
  if console.quit then return console
  emit (Transcript.print {} console.prompt)
  let line ← (← IO.getStdin).getLine
  match Script.physicalLines line.toList with
  | [] =>
    emit (Transcript.print {} "^D\n")
    return console
  | first :: _ =>
    let (transcript, after) := Program.answer setup console (String.ofList first) {}
    emit transcript
    converse setup after

/-- Keeps the user commands. -/
def keep (file : FileContent) (content : String) : IO Unit := do
  IO.FS.createDirAll (Directory.resolve file.path "..")
  IO.FS.writeFile file.path content

end ExLine.Main

/-- Runs the script that is named on the command line, or answers the lines of
standard input. -/
def main (args : List String) : IO UInt32 := do
  let setup ← ExLine.Main.findSetup
  match args with
  | path :: _ =>
    let content ← ExLine.Main.readFile? path
    let transcript := ExLine.Program.script setup { path, content }
    ExLine.Main.emit transcript
    return transcript.code.toUInt32
  | [] =>
    match ExLine.Program.greet setup with
    | .error transcript =>
      ExLine.Main.emit transcript
      return transcript.code.toUInt32
    | .ok (transcript, console) =>
      ExLine.Main.emit transcript
      let after ← ExLine.Main.converse setup console
      ExLine.Main.keep setup.commands after.savedCommands
      return 0

import ExLine.Launch
import ExLine.Shell.Run

/-!
Contract: the programs that launched commands run.

Owns:
- `Shell.spawn`, what a program prints for its words and how it ends;
- `SpawnFault`, why a program cannot be started, with its wording;
- `Shell.launcher`, these programs as a launcher.

Does not own: when a program is started (`ExLine.Engine.Shell`).
-/

set_option autoImplicit false

namespace ExLine.Shell

/-- Why a program cannot be started. -/
inductive SpawnFault where
  | emptyRequest
  /-- A word holds the character that ends words outside this program. -/
  | nulCharacter
  | notFound
  /-- The path is that of a directory. -/
  | denied
  deriving DecidableEq, Repr

/-- The wording of a fault. -/
def SpawnFault.message : SpawnFault → String
  | .emptyRequest => "empty argv"
  | .nulCharacter => "nul byte found in provided data"
  | .notFound => "No such file or directory (os error 2)"
  | .denied => "Permission denied (os error 13)"

/-- What a program prints and how it ends. -/
structure Effect where
  stdout : String := ""
  stderr : String := ""
  ending : Ending := .exited 0
  deriving DecidableEq, Repr

/-- The effect of what was printed and how it ended. -/
def Effect.ofChunks (chunks : List Chunk) (ending : Ending) : Effect :=
  { stdout := textOf .output chunks, stderr := textOf .error chunks, ending }

/-- What a shell does with the words after its name. -/
def spawnShell (env : Table String) (cwd path : String) (args : List String) : Effect :=
  let start : State := { vars := env, cwd, name := path }
  match args with
  | "-c" :: text :: given =>
    let (chunks, ending) := runText { start with name := given.headD path } text
    .ofChunks chunks ending
  | _ =>
    let (chunks, after) := start.runShell runText path args ""
    .ofChunks chunks after.ending

/-- What the program of a request does. -/
def spawn (env : Table String) (cwd : String) (argv : List String) : Except SpawnFault Effect :=
  match argv with
  | [] => .error .emptyRequest
  | path :: args =>
    if argv.any fun word => word.toList.contains '\x00' then .error .nulCharacter
    else if directories.contains path then .error .denied
    else
      match programName path with
      | none => .error .notFound
      | some name =>
        if shells.contains name then .ok (spawnShell env cwd path args)
        else
          match utility false path cwd name args "" with
          | some result => .ok (.ofChunks result.chunks (.exited result.code))
          | none => .error .notFound

/-- The reply to a request. A program in the background prints nothing and
tells no exit code. -/
def reply (env : Table String) (cwd : String) (launch : Launch) : LaunchReply :=
  match spawn env cwd launch.argv with
  | .error fault => .refused fault.message
  | .ok effect =>
    if launch.background then .detached
    else
      match effect.ending with
      | .exited code => .finished code
      | .killed => .finished (-1)

/-- These programs as a launcher. -/
def launcher (env : Table String) (cwd : String) : Launcher := fun _ launch =>
  reply env cwd launch

end ExLine.Shell

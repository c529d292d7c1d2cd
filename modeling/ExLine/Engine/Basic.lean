import ExLine.Command.Builtins
import ExLine.Expr.Eval
import ExLine.Launch
import ExLine.Scope

/-!
Contract: the state of the command engine.

Owns:
- `Config`, `View` and `Engine`, all that a command can see or change;
- the small changes that the built-in actions are made of;
- `Reply`, what carrying out a command yields.

Does not own: the built-in actions and the running of lines (the other
modules of `ExLine.Engine`).
-/

set_option autoImplicit false

namespace ExLine

/-- The settings of an engine. -/
structure Config where
  /-- The program that runs shell commands. -/
  shell : String := "/bin/sh"
  /-- The flag in front of a shell command. -/
  shellFlag : String := "-c"
  /-- How deep user commands may call each other. -/
  maxDepth : Nat := 64
  deriving DecidableEq, Repr

/-- The part of the host's view that commands look at or move. -/
structure View where
  /-- The 0-based cursor line. -/
  cursor : Nat := 0
  /-- The number of lines. -/
  length : Nat := 0
  /-- The directory that the view shows. -/
  cwd : String := "/"
  /-- The directory before the last change. -/
  previous : Option String := none
  deriving DecidableEq, Repr

/-- The environment variables that are set. -/
abbrev Env := Table String

/-- All that a command can see or change. -/
structure Engine where
  config : Config := {}
  /-- Built-in and host commands. -/
  builtins : Registry := Registry.builtins
  scope : Scope := {}
  env : Env := {}
  mappings : Mappings := {}
  view : View := {}
  launcher : Launcher := Launcher.ofList []
  /-- The programs started so far, refused ones included. -/
  launches : List Launch := []
  /-- The calls that reached a host command so far. -/
  calls : List HostCall := []

/-- What carrying out a command yields: an outcome, or the cause why there is
none. -/
abbrev Reply := Except CommandError Outcome

namespace Engine

/-- The registries that command words are looked up in, innermost first. -/
def chain (engine : Engine) : List Registry :=
  engine.scope.chain ++ [engine.builtins]

/-- What the names of an expression stand for. -/
def bindings (engine : Engine) : Bindings where
  var := engine.scope.get?
  env := engine.env.get?

/-- Whether the command at hand is in a branch that is taken. -/
def isActive (engine : Engine) : Bool :=
  engine.scope.branches.isActive

/-- The engine with other open blocks in its innermost frame. -/
def withBranches (engine : Engine) (branches : Branches) : Engine :=
  { engine with scope := engine.scope.withBranches branches }

/-- The engine with its innermost frame stopped or running. -/
def withFinished (engine : Engine) (finished : Bool) : Engine :=
  { engine with scope := engine.scope.withFinished finished }

/-- The reply of an action that succeeds without output. -/
def done (engine : Engine) : Reply × Engine :=
  (.ok Outcome.done, engine)

/-- The reply of an action that fails and changes nothing. -/
def refuse (engine : Engine) (error : CommandError) : Reply × Engine :=
  (.error error, engine)

/-- The reply of an action that reports a failure by its exit code and changes
nothing. -/
def report (engine : Engine) (message : String) : Reply × Engine :=
  (.ok (Outcome.failure 1 message), engine)

end Engine

end ExLine

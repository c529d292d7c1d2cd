import ExLine.Branch
import ExLine.Command.Registry
import ExLine.Expr.Value
import ExLine.Table

/-!
Contract: nested scopes of user commands, variables and open blocks.

Owns:
- `Frame`, one level of scope, and `Scope`, the frames from the innermost to
  the root;
- look-up from the innermost frame outwards, and changes to the innermost
  frame;
- `Scope.userCommands`, the user commands that are visible.

Does not own: built-in and host commands, which belong to no frame
(`ExLine.Engine`).
-/

set_option autoImplicit false

namespace ExLine

/-- A user command as it is written and saved. -/
structure UserCommand where
  name : String
  body : String
  deriving DecidableEq, Repr

/-- One level of scope. -/
structure Frame where
  commands : Registry := {}
  vars : Table Value := {}
  branches : Branches := {}
  /-- No further command runs in this frame. -/
  finished : Bool := false

/-- The frames of a scope. There always is a root frame: the last of the
enclosing ones, or the innermost one if nothing encloses it. -/
structure Scope where
  innermost : Frame := {}
  enclosing : List Frame := []

namespace Scope

/-- The scope with one empty frame. -/
def empty : Scope := {}

/-- The frames, innermost first. -/
def frames (scope : Scope) : List Frame :=
  scope.innermost :: scope.enclosing

/-- The number of frames above the root. -/
def depth (scope : Scope) : Nat :=
  scope.enclosing.length

/-- Enters an empty frame. -/
def push (scope : Scope) : Scope :=
  { innermost := {}, enclosing := scope.frames }

/-- Leaves the innermost frame, unless that is the root. -/
def pop (scope : Scope) : Option (Frame × Scope) :=
  match scope.enclosing with
  | [] => none
  | frame :: frames => some (scope.innermost, { innermost := frame, enclosing := frames })

/-! ## Variables -/

/-- The value of a variable in the first frame that binds it. -/
def get? (scope : Scope) (name : String) : Option Value :=
  scope.frames.findSome? fun frame => frame.vars.get? name

/-- Binds a variable in the innermost frame. -/
def set (scope : Scope) (name : String) (value : Value) : Scope :=
  { scope with
    innermost := { scope.innermost with vars := scope.innermost.vars.insert name value } }

/-- Removes a variable from the innermost frame, and tells whether it was
bound there. -/
def unset (scope : Scope) (name : String) : Bool × Scope :=
  (scope.innermost.vars.contains name,
    { scope with
      innermost := { scope.innermost with vars := scope.innermost.vars.erase name } })

/-- The names of the variables of all frames, in order and each once. -/
def names (scope : Scope) : List String :=
  ((scope.frames.flatMap fun frame => frame.vars.names).mergeSort
    fun left right => left ≤ right).eraseReps

/-! ## Commands -/

/-- Replaces the commands of the innermost frame. -/
def withCommands (scope : Scope) (commands : Registry) : Scope :=
  { scope with innermost := { scope.innermost with commands } }

/-- The registries of the frames, innermost first. -/
def chain (scope : Scope) : List Registry :=
  scope.frames.map (·.commands)

/-- Defines a command in the innermost frame. A command of the same name there
is replaced only if `force` is set. -/
def define (scope : Scope) (command : Command) (force : Bool) : Except CommandError Scope :=
  let commands := scope.innermost.commands
  if (commands.get? command.name).isSome then
    if force then .ok (scope.withCommands (commands.replace command))
    else .error (.duplicateName command.name)
  else do
    let extended ← commands.register command
    return scope.withCommands extended

/-- Removes a command from the innermost frame, and tells whether it was
there. -/
def delete (scope : Scope) (name : String) : Bool × Scope :=
  let commands := scope.innermost.commands
  ((commands.get? name).isSome, scope.withCommands (commands.erase name))

/-- Removes all commands of the innermost frame. -/
def clearCommands (scope : Scope) : Scope :=
  scope.withCommands {}

/-- The user commands of a registry, in order. -/
def userCommandsOf (registry : Registry) : List UserCommand :=
  registry.commands.filterMap fun command =>
    command.body?.map fun body => { name := command.name, body }

/-- Adds a user command, in place of one of the same name. -/
def shadow (shown : List UserCommand) (command : UserCommand) : List UserCommand :=
  match shown with
  | [] => [command]
  | held :: rest =>
    if held.name = command.name then command :: rest else held :: shadow rest command

/-- The visible user commands: those of the root first, each inner one in
place of the outer one that it hides. -/
def userCommands (scope : Scope) : List UserCommand :=
  (scope.chain.reverse.flatMap userCommandsOf).foldl shadow []

/-! ## Open blocks and the end of a script -/

/-- The blocks open in the innermost frame. -/
def branches (scope : Scope) : Branches :=
  scope.innermost.branches

/-- Replaces the blocks open in the innermost frame. -/
def withBranches (scope : Scope) (branches : Branches) : Scope :=
  { scope with innermost := { scope.innermost with branches } }

/-- Whether the innermost frame runs no further command. -/
def isFinished (scope : Scope) : Bool :=
  scope.innermost.finished

/-- Stops the innermost frame, or lets it run again. -/
def withFinished (scope : Scope) (finished : Bool) : Scope :=
  { scope with innermost := { scope.innermost with finished } }

end Scope

end ExLine

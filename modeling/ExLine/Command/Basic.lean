import ExLine.Line.Segment
import ExLine.Mappings
import ExLine.Outcome
import ExLine.Text.Quoted

/-!
Contract: what a command is.

Owns:
- `Flags`, how a command takes its arguments, and the tail mode they imply;
- `Builtin`, the closed vocabulary of built-in actions;
- `Invocation` and `HostCall`, one call of a command;
- `Handler` and `Command`, a named command with its arity and its handler.

Does not own: tables of commands (`ExLine.Command.Registry`) and what the
built-in actions do (`ExLine.Engine`).

A host command is assumed to do no more than reply. Its answer is any function of
the call, and it neither sees the engine nor changes it, so a host that sets
variables, moves the cursor or runs lines of its own is outside this model.
-/

set_option autoImplicit false

namespace ExLine

/-- How a command takes its arguments and what it may carry besides them. -/
structure Flags where
  /-- An exclamation mark may follow the name. -/
  bang : Bool := false
  /-- A background marker may follow the arguments. -/
  background : Bool := false
  /-- A range may precede the name. -/
  range : Bool := false
  /-- The arguments are expressions. -/
  expression : Bool := false
  /-- The arguments are the rest of the line. -/
  raw : Bool := false
  /-- Quotes group the characters of an argument. -/
  quotes : Bool := false
  /-- The command runs in branches that are not taken, too. -/
  control : Bool := false
  /-- Environment variables in the arguments are expanded. -/
  expandEnv : Bool := false
  deriving DecidableEq, Repr

/-- How far the arguments of a command with these flags reach. -/
def Flags.tailMode (flags : Flags) : TailMode :=
  if flags.raw then .raw flags.background
  else if flags.expression then .expression
  else if flags.quotes then .quoted
  else .plain

/-- The built-in actions. -/
inductive Builtin where
  /-- Print the values of expressions. -/
  | echo
  /-- Assign a variable. -/
  | assign
  /-- Remove variables. -/
  | unassign
  | ifBlock
  | elseIfBranch
  | elseBranch
  | endIf
  /-- Stop the script or user command. -/
  | finish
  /-- Define, show or list user commands. -/
  | define
  /-- Remove a user command. -/
  | delete
  /-- Remove all user commands. -/
  | clear
  /-- Run a shell command. -/
  | shell
  /-- Change the directory of the view. -/
  | changeDirectory
  /-- Define or list key mappings. -/
  | map (modes : List Mode) (noremap : Bool)
  /-- Remove a key mapping. -/
  | unmap (modes : List Mode)
  /-- Define or list abbreviations. -/
  | abbreviate (noremap : Bool)
  /-- Remove abbreviations. -/
  | unabbreviate
  deriving DecidableEq, Repr

/-- One call of a command, with its arguments taken apart. -/
structure Invocation where
  /-- The full name of the command. -/
  name : String
  args : List String
  /-- The arguments as they are written, without the background marker. -/
  text : String
  background : Bool
  bang : Bool
  range : Option LineRange
  deriving DecidableEq, Repr

/-- Where a command line comes from. -/
inductive Source where
  /-- Typed by the user. -/
  | typed
  /-- Read from a script. -/
  | script
  deriving DecidableEq, Repr

/-- Where a command line is run: its source, and how many user commands are
being carried out around it. -/
structure Site where
  source : Source
  depth : Nat := 0
  deriving DecidableEq, Repr

/-- A call as a host command receives it. -/
structure HostCall where
  invocation : Invocation
  site : Site
  deriving DecidableEq, Repr

/-- What carries a command out. -/
inductive Handler where
  | builtin (action : Builtin)
  /-- The surrounding program answers the call. It is assumed to leave the engine
  alone. -/
  | host (answer : HostCall → Except CommandError Outcome)
  /-- The stored text of a user command. -/
  | user (body : String)

/-- A command: its names, its arity and its handler. -/
structure Command where
  name : String
  abbreviation : Option String := none
  id : Int := -1
  description : String := ""
  flags : Flags := {}
  minArgs : Nat := 0
  /-- No bound if absent. -/
  maxArgs : Option Nat := none
  handler : Handler

namespace Command

/-- A user command with a stored body. -/
def user (name body : String) : Command where
  name
  description := body
  flags := { background := true }
  handler := .user body

/-- The stored body of a user command. -/
def body? (command : Command) : Option String :=
  match command.handler with
  | .user body => some body
  | _ => none

/-- Whether the command is a user command. -/
def isUser (command : Command) : Bool :=
  command.body?.isSome

/-- The name and the abbreviation. -/
def names (command : Command) : List String :=
  command.name :: command.abbreviation.toList

/-- Whether the command takes that many arguments. -/
def accepts (command : Command) (count : Nat) : Bool :=
  command.minArgs ≤ count && command.maxArgs.all (count ≤ ·)

/-- The numbers of arguments that the command takes, as messages show them. -/
def arity (command : Command) : String :=
  match command.maxArgs with
  | some bound =>
    if bound = command.minArgs then toString bound
    else toString command.minArgs ++ ".." ++ toString bound
  | none => toString command.minArgs ++ ".."

/-- How messages show the handler. -/
def handlerText (command : Command) : String :=
  match command.body? with
  | some body => "User(" ++ Quoted.render body ++ ")"
  | none => "Builtin(..)"

/-- Checks a call against what the command takes: the exclamation mark, the
background marker, the range, and then the number of arguments. -/
def validate (command : Command) (invocation : Invocation) : Except CommandError Unit :=
  if invocation.bang && !command.flags.bang then
    .error (.markNotSupported command.name .bang)
  else if invocation.background && !command.flags.background then
    .error (.markNotSupported command.name .background)
  else if invocation.range.isSome && !command.flags.range then
    .error (.markNotSupported command.name .range)
  else if command.accepts invocation.args.length then .ok ()
  else .error (.argumentCount command.name invocation.args.length command.arity)

end Command

end ExLine

import ExLine.Engine.Basic

/-!
Contract: defining, listing and removing user commands.

Owns: the actions behind `command`, `delcommand` and `comclear`, and the
rule for names of user commands.

Does not own: running a user command (`ExLine.Engine.Run`).
-/

set_option autoImplicit false

namespace ExLine.Engine

/-- A user command is named by a letter followed by letters, digits and
underscores. -/
def isValidName (name : String) : Bool :=
  match name.toList with
  | [] => false
  | first :: rest => Chars.isLetter first && rest.all Chars.isNameChar

/-- The line that a listing shows for a user command. -/
def describeCommand (command : UserCommand) : String :=
  Text.padRight 10 command.name ++ " " ++ command.body

/-- The listing of the user commands whose name starts with a text. -/
def commandListing (engine : Engine) (start : String) : String :=
  Text.join "\n"
    ((engine.scope.userCommands.filter fun command => Text.startsWith start command.name).map
      describeCommand)

/-- Splits the first word off a text that starts with one. -/
def splitWord (text : String) : String × String :=
  let chars := text.toList
  (String.ofList (chars.takeWhile fun char => !Chars.isBlank char),
    Text.skipBlanks (String.ofList (chars.dropWhile fun char => !Chars.isBlank char)))

/-- Lists, shows or defines user commands: without arguments it lists all,
with a name it lists those that start with it, and with a name and a body it
defines a command in the innermost frame. A built-in or host command cannot be
redefined. -/
def define (engine : Engine) (invocation : Invocation) : Reply × Engine :=
  let text := Text.skipBlanks invocation.text
  let (name, body) := splitWord text
  if text.isEmpty then (.ok (Outcome.success (engine.commandListing "")), engine)
  else if body.isEmpty then
    let listing := engine.commandListing name
    if listing.isEmpty then engine.report ("no such user command: " ++ name)
    else (.ok (Outcome.success listing), engine)
  else if !isValidName name then engine.report ("invalid command name: " ++ name)
  else if engine.builtins.contains name then engine.refuse (.duplicateName name)
  else
    match engine.scope.define (Command.user name body) invocation.bang with
    | .ok scope => { engine with scope }.done
    | .error error => engine.refuse error

/-- Removes the user command of the innermost frame that the first argument
means. -/
def delete (engine : Engine) (invocation : Invocation) : Reply × Engine :=
  match invocation.args with
  | [] => engine.report "delcommand: argument required"
  | word :: _ =>
    match Registry.resolve [engine.scope.innermost.commands] word with
    | .ok command =>
      let (found, scope) := engine.scope.delete command.name
      if found then { engine with scope }.done
      else engine.report ("no such user command: " ++ word)
    | .error (.noSuchCommand _) => engine.report ("no such user command: " ++ word)
    | .error error => engine.refuse error

/-- Removes all user commands of the innermost frame. -/
def clear (engine : Engine) : Reply × Engine :=
  { engine with scope := engine.scope.clearCommands }.done

end ExLine.Engine

import ExLine.Json
import ExLine.Scope

/-!
Contract: the file that keeps user commands between sessions.

Owns: `SavedCommands.decode` and `SavedCommands.encode`, between such a file
and the user commands it keeps.

Does not own: restoring the commands (`ExLine.Engine.Script`).
-/

set_option autoImplicit false

namespace ExLine.SavedCommands

/-- A string with text. -/
def text? : Json → Option String
  | .string text => text
  | _ => none

/-- The text of the only member of a name. Other members do not matter. -/
def member? (name : String) (members : List (Option String × Json)) : Option String :=
  match members.filter fun member => member.1 == some name with
  | [member] => text? member.2
  | _ => none

/-- The user command that an entry stands for: an object with a name and a
body, or a list of the two. Every name of a member has to be a text. -/
def entry? : Json → Option UserCommand
  | .array [name, body] => do return { name := ← text? name, body := ← text? body }
  | .object members =>
    if members.all fun member => member.1.isSome then do
      return { name := ← member? "name" members, body := ← member? "body" members }
    else none
  | _ => none

/-- The user commands of a file. -/
def decode (content : String) : Option (List UserCommand) :=
  match Json.parse content with
  | some (.array entries) => entries.mapM entry?
  | _ => none

/-- The lines of an entry. -/
def encodeEntry (command : UserCommand) : String :=
  "  \x7b\n    \"name\": " ++ Json.quote command.name ++ ",\n    \"body\": "
    ++ Json.quote command.body ++ "\n  \x7d"

/-- The file that keeps user commands. -/
def encode (commands : List UserCommand) : String :=
  if commands.isEmpty then "[]"
  else "[\n" ++ Text.join ",\n" (commands.map encodeEntry) ++ "\n]"

end ExLine.SavedCommands

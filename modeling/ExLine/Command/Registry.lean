import ExLine.Command.Basic

/-!
Contract: tables of commands and the meaning of a command word.

Owns:
- `Registry`, commands in the order in which they were added;
- `Registry.resolve`, which finds the command that a word means along a chain
  of registries.

Does not own: which registries a line sees (`ExLine.Engine`).
-/

set_option autoImplicit false

namespace ExLine

/-- Commands in the order in which they were added. -/
structure Registry where
  commands : List Command := []

namespace Registry

/-- The registry without commands. -/
def empty : Registry := {}

/-- The first name of `command` that `held` bears too. -/
def clash? (held command : Command) : Option String :=
  command.names.find? fun name => held.names.contains name

/-- Adds a command. Neither its name nor its abbreviation may be taken. -/
def register (registry : Registry) (command : Command) : Except CommandError Registry :=
  match registry.commands.findSome? fun held => clash? held command with
  | some name => .error (.duplicateName name)
  | none => .ok ⟨registry.commands ++ [command]⟩

/-- The commands with the first one of the same name replaced, or with the
command added. -/
def replaceIn (command : Command) : List Command → List Command
  | [] => [command]
  | held :: rest =>
    if held.name = command.name then command :: rest else held :: replaceIn command rest

/-- Replaces the command of the same name in its place, or adds it. -/
def replace (registry : Registry) (command : Command) : Registry :=
  ⟨replaceIn command registry.commands⟩

/-- The command of that name. -/
def get? (registry : Registry) (name : String) : Option Command :=
  registry.commands.find? fun command => command.name == name

/-- Removes the command of that name. -/
def erase (registry : Registry) (name : String) : Registry :=
  ⟨registry.commands.eraseP fun command => command.name == name⟩

/-- Whether a name is taken, as a name or as an abbreviation. -/
def contains (registry : Registry) (name : String) : Bool :=
  registry.commands.any fun command => command.names.contains name

/-- The names of the commands, in order. -/
def names (registry : Registry) : List String :=
  registry.commands.map (·.name)

/-! ## Command words -/

/-- Adds a command unless one of its name is among them. -/
def addNew (found : List Command) (command : Command) : List Command :=
  if found.any fun held => held.name == command.name then found else found ++ [command]

/-- The commands whose name starts with a word, the first of each name. The
empty word stands for no command. -/
def withPrefix (commands : List Command) (word : String) : List Command :=
  if word.isEmpty then []
  else (commands.filter fun command => Text.startsWith word command.name).foldl addNew []

/-- The command that a word means, in registries searched in order: the one of
that name, else the one of that abbreviation, else the only one whose name
starts with the word. -/
def resolve (chain : List Registry) (word : String) : Except CommandError Command :=
  let commands := chain.flatMap (·.commands)
  match commands.find? fun command => command.name == word with
  | some command => .ok command
  | none =>
    match commands.find? fun command => command.abbreviation == some word with
    | some command => .ok command
    | none =>
      match withPrefix commands word with
      | [] => .error (.noSuchCommand word)
      | [command] => .ok command
      | many =>
        .error (.ambiguousCommand word ((many.map (·.name)).mergeSort fun left right => left ≤ right))

end Registry

end ExLine

import ExLine.Command.Registry

/-!
Contract: the commands that are always there.

Owns: `Command.builtins`, their names, abbreviations, identifiers, arities and
flags, and `Registry.builtins`, the registry that holds them in this order.

Does not own: what the actions do (`ExLine.Engine`).
-/

set_option autoImplicit false

namespace ExLine

namespace Command

/-- The arguments are expressions. -/
def expressionFlags : Flags := { expression := true, quotes := true }

/-- A condition, which is looked at in branches that are not taken, too. -/
def conditionFlags : Flags := { expression := true, quotes := true, control := true }

/-- Mappings that apply in both modes. -/
def bothModes : List Mode := [.normal, .visual]

/-- The commands that are always there, in the order of their listing. -/
def builtins : List Command := [
  { name := "echo", abbreviation := some "ec", id := 1
    description := "evaluate expressions and print them"
    flags := expressionFlags
    handler := .builtin .echo },
  { name := "let", id := 2
    description := "assign a variable"
    flags := expressionFlags, minArgs := 1, maxArgs := some 1
    handler := .builtin .assign },
  { name := "unlet", abbreviation := some "unl", id := 3
    description := "remove variables"
    flags := { bang := true }, minArgs := 1
    handler := .builtin .unassign },
  { name := "if", id := 4
    description := "start a conditional block"
    flags := conditionFlags, minArgs := 1, maxArgs := some 1
    handler := .builtin .ifBlock },
  { name := "elseif", abbreviation := some "elsei", id := 5
    description := "alternative condition"
    flags := conditionFlags, minArgs := 1, maxArgs := some 1
    handler := .builtin .elseIfBranch },
  { name := "else", abbreviation := some "el", id := 6
    description := "fallback branch"
    flags := { control := true }, maxArgs := some 0
    handler := .builtin .elseBranch },
  { name := "endif", abbreviation := some "en", id := 7
    description := "end a conditional block"
    flags := { control := true }, maxArgs := some 0
    handler := .builtin .endIf },
  { name := "finish", abbreviation := some "fini", id := 8
    description := "stop running the current script"
    maxArgs := some 0
    handler := .builtin .finish },
  { name := "command", abbreviation := some "com", id := 9
    description := "list, show or define user commands"
    flags := { raw := true, bang := true }
    handler := .builtin .define },
  { name := "delcommand", abbreviation := some "delc", id := 10
    description := "remove a user command"
    minArgs := 1, maxArgs := some 1
    handler := .builtin .delete },
  { name := "comclear", abbreviation := some "comc", id := 11
    description := "remove all user commands"
    maxArgs := some 0
    handler := .builtin .clear },
  { name := "!", id := 12
    description := "run a shell command"
    flags := { raw := true, background := true }, minArgs := 1, maxArgs := some 1
    handler := .builtin .shell },
  { name := "cd", id := 13
    description := "change the view's directory"
    flags := { quotes := true, expandEnv := true }, maxArgs := some 1
    handler := .builtin .changeDirectory },
  { name := "map", id := 14
    description := "map keys in normal and visual modes"
    handler := .builtin (.map bothModes false) },
  { name := "nmap", abbreviation := some "nm", id := 14
    description := "map keys in normal mode"
    handler := .builtin (.map [.normal] false) },
  { name := "noremap", abbreviation := some "no", id := 14
    description := "map keys without remapping"
    handler := .builtin (.map bothModes true) },
  { name := "nnoremap", abbreviation := some "nn", id := 14
    description := "map keys in normal mode without remapping"
    handler := .builtin (.map [.normal] true) },
  { name := "unmap", abbreviation := some "unm", id := 15
    description := "remove a mapping"
    minArgs := 1, maxArgs := some 1
    handler := .builtin (.unmap bothModes) },
  { name := "nunmap", abbreviation := some "nun", id := 15
    description := "remove a normal mode mapping"
    minArgs := 1, maxArgs := some 1
    handler := .builtin (.unmap [.normal]) },
  { name := "cabbrev", abbreviation := some "ca", id := 16
    description := "define or list command-line abbreviations"
    handler := .builtin (.abbreviate false) },
  { name := "cnoreabbrev", abbreviation := some "cnorea", id := 16
    description := "define a non-recursive abbreviation"
    handler := .builtin (.abbreviate true) },
  { name := "cunabbrev", abbreviation := some "cuna", id := 17
    description := "remove command-line abbreviations"
    minArgs := 1
    handler := .builtin .unabbreviate }]

end Command

/-- The registry of the commands that are always there. -/
def Registry.builtins : Registry := ⟨Command.builtins⟩

end ExLine

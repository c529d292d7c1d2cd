import ExLine.Table
import ExLine.Text.Chars

/-!
Contract: key mappings and command-line abbreviations.

Owns: `Mode`, `Binding` and `Mappings` with the operations behind `map`,
`unmap`, `cabbrev` and `cunabbrev`, and the listing of bindings by prefix.

Does not own: carrying a mapping out, which is the host's business.
-/

set_option autoImplicit false

namespace ExLine

/-- The input mode that a key mapping applies to. -/
inductive Mode where
  | normal
  | visual
  deriving DecidableEq, Repr

/-- The letter that listings show for a mode. -/
def Mode.tag : Mode → Char
  | .normal => 'n'
  | .visual => 'v'

/-- What a left-hand side is bound to. -/
structure Binding where
  expansion : String
  /-- The expansion is not subject to further mapping. -/
  noremap : Bool
  deriving DecidableEq, Repr

/-- The mappings of each mode and the abbreviations, by left-hand side. -/
structure Mappings where
  normal : Table Binding := {}
  visual : Table Binding := {}
  abbreviations : Table Binding := {}
  deriving DecidableEq, Repr

namespace Mappings

/-- The mappings of a mode. -/
def keys (mappings : Mappings) : Mode → Table Binding
  | .normal => mappings.normal
  | .visual => mappings.visual

/-- Replaces the mappings of a mode. -/
def withKeys (mappings : Mappings) (mode : Mode) (table : Table Binding) : Mappings :=
  match mode with
  | .normal => { mappings with normal := table }
  | .visual => { mappings with visual := table }

/-- Binds a left-hand side in a mode, replacing an earlier binding. -/
def map (mappings : Mappings) (mode : Mode) (lhs : String) (binding : Binding) : Mappings :=
  mappings.withKeys mode ((mappings.keys mode).insert lhs binding)

/-- Removes a mapping of a mode, and tells whether there was one. -/
def unmap (mappings : Mappings) (mode : Mode) (lhs : String) : Bool × Mappings :=
  ((mappings.keys mode).contains lhs,
    mappings.withKeys mode ((mappings.keys mode).erase lhs))

/-- Binds an abbreviation, replacing an earlier one. -/
def abbreviate (mappings : Mappings) (lhs : String) (binding : Binding) : Mappings :=
  { mappings with abbreviations := mappings.abbreviations.insert lhs binding }

/-- Removes the abbreviation `text`, or else the first one that expands to
`text`, and tells whether there was one. -/
def unabbreviate (mappings : Mappings) (text : String) : Bool × Mappings :=
  let table := mappings.abbreviations
  if table.contains text then (true, { mappings with abbreviations := table.erase text })
  else
    match table.entries.find? fun entry => entry.2.expansion == text with
    | some entry => (true, { mappings with abbreviations := table.erase entry.1 })
    | none => (false, mappings)

/-- Whether nothing is bound. -/
def isEmpty (mappings : Mappings) : Bool :=
  mappings.normal.isEmpty && mappings.visual.isEmpty && mappings.abbreviations.isEmpty

/-- The bindings whose left-hand side starts with a text, in order. -/
def withPrefix (table : Table Binding) (start : String) : List (String × Binding) :=
  table.entries.filter fun entry => Text.startsWith start entry.1

/-- The line that a listing shows for a binding. -/
def describe (tag : Char) (entry : String × Binding) : String :=
  let star := if entry.2.noremap then '*' else ' '
  String.ofList [tag, star, ' '] ++ Text.padRight 10 entry.1 ++ " " ++ entry.2.expansion

/-- The listing of the mappings of some modes, mode by mode. -/
def listing (mappings : Mappings) (modes : List Mode) (start : String) : List String :=
  modes.flatMap fun mode => (withPrefix (mappings.keys mode) start).map (describe mode.tag)

/-- The listing of the abbreviations. -/
def abbreviationListing (mappings : Mappings) (start : String) : List String :=
  (withPrefix mappings.abbreviations start).map (describe 'c')

end Mappings

end ExLine

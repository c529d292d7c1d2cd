/-!
Contract: the tables of a TOML document and the rules for defining them.

Owns:
- `Toml.Value`, a value as far as settings tell values apart;
- `Toml.Tree`, what is defined at each place of a document;
- the definitions that key lines, table headers and array headers make, each
  of which is refused where it would define something twice.

Does not own: reading a document (`ExLine.Toml.Document`).
-/

set_option autoImplicit false

namespace ExLine.Toml

/-- A value. Of the kinds that no setting has, only the kind is kept. -/
inductive Value where
  | string (text : String)
  | integer (value : Int)
  | float
  | boolean
  | datetime
  | array
  | inlineTable
  deriving DecidableEq, Repr

/-- One step on the way to a place: into a table by a key, or into one of the
tables of an array. -/
inductive Key where
  | name (text : String)
  | index (position : Nat)
  deriving DecidableEq, Repr

/-- A place in a document. -/
abbrev Place := List Key

/-- What is defined at a place. -/
inductive Node where
  | value (value : Value)
  /-- A table. It is implied if only longer keys or headers mention it, and
  dotted if keys do. -/
  | table (implied dotted : Bool)
  /-- An array of that many tables, each made by a header. -/
  | tables (count : Nat)
  deriving DecidableEq, Repr

/-- What is defined at each place; the root is a table without an entry. -/
structure Tree where
  nodes : List (Place × Node) := []
  deriving DecidableEq, Repr

namespace Tree

/-- What is defined at a place. -/
def get? (tree : Tree) (place : Place) : Option Node :=
  tree.nodes.lookup place

/-- Defines a place, in place of an earlier definition. -/
def set (tree : Tree) (place : Place) (node : Node) : Tree :=
  ⟨(place, node) :: tree.nodes.filter fun entry => entry.1 != place⟩

/-- Goes along a key from a place, and makes the tables that are missing on the
way. An array leads to its last table. A dotted key may not go through a table
that a header made. -/
def descend (dotted : Bool) (tree : Tree) (place : Place) : List String → Option (Tree × Place)
  | [] => some (tree, place)
  | name :: rest =>
    let next := place ++ [.name name]
    match tree.get? next with
    | none => descend dotted (tree.set next (.table true dotted)) next rest
    | some (.value _) => none
    | some (.tables count) => descend dotted tree (next ++ [.index (count - 1)]) rest
    | some (.table implied _) =>
      if dotted && !implied then none else descend dotted tree next rest

/-- Whether the table at a place was made by a dotted key. -/
def isDotted (tree : Tree) (place : Place) : Bool :=
  tree.get? place == some (.table true true)

/-- Defines a value under a key, seen from a place. The tables that a dotted
key leads through must be made by dotted keys. -/
def define (tree : Tree) (place : Place) (key : List String) (value : Value) : Option Tree := do
  let last ← key.getLast?
  let path := key.dropLast
  let (extended, parent) ← descend true tree place path
  let target := parent ++ [.name last]
  if !path.isEmpty && !extended.isDotted parent then none
  else if (extended.get? target).isSome then none
  else return extended.set target (.value value)

/-- Makes the table of a header. A table that is only implied by other headers
may be made. -/
def openTable (tree : Tree) (key : List String) : Option (Tree × Place) := do
  let last ← key.getLast?
  let (extended, parent) ← descend false tree [] key.dropLast
  let target := parent ++ [.name last]
  match extended.get? target with
  | none => return (extended.set target (.table false false), target)
  | some (.table true false) => return (extended.set target (.table false false), target)
  | _ => none

/-- Makes one more table of the array of a header. -/
def extendArray (tree : Tree) (key : List String) : Option (Tree × Place) := do
  let last ← key.getLast?
  let (extended, parent) ← descend false tree [] key.dropLast
  let target := parent ++ [.name last]
  let count ← match extended.get? target with
    | none => some 0
    | some (.tables count) => some count
    | _ => none
  let element := target ++ [.index count]
  return ((extended.set target (.tables (count + 1))).set element (.table false false), element)

end Tree

end ExLine.Toml

import ExLine.Toml.Lexical
import ExLine.Toml.Tree

/-!
Contract: reading TOML documents.

Owns: the readers for values, and `Toml.parse`, which reads a whole document
into the tree of what it defines.

Does not own: the rules for defining tables (`ExLine.Toml.Tree`).
-/

set_option autoImplicit false

namespace ExLine.Toml

/-! ## Values -/

/-- A value that starts like a number: a date, a float or an integer. -/
def readNumeric : Reader Value := fun chars =>
  match readDateTime chars with
  | some ((), after) => some (.datetime, after)
  | none =>
    match readFloat chars with
    | some ((), after) => some (.float, after)
    | none => (readInteger chars).map fun (value, after) => (.integer value, after)

/-- What follows an opening bracket: values with commas between them, up to the
closing bracket. A comma may follow the last value. -/
def readArray (value : Reader Value) : Reader Unit := fun chars =>
  readArrayWithin (chars.length + 1) chars
where
  /-- The values from some place on. -/
  readArrayWithin : Nat → Reader Unit
    | 0 => fun _ => none
    | fuel + 1 => fun chars =>
      match Reader.char ']' (skipLines chars) with
      | some result => some result
      | none => do
        let (_, afterValue) ← value (skipLines chars)
        let rest := skipLines afterValue
        match Reader.char ',' rest with
        | some ((), afterComma) => readArrayWithin fuel afterComma
        | none => Reader.char ']' rest

/-- A key, an equals sign and a value, with blanks around them. -/
def readKeyValue (value : Reader Value) : Reader (List String × Value) := fun chars => do
  let (key, afterKey) ← readKey chars
  let ((), afterSign) ← Reader.char '=' afterKey
  let (found, after) ← value (skipBlanks afterSign)
  return ((key, found), skipBlanks after)

/-- What follows an opening brace: keys and values with commas between them, up
to the closing brace. No comma may follow the last of them. -/
def readInlineTable (value : Reader Value) : Reader Unit := fun chars =>
  match Reader.char '\x7d' (skipBlanks chars) with
  | some result => some result
  | none => do
    let (entries, rest) ← Reader.separated (readKeyValue value) ',' chars
    let _ ← entries.foldlM (fun tree entry => tree.define [] entry.1 entry.2) ({} : Tree)
    Reader.char '\x7d' rest

/-- A value whose parts, if it is an array or an inline table, are read by
`inner`. Without an inner reader the nesting is used up. -/
def valueOver (inner : Option (Reader Value)) : Reader Value
  | [] => none
  | first :: rest =>
    let chars := first :: rest
    if first = '"' || first = '\'' then
      (readString chars).map fun (text, after) => (.string text, after)
    else if first = '[' then
      inner.bind fun value => (readArray value rest).map fun (_, after) => (.array, after)
    else if first = '\x7b' then
      inner.bind fun value =>
        (readInlineTable value rest).map fun (_, after) => (.inlineTable, after)
    else if first = 't' then
      (Reader.word "true".toList chars).map fun (_, after) => (.boolean, after)
    else if first = 'f' then
      (Reader.word "false".toList chars).map fun (_, after) => (.boolean, after)
    else if first = 'i' || first = 'n' then
      (readFloat chars).map fun (_, after) => (.float, after)
    else readNumeric chars

/-- A value with at most `nesting` arrays and inline tables around any value in
it. -/
def readValue : Nat → Reader Value
  | 0 => valueOver none
  | nesting + 1 => valueOver (some (readValue nesting))

/-- A value. -/
def readAnyValue : Reader Value :=
  readValue (nestingLimit - 1)

/-! ## Documents -/

/-- A document as far as it has been read: what it defines, and the table that
key lines belong to. -/
structure Progress where
  tree : Tree := {}
  current : Place := []

/-- A header of an array of tables or of a table. -/
def readHeader (progress : Progress) : Reader Progress := fun chars =>
  match Reader.word ['[', '['] chars with
  | some ((), opened) => do
    let (key, afterKey) ← readKey opened
    let ((), closed) ← Reader.word [']', ']'] afterKey
    let (tree, current) ← progress.tree.extendArray key
    return ({ tree, current }, closed)
  | none => do
    let ((), opened) ← Reader.char '[' chars
    let (key, afterKey) ← readKey opened
    let ((), closed) ← Reader.char ']' afterKey
    let (tree, current) ← progress.tree.openTable key
    return ({ tree, current }, closed)

/-- A key line. -/
def readDefinition (progress : Progress) : Reader Progress := fun chars => do
  let ((key, value), after) ← readKeyValue readAnyValue chars
  let tree ← progress.tree.define progress.current key value
  return ({ progress with tree }, after)

/-- Reads lines until the text is used up. -/
def readLines : Nat → Progress → List Char → Option Tree
  | 0, _, _ => none
  | fuel + 1, progress, chars =>
    match skipBlanks chars with
    | [] => some progress.tree
    | first :: rest => do
      let (next, afterContent) ←
        if first = '#' || first = '\n' || first = '\r' then some (progress, first :: rest)
        else if first = '[' then readHeader progress (first :: rest)
        else readDefinition progress (first :: rest)
      let ((), after) ← readLineEnd afterContent
      readLines fuel next after

/-- Reads a whole document. A byte order mark in front does not belong to it. -/
def parse (text : String) : Option Tree :=
  let chars := match text.toList with
    | '\uFEFF' :: rest => rest
    | chars => chars
  readLines (chars.length + 1) {} chars

end ExLine.Toml

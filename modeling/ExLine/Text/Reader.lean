/-!
Contract: reading a format from the front of a text.

Owns: `Reader`, a function that takes what it reads off the front of a text,
and the few combinations that the file formats need.

Does not own: the formats (`ExLine.Json`, `ExLine.Toml`).
-/

set_option autoImplicit false

namespace ExLine

/-- Reads something off the front of a text, or refuses it. -/
abbrev Reader (α : Type) := List Char → Option (α × List Char)

namespace Reader

/-- Takes one given character. -/
def char (expected : Char) : Reader Unit
  | [] => none
  | found :: rest => if found = expected then some ((), rest) else none

/-- Takes a given run of characters. -/
def word (expected : List Char) : Reader Unit := fun chars =>
  if expected.isPrefixOf chars then some ((), chars.drop expected.length) else none

/-- Takes the longest run of characters of a class; there has to be one. -/
def some1 (holds : Char → Bool) : Reader (List Char) := fun chars =>
  let taken := chars.takeWhile holds
  if taken.isEmpty then none else some (taken, chars.dropWhile holds)

/-- Takes exactly `count` characters of a class. -/
def exactly (count : Nat) (holds : Char → Bool) : Reader (List Char) := fun chars =>
  let taken := chars.take count
  if taken.length = count && taken.all holds then some (taken, chars.drop count) else none

/-- Takes an item, and then an item after each separator, at most `fuel`
times. -/
def separatedWithin {α : Type} (item : Reader α) (separator : Char) :
    Nat → Reader (List α)
  | 0 => fun _ => none
  | fuel + 1 => fun chars => do
    let (first, rest) ← item chars
    match char separator rest with
    | none => return ([first], rest)
    | some ((), afterSeparator) =>
      let (others, after) ← separatedWithin item separator fuel afterSeparator
      return (first :: others, after)

/-- Takes one or more items with a separator between each two. A separator
that no item follows is refused. -/
def separated {α : Type} (item : Reader α) (separator : Char) : Reader (List α) := fun chars =>
  separatedWithin item separator (chars.length + 1) chars

end Reader

end ExLine

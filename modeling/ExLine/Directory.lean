import ExLine.Text.Chars

/-!
Contract: directories by name.

Owns: `Directory.resolve`, the directory that a path names as seen from
another directory, with `.` and `..` taken out by name alone.

Does not own: whether a directory exists, which is the host's business.
-/

set_option autoImplicit false

namespace ExLine.Directory

/-- Whether a path starts at the root. -/
def isAbsolute (path : List Char) : Bool :=
  path.head? == some '/'

/-- The names that a path leads through. Repeated slashes and `.` lead
nowhere. -/
def components (path : List Char) : List (List Char) :=
  (Chars.splitOn '/' path).filter fun name => !name.isEmpty && name != ['.']

/-- Goes one name further: `..` leaves the last directory of a trail, if there
is one. The trail holds the last directory first. -/
def enter (trail : List (List Char)) (name : List Char) : List (List Char) :=
  if name = ['.', '.'] then trail.tail else name :: trail

/-- The names of a trail with slashes between them. -/
def spell (trail : List (List Char)) : List Char :=
  ['/'].intercalate trail.reverse

/-- The directory that `path` names as seen from `cwd`. A path that leads
nowhere names the root. -/
def resolve (cwd path : String) : String :=
  let start := if isAbsolute path.toList then [] else cwd.toList
  let trail := (components start ++ components path.toList).foldl enter []
  if isAbsolute start || isAbsolute path.toList then String.ofList ('/' :: spell trail)
  else if trail.isEmpty then "/"
  else String.ofList (spell trail)

end ExLine.Directory

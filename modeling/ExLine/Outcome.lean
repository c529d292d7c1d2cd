/-!
Contract: what a command hands back.

Owns: `Outcome`, an exit code with output and error text, and `Outcome.combine`,
which folds the outcome of a later command into that of the earlier ones.

Does not own: failures of the engine itself (`ExLine.Error`).
-/

set_option autoImplicit false

namespace ExLine

/-- The outcome of a command or of a chain of commands. A code other than 0
is a failure that the command chose to report. -/
structure Outcome where
  code : Int := 0
  out : String := ""
  err : String := ""
  deriving DecidableEq, Repr

namespace Outcome

/-- A success with output. -/
def success (out : String) : Outcome := { out }

/-- A success without output. -/
def done : Outcome := {}

/-- A failure with an error text. -/
def failure (code : Int) (err : String) : Outcome := { code, err }

/-- Whether the command succeeded. -/
def isOk (outcome : Outcome) : Bool :=
  outcome.code == 0

/-- Two texts on lines of their own; an empty text takes no line. -/
def joinLines (first second : String) : String :=
  if second.isEmpty then first
  else if first.isEmpty then second
  else first ++ "\n" ++ second

/-- The outcome of a chain followed by one more command: texts are joined line
by line, and the last failing code is the code of the chain. -/
def combine (earlier later : Outcome) : Outcome where
  code := if later.isOk then earlier.code else later.code
  out := joinLines earlier.out later.out
  err := joinLines earlier.err later.err

end Outcome

end ExLine

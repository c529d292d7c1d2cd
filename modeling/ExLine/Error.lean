import ExLine.Branch
import ExLine.Expr.Error
import ExLine.Range.Basic
import ExLine.Text.Chars

/-!
Contract: why the engine could not carry out a command.

Owns: `CommandError`, one constructor for each cause, with its wording.

Does not own: failures that a command reports by its exit code
(`ExLine.Outcome`).
-/

set_option autoImplicit false

namespace ExLine

/-- What a command may carry besides its arguments. -/
inductive Mark where
  /-- An exclamation mark after the name. -/
  | bang
  /-- An ampersand after the arguments. -/
  | background
  /-- A range before the name. -/
  | range
  deriving DecidableEq, Repr

/-- How messages call a mark. -/
def Mark.sign : Mark → String
  | .bang => "!"
  | .background => "&"
  | .range => "range"

inductive CommandError where
  /-- A quote is still open at the end of the line. -/
  | unterminatedQuote (quote : Char)
  | noSuchCommand (name : String)
  /-- Several command names start with `name`. -/
  | ambiguousCommand (name : String) (candidates : List String)
  /-- `expected` is the number of arguments that the command takes. -/
  | argumentCount (name : String) (given : Nat) (expected : String)
  | markNotSupported (name : String) (mark : Mark)
  | duplicateName (name : String)
  | launchFailed (program reason : String)
  /-- The arguments are no text from this byte on. -/
  | malformedEncoding (offset : Nat)
  /-- User commands call each other too deeply. -/
  | nestingLimit (levels : Nat)
  | invalidRange (cause : RangeError)
  | expression (cause : ExprError)
  | noSuchVariable (names : List String)
  | control (cause : ControlError)
  deriving DecidableEq, Repr

/-- The wording of a command error. -/
def CommandError.message : CommandError → String
  | .unterminatedQuote quote => "unterminated " ++ quote.toString ++ " quote"
  | .noSuchCommand name => "not an editor command: " ++ name
  | .ambiguousCommand name candidates =>
    "ambiguous command: " ++ name ++ " (could be " ++ Text.join ", " candidates ++ ")"
  | .argumentCount name given expected =>
    name ++ ": wrong number of arguments (" ++ toString given ++ ", expected " ++ expected ++ ")"
  | .markNotSupported name mark => name ++ ": " ++ mark.sign ++ " is not supported"
  | .duplicateName name => "command already exists: " ++ name
  | .launchFailed program reason => "failed to launch " ++ program ++ ": " ++ reason
  | .malformedEncoding offset => "malformed encoding at byte " ++ toString offset
  | .nestingLimit levels => "user command nesting exceeds " ++ toString levels ++ " levels"
  | .invalidRange cause => "invalid range: " ++ cause.message
  | .expression cause => cause.message
  | .noSuchVariable names => "no such variable: " ++ Text.join ", " names
  | .control cause => cause.message

/-- A result with its error put into the engine's terms. -/
def liftError {ε α : Type} (toCommandError : ε → CommandError) :
    Except ε α → Except CommandError α
  | .ok value => .ok value
  | .error error => .error (toCommandError error)

end ExLine

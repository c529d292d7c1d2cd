/-!
Contract: line ranges and what they denote in a view.

Owns:
- `Address`, `RangeSpec`: a range as it is written, relative to a view;
- `LineRange`: a range resolved against a view;
- `RangeError` with its wording;
- `RangeSpec.resolve` and `LineRange.lastLine`.

Does not own: reading a range from a line (`ExLine.Range.Parser`).

Line arithmetic happens in signed 64-bit words: an address whose value leaves
them is an error, and a view too long for them counts modulo 2^64.
-/

set_option autoImplicit false

namespace ExLine

/-- The greatest signed 64-bit integer. -/
def maxWord : Int := 9223372036854775807

/-- The least signed 64-bit integer. -/
def minWord : Int := -9223372036854775808

/-- Whether an integer is a signed 64-bit integer. -/
def fitsWord (value : Int) : Bool :=
  minWord ≤ value && value ≤ maxWord

/-- A count read as a signed 64-bit integer. -/
def wordOfCount (count : Nat) : Int :=
  (Int64.ofNat count).toInt

/-- What an address counts from. -/
inductive Base where
  /-- A line by its 1-based number. -/
  | line (number : Nat)
  /-- The cursor line. -/
  | current
  /-- The last line of the view. -/
  | last
  deriving DecidableEq, Repr

/-- A line as it is written: a base and an offset from it. -/
structure Address where
  base : Base
  offset : Int
  deriving DecidableEq, Repr

/-- A range as it is written. -/
inductive RangeSpec where
  /-- Every line of the view. -/
  | whole
  /-- One line. -/
  | single (address : Address)
  /-- The lines from one address to another, in either order. -/
  | pair (first second : Address)
  deriving DecidableEq, Repr

/-- A range of a view, in 0-based lines with both ends included. -/
inductive LineRange where
  | whole
  | lines (first last : Nat)
  deriving DecidableEq, Repr

/-- Why a range does not denote lines. -/
inductive RangeError where
  /-- A line number has too many digits. -/
  | numberTooLarge (digits : String)
  /-- The offsets of an address leave the 64-bit words. -/
  | offsetOutOfBounds
  /-- The address is not a line of a view with `length` lines. -/
  | outsideView (line : Int) (length : Nat)
  deriving DecidableEq, Repr

/-- The wording of a range error. -/
def RangeError.message : RangeError → String
  | .numberTooLarge digits => "line number too large: " ++ digits
  | .offsetOutOfBounds => "line offset out of bounds"
  | .outsideView line length =>
    "line " ++ toString line ++ " is outside 1.." ++ toString length

/-- The cursor line, where nothing else is written. -/
def Address.cursor : Address := ⟨.current, 0⟩

/-- The 0-based line that a base denotes, before any offset. -/
def Base.position (base : Base) (cursor length : Nat) : Int :=
  match base with
  | .line number => (number : Int) - 1
  | .current => wordOfCount cursor
  | .last => (Int64.ofNat length - 1).toInt

/-- The 0-based line that an address denotes in a view. -/
def Address.resolve (address : Address) (cursor length : Nat) : Except RangeError Nat :=
  let line := address.base.position cursor length + address.offset
  if !fitsWord line then .error .offsetOutOfBounds
  else if line < 0 || line ≥ wordOfCount length then
    .error (.outsideView (min (line + 1) maxWord) length)
  else .ok line.toNat

/-- The lines that a written range denotes in a view. -/
def RangeSpec.resolve (spec : RangeSpec) (cursor length : Nat) : Except RangeError LineRange :=
  match spec with
  | .whole => .ok .whole
  | .single address => do
    let line ← address.resolve cursor length
    return .lines line line
  | .pair first second => do
    let one ← first.resolve cursor length
    let other ← second.resolve cursor length
    return .lines (min one other) (max one other)

/-- The last line of a range, if the view has any line. -/
def LineRange.lastLine (range : LineRange) (length : Nat) : Option Nat :=
  match range with
  | .whole => if length = 0 then none else some (length - 1)
  | .lines _ last => some last

end ExLine

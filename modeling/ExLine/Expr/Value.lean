import ExLine.Text.Chars

/-!
Contract: the values of the expression language.

Owns: `Value`, an integer or a text, with its two readings `Value.text` and
`Value.toInt`, its truth value and its order.

Does not own: expressions (`ExLine.Expr.Basic`).
-/

set_option autoImplicit false

namespace ExLine

/-- An integer of 64 bits or a text. -/
inductive Value where
  | int (value : Int64)
  | str (text : String)
  deriving DecidableEq, Repr

namespace Value

/-- The greatest magnitude that a text is read as. -/
def textIntCeiling : Nat := 9223372036854775807

/-- The integer at the front of a text: after whitespace, at most one minus
sign and decimal digits. A magnitude above the ceiling counts as the ceiling,
and a text without digits as 0. -/
def leadingInt (chars : List Char) : Int64 :=
  let magnitude (digits : List Char) : Int64 :=
    Int64.ofNat (min (Chars.decimalValue (digits.takeWhile Chars.isDigit)) textIntCeiling)
  match chars.dropWhile Chars.isWhitespace with
  | '-' :: digits => -magnitude digits
  | digits => magnitude digits

/-- The value as an integer. -/
def toInt : Value → Int64
  | .int value => value
  | .str text => leadingInt text.toList

/-- The value as a text. -/
def text : Value → String
  | .int value => toString value.toInt
  | .str text => text

/-- A value is true if it is not 0 as an integer. -/
def isTruthy (value : Value) : Bool :=
  value.toInt != 0

/-- The value of a truth value: 1 or 0. -/
def ofBool (flag : Bool) : Value :=
  .int (if flag then 1 else 0)

/-- Two integers compare as numbers, and any other pair by the order of the
texts' characters. -/
def order (left right : Value) : Ordering :=
  match left, right with
  | .int first, .int second => compare first.toInt second.toInt
  | _, _ => compare left.text right.text

end Value

end ExLine

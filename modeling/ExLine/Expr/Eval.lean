import ExLine.Expr.Basic
import ExLine.Expr.Error
import ExLine.Expr.Value

/-!
Contract: the value of an expression.

Owns:
- `Bindings`, what the names of an expression stand for;
- `BinaryOp.apply`, `Expr.eval`;
- `AssignOp.combine`, what an assignment stores.

Does not own: where bindings come from (`ExLine.Engine`).
-/

set_option autoImplicit false

namespace ExLine

/-- What the names of an expression stand for. -/
structure Bindings where
  var : String → Option Value
  env : String → Option String

/-- The value of an operator on the values of both operands. -/
def BinaryOp.apply (op : BinaryOp) (left right : Value) : Value :=
  match op with
  | .or => .ofBool (left.isTruthy || right.isTruthy)
  | .and => .ofBool (left.isTruthy && right.isTruthy)
  | .eq => .ofBool (left.order right == .eq)
  | .ne => .ofBool (left.order right != .eq)
  | .lt => .ofBool (left.order right == .lt)
  | .le => .ofBool (left.order right != .gt)
  | .gt => .ofBool (left.order right == .gt)
  | .ge => .ofBool (left.order right != .lt)
  | .add => .int (left.toInt + right.toInt)
  | .sub => .int (left.toInt - right.toInt)
  | .concat => .str (left.text ++ right.text)

/-- The value of a unary operator. -/
def UnaryOp.apply (op : UnaryOp) (operand : Value) : Value :=
  match op with
  | .not => .ofBool !operand.isTruthy
  | .neg => .int (-operand.toInt)
  | .pos => .int operand.toInt

/-- The value of an expression. The right side of `||` and `&&` is evaluated
only if the left side does not decide. An environment variable that is not
set is the empty text; a scope variable that is not set is an error. -/
def Expr.eval (bindings : Bindings) : Expr → Except ExprError Value
  | .int value => .ok (.int value)
  | .str text => .ok (.str text)
  | .env name => .ok (.str ((bindings.env name).getD ""))
  | .var name =>
    match bindings.var name with
    | some value => .ok value
    | none => .error (.undefined name)
  | .unary op operand => do
    let value ← operand.eval bindings
    return op.apply value
  | .binary .or left right => do
    let value ← left.eval bindings
    if value.isTruthy then return .int 1
    else
      let other ← right.eval bindings
      return .ofBool other.isTruthy
  | .binary .and left right => do
    let value ← left.eval bindings
    if value.isTruthy then
      let other ← right.eval bindings
      return .ofBool other.isTruthy
    else return .int 0
  | .binary op left right => do
    let value ← left.eval bindings
    let other ← right.eval bindings
    return op.apply value other

/-- The values of expressions, in order, up to the first that has none. -/
def Expr.evalAll (bindings : Bindings) : List Expr → Except ExprError (List Value)
  | [] => .ok []
  | expr :: rest => do
    let value ← expr.eval bindings
    let values ← evalAll bindings rest
    return value :: values

/-- What an assignment stores in `name`, given what it held. All operators but
plain assignment need an old value. -/
def AssignOp.combine (op : AssignOp) (name : String) (current : Option Value) (value : Value) :
    Except ExprError Value :=
  match op, current with
  | .set, _ => .ok value
  | _, none => .error (.undefined name)
  | .append, some held => .ok (.str (held.text ++ value.text))
  | .add, some held => .ok (.int (held.toInt + value.toInt))
  | .sub, some held => .ok (.int (held.toInt - value.toInt))

end ExLine

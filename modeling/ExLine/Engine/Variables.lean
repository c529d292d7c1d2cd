import ExLine.Engine.Basic
import ExLine.Expr.Parser

/-!
Contract: printing, assigning and removing variables.

Owns: the actions behind `echo`, `let` and `unlet`.

Does not own: expressions (`ExLine.Expr`).
-/

set_option autoImplicit false

namespace ExLine.Engine

/-- The values of the expressions in a text. -/
def valuesOf (engine : Engine) (text : String) : Except ExprError (List Value) := do
  let exprs ← Expr.parseList text
  Expr.evalAll engine.bindings exprs

/-- Prints the values of expressions with a space between each two. -/
def echo (engine : Engine) (invocation : Invocation) : Reply × Engine :=
  match engine.valuesOf invocation.text with
  | .ok values => (.ok (Outcome.success (Text.join " " (values.map Value.text))), engine)
  | .error error => engine.refuse (.expression error)

/-- The value that a target holds. -/
def held (engine : Engine) : Target → Option Value
  | .env name => (engine.env.get? name).map .str
  | .var name => engine.scope.get? name

/-- The name of a target. -/
def nameOf : Target → String
  | .env name => name
  | .var name => name

/-- Stores a value: in the environment as text, or in the innermost frame. -/
def store (engine : Engine) (target : Target) (value : Value) : Engine :=
  match target with
  | .env name => { engine with env := engine.env.insert name value.text }
  | .var name => { engine with scope := engine.scope.set name value }

/-- What an assignment stores, and where. -/
def assigned (engine : Engine) (text : String) : Except ExprError (Target × Value) := do
  let assignment ← Assignment.parse text
  let value ← assignment.value.eval engine.bindings
  let combined ← assignment.op.combine (nameOf assignment.target) (engine.held assignment.target)
    value
  return (assignment.target, combined)

/-- Assigns a variable. -/
def assign (engine : Engine) (invocation : Invocation) : Reply × Engine :=
  match engine.assigned invocation.text with
  | .ok (target, value) => (engine.store target value).done
  | .error error => engine.refuse (.expression error)

/-- Removes the variable that an argument names, and tells whether it was
set. A leading dollar sign names an environment variable. -/
def removeVariable (engine : Engine) (argument : String) : Bool × Engine :=
  match argument.toList with
  | '$' :: rest =>
    let name := String.ofList rest
    (engine.env.contains name, { engine with env := engine.env.erase name })
  | _ =>
    let (found, scope) := engine.scope.unset argument
    (found, { engine with scope })

/-- Removes variables in order; returns the arguments that named none. -/
def removeVariables (engine : Engine) : List String → List String × Engine
  | [] => ([], engine)
  | argument :: rest =>
    let (found, afterFirst) := engine.removeVariable argument
    let (missing, after) := afterFirst.removeVariables rest
    (if found then missing else argument :: missing, after)

/-- Removes variables. Names without a variable are an error, unless an
exclamation mark says otherwise; the other variables are removed all the
same. -/
def unassign (engine : Engine) (invocation : Invocation) : Reply × Engine :=
  let (missing, after) := engine.removeVariables invocation.args
  if missing.isEmpty || invocation.bang then after.done
  else after.refuse (.noSuchVariable missing)

end ExLine.Engine

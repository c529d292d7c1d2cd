/-!
Contract: the syntax trees of the expression language.

Owns: `Expr` with its operators, and `Assignment`, what `let` takes.

Does not own: reading a tree from text (`ExLine.Expr.Parser`) and its value
(`ExLine.Expr.Eval`).
-/

set_option autoImplicit false

namespace ExLine

inductive UnaryOp where
  /-- Logical negation. -/
  | not
  /-- Arithmetic negation. -/
  | neg
  /-- The operand as an integer. -/
  | pos
  deriving DecidableEq, Repr

inductive BinaryOp where
  | or
  | and
  | eq
  | ne
  | lt
  | le
  | gt
  | ge
  | add
  | sub
  | concat
  deriving DecidableEq, Repr

inductive Expr where
  | int (value : Int64)
  | str (text : String)
  /-- An environment variable. -/
  | env (name : String)
  /-- A scope variable. -/
  | var (name : String)
  | unary (op : UnaryOp) (operand : Expr)
  | binary (op : BinaryOp) (left right : Expr)
  deriving DecidableEq, Repr

/-- What an assignment writes to. -/
inductive Target where
  | env (name : String)
  | var (name : String)
  deriving DecidableEq, Repr

/-- How an assignment combines the old value with the new one. -/
inductive AssignOp where
  | set
  | append
  | add
  | sub
  deriving DecidableEq, Repr

structure Assignment where
  target : Target
  op : AssignOp
  value : Expr
  deriving DecidableEq, Repr

end ExLine

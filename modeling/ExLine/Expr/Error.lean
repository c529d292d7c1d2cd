import ExLine.Expr.Token

/-!
Contract: why an expression has no value.

Owns: `ExprError` with its wording.
-/

set_option autoImplicit false

namespace ExLine

/-- What the parser asks for where something else stands. -/
inductive Expectation where
  | rightParen
  | assignmentOperator
  deriving DecidableEq, Repr

/-- The sign that is asked for. -/
def Expectation.sign : Expectation → String
  | .rightParen => ")"
  | .assignmentOperator => "="

inductive ExprError where
  /-- No token starts at a byte offset; the excerpt is the text from there. -/
  | lexical (offset : Nat) (excerpt : String)
  | unexpectedEnd
  | unexpected (token : Token)
  /-- A token follows a complete expression. -/
  | trailing (token : Token)
  | expected (what : Expectation)
  /-- An assignment starts with a token that names no variable. -/
  | badTarget (token : Token)
  | undefined (name : String)
  | tooDeep
  deriving DecidableEq, Repr

/-- The wording of an expression error. -/
def ExprError.message : ExprError → String
  | .lexical offset excerpt =>
    "invalid expression at " ++ toString offset ++ ": " ++ excerpt
  | .unexpectedEnd => "unexpected end of expression"
  | .unexpected token => "unexpected token in expression: " ++ token.shown
  | .trailing token => "trailing characters in expression: " ++ token.shown
  | .expected what => "expected `" ++ what.sign ++ "`"
  | .badTarget token => "cannot assign to " ++ token.shown
  | .undefined name => "undefined variable: " ++ name
  | .tooDeep => "expression nested too deeply"

end ExLine

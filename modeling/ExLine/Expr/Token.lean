import ExLine.Text.Quoted

/-!
Contract: the tokens of the expression language.

Owns: `Token` and `Token.shown`, the form in which messages quote a token.

Does not own: how a text is cut into tokens (`ExLine.Expr.Lexer`).
-/

set_option autoImplicit false

namespace ExLine

/-- A token of the expression language. Literals carry their decoded text. -/
inductive Token where
  | or
  | and
  | eq
  | ne
  | le
  | ge
  | lt
  | gt
  | assign
  | concatAssign
  | addAssign
  | subAssign
  | plus
  | minus
  | dot
  | bang
  | leftParen
  | rightParen
  | int (value : Int64)
  | single (text : String)
  | double (text : String)
  | envVar (name : String)
  | ident (name : String)
  deriving DecidableEq, Repr

namespace Token

/-- The name of the token's kind. -/
def kindName : Token → String
  | .or => "Or"
  | .and => "And"
  | .eq => "Eq"
  | .ne => "Ne"
  | .le => "Le"
  | .ge => "Ge"
  | .lt => "Lt"
  | .gt => "Gt"
  | .assign => "Assign"
  | .concatAssign => "ConcatAssign"
  | .addAssign => "AddAssign"
  | .subAssign => "SubAssign"
  | .plus => "Plus"
  | .minus => "Minus"
  | .dot => "Dot"
  | .bang => "Bang"
  | .leftParen => "LParen"
  | .rightParen => "RParen"
  | .int _ => "Int"
  | .single _ => "Single"
  | .double _ => "Double"
  | .envVar _ => "EnvVar"
  | .ident _ => "Ident"

/-- What the token carries besides its kind, as messages show it. -/
def payload : Token → Option String
  | .int value => some (toString value.toInt)
  | .single text => some (Quoted.render text)
  | .double text => some (Quoted.render text)
  | .envVar name => some (Quoted.render name)
  | .ident name => some (Quoted.render name)
  | _ => none

/-- The form in which messages show a token: its kind, followed by its
payload in parentheses. -/
def shown (token : Token) : String :=
  match token.payload with
  | some payload => token.kindName ++ "(" ++ payload ++ ")"
  | none => token.kindName

end Token

end ExLine

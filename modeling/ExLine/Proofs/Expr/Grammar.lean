import ExLine.Expr.Basic
import ExLine.Expr.Token

/-!
Contract: the grammar of expressions.

Owns:
- `Stratum`, the strata of the grammar, with the sign and the stratum of each
  operator;
- `Derivation`, how tokens make up an expression of a stratum: the tokens that it
  spells, the tree that it stands for, how deep it nests and how many binary
  operators it holds.

Does not own: reading (`ExLine.Proofs.Expr.Parsing`).

Every chain grows at its right end, so its operators associate to the left. A
comparison has at most one operator. Parentheses leave no trace in the tree,
which is why nesting is counted on the derivation.
-/

set_option autoImplicit false

namespace ExLine

/-- The strata of the grammar, the loosest first. -/
inductive Stratum where
  | disjunction
  | conjunction
  | comparison
  | sum
  | unary
  | primary
  deriving DecidableEq, Repr

namespace BinaryOp

/-- The token that an operator is written as. -/
def sign : BinaryOp → Token
  | .or => .or
  | .and => .and
  | .eq => .eq
  | .ne => .ne
  | .lt => .lt
  | .le => .le
  | .gt => .gt
  | .ge => .ge
  | .add => .plus
  | .sub => .minus
  | .concat => .dot

/-- The stratum whose operands an operator joins. -/
def stratum : BinaryOp → Stratum
  | .or => .disjunction
  | .and => .conjunction
  | .eq | .ne | .lt | .le | .gt | .ge => .comparison
  | .add | .sub | .concat => .sum

theorem eq_of_sign {op other : BinaryOp} (same : op.sign = other.sign) : op = other := by
  cases op <;> cases other <;> cases same <;> rfl

end BinaryOp

/-- The token that a unary operator is written as. -/
def UnaryOp.sign : UnaryOp → Token
  | .not => .bang
  | .neg => .minus
  | .pos => .plus

/-- The derivations of a stratum. -/
inductive Derivation : Stratum → Type where
  | int (value : Int64) : Derivation .primary
  | single (text : String) : Derivation .primary
  | double (text : String) : Derivation .primary
  | env (name : String) : Derivation .primary
  | var (name : String) : Derivation .primary
  | parens (inner : Derivation .disjunction) : Derivation .primary
  | primary (inner : Derivation .primary) : Derivation .unary
  | signed (op : UnaryOp) (operand : Derivation .unary) : Derivation .unary
  | term (inner : Derivation .unary) : Derivation .sum
  | add (op : BinaryOp) (isSum : op.stratum = .sum)
      (left : Derivation .sum) (right : Derivation .unary) : Derivation .sum
  | sum (inner : Derivation .sum) : Derivation .comparison
  | compare (op : BinaryOp) (isComparison : op.stratum = .comparison)
      (left right : Derivation .sum) : Derivation .comparison
  | comparison (inner : Derivation .comparison) : Derivation .conjunction
  | and (left : Derivation .conjunction) (right : Derivation .comparison) :
      Derivation .conjunction
  | conjunction (inner : Derivation .conjunction) : Derivation .disjunction
  | or (left : Derivation .disjunction) (right : Derivation .conjunction) :
      Derivation .disjunction

namespace Derivation

/-- The tokens of a derivation, in order. -/
def tokens {stratum : Stratum} : Derivation stratum → List Token
  | .int value => [.int value]
  | .single text => [.single text]
  | .double text => [.double text]
  | .env name => [.envVar name]
  | .var name => [.ident name]
  | .parens inner => .leftParen :: (inner.tokens ++ [.rightParen])
  | .signed op operand => op.sign :: operand.tokens
  | .add op _ left right | .compare op _ left right => left.tokens ++ op.sign :: right.tokens
  | .and left right => left.tokens ++ BinaryOp.and.sign :: right.tokens
  | .or left right => left.tokens ++ BinaryOp.or.sign :: right.tokens
  | .primary inner | .term inner | .sum inner | .comparison inner | .conjunction inner =>
    inner.tokens

/-- The tree that a derivation stands for. -/
def expr {stratum : Stratum} : Derivation stratum → Expr
  | .int value => .int value
  | .single text | .double text => .str text
  | .env name => .env name
  | .var name => .var name
  | .signed op operand => .unary op operand.expr
  | .add op _ left right | .compare op _ left right => .binary op left.expr right.expr
  | .and left right => .binary .and left.expr right.expr
  | .or left right => .binary .or left.expr right.expr
  | .parens inner | .primary inner | .term inner | .sum inner | .comparison inner
  | .conjunction inner => inner.expr

/-- The most parentheses and unary operators, counted together, that one
primary lies under. -/
def nesting {stratum : Stratum} : Derivation stratum → Nat
  | .int _ | .single _ | .double _ | .env _ | .var _ => 0
  | .parens inner => inner.nesting + 1
  | .signed _ operand => operand.nesting + 1
  | .add _ _ left right | .compare _ _ left right | .and left right | .or left right =>
    max left.nesting right.nesting
  | .primary inner | .term inner | .sum inner | .comparison inner | .conjunction inner =>
    inner.nesting

/-- How many binary operators a derivation holds. -/
def operators {stratum : Stratum} : Derivation stratum → Nat
  | .int _ | .single _ | .double _ | .env _ | .var _ => 0
  | .add _ _ left right | .compare _ _ left right | .and left right | .or left right =>
    left.operators + right.operators + 1
  | .signed _ operand => operand.operators
  | .parens inner | .primary inner | .term inner | .sum inner | .comparison inner
  | .conjunction inner => inner.operators

end Derivation

end ExLine

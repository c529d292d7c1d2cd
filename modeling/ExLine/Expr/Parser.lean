import ExLine.Expr.Basic
import ExLine.Expr.Error
import ExLine.Expr.Lexer

/-!
Contract: reading expressions from tokens.

Owns:
- `Rule`, a step that reads one expression and takes at least one token;
- the levels of the grammar, from `Rule.unary` to `Rule.expression`;
- `Expr.parse`, `Expr.parseList` and `Assignment.parse`.

Does not own: tokens (`ExLine.Expr.Lexer`).

Disjunctions are chains of conjunctions, conjunctions chains of comparisons,
a comparison is one sum or two sums around one comparison operator, and sums
are chains of unary expressions. All chains associate to the left. Parentheses
and unary operators together nest at most `maxNesting` deep, and one parse
builds at most `maxOperators` binary operators.
-/

set_option autoImplicit false

namespace ExLine

/-- How deep parentheses and unary operators may nest. -/
def maxNesting : Nat := 64

/-- How many binary operators one parse may build. -/
def maxOperators : Nat := 512

/-- How many characters of a text an error message quotes. -/
def excerptLength : Nat := 16

/-- What is left to read, and how many binary operators have been built. -/
structure Cursor where
  tokens : List Token
  operators : Nat := 0
  deriving DecidableEq, Repr

/-- The cursor at another place. -/
def Cursor.at (cursor : Cursor) (tokens : List Token) : Cursor :=
  { cursor with tokens }

/-- A step that reads one expression. It takes at least one token, which is
why reading a chain of them ends. -/
structure Rule where
  run : Cursor → Except ExprError (Expr × Cursor)
  shorter : ∀ {before : Cursor} {expr : Expr} {after : Cursor},
    run before = .ok (expr, after) → after.tokens.length < before.tokens.length

namespace Rule

/-- Joins two expressions, within the bound on operators. -/
def join (op : BinaryOp) (left right : Expr) (cursor : Cursor) :
    Except ExprError (Expr × Cursor) :=
  if cursor.operators < maxOperators then
    .ok (.binary op left right, { cursor with operators := cursor.operators + 1 })
  else .error .tooDeep

theorem tokens_of_join
    {op : BinaryOp}
    {left right expr : Expr}
    {before after : Cursor}
    (joined : join op left right before = .ok (expr, after)) :
    after.tokens = before.tokens := by
  unfold join at joined
  split at joined
  · cases joined
    rfl
  · cases joined

/-! ## Chains of operators on one level -/

/-- Continues a left-associative chain after its first operand. -/
def chainFrom (operator? : Token → Option BinaryOp) (operand : Rule)
    (left : Expr) (cursor : Cursor) : Except ExprError (Expr × Cursor) :=
  match _tokens : cursor.tokens with
  | [] => .ok (left, cursor)
  | token :: rest =>
    match operator? token with
    | none => .ok (left, cursor)
    | some op =>
      match _right : operand.run (cursor.at rest) with
      | .error error => .error error
      | .ok (right, afterRight) =>
        match _joined : join op left right afterRight with
        | .error error => .error error
        | .ok (expr, after) => chainFrom operator? operand expr after
termination_by cursor.tokens.length
decreasing_by
  have rightShorter := operand.shorter _right
  rw [tokens_of_join _joined, _tokens]
  simp only [Cursor.at] at rightShorter
  simp only [List.length_cons]
  omega

theorem length_le_of_chainFrom
    {operator? : Token → Option BinaryOp}
    {operand : Rule}
    {left expr : Expr}
    {before after : Cursor}
    (read : chainFrom operator? operand left before = .ok (expr, after)) :
    after.tokens.length ≤ before.tokens.length := by
  fun_induction chainFrom operator? operand left before with
  | case1 | case2 => cases read; exact Nat.le_refl _
  | case3 | case4 => cases read
  | case5 left cursor token rest tokens op _ right afterRight ran joined next joining
      inductionHypothesis =>
    have rightShorter := operand.shorter ran
    have afterShorter := inductionHypothesis read
    rw [tokens_of_join joining] at afterShorter
    simp only [Cursor.at] at rightShorter
    rw [tokens]
    simp only [List.length_cons]
    omega

/-- A left-associative chain of operands. -/
def chain (operator? : Token → Option BinaryOp) (operand : Rule) : Rule where
  run cursor :=
    match operand.run cursor with
    | .error error => .error error
    | .ok (first, after) => chainFrom operator? operand first after
  shorter := by
    intro before expr after read
    split at read
    · cases read
    · rename_i first middle ran
      have firstShorter := operand.shorter ran
      have restShorter := length_le_of_chainFrom read
      omega

/-- One operand, or two around a single operator. -/
def atMostOne (operator? : Token → Option BinaryOp) (operand : Rule) : Rule where
  run cursor :=
    match operand.run cursor with
    | .error error => .error error
    | .ok (left, afterLeft) =>
      match afterLeft.tokens with
      | [] => .ok (left, afterLeft)
      | token :: rest =>
        match operator? token with
        | none => .ok (left, afterLeft)
        | some op =>
          match operand.run (afterLeft.at rest) with
          | .error error => .error error
          | .ok (right, afterRight) => join op left right afterRight
  shorter := by
    intro before expr after read
    split at read
    · cases read
    · rename_i left afterLeft ran
      have leftShorter := operand.shorter ran
      split at read
      · cases read
        exact leftShorter
      · rename_i token rest tokens
        split at read
        · cases read
          exact leftShorter
        · split at read
          · cases read
          · rename_i right afterRight ranRight
            have rightShorter := operand.shorter ranRight
            rw [tokens_of_join read]
            rw [tokens] at leftShorter
            simp only [Cursor.at] at rightShorter
            simp only [List.length_cons] at leftShorter
            omega

/-! ## The levels -/

/-- The operators of a disjunction. -/
def orOperator? : Token → Option BinaryOp
  | .or => some .or
  | _ => none

/-- The operators of a conjunction. -/
def andOperator? : Token → Option BinaryOp
  | .and => some .and
  | _ => none

/-- The operators of a comparison. -/
def comparisonOperator? : Token → Option BinaryOp
  | .eq => some .eq
  | .ne => some .ne
  | .lt => some .lt
  | .le => some .le
  | .gt => some .gt
  | .ge => some .ge
  | _ => none

/-- The operators of a sum. -/
def additiveOperator? : Token → Option BinaryOp
  | .plus => some .add
  | .minus => some .sub
  | .dot => some .concat
  | _ => none

/-- The operators before an operand. -/
def unaryOperator? : Token → Option UnaryOp
  | .bang => some .not
  | .minus => some .neg
  | .plus => some .pos
  | _ => none

/-- Everything above unary expressions, over a rule for those. -/
def disjunction (operand : Rule) : Rule :=
  chain orOperator?
    (chain andOperator? (atMostOne comparisonOperator? (chain additiveOperator? operand)))

/-- An operand that is one token. -/
def atom? : Token → Option Expr
  | .int value => some (.int value)
  | .single text => some (.str text)
  | .double text => some (.str text)
  | .envVar name => some (.env name)
  | .ident name => some (.var name)
  | _ => none

/-- What follows an opening parenthesis: a disjunction over `inner` and the
closing parenthesis. Without an inner rule the nesting is used up. -/
def parenthesised (inner : Option Rule) (cursor : Cursor) : Except ExprError (Expr × Cursor) :=
  match inner with
  | none => .error .tooDeep
  | some inner =>
    match (disjunction inner).run cursor with
    | .error error => .error error
    | .ok (expr, after) =>
      match after.tokens with
      | .rightParen :: rest => .ok (expr, after.at rest)
      | _ => .error (.expected .rightParen)

/-- What follows a unary operator. Without an inner rule the nesting is used
up. -/
def operated (op : UnaryOp) (inner : Option Rule) (cursor : Cursor) :
    Except ExprError (Expr × Cursor) :=
  match inner with
  | none => .error .tooDeep
  | some inner =>
    match inner.run cursor with
    | .error error => .error error
    | .ok (operand, after) => .ok (.unary op operand, after)

/-- A unary expression whose operand, after an operator or within parentheses,
is read by `inner`. -/
def unaryOver (inner : Option Rule) : Rule where
  run cursor :=
    match cursor.tokens with
    | [] => .error .unexpectedEnd
    | token :: rest =>
      match atom? token, unaryOperator? token with
      | some expr, _ => .ok (expr, cursor.at rest)
      | none, some op => operated op inner (cursor.at rest)
      | none, none =>
        if token = .leftParen then parenthesised inner (cursor.at rest)
        else .error (.unexpected token)
  shorter := by
    intro before expr after read
    split at read
    · cases read
    · rename_i token rest tokens
      rw [tokens]
      split at read
      · cases read
        simp [Cursor.at]
      · unfold operated at read
        split at read
        · cases read
        · rename_i inner
          split at read
          · cases read
          · rename_i ran
            cases read
            have innerShorter := inner.shorter ran
            simp only [Cursor.at] at innerShorter
            simp only [List.length_cons]
            omega
      · split at read
        · unfold parenthesised at read
          split at read
          · cases read
          · rename_i inner
            split at read
            · cases read
            · rename_i ran
              have innerShorter := (disjunction inner).shorter ran
              simp only [Cursor.at] at innerShorter
              split at read
              · rename_i closing
                cases read
                rw [closing] at innerShorter
                simp only [Cursor.at, List.length_cons] at innerShorter ⊢
                omega
              · cases read
        · cases read

/-- A unary expression with at most `nesting` levels of parentheses and unary
operators. -/
def unary : Nat → Rule
  | 0 => unaryOver none
  | nesting + 1 => unaryOver (some (unary nesting))

/-- A whole expression. -/
def expression : Rule :=
  disjunction (unary maxNesting)

end Rule

/-! ## Whole sources -/

/-- The tokens of a source, or where and in front of what the lexer stops. -/
def Token.ofSource (source : String) : Except ExprError (List Token) :=
  match Token.lex source.toList with
  | .ok tokens => .ok tokens
  | .error error =>
    .error (.lexical (error.offset source.toList)
      (String.ofList (error.unread.take excerptLength)))

/-- Refuses what follows a complete expression. -/
def Cursor.finish (cursor : Cursor) : Except ExprError Unit :=
  match cursor.tokens with
  | [] => .ok ()
  | token :: _ => .error (.trailing token)

/-- Reads exactly one expression. -/
def Expr.parse (source : String) : Except ExprError Expr := do
  let tokens ← Token.ofSource source
  let (expr, after) ← Rule.expression.run { tokens }
  after.finish
  return expr

/-- Reads expressions until the tokens are used up. -/
def Expr.readAll (cursor : Cursor) : Except ExprError (List Expr) :=
  match _tokens : cursor.tokens with
  | [] => .ok []
  | _ :: _ =>
    match _read : Rule.expression.run cursor with
    | .error error => .error error
    | .ok (expr, after) => do
      let exprs ← readAll after
      return expr :: exprs
termination_by cursor.tokens.length
decreasing_by
  exact Rule.expression.shorter _read

/-- Reads a sequence of expressions that stand side by side. -/
def Expr.parseList (source : String) : Except ExprError (List Expr) := do
  let tokens ← Token.ofSource source
  Expr.readAll { tokens }

/-- The target that a token names. -/
def Target.ofToken? : Token → Option Target
  | .envVar name => some (.env name)
  | .ident name => some (.var name)
  | _ => none

/-- The assignment operator that a token is. -/
def AssignOp.ofToken? : Token → Option AssignOp
  | .assign => some .set
  | .concatAssign => some .append
  | .addAssign => some .add
  | .subAssign => some .sub
  | _ => none

/-- Reads a target, an assignment operator and exactly one expression. -/
def Assignment.parse (source : String) : Except ExprError Assignment := do
  match ← Token.ofSource source with
  | [] => .error .unexpectedEnd
  | first :: afterFirst =>
    match Target.ofToken? first with
    | none => .error (.badTarget first)
    | some target =>
      match afterFirst with
      | [] => .error (.expected .assignmentOperator)
      | second :: tokens =>
        match AssignOp.ofToken? second with
        | none => .error (.expected .assignmentOperator)
        | some op => do
          let (value, after) ← Rule.expression.run { tokens }
          after.finish
          return { target, op, value }

end ExLine

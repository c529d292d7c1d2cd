import ExLine.Proofs.Expr.Assignments
import ExLine.Proofs.Expr.SideBySide

/-!
Contract: expressions that are printed and read back.

Owns:
- `Token.chars`, how a token is written, and `Token.lex_text`: tokens with one blank
  between each two are read back;
- `Expr.phrase`, the derivation of an expression in a place of the grammar, and
  `Derivation.length_phrase_le`: none has fewer tokens;
- `Expr.printed` and `Expr.printed_is_read_back`.

Does not own: reading a derivation (`ExLine.Proofs.Expr.Parsing`) and the end of a
token in front of a blank (`ExLine.Proofs.Expr.SideBySide`).

A place is the stratum that an operand has to be of. An expression of a looser stratum
stands there in parentheses and every other one as it is. The right operand of a
chain has a tighter place than the left one, which is what makes the chain associate
to the left, and both operands of a comparison are sums, so a comparison of
comparisons has parentheses on either side.
-/

set_option autoImplicit false

namespace ExLine

/-! ## Tokens as they are written -/

namespace Token

/-- The characters that a token is written with. -/
def chars : Token → List Char
  | .or => ['|', '|']
  | .and => ['&', '&']
  | .eq => ['=', '=']
  | .ne => ['!', '=']
  | .le => ['<', '=']
  | .ge => ['>', '=']
  | .lt => ['<']
  | .gt => ['>']
  | .assign => ['=']
  | .concatAssign => ['.', '=']
  | .addAssign => ['+', '=']
  | .subAssign => ['-', '=']
  | .plus => ['+']
  | .minus => ['-']
  | .dot => ['.']
  | .bang => ['!']
  | .leftParen => ['(']
  | .rightParen => [')']
  | .int value => (Value.int value).text.toList
  | .single text => (Literal.mk .single text).chars
  | .double text => (Literal.mk .double text).chars
  | .envVar name => '$' :: name.toList
  | .ident name => name.toList

/-- Tokens with one blank between each two. -/
def text (tokens : List Token) : List Char :=
  [' '].intercalate (tokens.map chars)

/-- A token that the lexer can give: no integer has a sign of its own, and names are
those of variables. -/
def isWritable : Token → Bool
  | .int value => 0 ≤ value.toInt
  | .envVar name | .ident name => Chars.isVariable name.toList
  | _ => true

theorem lex_int {value : Int64} (nonneg : 0 ≤ value.toInt) :
    lex (Token.int value).chars = .ok [.int value] := by
  obtain ⟨number, same⟩ : ∃ number : Nat, value.toInt = number := ⟨value.toInt.toNat, by omega⟩
  have small : number < 0x8000000000000000 := by
    have upper := value.toInt_lt
    omega
  have isValue : Int64.ofNat number = value := by
    apply Int64.toInt_inj.mp
    rw [Int64.toInt_ofNat_of_lt small, same]
  have digits : ∀ char ∈ Nat.toDigits 10 number, Chars.isDigit char :=
    fun _ => Chars.isDigit_of_mem_toDigits
  have isNumber := Chars.decimalValue_toDigits number
  rw [chars, Value.text_of_nonneg same]
  obtain ⟨first, rest, shape⟩ := List.exists_cons_of_ne_nil (@Nat.toDigits_ne_nil number 10)
  rw [shape] at digits isNumber ⊢
  have firstDigit := digits first List.mem_cons_self
  have inName : Chars.isNameChar first := by simp [Chars.isNameChar, firstDigit]
  obtain ⟨noSingle, noDouble, noBlank⟩ := Chars.plain_of_isNameChar inName
  have found : read (first :: rest) = .ok (.int value, []) := by
    rw [read, if_neg noSingle, if_neg noDouble, if_pos firstDigit,
      List.takeWhile_eq_self_iff.mpr digits, List.dropWhile_eq_nil_iff.mpr digits, readInt,
      isNumber, if_pos small, isValue]
    rfl
  exact lex_of_read noBlank found (by rw [lex])

theorem lex_ident {name : String} (isVariable : Chars.isVariable name.toList) :
    lex (Token.ident name).chars = .ok [.ident name] := by
  have blank : ∀ char ∈ [' '], Chars.isBlank char := List.forall_mem_singleton.mpr rfl
  apply (lex_append_iff blank).mp
  have lexed : lex (name.toList ++ [' ']) = .ok [.ident (String.ofList name.toList)] :=
    lex_name isVariable (by rw [lex])
  rwa [String.ofList_toList] at lexed

theorem lex_envVar {name : String} (isVariable : Chars.isVariable name.toList) :
    lex (Token.envVar name).chars = .ok [.envVar name] := by
  have inName := Chars.isNameChar_of_isVariable isVariable
  have starts : name.toList.head?.any Chars.isNameStart := by
    cases shape : name.toList with
    | nil =>
      rw [shape] at isVariable
      cases isVariable
    | cons first others =>
      rw [shape] at isVariable
      exact (Bool.and_eq_true_iff.mp isVariable).1
  have found : read ('$' :: name.toList) = .ok (.envVar name, []) := by
    rw [read, if_neg (by decide), if_neg (by decide), if_neg (by decide), if_neg (by decide),
      starts, if_pos (by decide), List.takeWhile_eq_self_iff.mpr inName,
      List.dropWhile_eq_nil_iff.mpr inName, String.ofList_toList]
  exact lex_of_read rfl found (by rw [lex])

theorem lex_chars {token : Token} (writable : token.isWritable) :
    lex token.chars = .ok [token] := by
  have literal (quote : Quote) (text : String) :
      lex (Literal.mk quote text).chars = .ok [(Literal.mk quote text).token] := by
    rw [← List.append_nil (Literal.chars _)]
    exact Literal.lex_chars _ (fun first => nomatch first) (by rw [lex])
  cases token with
  | int value => exact lex_int (of_decide_eq_true writable)
  | single text => exact literal .single text
  | double text => exact literal .double text
  | envVar name => exact lex_envVar writable
  | ident name => exact lex_ident writable
  | _ => decide +kernel

/-- Tokens are read back from their text. -/
theorem lex_text {tokens : List Token} (writable : ∀ token ∈ tokens, token.isWritable) :
    lex (text tokens) = .ok tokens := by
  induction tokens with
  | nil => exact lex.eq_1
  | cons token rest inductionHypothesis =>
    obtain ⟨first, others⟩ := List.forall_mem_cons.mp writable
    have lexedRest := inductionHypothesis others
    cases rest with
    | nil =>
      rw [text, List.map_singleton, List.intercalate_singleton]
      exact lex_chars first
    | cons next rest =>
      have shape : text (token :: next :: rest) = token.chars ++ ' ' :: text (next :: rest) := by
        simp [text, List.intercalate_cons_cons]
      have begins : ∀ char ∈ (' ' :: text (next :: rest)).head?, Chars.isBlank char := by
        rintro _ ⟨⟩
        rfl
      -- The blank ends the token, whatever the next one starts with.
      rw [shape]
      exact lex_followed (lex_chars first) begins ((lex_of_blank rfl).trans lexedRest)

end Token

/-! ## Phrases with the fewest parentheses -/

/-- How tightly a stratum binds. -/
def Stratum.tightness : Stratum → Nat
  | .disjunction => 0
  | .conjunction => 1
  | .comparison => 2
  | .sum => 3
  | .unary => 4
  | .primary => 5

namespace Derivation

/-- A phrase as a whole expression. -/
def whole : {stratum : Stratum} → Derivation stratum → Derivation .disjunction
  | .disjunction, phrase => phrase
  | .conjunction, phrase => .conjunction phrase
  | .comparison, phrase => .conjunction (.comparison phrase)
  | .sum, phrase => .conjunction (.comparison (.sum phrase))
  | .unary, phrase => .conjunction (.comparison (.sum (.term phrase)))
  | .primary, phrase => .conjunction (.comparison (.sum (.term (.primary phrase))))

/-- A phrase as a primary, in parentheses unless it is one. All looser places lead
here. -/
def asPrimary : {stratum : Stratum} → Derivation stratum → Derivation .primary
  | .primary, phrase => phrase
  | _, phrase => .parens phrase.whole

def asUnary : {stratum : Stratum} → Derivation stratum → Derivation .unary
  | .unary, phrase => phrase
  | _, phrase => .primary phrase.asPrimary

def asSum : {stratum : Stratum} → Derivation stratum → Derivation .sum
  | .sum, phrase => phrase
  | _, phrase => .term phrase.asUnary

def asComparison : {stratum : Stratum} → Derivation stratum → Derivation .comparison
  | .comparison, phrase => phrase
  | _, phrase => .sum phrase.asSum

def asConjunction : {stratum : Stratum} → Derivation stratum → Derivation .conjunction
  | .conjunction, phrase => phrase
  | _, phrase => .comparison phrase.asComparison

/-- A phrase in any place. -/
def placed {stratum : Stratum} (phrase : Derivation stratum) : (place : Stratum) → Derivation place
  | .disjunction => phrase.whole
  | .conjunction => phrase.asConjunction
  | .comparison => phrase.asComparison
  | .sum => phrase.asSum
  | .unary => phrase.asUnary
  | .primary => phrase.asPrimary

/-- A phrase has parentheses exactly where it is looser than the place. -/
theorem tokens_placed {stratum : Stratum} (phrase : Derivation stratum) (place : Stratum) :
    (phrase.placed place).tokens
      = if stratum.tightness < place.tightness then .leftParen :: (phrase.tokens ++ [.rightParen])
        else phrase.tokens := by
  cases stratum <;> cases place <;> rfl

theorem length_placed {stratum : Stratum} (phrase : Derivation stratum) (place : Stratum) :
    (phrase.placed place).tokens.length
      = phrase.tokens.length + if stratum.tightness < place.tightness then 2 else 0 := by
  rw [tokens_placed]
  split
  · rw [List.length_cons, List.length_append, List.length_singleton]
  · rfl

theorem expr_placed {stratum : Stratum} (phrase : Derivation stratum) (place : Stratum) :
    (phrase.placed place).expr = phrase.expr := by
  cases stratum <;> cases place <;> rfl

/-- Two phrases around an operator, each in its place. -/
def joined (op : BinaryOp) (left right : (place : Stratum) → Derivation place) :
    Derivation op.stratum :=
  match op with
  | .or => .or (left .disjunction) (right .conjunction)
  | .and => .and (left .conjunction) (right .comparison)
  | .eq => .compare .eq rfl (left .sum) (right .sum)
  | .ne => .compare .ne rfl (left .sum) (right .sum)
  | .lt => .compare .lt rfl (left .sum) (right .sum)
  | .le => .compare .le rfl (left .sum) (right .sum)
  | .gt => .compare .gt rfl (left .sum) (right .sum)
  | .ge => .compare .ge rfl (left .sum) (right .sum)
  | .add => .add .add rfl (left .sum) (right .unary)
  | .sub => .add .sub rfl (left .sum) (right .unary)
  | .concat => .add .concat rfl (left .sum) (right .unary)

end Derivation

namespace Expr

/-- The expression as a phrase in a place, with parentheses only where the phrase is
looser than the place. -/
def phrase : Expr → (place : Stratum) → Derivation place
  | .int value => (Derivation.int value).placed
  | .str text => (Derivation.single text).placed
  | .env name => (Derivation.env name).placed
  | .var name => (Derivation.var name).placed
  | .unary op operand => (Derivation.signed op (operand.phrase .unary)).placed
  | .binary op left right => (Derivation.joined op left.phrase right.phrase).placed

theorem expr_phrase (expr : Expr) (place : Stratum) : (expr.phrase place).expr = expr := by
  induction expr generalizing place with
  | int | str | env | var => exact Derivation.expr_placed _ place
  | unary op operand inductionHypothesis =>
    rw [phrase, Derivation.expr_placed, Derivation.expr, inductionHypothesis]
  | binary op left right leftHypothesis rightHypothesis =>
    rw [phrase, Derivation.expr_placed]
    cases op <;> simp only [Derivation.joined, Derivation.expr, leftHypothesis, rightHypothesis]

/-- Each expression has a phrase of its own that only the places differ for. -/
theorem exists_placed (expr : Expr) :
    ∃ (stratum : Stratum) (own : Derivation stratum), expr.phrase = own.placed := by
  cases expr with
  | int | str | env | var | unary | binary => exact ⟨_, _, rfl⟩

theorem length_phrase_of_looser
    (expr : Expr)
    {outer inner : Stratum}
    (looser : outer.tightness ≤ inner.tightness) :
    (expr.phrase outer).tokens.length ≤ (expr.phrase inner).tokens.length := by
  obtain ⟨stratum, own, same⟩ := expr.exists_placed
  rw [same, Derivation.length_placed, Derivation.length_placed]
  split <;> split <;> omega

theorem length_phrase_primary (expr : Expr) :
    (expr.phrase .primary).tokens.length ≤ (expr.phrase .disjunction).tokens.length + 2 := by
  obtain ⟨stratum, own, same⟩ := expr.exists_placed
  rw [same, Derivation.length_placed, Derivation.length_placed]
  split <;> omega

end Expr

namespace Derivation

theorem length_around_sign
    {left leftOther right rightOther : List Token}
    (leftShorter : left.length ≤ leftOther.length)
    (rightShorter : right.length ≤ rightOther.length)
    (sign : Token) :
    (left ++ sign :: right).length ≤ (leftOther ++ sign :: rightOther).length := by
  simp only [List.length_append, List.length_cons]
  omega

/-- No derivation of an expression has fewer tokens than its phrase. -/
theorem length_phrase_le {place : Stratum} (derivation : Derivation place) :
    (derivation.expr.phrase place).tokens.length ≤ derivation.tokens.length := by
  induction derivation with
  | int | single | double | env | var => exact Nat.le_refl 1
  | parens inner inductionHypothesis =>
    -- The place inside is the loosest one: only the pair itself can be saved.
    have enclosed := inner.expr.length_phrase_primary
    simp only [expr, tokens, List.length_cons, List.length_append, List.length_nil]
    omega
  | primary inner inductionHypothesis | term inner inductionHypothesis
  | sum inner inductionHypothesis | comparison inner inductionHypothesis
  | conjunction inner inductionHypothesis =>
    exact Nat.le_trans (Expr.length_phrase_of_looser _ (by decide)) inductionHypothesis
  | signed op operand inductionHypothesis => exact Nat.succ_le_succ inductionHypothesis
  | add op isSum left right leftHypothesis rightHypothesis =>
    cases op <;> cases isSum <;> exact length_around_sign leftHypothesis rightHypothesis _
  | compare op isComparison left right leftHypothesis rightHypothesis =>
    cases op <;> cases isComparison <;> exact length_around_sign leftHypothesis rightHypothesis _
  | and left right leftHypothesis rightHypothesis
  | or left right leftHypothesis rightHypothesis =>
    exact length_around_sign leftHypothesis rightHypothesis _

end Derivation

/-! ## Printed expressions -/

/-- An expression that has a source: its integers are not negative, and its names are
those of variables. -/
def Expr.isPrintable : Expr → Bool
  | .int value => 0 ≤ value.toInt
  | .str _ => true
  | .env name | .var name => Chars.isVariable name.toList
  | .unary _ operand => operand.isPrintable
  | .binary _ left right => left.isPrintable && right.isPrintable

theorem Derivation.isWritable_of_mem
    {stratum : Stratum}
    {derivation : Derivation stratum}
    (printable : derivation.expr.isPrintable) :
    ∀ token ∈ derivation.tokens, token.isWritable := by
  have opWritable (op : BinaryOp) : op.sign.isWritable := by cases op <;> rfl
  have signWritable (op : UnaryOp) : op.sign.isWritable := by cases op <;> rfl
  induction derivation with
  | int | single | double | env | var => exact List.forall_mem_singleton.mpr printable
  | primary inner inductionHypothesis | term inner inductionHypothesis
  | sum inner inductionHypothesis | comparison inner inductionHypothesis
  | conjunction inner inductionHypothesis => exact inductionHypothesis printable
  | parens inner inductionHypothesis =>
    refine List.forall_mem_cons.mpr ⟨rfl, List.forall_mem_append.mpr ⟨?_, ?_⟩⟩
    · exact inductionHypothesis printable
    · exact List.forall_mem_singleton.mpr rfl
  | signed op operand inductionHypothesis =>
    exact List.forall_mem_cons.mpr ⟨signWritable op, inductionHypothesis printable⟩
  | add op isSum left right leftHypothesis rightHypothesis
  | compare op isComparison left right leftHypothesis rightHypothesis
  | and left right leftHypothesis rightHypothesis
  | or left right leftHypothesis rightHypothesis =>
    obtain ⟨leftPrintable, rightPrintable⟩ := Bool.and_eq_true_iff.mp printable
    refine List.forall_mem_append.mpr ⟨leftHypothesis leftPrintable, ?_⟩
    exact List.forall_mem_cons.mpr ⟨opWritable _, rightHypothesis rightPrintable⟩

theorem Expr.isWritable_of_mem_phrase {expr : Expr} (printable : expr.isPrintable) :
    ∀ token ∈ (expr.phrase .disjunction).tokens, token.isWritable := by
  apply Derivation.isWritable_of_mem
  rw [expr.expr_phrase]
  exact printable

/-- The text of an expression. -/
def Expr.printed (expr : Expr) : String :=
  String.ofList (Token.text (expr.phrase .disjunction).tokens)

/-! ## Printed assignments -/

namespace Target

/-- A target whose name is that of a variable. -/
def isNamed : Target → Bool
  | .env name | .var name => Chars.isVariable name.toList

def token : Target → Token
  | .env name => .envVar name
  | .var name => .ident name

def written : Target → String
  | .env name => "$" ++ name
  | .var name => name

theorem chars_token (target : Target) : target.token.chars = target.written.toList := by
  cases target <;> simp [token, written, Token.chars]

end Target

namespace AssignOp

def token : AssignOp → Token
  | .set => .assign
  | .append => .concatAssign
  | .add => .addAssign
  | .sub => .subAssign

def written : AssignOp → String
  | .set => "="
  | .append => ".="
  | .add => "+="
  | .sub => "-="

end AssignOp

namespace Assignment

def tokens (assignment : Assignment) : List Token :=
  assignment.target.token :: assignment.op.token
    :: (assignment.value.phrase .disjunction).tokens

/-- The text of an assignment. -/
def printed (assignment : Assignment) : String :=
  assignment.target.written ++ " " ++ assignment.op.written ++ " " ++ assignment.value.printed

theorem printed_eq_text (assignment : Assignment) :
    assignment.printed = String.ofList (Token.text assignment.tokens) := by
  obtain ⟨target, op, value⟩ := assignment
  have opChars : op.token.chars = op.written.toList := by cases op <;> rfl
  obtain ⟨token, first, -⟩ := (value.phrase .disjunction).first_token
  obtain ⟨rest, shape⟩ := List.head?_eq_some_iff.mp first
  apply String.toList_inj.mp
  simp [printed, tokens, Expr.printed, Token.text, shape, List.intercalate_cons_cons,
    target.chars_token, opChars]

theorem lex_printed
    {assignment : Assignment}
    (named : assignment.target.isNamed)
    (printable : assignment.value.isPrintable) :
    Token.lex (Token.text assignment.tokens) = .ok assignment.tokens := by
  apply Token.lex_text
  refine List.forall_mem_cons.mpr ⟨?_, List.forall_mem_cons.mpr ⟨?_, ?_⟩⟩
  · cases shape : assignment.target <;> rw [shape] at named <;> exact named
  · cases assignment.op <;> rfl
  · exact Expr.isWritable_of_mem_phrase printable

end Assignment

/-! ## Reading back -/

namespace Expr

/-- The tokens of a phrase are read as the expression. -/
theorem run_phrase
    {expr : Expr}
    (shallow : (expr.phrase .disjunction).nesting ≤ maxNesting)
    (few : (expr.phrase .disjunction).operators ≤ maxOperators) :
    Rule.expression.run { tokens := (expr.phrase .disjunction).tokens }
      = .ok (expr, ⟨[], (expr.phrase .disjunction).operators⟩) := by
  have fits : 0 + (expr.phrase .disjunction).operators ≤ maxOperators := by omega
  have ends : ∀ op : BinaryOp, ([] : List Token).head? ≠ some op.sign := by
    rintro op ⟨⟩
  have ran := (expr.phrase .disjunction).run_expression shallow fits ends
  rwa [List.append_nil, Nat.zero_add, expr.expr_phrase] at ran

/-- **What is printed is read back.** Take an expression whose integers are not
negative and whose names are those of variables. If its text nests at most 64
parentheses and unary operators and holds at most 512 binary operators, it is read as
the expression, and behind a target and an assignment operator as that assignment. No
source that is read as the expression has fewer tokens than the text, so every pair of
parentheses in it is needed. -/
theorem printed_is_read_back
    {expr : Expr}
    (printable : expr.isPrintable)
    (shallow : (expr.phrase .disjunction).nesting ≤ 64)
    (few : (expr.phrase .disjunction).operators ≤ 512) :
    Expr.parse expr.printed = .ok expr
      ∧ (∀ (target : Target) (op : AssignOp), target.isNamed →
          Assignment.parse (target.written ++ " " ++ op.written ++ " " ++ expr.printed)
            = .ok { target, op, value := expr })
      ∧ ∀ source, Expr.parse source = .ok expr →
          ∃ tokens, Token.lex source.toList = .ok tokens
            ∧ (expr.phrase .disjunction).tokens.length ≤ tokens.length := by
  have ran := run_phrase shallow few
  refine ⟨?_, ?_, ?_⟩
  · have lexed := Token.lex_text (isWritable_of_mem_phrase printable)
    exact Expr.parse_eq_ok_iff.mpr ⟨_, _, Token.ofSource_of_lex lexed, ran⟩
  · intro target op named
    have names : Target.ofToken? target.token = some target := by cases target <;> rfl
    have isOp : AssignOp.ofToken? op.token = some op := by cases op <;> rfl
    have lexed := @Assignment.lex_printed ⟨target, op, expr⟩ named printable
    show Assignment.parse (Assignment.printed ⟨target, op, expr⟩) = _
    rw [Assignment.printed_eq_text, Assignment.parse_of_lex lexed names]
    simp [Assignment.readTail, isOp, ran, Cursor.finish, bind, Except.bind, pure, Except.pure]
  · intro source parsed
    obtain ⟨derivation, lexed, rfl, -⟩ := exists_derivation parsed
    exact ⟨derivation.tokens, lexed, derivation.length_phrase_le⟩

/-- An expression with every kind of operand that needs parentheses: on the right in a
chain, behind a sign and in a comparison. -/
def nestedOperands : Expr :=
  .binary .sub (.var "a")
    (.binary .concat (.int 1)
      (.unary .neg (.binary .lt (.binary .eq (.str "it's") (.env "HOME")) (.str ""))))

def nestedText : String := "a - ( 1 . - ( ( 'it''s' == $HOME ) < '' ) )"

theorem printed_is_read_back_nested :
    nestedOperands.printed = nestedText
      ∧ Expr.parse nestedText = .ok nestedOperands
      ∧ Assignment.parse ("$x += " ++ nestedText) = .ok ⟨.env "x", .add, nestedOperands⟩ := by
  have text : nestedOperands.printed = nestedText := by decide
  have readBack := @printed_is_read_back nestedOperands (by decide) (by decide) (by decide)
  rw [text] at readBack
  exact ⟨text, readBack.1, readBack.2.1 (.env "x") .add (by decide)⟩

end Expr

end ExLine

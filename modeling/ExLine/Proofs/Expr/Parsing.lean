import ExLine.Proofs.Expr.Grammar
import ExLine.Proofs.Expr.Literals
import ExLine.Proofs.Results

/-!
Contract: the reader of expressions accepts exactly the grammar.

Owns:
- `Stratum.operator?_eq_some_iff`, which ties the operator tables of the reader to
  those of the grammar;
- `Rule.sound_disjunction` and `Rule.sound_unary`: what is read was derived;
- `Derivation.run_rule`: what is derived is read, whatever follows it, and
  `Derivation.run_expression`, where no operator follows;
- `Expr.parser_accepts_grammar_iff`, the two together for a whole source.

Does not own: tokens (`ExLine.Expr.Lexer`).

Soundness follows the rules: a rule that is built from sound rules is sound, and
the bound on nesting is what the rules recur on. Completeness follows the
derivations. A chain does not stop at the end of its left part, so the law for
a derivation says where the reader stands after it (`Stratum.resume`) and not
that it returns.
-/

set_option autoImplicit false

namespace ExLine

open Rule

/-! ## The operators of a stratum -/

namespace Stratum

/-- The operators that the reader looks for on a stratum. -/
def operator? : Stratum → Token → Option BinaryOp
  | .disjunction => orOperator?
  | .conjunction => andOperator?
  | .comparison => comparisonOperator?
  | .sum => additiveOperator?
  | .unary | .primary => fun _ => none

/-- The reader and the grammar have the same operators on each stratum. -/
theorem operator?_eq_some_iff (stratum : Stratum) {token : Token} {op : BinaryOp} :
    stratum.operator? token = some op ↔ op.stratum = stratum ∧ op.sign = token := by
  constructor
  · intro found
    cases stratum with
    | unary | primary => cases found
    | disjunction | conjunction | comparison | sum =>
      cases token <;> cases found <;> exact ⟨rfl, rfl⟩
  · rintro ⟨rfl, rfl⟩
    cases op <;> rfl

/-- A stratum stops at the operators of the others. -/
theorem stops_at_sign
    {stratum : Stratum}
    {op : BinaryOp}
    {rest : List Token}
    (other : op.stratum ≠ stratum) :
    ∀ token ∈ (op.sign :: rest).head?, stratum.operator? token = none := by
  rintro _ ⟨⟩
  cases found : stratum.operator? op.sign with
  | none => rfl
  | some meant =>
    obtain ⟨same, sameSign⟩ := (operator?_eq_some_iff stratum).mp found
    rw [BinaryOp.eq_of_sign sameSign] at same
    exact absurd same other

/-- Every stratum stops where no operator stands. -/
theorem stops_without_sign
    {rest : List Token}
    (ends : ∀ op : BinaryOp, rest.head? ≠ some op.sign)
    (stratum : Stratum) :
    ∀ token ∈ rest.head?, stratum.operator? token = none := by
  intro token first
  cases found : stratum.operator? token with
  | none => rfl
  | some op =>
    obtain ⟨-, rfl⟩ := (operator?_eq_some_iff stratum).mp found
    exact absurd first (ends op)

end Stratum

theorem unaryOperator?_eq_some_iff {token : Token} {op : UnaryOp} :
    unaryOperator? token = some op ↔ op.sign = token := by
  constructor
  · intro found
    cases token <;> cases found <;> rfl
  · rintro rfl
    cases op <;> rfl

/-! ## What is read was derived -/

/-- Reading has taken some tokens and has built some binary operators, within
the bound. -/
structure Cursor.Takes (before after : Cursor) (taken : List Token) (operators : Nat) : Prop where
  tokens : before.tokens = taken ++ after.tokens
  operators : after.operators = before.operators + operators
  bounded : before.operators ≤ maxOperators → after.operators ≤ maxOperators

namespace Cursor.Takes

variable {before middle after : Cursor}

theorem refl (cursor : Cursor) : cursor.Takes cursor [] 0 :=
  ⟨rfl, rfl, id⟩

theorem trans
    {first second : List Token}
    {early late : Nat}
    (one : before.Takes middle first early)
    (other : middle.Takes after second late) :
    before.Takes after (first ++ second) (early + late) where
  tokens := by rw [one.tokens, other.tokens, List.append_assoc]
  operators := by rw [other.operators, one.operators, Nat.add_assoc]
  bounded within := other.bounded (one.bounded within)

theorem token
    {token : Token}
    {rest : List Token}
    (shape : before.tokens = token :: rest) :
    before.Takes (before.at rest) [token] 0 :=
  ⟨shape, rfl, id⟩

theorem join
    {op : BinaryOp}
    {left right expr : Expr}
    (joined : Rule.join op left right before = .ok (expr, after)) :
    expr = .binary op left right ∧ before.Takes after [] 1 := by
  unfold Rule.join at joined
  split at joined
  · rename_i within
    cases joined
    exact ⟨rfl, rfl, rfl, fun _ => within⟩
  · cases joined

end Cursor.Takes

/-- What a stratum derives within a bound on nesting: the tokens, their tree and
the number of its binary operators. -/
def Stratum.Spans
    (stratum : Stratum)
    (nesting : Nat)
    (tokens : List Token)
    (expr : Expr)
    (operators : Nat) : Prop :=
  ∃ derivation : Derivation stratum,
    derivation.tokens = tokens ∧ derivation.expr = expr
      ∧ derivation.nesting ≤ nesting ∧ derivation.operators = operators

namespace Stratum.Spans

variable {nesting : Nat} {inner left right whole : Stratum}

/-- An operand alone is a phrase of the looser stratum. -/
theorem alone
    (wrap : Derivation inner → Derivation whole)
    (same : ∀ derivation, (wrap derivation).tokens = derivation.tokens
      ∧ (wrap derivation).expr = derivation.expr
      ∧ (wrap derivation).nesting = derivation.nesting
      ∧ (wrap derivation).operators = derivation.operators)
    {tokens : List Token}
    {expr : Expr}
    {operators : Nat}
    (spans : inner.Spans nesting tokens expr operators) :
    whole.Spans nesting tokens expr operators := by
  obtain ⟨derivation, rfl, rfl, within, rfl⟩ := spans
  obtain ⟨sameTokens, sameExpr, sameNesting, sameOperators⟩ := same derivation
  exact ⟨wrap derivation, sameTokens, sameExpr, sameNesting ▸ within, sameOperators⟩

/-- Two operands around an operator are a phrase. -/
theorem joined
    {op : BinaryOp}
    (wrap : Derivation left → Derivation right → Derivation whole)
    (same : ∀ first second, (wrap first second).tokens = first.tokens ++ op.sign :: second.tokens
      ∧ (wrap first second).expr = .binary op first.expr second.expr
      ∧ (wrap first second).nesting = max first.nesting second.nesting
      ∧ (wrap first second).operators = first.operators + second.operators + 1)
    {tokens others : List Token}
    {first second : Expr}
    {operators more : Nat}
    (leftSpans : left.Spans nesting tokens first operators)
    (rightSpans : right.Spans nesting others second more) :
    whole.Spans nesting (tokens ++ op.sign :: others) (.binary op first second)
      (operators + more + 1) := by
  obtain ⟨one, rfl, rfl, oneWithin, rfl⟩ := leftSpans
  obtain ⟨other, rfl, rfl, otherWithin, rfl⟩ := rightSpans
  obtain ⟨sameTokens, sameExpr, sameNesting, sameOperators⟩ := same one other
  have within : max one.nesting other.nesting ≤ nesting := Nat.max_le.mpr ⟨oneWithin, otherWithin⟩
  exact ⟨wrap one other, sameTokens, sameExpr, sameNesting ▸ within, sameOperators⟩

end Stratum.Spans

namespace Rule

/-- Whatever the rule reads is a phrase. -/
def Sound (rule : Rule) (Phrase : List Token → Expr → Nat → Prop) : Prop :=
  ∀ (before : Cursor) (expr : Expr) (after : Cursor), rule.run before = .ok (expr, after) →
    ∃ taken operators, Phrase taken expr operators ∧ before.Takes after taken operators

section Combinators

variable {operator? : Token → Option BinaryOp} {operand : Rule}
variable {Part Whole : List Token → Expr → Nat → Prop}

theorem sound_chainFrom
    (sound : operand.Sound Part)
    (extend : ∀ {sign op tokens expr operators others right more},
      operator? sign = some op → Whole tokens expr operators → Part others right more →
        Whole (tokens ++ sign :: others) (.binary op expr right) (operators + more + 1))
    {tokens : List Token}
    {left expr : Expr}
    {operators : Nat}
    {before after : Cursor}
    (started : Whole tokens left operators)
    (read : chainFrom operator? operand left before = .ok (expr, after)) :
    ∃ taken more, Whole (tokens ++ taken) expr (operators + more)
      ∧ before.Takes after taken more := by
  fun_induction chainFrom operator? operand left before generalizing tokens operators with
  | case1 | case2 =>
    cases read
    exact ⟨[], 0, by rwa [List.append_nil], .refl _⟩
  | case3 | case4 => cases read
  | case5 left cursor sign rest shape op isOperator right afterRight ran joined next joining
      inductionHypothesis =>
    obtain ⟨others, more, part, took⟩ := sound _ _ _ ran
    obtain ⟨rfl, tookOne⟩ := Cursor.Takes.join joining
    obtain ⟨taken, later, whole, tookRest⟩ :=
      inductionHypothesis (extend isOperator started part) read
    have tookAll := (((Cursor.Takes.token shape).trans took).trans tookOne).trans tookRest
    refine ⟨sign :: others ++ taken, more + 1 + later, ?_, ?_⟩
    · rw [← List.append_assoc, ← Nat.add_assoc, ← Nat.add_assoc]
      exact whole
    · simpa using tookAll

theorem Sound.chain
    (sound : operand.Sound Part)
    (start : ∀ {tokens expr operators}, Part tokens expr operators → Whole tokens expr operators)
    (extend : ∀ {sign op tokens expr operators others right more},
      operator? sign = some op → Whole tokens expr operators → Part others right more →
        Whole (tokens ++ sign :: others) (.binary op expr right) (operators + more + 1)) :
    (chain operator? operand).Sound Whole := by
  intro before expr after read
  simp only [Rule.chain] at read
  split at read
  · cases read
  · rename_i first middle ran
    obtain ⟨tokens, operators, part, took⟩ := sound _ _ _ ran
    obtain ⟨taken, more, whole, tookRest⟩ := sound_chainFrom sound extend (start part) read
    exact ⟨_, _, whole, took.trans tookRest⟩

theorem Sound.atMostOne
    (sound : operand.Sound Part)
    (start : ∀ {tokens expr operators}, Part tokens expr operators → Whole tokens expr operators)
    (extend : ∀ {sign op tokens expr operators others right more},
      operator? sign = some op → Part tokens expr operators → Part others right more →
        Whole (tokens ++ sign :: others) (.binary op expr right) (operators + more + 1)) :
    (atMostOne operator? operand).Sound Whole := by
  intro before expr after read
  simp only [Rule.atMostOne] at read
  split at read
  · cases read
  rename_i left middle ran
  obtain ⟨tokens, operators, part, took⟩ := sound _ _ _ ran
  split at read
  · cases read
    exact ⟨_, _, start part, took⟩
  rename_i sign rest shape
  split at read
  · cases read
    exact ⟨_, _, start part, took⟩
  rename_i op isOperator
  split at read
  · cases read
  rename_i right afterRight ranRight
  obtain ⟨others, more, partRight, tookRight⟩ := sound _ _ _ ranRight
  obtain ⟨rfl, tookOne⟩ := Cursor.Takes.join read
  have tookAll := ((took.trans (.token shape)).trans tookRight).trans tookOne
  refine ⟨_, _, extend isOperator part partRight, ?_⟩
  simpa using tookAll

end Combinators

variable {nesting : Nat} {operand : Rule}

theorem sound_sum
    (sound : operand.Sound (Stratum.unary.Spans nesting)) :
    (chain additiveOperator? operand).Sound (Stratum.sum.Spans nesting) := by
  refine sound.chain (.alone .term fun _ => ⟨rfl, rfl, rfl, rfl⟩) ?_
  intro sign op _ _ _ _ _ _ isOperator left right
  obtain ⟨isSum, rfl⟩ := (Stratum.operator?_eq_some_iff .sum).mp isOperator
  exact .joined (.add op isSum) (fun _ _ => ⟨rfl, rfl, rfl, rfl⟩) left right

theorem sound_comparison
    (sound : operand.Sound (Stratum.sum.Spans nesting)) :
    (atMostOne comparisonOperator? operand).Sound (Stratum.comparison.Spans nesting) := by
  refine sound.atMostOne (.alone .sum fun _ => ⟨rfl, rfl, rfl, rfl⟩) ?_
  intro sign op _ _ _ _ _ _ isOperator left right
  obtain ⟨isComparison, rfl⟩ :=
    (Stratum.operator?_eq_some_iff .comparison).mp isOperator
  exact .joined (.compare op isComparison) (fun _ _ => ⟨rfl, rfl, rfl, rfl⟩) left right

theorem sound_conjunction
    (sound : operand.Sound (Stratum.comparison.Spans nesting)) :
    (chain andOperator? operand).Sound (Stratum.conjunction.Spans nesting) := by
  refine sound.chain (.alone .comparison fun _ => ⟨rfl, rfl, rfl, rfl⟩) ?_
  intro sign op _ _ _ _ _ _ isOperator left right
  cases sign <;> cases isOperator
  exact .joined .and (fun _ _ => ⟨rfl, rfl, rfl, rfl⟩) left right

theorem sound_disjunction
    (sound : operand.Sound (Stratum.unary.Spans nesting)) :
    (disjunction operand).Sound (Stratum.disjunction.Spans nesting) := by
  have conjunctions := sound_conjunction (sound_comparison (sound_sum sound))
  refine conjunctions.chain (.alone .conjunction fun _ => ⟨rfl, rfl, rfl, rfl⟩) ?_
  intro sign op _ _ _ _ _ _ isOperator left right
  cases sign <;> cases isOperator
  exact .joined .or (fun _ _ => ⟨rfl, rfl, rfl, rfl⟩) left right

/-- A token that is an operand is a primary. -/
theorem spans_atom
    {token : Token}
    {expr : Expr}
    (atom : atom? token = some expr)
    (nesting : Nat) :
    Stratum.unary.Spans nesting [token] expr 0 := by
  cases token <;> cases atom
  case int value => exact ⟨.primary (.int value), rfl, rfl, Nat.zero_le _, rfl⟩
  case single text => exact ⟨.primary (.single text), rfl, rfl, Nat.zero_le _, rfl⟩
  case double text => exact ⟨.primary (.double text), rfl, rfl, Nat.zero_le _, rfl⟩
  case envVar name => exact ⟨.primary (.env name), rfl, rfl, Nat.zero_le _, rfl⟩
  case ident name => exact ⟨.primary (.var name), rfl, rfl, Nat.zero_le _, rfl⟩

/-- The rule for what stands inside, if there is one, keeps a smaller bound. -/
def SoundWithin (inner : Option Rule) (nesting : Nat) : Prop :=
  ∀ rule ∈ inner, ∃ less, less < nesting ∧ rule.Sound (Stratum.unary.Spans less)

section Inner

variable {inner : Option Rule} {before after : Cursor} {expr : Expr}

theorem spans_of_operated
    {op : UnaryOp}
    (sound : SoundWithin inner nesting)
    (read : operated op inner before = .ok (expr, after)) :
    ∃ taken operators, Stratum.unary.Spans nesting (op.sign :: taken) expr operators
      ∧ before.Takes after taken operators := by
  unfold operated at read
  split at read
  · cases read
  rename_i rule
  split at read
  · cases read
  rename_i operand middle ran
  cases read
  obtain ⟨less, fewer, soundInner⟩ := sound rule rfl
  obtain ⟨taken, operators, ⟨derivation, rfl, rfl, within, rfl⟩, took⟩ := soundInner _ _ _ ran
  have deeper : derivation.nesting + 1 ≤ nesting := by omega
  exact ⟨_, _, ⟨.signed op derivation, rfl, rfl, deeper, rfl⟩, took⟩

theorem spans_of_parenthesised
    (sound : SoundWithin inner nesting)
    (read : parenthesised inner before = .ok (expr, after)) :
    ∃ taken operators, Stratum.unary.Spans nesting (.leftParen :: taken) expr operators
      ∧ before.Takes after taken operators := by
  unfold parenthesised at read
  split at read
  · cases read
  rename_i rule
  split at read
  · cases read
  rename_i inside middle ran
  split at read
  · rename_i rest closing
    cases read
    obtain ⟨less, fewer, soundInner⟩ := sound rule rfl
    obtain ⟨taken, operators, ⟨derivation, rfl, rfl, within, rfl⟩, took⟩ :=
      sound_disjunction soundInner _ _ _ ran
    have deeper : derivation.nesting + 1 ≤ nesting := by omega
    exact ⟨_, _, ⟨.primary (.parens derivation), rfl, rfl, deeper, rfl⟩,
      took.trans (.token closing)⟩
  · cases read

theorem sound_unaryOver (sound : SoundWithin inner nesting) :
    (unaryOver inner).Sound (Stratum.unary.Spans nesting) := by
  intro before expr after read
  simp only [unaryOver] at read
  split at read
  · cases read
  rename_i token rest shape
  have tookToken := Cursor.Takes.token shape
  split at read
  · rename_i found _ atom
    cases read
    exact ⟨[token], 0, spans_atom atom nesting, tookToken⟩
  · rename_i op _ isOperator
    obtain rfl := unaryOperator?_eq_some_iff.mp isOperator
    obtain ⟨taken, operators, spans, took⟩ := spans_of_operated sound read
    exact ⟨_, operators, spans, by simpa using tookToken.trans took⟩
  · split at read
    · rename_i isParen
      subst isParen
      obtain ⟨taken, operators, spans, took⟩ := spans_of_parenthesised sound read
      exact ⟨_, operators, spans, by simpa using tookToken.trans took⟩
    · cases read

end Inner

theorem sound_unary (nesting : Nat) : (unary nesting).Sound (Stratum.unary.Spans nesting) := by
  induction nesting with
  | zero => exact sound_unaryOver fun _ member => nomatch member
  | succ nesting inductionHypothesis =>
    refine sound_unaryOver fun rule member => ?_
    cases member
    exact ⟨nesting, Nat.lt_succ_self nesting, inductionHypothesis⟩

end Rule

/-! ## What is derived is read -/

namespace Stratum

/-- The rule that reads a stratum. Primaries are read as unary expressions. -/
def rule (nesting : Nat) : Stratum → Rule
  | .disjunction => Rule.disjunction (Rule.unary nesting)
  | .conjunction =>
    chain andOperator?
      (atMostOne comparisonOperator? (chain additiveOperator? (Rule.unary nesting)))
  | .comparison => atMostOne comparisonOperator? (chain additiveOperator? (Rule.unary nesting))
  | .sum => chain additiveOperator? (Rule.unary nesting)
  | .unary | .primary => Rule.unary nesting

/-- What the rule of a stratum does once it has read an expression: a chain
looks for more operands, and the others are done. -/
def resume (nesting : Nat) : Stratum → Expr → Cursor → Except ExprError (Expr × Cursor)
  | .disjunction => chainFrom orOperator? (rule nesting .conjunction)
  | .conjunction => chainFrom andOperator? (rule nesting .comparison)
  | .sum => chainFrom additiveOperator? (rule nesting .unary)
  | .comparison | .unary | .primary => fun expr cursor => .ok (expr, cursor)

theorem resume_of_stop
    {stratum : Stratum}
    {cursor : Cursor}
    (stops : ∀ token ∈ cursor.tokens.head?, stratum.operator? token = none)
    (nesting : Nat)
    (expr : Expr) :
    stratum.resume nesting expr cursor = .ok (expr, cursor) := by
  cases stratum with
  | disjunction | conjunction | sum => exact chainFrom_of_stop stops expr
  | comparison | unary | primary => rfl

/-- The operators that may stand after a phrase of the stratum. -/
def admits : Stratum → BinaryOp → Bool
  | .disjunction, op => op.stratum == .disjunction
  | .conjunction, op | .comparison, op =>
    op.stratum == .disjunction || op.stratum == .conjunction
  | .sum, _ | .unary, _ | .primary, _ => true

theorem sum_not_admitted (op : BinaryOp) (isSum : op.stratum = .sum) :
    Stratum.comparison.admits op = false := by
  rw [admits, isSum]
  rfl

theorem comparison_not_admitted (op : BinaryOp) (isComparison : op.stratum = .comparison) :
    Stratum.comparison.admits op = false := by
  rw [admits, isComparison]
  rfl

theorem conjunction_not_admitted (op : BinaryOp) (isConjunction : op.stratum = .conjunction) :
    Stratum.disjunction.admits op = false := by
  rw [admits, isConjunction]
  rfl

/-- What follows a phrase of the stratum does not go on with a part of it. -/
def Precedes (stratum : Stratum) (rest : List Token) : Prop :=
  ∀ op : BinaryOp, rest.head? = some op.sign → stratum.admits op

namespace Precedes

variable {outer inner : Stratum} {rest : List Token}

/-- What may follow a disjunction may follow the conjunction at its end. -/
theorem conjunction (precedes : Stratum.disjunction.Precedes rest) :
    Stratum.conjunction.Precedes rest := by
  intro op first
  have isOr : op.stratum == .disjunction := precedes op first
  simp [admits, isOr]

theorem stops
    (precedes : outer.Precedes rest)
    (excluded : ∀ op, op.stratum = inner → outer.admits op = false) :
    ∀ token ∈ rest.head?, inner.operator? token = none := by
  intro token first
  cases found : inner.operator? token with
  | none => rfl
  | some op =>
    obtain ⟨isInner, rfl⟩ := (operator?_eq_some_iff inner).mp found
    have admitted := precedes op first
    rw [excluded op isInner] at admitted
    cases admitted

theorem sign {op : BinaryOp} (admitted : outer.admits op) : outer.Precedes (op.sign :: rest) := by
  intro other first
  have sameOp : op = other := BinaryOp.eq_of_sign (Option.some.inj first)
  rwa [← sameOp]

end Precedes

end Stratum

namespace Rule

section Steps

variable {operator? : Token → Option BinaryOp} {operand : Rule} {sign : Token} {op : BinaryOp}
variable {left right expr : Expr} {tokens rest : List Token} {operators more nesting : Nat}

theorem join_of_fits (fits : operators < maxOperators) :
    join op left right ⟨rest, operators⟩ = .ok (.binary op left right, ⟨rest, operators + 1⟩) :=
  if_pos fits

theorem chainFrom_join
    (isOperator : operator? sign = some op)
    (ran : operand.run ⟨tokens, operators⟩ = .ok (right, ⟨rest, more⟩))
    (fits : more < maxOperators) :
    chainFrom operator? operand left ⟨sign :: tokens, operators⟩
      = chainFrom operator? operand (.binary op left right) ⟨rest, more + 1⟩ := by
  rw [chainFrom]
  split
  · rename_i noToken
    cases noToken
  rename_i token others shape
  cases shape
  simp only [isOperator]
  split
  · rename_i failed
    cases ran.symm.trans failed
  rename_i read after found
  cases ran.symm.trans found
  split
  · rename_i failed
    cases (join_of_fits fits).symm.trans failed
  · rename_i whole last joined
    cases (join_of_fits fits).symm.trans joined
    rfl

theorem run_chain_start
    {before after : Cursor}
    (ran : operand.run before = .ok (expr, after)) :
    (chain operator? operand).run before = chainFrom operator? operand expr after := by
  simp only [chain, ran]

/-- A chain that stands behind its left part goes on behind its next operand. -/
theorem run_chain_join
    {rule : Rule}
    {leftTokens rightTokens : List Token}
    {early late : Nat}
    (isOperator : operator? sign = some op)
    (ranLeft : rule.run ⟨leftTokens ++ sign :: (rightTokens ++ rest), operators⟩
      = chainFrom operator? operand left ⟨sign :: (rightTokens ++ rest), operators + early⟩)
    (ranRight : operand.run ⟨rightTokens ++ rest, operators + early⟩
      = .ok (right, ⟨rest, operators + early + late⟩))
    (fits : operators + (early + late + 1) ≤ maxOperators) :
    rule.run ⟨(leftTokens ++ sign :: rightTokens) ++ rest, operators⟩
      = chainFrom operator? operand (.binary op left right)
          ⟨rest, operators + (early + late + 1)⟩ := by
  have total : operators + (early + late + 1) = operators + early + late + 1 := by omega
  rw [List.append_assoc, List.cons_append, ranLeft, total]
  exact chainFrom_join isOperator ranRight (by omega)

theorem run_atMostOne_join
    {leftTokens rightTokens : List Token}
    {early late : Nat}
    (isOperator : operator? sign = some op)
    (ranLeft : operand.run ⟨leftTokens ++ sign :: (rightTokens ++ rest), operators⟩
      = .ok (left, ⟨sign :: (rightTokens ++ rest), operators + early⟩))
    (ranRight : operand.run ⟨rightTokens ++ rest, operators + early⟩
      = .ok (right, ⟨rest, operators + early + late⟩))
    (fits : operators + (early + late + 1) ≤ maxOperators) :
    (atMostOne operator? operand).run ⟨(leftTokens ++ sign :: rightTokens) ++ rest, operators⟩
      = .ok (.binary op left right, ⟨rest, operators + (early + late + 1)⟩) := by
  have total : operators + (early + late + 1) = operators + early + late + 1 := by omega
  rw [List.append_assoc, List.cons_append, total]
  simp only [atMostOne, ranLeft, isOperator, Cursor.at, ranRight]
  exact join_of_fits (by omega)

theorem run_unary_signed
    {op : UnaryOp}
    (ran : (unary nesting).run ⟨tokens, operators⟩ = .ok (expr, ⟨rest, more⟩)) :
    (unary (nesting + 1)).run ⟨op.sign :: tokens, operators⟩
      = .ok (.unary op expr, ⟨rest, more⟩) := by
  cases op <;>
    simp [unary, unaryOver, UnaryOp.sign, atom?, unaryOperator?, operated, Cursor.at, ran]

theorem run_unary_parens
    (ran : (disjunction (unary nesting)).run ⟨tokens, operators⟩
      = .ok (expr, ⟨.rightParen :: rest, more⟩)) :
    (unary (nesting + 1)).run ⟨.leftParen :: tokens, operators⟩ = .ok (expr, ⟨rest, more⟩) := by
  simp [unary, unaryOver, atom?, unaryOperator?, parenthesised, Cursor.at, ran]

end Steps

end Rule

namespace Derivation

open Stratum

/-- A derived phrase is read, and the reader goes on behind it. -/
theorem run_rule
    {stratum : Stratum}
    (derivation : Derivation stratum)
    (nesting operators : Nat)
    (rest : List Token)
    (within : derivation.nesting ≤ nesting)
    (fits : operators + derivation.operators ≤ maxOperators)
    (precedes : stratum.Precedes rest) :
    (stratum.rule nesting).run ⟨derivation.tokens ++ rest, operators⟩
      = stratum.resume nesting derivation.expr ⟨rest, operators + derivation.operators⟩ := by
  induction derivation generalizing nesting operators rest with
  | int | single | double | env | var => exact run_unary_atom rfl nesting rest operators
  | primary inner inductionHypothesis =>
    exact inductionHypothesis nesting operators rest within fits precedes
  | parens inner inductionHypothesis =>
    cases nesting with
    | zero => exact absurd within (Nat.not_succ_le_zero _)
    | succ less =>
      have inside : inner.nesting ≤ less := Nat.le_of_succ_le_succ within
      have closes : Stratum.disjunction.Precedes (.rightParen :: rest) := by
        intro op first
        cases op <;> cases first
      have ran := inductionHypothesis less operators (.rightParen :: rest) inside fits closes
      rw [resume_of_stop (by rintro _ ⟨⟩; rfl)] at ran
      have shape : (Derivation.parens inner).tokens ++ rest
          = .leftParen :: (inner.tokens ++ .rightParen :: rest) := by simp [Derivation.tokens]
      rw [shape]
      exact run_unary_parens ran
  | signed op operand inductionHypothesis =>
    cases nesting with
    | zero => exact absurd within (Nat.not_succ_le_zero _)
    | succ less =>
      have inside : operand.nesting ≤ less := Nat.le_of_succ_le_succ within
      exact run_unary_signed (inductionHypothesis less operators rest inside fits precedes)
  | term inner inductionHypothesis =>
    exact run_chain_start (inductionHypothesis nesting operators rest within fits fun _ _ => rfl)
  | add op isSum left right leftHypothesis rightHypothesis =>
    obtain ⟨leftWithin, rightWithin⟩ := Nat.max_le.mp within
    have bound : operators + (left.operators + right.operators + 1) ≤ maxOperators := fits
    have ranLeft := leftHypothesis nesting operators (op.sign :: (right.tokens ++ rest)) leftWithin
      (by omega) (.sign rfl)
    have ranRight := rightHypothesis nesting (operators + left.operators) rest rightWithin
      (by omega) precedes
    have isOperator := (operator?_eq_some_iff .sum).mpr ⟨isSum, rfl⟩
    exact run_chain_join isOperator ranLeft ranRight fits
  | sum inner inductionHypothesis =>
    have ran := inductionHypothesis nesting operators rest within fits fun _ _ => rfl
    rw [resume_of_stop (precedes.stops sum_not_admitted)] at ran
    exact run_atMostOne_of_stop ran (precedes.stops comparison_not_admitted)
  | compare op isComparison left right leftHypothesis rightHypothesis =>
    obtain ⟨leftWithin, rightWithin⟩ := Nat.max_le.mp within
    have bound : operators + (left.operators + right.operators + 1) ≤ maxOperators := fits
    have ranLeft := leftHypothesis nesting operators (op.sign :: (right.tokens ++ rest)) leftWithin
      (by omega) fun _ _ => rfl
    have ranRight := rightHypothesis nesting (operators + left.operators) rest rightWithin
      (by omega) fun _ _ => rfl
    rw [resume_of_stop (stops_at_sign (by rw [isComparison]; exact Stratum.noConfusion))] at ranLeft
    rw [resume_of_stop (precedes.stops sum_not_admitted)] at ranRight
    have isOperator := (operator?_eq_some_iff .comparison).mpr ⟨isComparison, rfl⟩
    exact run_atMostOne_join isOperator ranLeft ranRight fits
  | comparison inner inductionHypothesis =>
    exact run_chain_start (inductionHypothesis nesting operators rest within fits precedes)
  | and left right leftHypothesis rightHypothesis =>
    obtain ⟨leftWithin, rightWithin⟩ := Nat.max_le.mp within
    have bound : operators + (left.operators + right.operators + 1) ≤ maxOperators := fits
    have ranLeft := leftHypothesis nesting operators
      (BinaryOp.and.sign :: (right.tokens ++ rest)) leftWithin (by omega) (.sign rfl)
    have ranRight := rightHypothesis nesting (operators + left.operators) rest rightWithin
      (by omega) precedes
    exact run_chain_join rfl ranLeft ranRight fits
  | conjunction inner inductionHypothesis =>
    have ran := inductionHypothesis nesting operators rest within fits precedes.conjunction
    rw [resume_of_stop (precedes.stops conjunction_not_admitted)] at ran
    exact run_chain_start ran
  | or left right leftHypothesis rightHypothesis =>
    obtain ⟨leftWithin, rightWithin⟩ := Nat.max_le.mp within
    have bound : operators + (left.operators + right.operators + 1) ≤ maxOperators := fits
    have ranLeft := leftHypothesis nesting operators
      (BinaryOp.or.sign :: (right.tokens ++ rest)) leftWithin (by omega) (.sign rfl)
    have ranRight := rightHypothesis nesting (operators + left.operators) rest rightWithin
      (by omega) precedes.conjunction
    rw [resume_of_stop (precedes.stops conjunction_not_admitted)] at ranRight
    exact run_chain_join rfl ranLeft ranRight fits

end Derivation

/-! ## Whole expressions -/

/-- What is read as an expression was derived, within the bound on nesting. -/
theorem Rule.sound_expression :
    Rule.expression.Sound (Stratum.disjunction.Spans maxNesting) :=
  Rule.sound_disjunction (Rule.sound_unary maxNesting)

/-- A derived expression is read to its end, if no operator follows it. -/
theorem Derivation.run_expression
    (derivation : Derivation .disjunction)
    {operators : Nat}
    {rest : List Token}
    (within : derivation.nesting ≤ maxNesting)
    (fits : operators + derivation.operators ≤ maxOperators)
    (ends : ∀ op : BinaryOp, rest.head? ≠ some op.sign) :
    Rule.expression.run ⟨derivation.tokens ++ rest, operators⟩
      = .ok (derivation.expr, ⟨rest, operators + derivation.operators⟩) := by
  have precedes : Stratum.disjunction.Precedes rest := fun op first => absurd first (ends op)
  have ran := derivation.run_rule maxNesting operators rest within fits precedes
  rw [Stratum.resume_of_stop (Stratum.stops_without_sign ends .disjunction)] at ran
  exact ran

/-! ## Whole sources -/

theorem Cursor.finish_eq_ok_iff {cursor : Cursor} {done : Unit} :
    cursor.finish = .ok done ↔ cursor.tokens = [] := by
  unfold Cursor.finish
  cases cursor.tokens with
  | nil => simp
  | cons token rest => simp

/-- A source is read if its tokens are, to the last. -/
theorem Expr.parse_eq_ok_iff {source : String} {expr : Expr} :
    Expr.parse source = .ok expr ↔
      ∃ tokens operators, Token.ofSource source = .ok tokens
        ∧ Rule.expression.run ⟨tokens, 0⟩ = .ok (expr, ⟨[], operators⟩) := by
  unfold Expr.parse
  simp only [bind_eq_ok_iff, pure_eq_ok_iff, Cursor.finish_eq_ok_iff]
  constructor
  · rintro ⟨tokens, lexed, ⟨read, ⟨rest, operators⟩⟩, ran, _, rfl, rfl⟩
    exact ⟨tokens, operators, lexed, ran⟩
  · rintro ⟨tokens, operators, lexed, ran⟩
    exact ⟨tokens, lexed, (expr, ⟨[], operators⟩), ran, (), rfl, rfl⟩

/-- **The reader accepts exactly the grammar.** A source is read as an expression
if and only if its tokens derive the expression, with at most 64 parentheses and
unary operators around any primary and at most 512 binary operators. -/
theorem Expr.parser_accepts_grammar_iff (source : String) (expr : Expr) :
    Expr.parse source = .ok expr ↔
      ∃ tokens, Token.ofSource source = .ok tokens
        ∧ ∃ derivation : Derivation .disjunction,
          derivation.tokens = tokens ∧ derivation.expr = expr
            ∧ derivation.nesting ≤ 64 ∧ derivation.operators ≤ 512 := by
  rw [Expr.parse_eq_ok_iff]
  constructor
  · rintro ⟨tokens, operators, lexed, ran⟩
    have sound := Rule.sound_disjunction (Rule.sound_unary maxNesting)
    obtain ⟨taken, built, ⟨derivation, rfl, rfl, within, rfl⟩, took⟩ := sound _ _ _ ran
    have all : tokens = derivation.tokens := by simpa using took.tokens
    have counted : operators = derivation.operators := by simpa using took.operators
    have bounded : operators ≤ maxOperators := took.bounded (Nat.zero_le _)
    exact ⟨tokens, lexed, derivation, all.symm, rfl, within, counted ▸ bounded⟩
  · rintro ⟨tokens, lexed, derivation, rfl, rfl, within, fits⟩
    have atEnd : Stratum.disjunction.Precedes [] := fun _ first => nomatch first
    have fromZero : 0 + derivation.operators ≤ maxOperators := by
      rw [Nat.zero_add]
      exact fits
    have ran := derivation.run_rule maxNesting 0 [] within fromZero atEnd
    rw [List.append_nil, Stratum.resume_of_stop (by rintro _ ⟨⟩)] at ran
    exact ⟨derivation.tokens, 0 + derivation.operators, lexed, ran⟩

/-- Comparisons do not chain. -/
example : Expr.parse "1 < 2 < 3" = .error (.trailing .lt) := by cbv

end ExLine

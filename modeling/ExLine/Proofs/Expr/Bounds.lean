import ExLine.Proofs.Expr.Parsing
import Mathlib.Algebra.GroupWithZero.Nat
import Mathlib.Algebra.Order.BigOperators.Group.List
import Mathlib.Algebra.Order.Group.Nat

/-!
Contract: how large an expression is that comes out of a source.

Owns:
- `Expr.operators`, `Expr.unaryDepth` and `Expr.height`, three measures of a tree,
  and what a derivation says about them;
- `SourceKind`, the three kinds of source that hold expressions, and
  `SourceKind.trees`, the expressions of such a source;
- `SourceKind.moderate_of_trees`: whatever the source, they are small.

Does not own: how deep the reader itself is nested on the way
(`ExLine.Proofs.Expr.Stepwise`).

Chains grow to the left without nesting, so the bound on nesting says nothing about
the height of a tree. The number of binary operators does: on any way from the
root, what is not a unary operator or the leaf is one of them.
-/

set_option autoImplicit false

namespace ExLine

/-! ## Measures -/

namespace Expr

/-- How many binary operators an expression holds. -/
def operators : Expr → Nat
  | .int _ | .str _ | .env _ | .var _ => 0
  | .unary _ operand => operand.operators
  | .binary _ left right => left.operators + right.operators + 1

/-- The most unary operators on one way from the root to a leaf. -/
def unaryDepth : Expr → Nat
  | .int _ | .str _ | .env _ | .var _ => 0
  | .unary _ operand => operand.unaryDepth + 1
  | .binary _ left right => max left.unaryDepth right.unaryDepth

/-- The number of nodes on the longest way from the root to a leaf. -/
def height : Expr → Nat
  | .int _ | .str _ | .env _ | .var _ => 1
  | .unary _ operand => operand.height + 1
  | .binary _ left right => max left.height right.height + 1

theorem height_le (expr : Expr) : expr.height ≤ expr.operators + expr.unaryDepth + 1 := by
  induction expr with
  | int | str | env | var => exact Nat.le_refl 1
  | unary op operand inductionHypothesis =>
    show operand.height + 1 ≤ operand.operators + (operand.unaryDepth + 1) + 1
    omega
  | binary op left right leftHypothesis rightHypothesis =>
    show max left.height right.height + 1
      ≤ left.operators + right.operators + 1 + max left.unaryDepth right.unaryDepth + 1
    omega

end Expr

namespace Derivation

variable {stratum : Stratum}

/-- Parentheses hold no operators of their own. -/
theorem operators_expr (derivation : Derivation stratum) :
    derivation.expr.operators = derivation.operators := by
  induction derivation with
  | int | single | double | env | var => rfl
  | parens inner inductionHypothesis | primary inner inductionHypothesis
  | term inner inductionHypothesis | sum inner inductionHypothesis
  | comparison inner inductionHypothesis | conjunction inner inductionHypothesis =>
    exact inductionHypothesis
  | signed op operand inductionHypothesis => exact inductionHypothesis
  | add op isSum left right leftHypothesis rightHypothesis
  | compare op isComparison left right leftHypothesis rightHypothesis
  | and left right leftHypothesis rightHypothesis
  | or left right leftHypothesis rightHypothesis =>
    show left.expr.operators + right.expr.operators + 1 = left.operators + right.operators + 1
    rw [leftHypothesis, rightHypothesis]

/-- A unary operator of the tree is one that its operand was nested under. -/
theorem unaryDepth_expr_le (derivation : Derivation stratum) :
    derivation.expr.unaryDepth ≤ derivation.nesting := by
  induction derivation with
  | int | single | double | env | var => exact Nat.le_refl 0
  | primary inner inductionHypothesis | term inner inductionHypothesis
  | sum inner inductionHypothesis | comparison inner inductionHypothesis
  | conjunction inner inductionHypothesis => exact inductionHypothesis
  | parens inner inductionHypothesis => exact Nat.le_succ_of_le inductionHypothesis
  | signed op operand inductionHypothesis => exact Nat.succ_le_succ inductionHypothesis
  | add op isSum left right leftHypothesis rightHypothesis
  | compare op isComparison left right leftHypothesis rightHypothesis
  | and left right leftHypothesis rightHypothesis
  | or left right leftHypothesis rightHypothesis =>
    show max left.expr.unaryDepth right.expr.unaryDepth ≤ max left.nesting right.nesting
    omega

end Derivation

/-! ## What comes out of the reader -/

/-- The measures of an expression that was read. -/
theorem Rule.measures_of_run
    {before after : Cursor}
    {expr : Expr}
    (read : Rule.expression.run before = .ok (expr, after)) :
    expr.unaryDepth ≤ maxNesting
      ∧ after.operators = before.operators + expr.operators
      ∧ (before.operators ≤ maxOperators → after.operators ≤ maxOperators) := by
  obtain ⟨taken, operators, ⟨derivation, -, rfl, within, rfl⟩, took⟩ :=
    Rule.sound_expression _ _ _ read
  have shallow := derivation.unaryDepth_expr_le
  refine ⟨by omega, ?_, took.bounded⟩
  rw [derivation.operators_expr]
  exact took.operators

/-- Trees within the bounds of one source. -/
structure Expr.Moderate (trees : List Expr) : Prop where
  operators : (trees.map Expr.operators).sum ≤ maxOperators
  unaryDepth : ∀ tree ∈ trees, tree.unaryDepth ≤ maxNesting

namespace Expr.Moderate

theorem singleton
    {tokens : List Token}
    {expr : Expr}
    {after : Cursor}
    (read : Rule.expression.run { tokens } = .ok (expr, after)) :
    Moderate [expr] := by
  obtain ⟨shallow, counted, bounded⟩ := Rule.measures_of_run read
  have few : after.operators ≤ maxOperators := bounded (Nat.zero_le _)
  have fromZero : after.operators = 0 + expr.operators := counted
  refine ⟨?_, fun tree member => List.mem_singleton.mp member ▸ shallow⟩
  simp only [List.map_cons, List.map_nil, List.sum_cons, List.sum_nil]
  omega

theorem height
    {trees : List Expr}
    {tree : Expr}
    (moderate : Moderate trees)
    (member : tree ∈ trees) :
    tree.height ≤ maxOperators + maxNesting + 1 := by
  have few : tree.operators ≤ (trees.map Expr.operators).sum :=
    List.le_sum_of_mem (List.mem_map_of_mem member)
  have total := moderate.operators
  have shallow := moderate.unaryDepth tree member
  have bound := tree.height_le
  omega

end Expr.Moderate

/-- The counter of operators goes through all expressions of a sequence. -/
theorem Expr.measures_of_readAll
    {cursor : Cursor}
    {trees : List Expr}
    (read : Expr.readAll cursor = .ok trees)
    (within : cursor.operators ≤ maxOperators) :
    cursor.operators + (trees.map Expr.operators).sum ≤ maxOperators
      ∧ ∀ tree ∈ trees, tree.unaryDepth ≤ maxNesting := by
  fun_induction Expr.readAll cursor generalizing trees with
  | case1 cursor noTokens =>
    cases read
    exact ⟨within, fun _ none => nomatch none⟩
  | case2 => cases read
  | case3 cursor token rest tokens expr after ran inductionHypothesis =>
    obtain ⟨others, readOthers, same⟩ := bind_eq_ok_iff.mp read
    cases same
    obtain ⟨shallow, counted, bounded⟩ := Rule.measures_of_run ran
    obtain ⟨few, shallowOthers⟩ := inductionHypothesis readOthers (bounded within)
    refine ⟨?_, List.forall_mem_cons.mpr ⟨shallow, shallowOthers⟩⟩
    rw [List.map_cons, List.sum_cons]
    omega

/-! ## Sources -/

/-- What a source is read as. -/
inductive SourceKind where
  | expression
  | list
  | assignment
  deriving DecidableEq, Repr

/-- The expressions that a source holds. Of an assignment it is the right-hand
side. -/
def SourceKind.trees (kind : SourceKind) (source : String) : Except ExprError (List Expr) :=
  match kind with
  | .expression => (Expr.parse source).map fun expr => [expr]
  | .list => Expr.parseList source
  | .assignment => (Assignment.parse source).map fun assignment => [assignment.value]

theorem Expr.Moderate.of_assignment
    {source : String}
    {assignment : Assignment}
    (parsed : Assignment.parse source = .ok assignment) :
    Moderate [assignment.value] := by
  unfold Assignment.parse at parsed
  obtain ⟨tokens, -, parsed⟩ := bind_eq_ok_iff.mp parsed
  split at parsed
  · cases parsed
  split at parsed
  · cases parsed
  split at parsed
  · cases parsed
  split at parsed
  · cases parsed
  obtain ⟨⟨value, after⟩, ran, parsed⟩ := bind_eq_ok_iff.mp parsed
  obtain ⟨-, -, same⟩ := bind_eq_ok_iff.mp parsed
  cases same
  exact .singleton ran

theorem SourceKind.moderate_of_trees
    {kind : SourceKind}
    {source : String}
    {trees : List Expr}
    (read : kind.trees source = .ok trees) :
    Expr.Moderate trees := by
  cases kind with
  | expression =>
    obtain ⟨expr, parsed, rfl⟩ := map_eq_ok_iff.mp read
    obtain ⟨tokens, operators, -, ran⟩ := Expr.parse_eq_ok_iff.mp parsed
    exact .singleton ran
  | list =>
    obtain ⟨tokens, -, readTokens⟩ := bind_eq_ok_iff.mp read
    obtain ⟨few, shallow⟩ := Expr.measures_of_readAll readTokens (Nat.zero_le _)
    rw [Nat.zero_add] at few
    exact ⟨few, shallow⟩
  | assignment =>
    obtain ⟨assignment, parsed, rfl⟩ := map_eq_ok_iff.mp read
    exact .of_assignment parsed

end ExLine

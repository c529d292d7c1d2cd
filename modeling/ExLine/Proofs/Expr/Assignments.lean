import ExLine.Expr.Eval
import ExLine.Proofs.Expr.Blanks
import ExLine.Proofs.Expr.Decimal

/-!
Contract: what an assignment depends on.

Owns:
- `Expr.eval_congr`: the value of an expression depends on what the variables that
  it mentions show, and on nothing else;
- `Assignment.parse_of_lex`: the target takes no part in reading the operator and
  the right-hand side;
- `Value.SameReadings` and `AssignOp.combine_alike`: an assignment sees of the
  value that its target holds only the text and the integer.

Does not own: where a target keeps its value (`ExLine.Proofs.Engine.Counting`).
-/

set_option autoImplicit false

namespace ExLine

/-! ## Right-hand sides -/

namespace Expr

/-- Whether a variable occurs in the expression. -/
def mentions (target : Target) : Expr → Bool
  | .int _ | .str _ => false
  | .env name => target == .env name
  | .var name => target == .var name
  | .unary _ operand => operand.mentions target
  | .binary _ left right => left.mentions target || right.mentions target

/-- An expression cannot tell an environment variable that is not set from one
that holds the empty text. -/
theorem eval_congr
    {first second : Bindings}
    {expr : Expr}
    (vars : ∀ name, expr.mentions (.var name) → first.var name = second.var name)
    (envs : ∀ name, expr.mentions (.env name) →
      (first.env name).getD "" = (second.env name).getD "") :
    expr.eval first = expr.eval second := by
  induction expr with
  | int value => rfl
  | str text => rfl
  | env name =>
    have same := envs name (beq_self_eq_true (Target.env name))
    rw [eval, eval, same]
  | var name =>
    have same := vars name (beq_self_eq_true (Target.var name))
    rw [eval, eval, same]
  | unary op operand inductionHypothesis =>
    rw [eval, eval, inductionHypothesis vars envs]
  | binary op left right leftHypothesis rightHypothesis =>
    have sameLeft := leftHypothesis
      (fun name mentioned => vars name (Bool.or_eq_true_iff.mpr (.inl mentioned)))
      (fun name mentioned => envs name (Bool.or_eq_true_iff.mpr (.inl mentioned)))
    have sameRight := rightHypothesis
      (fun name mentioned => vars name (Bool.or_eq_true_iff.mpr (.inr mentioned)))
      (fun name mentioned => envs name (Bool.or_eq_true_iff.mpr (.inr mentioned)))
    cases op <;> simp only [eval, sameLeft, sameRight]

end Expr

namespace Assignment

/-- Reads what follows the target: an operator and exactly one expression. -/
def readTail : List Token → Except ExprError (AssignOp × Expr)
  | [] => .error (.expected .assignmentOperator)
  | second :: tokens =>
    match AssignOp.ofToken? second with
    | none => .error (.expected .assignmentOperator)
    | some op => do
      let (value, after) ← Rule.expression.run { tokens }
      after.finish
      return (op, value)

theorem parse_of_lex
    {chars : List Char}
    {first : Token}
    {tail : List Token}
    {target : Target}
    (lexed : Token.lex chars = .ok (first :: tail))
    (names : Target.ofToken? first = some target) :
    parse (String.ofList chars)
      = do
        let (op, value) ← readTail tail
        return { target, op, value } := by
  unfold parse readTail
  rw [Token.ofSource_of_lex lexed]
  simp only [bind, Except.bind, names]
  cases tail with
  | nil => rfl
  | cons second tokens =>
    simp only
    cases AssignOp.ofToken? second with
    | none => rfl
    | some op =>
      simp only
      cases Rule.expression.run { tokens } with
      | error error => rfl
      | ok result =>
        obtain ⟨value, after⟩ := result
        simp only
        cases after.finish <;> rfl

end Assignment

/-! ## Held values -/

namespace Value

/-- Two values with the same text and the same integer. -/
structure SameReadings (first second : Value) : Prop where
  text : first.text = second.text
  toInt : first.toInt = second.toInt

/-- A value keeps its text when it is stored as text. It keeps its integer too,
unless it is the least one. -/
theorem sameReadings_text_iff {value : Value} :
    SameReadings (.str value.text) value ↔ value ≠ .int Int64.minValue := by
  cases value with
  | str text => exact ⟨fun _ => Value.noConfusion, fun _ => ⟨rfl, rfl⟩⟩
  | int number =>
    have readBack := toInt_text number
    constructor
    · rintro ⟨-, sameInt⟩ isLeast
      cases isLeast
      rw [readBack, if_pos rfl] at sameInt
      exact absurd sameInt (by decide)
    · intro notLeast
      refine ⟨rfl, ?_⟩
      rw [readBack, if_neg fun isLeast => notLeast (congrArg Value.int isLeast)]
      rfl

end Value

/-- An operator stores a value in both of two targets or fails for both, if both
hold a value or none does. It stores the same value if the held ones have the
same readings. -/
theorem AssignOp.combine_alike
    {first second : Option Value}
    (set : first.isSome = second.isSome)
    (op : AssignOp)
    (name other : String)
    (value : Value) :
    (∃ result otherResult, op.combine name first value = .ok result
        ∧ op.combine other second value = .ok otherResult
        ∧ (Option.Rel Value.SameReadings first second → result = otherResult))
      ∨ ∃ error otherError, op.combine name first value = .error error
        ∧ op.combine other second value = .error otherError := by
  cases first with
  | none =>
    obtain rfl : second = none := Option.not_isSome_iff_eq_none.mp (Bool.eq_false_iff.mp set.symm)
    cases op with
    | set => exact .inl ⟨value, value, rfl, rfl, fun _ => rfl⟩
    | append | add | sub => exact .inr ⟨_, _, rfl, rfl⟩
  | some held =>
    obtain ⟨otherHeld, rfl⟩ := Option.isSome_iff_exists.mp set.symm
    left
    cases op with
    | set => exact ⟨value, value, rfl, rfl, fun _ => rfl⟩
    | append =>
      refine ⟨_, _, rfl, rfl, ?_⟩
      rintro ⟨same⟩
      rw [same.text]
    | add | sub =>
      refine ⟨_, _, rfl, rfl, ?_⟩
      rintro ⟨same⟩
      rw [same.toInt]

end ExLine

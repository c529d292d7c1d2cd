import ExLine.Engine.Basic
import ExLine.Proofs.Expr.Assignments
import ExLine.Proofs.Results

/-!
Contract: evaluation that skips operands against evaluation that skips none.

Owns:
- `Expr.evalEager`, which evaluates both operands of every operator;
- `BinaryOp.decided?`, what an operator yields from its left operand alone, and
  `Expr.eval_binary`, by which evaluation is driven by it;
- `Expr.eval_of_evalEager` and `Expr.exists_undefined_of_eval`, what a value and
  an error of either evaluation say about the other;
- `Expr.short_circuit_refines_eager`.

Does not own: what an expression depends on (`ExLine.Proofs.Expr.Assignments`).

The two operators that may skip their right operand have arms of their own in
the evaluation, and `BinaryOp.apply` has arms for them once more. Both are
brought to one form here, so no later proof looks at an operator again.
-/

set_option autoImplicit false

namespace ExLine

/-! ## Operators that are decided early -/

/-- What an operator yields from its left operand alone, if that decides. -/
def BinaryOp.decided? (op : BinaryOp) (left : Value) : Option Value :=
  match op with
  | .or => if left.isTruthy then some (.ofBool true) else none
  | .and => if left.isTruthy then none else some (.ofBool false)
  | _ => none

/-- An operator that is decided early yields the same on both operands. -/
theorem BinaryOp.apply_of_decided
    {op : BinaryOp}
    {left result : Value}
    (decided : op.decided? left = some result)
    (right : Value) :
    op.apply left right = result := by
  cases op with
  | or =>
    rw [decided?, Option.ite_none_right_eq_some] at decided
    obtain ⟨truthy, same⟩ := decided
    rw [← Option.some.inj same, apply, truthy, Bool.true_or]
  | and =>
    rw [decided?, Option.ite_none_left_eq_some] at decided
    obtain ⟨notTruthy, same⟩ := decided
    rw [← Option.some.inj same, apply, Bool.eq_false_iff.mpr notTruthy, Bool.false_and]
  | eq | ne | lt | le | gt | ge | add | sub | concat => cases decided

namespace Expr

/-- The value of an operator, with both ways to skip an operand in one form. -/
theorem eval_binary
    (bindings : Bindings)
    (op : BinaryOp)
    (left right : Expr) :
    (Expr.binary op left right).eval bindings = do
      let value ← left.eval bindings
      match op.decided? value with
      | some result => return result
      | none =>
        let other ← right.eval bindings
        return op.apply value other := by
  cases op with
  | or | and =>
    simp only [eval, BinaryOp.decided?, BinaryOp.apply]
    congr 1
    funext value
    cases value.isTruthy with
    | true => rfl
    | false => rfl
  | eq | ne | lt | le | gt | ge | add | sub | concat => rfl

/-! ## Two evaluations -/

/-- The value of an expression of which every operand is evaluated, the left one
of an operator before the right one. -/
def evalEager (bindings : Bindings) : Expr → Except ExprError Value
  | .int value => .ok (.int value)
  | .str text => .ok (.str text)
  | .env name => .ok (.str ((bindings.env name).getD ""))
  | .var name =>
    match bindings.var name with
    | some value => .ok value
    | none => .error (.undefined name)
  | .unary op operand => do
    let value ← operand.evalEager bindings
    return op.apply value
  | .binary op left right => do
    let value ← left.evalEager bindings
    let other ← right.evalEager bindings
    return op.apply value other

theorem eval_of_evalEager
    {bindings : Bindings}
    {expr : Expr}
    {value : Value}
    (eager : expr.evalEager bindings = .ok value) :
    expr.eval bindings = .ok value := by
  induction expr generalizing value with
  | int | str | env | var => exact eager
  | unary op operand inductionHypothesis =>
    rw [evalEager, bind_eq_ok_iff] at eager
    obtain ⟨inner, evaluated, applied⟩ := eager
    rw [eval, inductionHypothesis evaluated]
    exact applied
  | binary op left right leftHypothesis rightHypothesis =>
    rw [evalEager, bind_eq_ok_iff] at eager
    obtain ⟨first, leftEvaluated, eager⟩ := eager
    rw [bind_eq_ok_iff] at eager
    obtain ⟨second, rightEvaluated, applied⟩ := eager
    rw [pure_eq_ok_iff] at applied
    rw [eval_binary, leftHypothesis leftEvaluated, applied]
    show (match op.decided? first with | some result => _ | none => _) = _
    cases decided : op.decided? first with
    | some result =>
      rw [BinaryOp.apply_of_decided decided second]
      rfl
    | none =>
      rw [rightHypothesis rightEvaluated]
      rfl

/-- Only a variable that is not bound stands in the way of a value. -/
theorem exists_undefined_of_eval
    {bindings : Bindings}
    {expr : Expr}
    {error : ExprError}
    (failed : expr.eval bindings = .error error) :
    ∃ name, error = .undefined name ∧ expr.mentions (.var name) ∧ bindings.var name = none := by
  induction expr with
  | int | str | env => cases failed
  | var name =>
    rw [eval] at failed
    cases bound : bindings.var name with
    | some value =>
      rw [bound] at failed
      cases failed
    | none =>
      rw [bound] at failed
      cases failed
      exact ⟨name, rfl, beq_self_eq_true (Target.var name), bound⟩
  | unary op operand inductionHypothesis =>
    rw [eval, bind_eq_error_iff] at failed
    rcases failed with inner | ⟨value, -, applied⟩
    · exact inductionHypothesis inner
    · cases applied
  | binary op left right leftHypothesis rightHypothesis =>
    rw [eval_binary, bind_eq_error_iff] at failed
    rcases failed with inLeft | ⟨first, -, later⟩
    · obtain ⟨name, isUndefined, mentioned, unbound⟩ := leftHypothesis inLeft
      exact ⟨name, isUndefined, Bool.or_eq_true_iff.mpr (.inl mentioned), unbound⟩
    · cases decided : op.decided? first with
      | some result =>
        rw [decided] at later
        cases later
      | none =>
        rw [decided, bind_eq_error_iff] at later
        rcases later with inRight | ⟨second, -, applied⟩
        · obtain ⟨name, isUndefined, mentioned, unbound⟩ := rightHypothesis inRight
          exact ⟨name, isUndefined, Bool.or_eq_true_iff.mpr (.inr mentioned), unbound⟩
        · cases applied

/-- **Evaluation that skips operands refines evaluation that skips none.** In
every engine and for every expression: a value that comes out when all operands
are evaluated comes out as well when some are skipped. If there is no value, the
cause is a variable of the expression that no frame binds, and there is none when
all operands are evaluated either. Nothing counts but what the variables of the
expression show: of a scope variable the innermost binding, of an environment
variable its text, which is empty if it is not set. -/
theorem short_circuit_refines_eager (engine : Engine) (expr : Expr) :
    (∀ value, expr.evalEager engine.bindings = .ok value →
      expr.eval engine.bindings = .ok value)
    ∧ (∀ error, expr.eval engine.bindings = .error error →
      (∃ name, error = .undefined name
        ∧ expr.mentions (.var name)
        ∧ ∀ frame ∈ engine.scope.frames, frame.vars.get? name = none)
      ∧ ∃ eagerError, expr.evalEager engine.bindings = .error eagerError)
    ∧ ∀ other : Engine,
      (∀ name, expr.mentions (.var name) → engine.scope.get? name = other.scope.get? name) →
      (∀ name, expr.mentions (.env name) →
        (engine.env.get? name).getD "" = (other.env.get? name).getD "") →
      expr.eval engine.bindings = expr.eval other.bindings := by
  refine ⟨fun value eager => eval_of_evalEager eager, ?_, fun other vars envs => eval_congr vars envs⟩
  intro error failed
  constructor
  · obtain ⟨name, isUndefined, mentioned, unbound⟩ := exists_undefined_of_eval failed
    exact ⟨name, isUndefined, mentioned, List.findSome?_eq_none_iff.mp unbound⟩
  · cases eager : expr.evalEager engine.bindings with
    | error eagerError => exact ⟨eagerError, rfl⟩
    | ok value =>
      rw [eval_of_evalEager eager] at failed
      cases failed

/-- The other way round there is more to skipping: it may give a value where
evaluating all operands gives none. -/
example :
    (Expr.binary .or (.int 1) (.var "nope")).eval (Engine.bindings {}) = .ok (.int 1)
    ∧ (Expr.binary .or (.int 1) (.var "nope")).evalEager (Engine.bindings {})
      = .error (.undefined "nope") :=
  ⟨rfl, rfl⟩

end Expr

end ExLine

import ExLine.Engine.Basic
import ExLine.Expr.Parser

/-!
Contract: conditional blocks and the early end of a script.

Owns: the actions behind `if`, `elseif`, `else`, `endif` and `finish`.

Does not own: the bookkeeping of open blocks (`ExLine.Branch`).

A condition is evaluated only where it decides something. One that cannot be
evaluated still opens its block, or moves within it, as a branch that is not
taken, so that the matching `endif` stays in balance.
-/

set_option autoImplicit false

namespace ExLine.Engine

/-- The truth value of a condition. -/
def condition (engine : Engine) (invocation : Invocation) : Except ExprError Bool := do
  let expr ← Expr.parse invocation.text
  let value ← expr.eval engine.bindings
  return value.isTruthy

/-- Whether a condition has been evaluated to true. -/
def isTrue : Except ExprError Bool → Bool
  | .ok flag => flag
  | .error _ => false

/-- The reply to a condition that has been looked at. -/
def conditionReply : Except ExprError Bool → Reply
  | .ok _ => .ok Outcome.done
  | .error error => .error (.expression error)

/-- Opens a block. -/
def ifBlock (engine : Engine) (invocation : Invocation) : Reply × Engine :=
  let branches := engine.scope.branches
  if branches.isActive then
    let verdict := engine.condition invocation
    (conditionReply verdict, engine.withBranches (branches.openBlock (isTrue verdict)))
  else (engine.withBranches (branches.openBlock false)).done

/-- The reply to a move within the open blocks. -/
def moved (engine : Engine) : Except ControlError Branches → Reply × Engine
  | .ok branches => (engine.withBranches branches).done
  | .error error => engine.refuse (.control error)

/-- Moves to a branch with a condition. -/
def elseIfBranch (engine : Engine) (invocation : Invocation) : Reply × Engine :=
  let branches := engine.scope.branches
  if branches.needsCondition then
    let verdict := engine.condition invocation
    match branches.nextBranch (isTrue verdict) with
    | .ok next => (conditionReply verdict, engine.withBranches next)
    | .error error => engine.refuse (.control error)
  else engine.moved (branches.nextBranch false)

/-- Moves to the fallback branch. -/
def elseBranch (engine : Engine) : Reply × Engine :=
  engine.moved engine.scope.branches.fallback

/-- Closes a block. -/
def endIf (engine : Engine) : Reply × Engine :=
  engine.moved engine.scope.branches.closeBlock

/-- Stops the script or the user command that is being run. -/
def finish (engine : Engine) (site : Site) : Reply × Engine :=
  if site.source != .script && site.depth == 0 then
    engine.refuse (.control .finishOutsideScript)
  else (engine.withFinished true).done

end ExLine.Engine

/-!
Contract: which branch of which conditional block is being executed.

Owns:
- `ControlError`, a misplaced control word, with its wording;
- `Level` and `Branches`, the blocks open at a place, innermost first;
- what `if`, `elseif`, `else` and `endif` do to them.

Does not own: the conditions themselves (`ExLine.Engine`).
-/

set_option autoImplicit false

namespace ExLine

/-- A control word where it may not stand. -/
inductive ControlError where
  | elseifWithoutIf
  | elseWithoutIf
  | endifWithoutIf
  | elseifAfterElse
  | repeatedElse
  | missingEndif
  | finishOutsideScript
  deriving DecidableEq, Repr

/-- The wording of a control error. -/
def ControlError.message : ControlError → String
  | .elseifWithoutIf => ":elseif without :if"
  | .elseWithoutIf => ":else without :if"
  | .endifWithoutIf => ":endif without :if"
  | .elseifAfterElse => ":elseif after :else"
  | .repeatedElse => "multiple :else"
  | .missingEndif => "missing :endif"
  | .finishOutsideScript => ":finish used outside of a script"

/-- One open block. -/
structure Level where
  /-- The code around the block was running when the block was opened. -/
  enclosingActive : Bool
  /-- Some branch of the block has been chosen already. -/
  taken : Bool
  /-- The branch being read is the chosen one. -/
  active : Bool
  /-- The fallback branch has started. -/
  seenElse : Bool
  deriving DecidableEq, Repr

/-- The open blocks, innermost first. -/
structure Branches where
  levels : List Level := []
  deriving DecidableEq, Repr

namespace Branches

/-- No block is open. -/
def empty : Branches := {}

/-- Whether commands run. -/
def isActive (branches : Branches) : Bool :=
  match branches.levels with
  | [] => true
  | level :: _ => level.active

/-- Whether no block is open. -/
def isEmpty (branches : Branches) : Bool :=
  branches.levels.isEmpty

/-- The number of open blocks. -/
def depth (branches : Branches) : Nat :=
  branches.levels.length

/-- Whether the condition of an `elseif` would decide anything: its block can
still choose a branch. -/
def needsCondition (branches : Branches) : Bool :=
  match branches.levels with
  | [] => false
  | level :: _ => level.enclosingActive && !level.taken && !level.seenElse

/-- Opens a block. -/
def openBlock (branches : Branches) (condition : Bool) : Branches :=
  let enclosingActive := branches.isActive
  let active := enclosingActive && condition
  ⟨{ enclosingActive, taken := active, active, seenElse := false } :: branches.levels⟩

/-- Moves the innermost block to a branch with a condition. -/
def nextBranch (branches : Branches) (condition : Bool) : Except ControlError Branches :=
  match branches.levels with
  | [] => .error .elseifWithoutIf
  | level :: enclosing =>
    if level.seenElse then .error .elseifAfterElse
    else
      let active := level.enclosingActive && !level.taken && condition
      .ok ⟨{ level with active, taken := level.taken || active } :: enclosing⟩

/-- Moves the innermost block to its fallback branch. -/
def fallback (branches : Branches) : Except ControlError Branches :=
  match branches.levels with
  | [] => .error .elseWithoutIf
  | level :: enclosing =>
    if level.seenElse then .error .repeatedElse
    else
      let active := level.enclosingActive && !level.taken
      .ok ⟨{ level with active, taken := true, seenElse := true } :: enclosing⟩

/-- Closes the innermost block. -/
def closeBlock (branches : Branches) : Except ControlError Branches :=
  match branches.levels with
  | [] => .error .endifWithoutIf
  | _ :: enclosing => .ok ⟨enclosing⟩

end Branches

end ExLine

import ExLine.Directory
import ExLine.Engine.Basic

/-!
Contract: moving the view.

Owns: the action behind `cd`, and the move of the cursor to a range.

Does not own: names of directories (`ExLine.Directory`).
-/

set_option autoImplicit false

namespace ExLine.Engine

/-- Shows another directory and remembers the one before. -/
def enterDirectory (engine : Engine) (path : String) : Engine :=
  let view := engine.view
  { engine with
    view := { view with cwd := Directory.resolve view.cwd path, previous := some view.cwd } }

/-- Changes the directory of the view: to the home directory without an
argument, and back to the previous one with `-`. -/
def changeDirectory (engine : Engine) (invocation : Invocation) : Reply × Engine :=
  match invocation.args with
  | [] => (engine.enterDirectory ((engine.env.get? "HOME").getD "/")).done
  | path :: _ =>
    if path = "-" then
      match engine.view.previous with
      | some previous => (engine.enterDirectory previous).done
      | none => engine.report "cd: no previous directory"
    else (engine.enterDirectory path).done

/-- Moves the cursor to the last line of a range, if the view has any line. -/
def moveTo (engine : Engine) (range : LineRange) : Engine :=
  match range.lastLine engine.view.length with
  | some line => { engine with view := { engine.view with cursor := line } }
  | none => engine

end ExLine.Engine

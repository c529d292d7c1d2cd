import ExLine.Engine.Basic

/-!
Contract: running shell commands.

Owns: `Engine.launch`, which starts a program and records it, and
`Engine.runShell`, which hands a text to the configured shell.

Does not own: what the launcher answers (`ExLine.Launch`).
-/

set_option autoImplicit false

namespace ExLine.Engine

/-- Starts a program. Every request is recorded, refused ones included. -/
def launch (engine : Engine) (request : Launch) : LaunchReply × Engine :=
  (engine.launcher engine.launches request,
    { engine with launches := engine.launches ++ [request] })

/-- Runs a text by the configured shell. -/
def runShell (engine : Engine) (command : String) (background : Bool) : Reply × Engine :=
  let config := engine.config
  let (reply, after) :=
    engine.launch { argv := [config.shell, config.shellFlag, command], background }
  match reply with
  | .detached => after.done
  | .finished code =>
    if code = 0 then after.done
    else (.ok (Outcome.failure code ("shell returned " ++ toString code)), after)
  | .refused reason => after.refuse (.launchFailed config.shell reason)

/-- Runs the argument text by the shell. -/
def shell (engine : Engine) (invocation : Invocation) : Reply × Engine :=
  engine.runShell (Text.trim invocation.text) invocation.background

end ExLine.Engine

/-!
Contract: starting other programs.

Owns: `Launch`, a request to start a program; `LaunchReply`, what becomes of
it; and `Launcher`, which answers requests.

Does not own: when the engine starts a program (`ExLine.Engine`).
-/

set_option autoImplicit false

namespace ExLine

/-- A request to start a program. -/
structure Launch where
  argv : List String
  background : Bool
  deriving DecidableEq, Repr

/-- What becomes of a request. -/
inductive LaunchReply where
  /-- The program ran to its end; -1 if a signal ended it. -/
  | finished (code : Int)
  /-- The program runs on its own. -/
  | detached
  /-- The program could not be started. -/
  | refused (reason : String)
  deriving DecidableEq, Repr

/-- Answers a request, given the requests before it. The world outside the
engine is whatever such a function can be. -/
abbrev Launcher := List Launch → Launch → LaunchReply

namespace Launcher

/-- What a prepared launcher does with one request. -/
inductive Prepared where
  | exit (code : Int)
  | refuse (reason : String)
  deriving DecidableEq, Repr

/-- The reply to a request that is prepared. A program in the background tells
no exit code. -/
def Prepared.reply (prepared : Prepared) (launch : Launch) : LaunchReply :=
  match prepared with
  | .refuse reason => .refused reason
  | .exit code => if launch.background then .detached else .finished code

/-- Answers each request by the entry of a list, and with success once the
list is used up. -/
def ofList (replies : List Prepared) : Launcher := fun earlier launch =>
  (replies.getD earlier.length (.exit 0)).reply launch

end Launcher

end ExLine

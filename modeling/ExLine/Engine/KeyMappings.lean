import ExLine.Engine.Basic

/-!
Contract: the commands for key mappings and abbreviations.

Owns: the actions behind `map`, `unmap`, `cabbrev`, `cunabbrev` and their
variants.

Does not own: the tables themselves (`ExLine.Mappings`).
-/

set_option autoImplicit false

namespace ExLine.Engine

/-- Binds a left-hand side in every one of some modes. -/
def mapIn (mappings : Mappings) (modes : List Mode) (lhs : String) (binding : Binding) :
    Mappings :=
  modes.foldl (fun result mode => result.map mode lhs binding) mappings

/-- Defines a mapping, or lists those whose left-hand side starts with the
argument. -/
def map (engine : Engine) (modes : List Mode) (noremap : Bool) (invocation : Invocation) :
    Reply × Engine :=
  let list (start : String) : Reply × Engine :=
    (.ok (Outcome.success (Text.join "\n" (engine.mappings.listing modes start))), engine)
  match invocation.args with
  | [] => list ""
  | [start] => list start
  | lhs :: rest =>
    let binding := { expansion := Text.join " " rest, noremap }
    { engine with mappings := mapIn engine.mappings modes lhs binding }.done

/-- Removes a left-hand side in every one of some modes, and tells whether it
was bound in any. -/
def unmapIn (mappings : Mappings) (lhs : String) : List Mode → Bool × Mappings
  | [] => (false, mappings)
  | mode :: rest =>
    let (found, afterFirst) := mappings.unmap mode lhs
    let (foundLater, after) := unmapIn afterFirst lhs rest
    (found || foundLater, after)

/-- Removes a mapping. -/
def unmap (engine : Engine) (modes : List Mode) (invocation : Invocation) : Reply × Engine :=
  match invocation.args with
  | [] => engine.report "unmap: argument required"
  | lhs :: _ =>
    let (found, mappings) := unmapIn engine.mappings lhs modes
    if found then { engine with mappings }.done else engine.report ("no such mapping: " ++ lhs)

/-- Defines an abbreviation, or lists those that start with the argument. -/
def abbreviate (engine : Engine) (noremap : Bool) (invocation : Invocation) : Reply × Engine :=
  let list (start : String) : Reply × Engine :=
    let lines := engine.mappings.abbreviationListing start
    if lines.isEmpty then (.ok (Outcome.success "no abbreviation found"), engine)
    else (.ok (Outcome.success (Text.join "\n" lines)), engine)
  match invocation.args with
  | [] => list ""
  | [start] => list start
  | lhs :: rest =>
    let binding := { expansion := Text.join " " rest, noremap }
    { engine with mappings := engine.mappings.abbreviate lhs binding }.done

/-- Removes abbreviations in order; returns the arguments that named none. -/
def unabbreviateAll (mappings : Mappings) : List String → List String × Mappings
  | [] => ([], mappings)
  | argument :: rest =>
    let (found, afterFirst) := mappings.unabbreviate argument
    let (missing, after) := unabbreviateAll afterFirst rest
    (if found then missing else argument :: missing, after)

/-- Removes abbreviations. -/
def unabbreviate (engine : Engine) (invocation : Invocation) : Reply × Engine :=
  let (missing, mappings) := unabbreviateAll engine.mappings invocation.args
  let after := { engine with mappings }
  if missing.isEmpty then after.done
  else after.report ("no such abbreviation: " ++ Text.join ", " missing)

end ExLine.Engine

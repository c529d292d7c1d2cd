import ExLine.Engine.Basic
import ExLine.Line.Arguments
import ExLine.Line.Head

/-!
Contract: what one sub-command asks for, and where the next one starts.

Owns:
- `Plan` and `Step.read`, which reads a sub-command without running it;
- `Invocation.build`, the call that a sub-command makes;
- the law that what is left of a line is always shorter than what was read.

Does not own: carrying a plan out (`ExLine.Engine.Run`).
-/

set_option autoImplicit false

namespace ExLine

/-- What a sub-command asks for. -/
inductive Plan where
  /-- Nothing: it is empty, a comment, or in a branch that is not taken. -/
  | skip
  /-- Nothing can be done. -/
  | fail (error : CommandError)
  /-- A lone range moves the cursor. -/
  | move (range : RangeSpec)
  | call (command : Command) (head : CommandHead) (segment : Segment)

/-- A sub-command that has been read, and what follows it on its line. -/
structure Step where
  plan : Plan
  rest : Option Bytes

/-- What follows a sub-command that is not understood: the text after the next
bar that no backslash protects. -/
def plainRest (tail : Bytes) : Option Bytes :=
  match Segment.split .plain tail with
  | .ok segment => segment.rest
  | .error _ => none

/-- What stands before the next bar that no backslash protects. -/
def plainBody (tail : Bytes) : Bytes :=
  match plainRest tail with
  | some rest => tail.take (tail.length - rest.length - 1)
  | none => tail

namespace Step

/-- A sub-command without a name. A lone range moves the cursor, and anything
else is an unknown command. -/
def nameless (active : Bool) (head : CommandHead) : Step :=
  let rest := plainRest head.tail
  let body := plainBody head.tail
  if !active then ⟨.skip, rest⟩
  else
    match head.range with
    | some range =>
      if body.all Byte.isBlank then ⟨.move range, rest⟩ else ⟨.fail (unknown body), rest⟩
    | none => ⟨.fail (unknown body), rest⟩
where
  /-- The error that names the first word. -/
  unknown (body : Bytes) : CommandError :=
    let word := body.takeWhile fun byte => !Byte.isBlank byte
    .noSuchCommand (String.ofList (Utf8.decodeLossy word))

/-- A sub-command with a name. In a branch that is not taken, errors are
passed over and only control commands run. -/
def named (chain : List Registry) (active : Bool) (head : CommandHead) : Step :=
  match Registry.resolve chain head.name with
  | .error error => ⟨if active then .fail error else .skip, plainRest head.tail⟩
  | .ok command =>
    match Segment.split command.flags.tailMode head.tail with
    | .error error => if active then ⟨.fail error, none⟩ else ⟨.skip, plainRest head.tail⟩
    | .ok segment =>
      if active || command.flags.control then ⟨.call command head segment, segment.rest⟩
      else ⟨.skip, segment.rest⟩

/-- Reads the sub-command at the front of a line. The registries say how far
its arguments reach. -/
def read (chain : List Registry) (active : Bool) (line : Bytes) : Step :=
  match Head.read line with
  | .error error => ⟨.fail (.invalidRange error), none⟩
  | .ok (.empty rest) => ⟨.skip, rest⟩
  | .ok .comment => ⟨.skip, none⟩
  | .ok (.command head) => if head.name.isEmpty then nameless active head else named chain active head

end Step

/-! ## The call that a sub-command makes -/

/-- The arguments of a call: the whole text, or its words. -/
def Invocation.arguments (flags : Flags) (env : Env) (body : Bytes) (text : String) :
    Except CommandError (List String) :=
  if flags.raw || flags.expression then .ok (if text.isEmpty then [] else [text])
  else
    Arguments.split
      { quotes := flags.quotes, env := if flags.expandEnv then some env.get? else none }
      body

/-- The range of a call, resolved against the view. -/
def Invocation.lines (command : Command) (view : View) (range : Option RangeSpec) :
    Except CommandError (Option LineRange) :=
  match range with
  | none => .ok none
  | some spec =>
    if command.flags.range then
      liftError .invalidRange ((spec.resolve view.cursor view.length).map some)
    else .error (.markNotSupported command.name .range)

/-- The call that a sub-command makes, taken apart by the command's flags. -/
def Invocation.build (engine : Engine) (command : Command) (head : CommandHead)
    (segment : Segment) : Except CommandError Invocation := do
  let body := Arguments.trim segment.body
  let text ← Arguments.decode body
  let args ← Invocation.arguments command.flags engine.env body text
  let range ← Invocation.lines command engine.view head.range
  return {
    name := command.name, args, text, background := segment.background, bang := head.bang, range }

/-! ## What is left of a line gets shorter -/

theorem length_lt_of_plainRest
    {tail rest : Bytes}
    (left : plainRest tail = some rest) :
    rest.length < tail.length := by
  unfold plainRest at left
  split at left
  · rename_i segment cutOff
    exact Segment.length_lt_of_split cutOff left
  · cases left

namespace Step

theorem rest_nameless (active : Bool) (head : CommandHead) :
    (nameless active head).rest = plainRest head.tail := by
  unfold nameless
  simp only
  split
  · rfl
  · split
    · split <;> rfl
    · rfl

theorem length_lt_of_named
    {chain : List Registry}
    {active : Bool}
    {head : CommandHead}
    {rest : Bytes}
    (left : (named chain active head).rest = some rest) :
    rest.length < head.tail.length := by
  unfold named at left
  split at left
  · exact length_lt_of_plainRest left
  · split at left
    · split at left
      · cases left
      · exact length_lt_of_plainRest left
    · rename_i segment cutOff
      have restOfSegment : segment.rest = some rest := by
        split at left <;> exact left
      exact Segment.length_lt_of_split cutOff restOfSegment

/-- Every sub-command takes at least one byte of its line. -/
theorem length_lt_of_read
    {chain : List Registry}
    {active : Bool}
    {line rest : Bytes}
    (left : (read chain active line).rest = some rest) :
    rest.length < line.length := by
  unfold read at left
  split at left
  · cases left
  · rename_i headRest found
    exact Head.length_lt_of_read_empty (left ▸ found)
  · cases left
  · rename_i head found
    have tailShorter := Head.length_le_of_read_command found
    have restShorter : rest.length < head.tail.length := by
      split at left
      · exact length_lt_of_plainRest (rest_nameless active head ▸ left)
      · exact length_lt_of_named left
    omega

end Step

end ExLine

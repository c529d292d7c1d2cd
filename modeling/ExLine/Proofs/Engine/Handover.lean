import ExLine.Proofs.Engine.Wrappers
import ExLine.Proofs.Line.Escaped

/-!
Contract: arguments that user commands hand on.

Owns: `Engine.arguments_arrive_unchanged`, by which arguments with a backslash
before every character reach a host command as they are, through any number of
user commands that hand their argument text on.

Does not own: the readers of an argument text (`ExLine.Proofs.Line.Escaped`)
and the row of calls (`ExLine.Proofs.Engine.Wrappers`).

Every user command of the row receives the same argument text as the first:
the text is cut off, trimmed and put into the next body without a change.
-/

set_option autoImplicit false

namespace ExLine.Engine

open Arguments

/-- A body that ends with `%a` hands the argument text on. -/
theorem carries_escaped (arguments : List Escaped) :
    Carries " %a" (String.ofList (escapedText arguments)) := by
  have bytes : Utf8.ofString (String.ofList (escapedText arguments))
      = Utf8.encode (escapedText arguments) := by
    rw [Utf8.ofString, String.toList_ofList]
  constructor
  · rw [bytes]
    exact split_escaped arguments
  · rw [bytes]
    exact trim_escaped arguments
  · rw [bytes]
    exact ⟨_, words_escaped _ arguments⟩
  · intro name callable
    have expanded : expandBody (String.ofList (escapedText arguments)).toList " %a".toList
        = [' '] ++ escapedText arguments := by
      rw [String.toList_ofList]
      exact congrArg (' ' :: ·) (List.append_nil _)
    have blank : ∀ char ∈ [' '], Chars.isBlank char := by
      intro char member
      rw [List.mem_singleton.mp member]
      rfl
    rw [expanded, bytes]
    exact read_escaped callable blank (List.cons_ne_nil _ _) arguments

/-- The first line of the row: the name, and each argument after its blanks. -/
theorem read_written
    {name : String}
    (callable : Head.IsCallable name)
    (arguments : List Escaped) :
    Head.read (Utf8.encode (name.toList ++ written arguments))
      = .ok (.command ⟨none, name, false, Utf8.encode (escapedText arguments)⟩) := by
  cases arguments with
  | nil =>
    show Head.read (Utf8.encode (name.toList ++ [])) = _
    rw [List.append_nil]
    exact callable
  | cons first others =>
    have apart : written (first :: others) = first.gap ++ escapedText (first :: others) :=
      List.append_assoc _ _ _
    rw [apart]
    exact read_escaped callable first.blank first.someGap (first :: others)

/-- **Arguments arrive unchanged.** A line that names the first of a row of user
commands, with a backslash before every character of its arguments, makes one
call of the host command at the end of the row, with these arguments, no mark
and no range. The reply is that of the host command, and nothing else
changes. -/
theorem arguments_arrive_unchanged
    {engine : Engine}
    {count : Nat}
    {name target : String}
    {host : Command}
    {answer : HostCall → Reply}
    (reachable : engine.Reachable)
    (active : engine.isActive)
    (forwards : Forwards engine.scope.innermost.commands " %a" target count name)
    (within : count ≤ engine.config.maxDepth)
    (isWord : Chars.isWord target.toList)
    (registered : engine.builtins.get? target = some host)
    (unshadowed : engine.scope.innermost.commands.get? target = none)
    (isHost : host.handler = .host answer)
    (notRaw : host.flags.raw = false)
    (notExpression : host.flags.expression = false)
    (arguments : List Escaped)
    (accepts : host.accepts arguments.length)
    (source : Source) :
    engine.execute source (Utf8.encode (name.toList ++ written arguments)) =
      engine.callHost answer {
        invocation := {
          name := target
          args := meant arguments
          text := String.ofList (escapedText arguments)
          background := false
          bang := false
          range := none }
        site := { source, depth := count } } := by
  have callable := Head.isCallable_of_isWord isWord
  have callableName : Head.IsCallable name := by
    cases forwards with
    | target => exact callable
    | wrapper callableName => exact callableName
  have bytes : Utf8.ofString (String.ofList (escapedText arguments))
      = Utf8.encode (escapedText arguments) := by
    rw [Utf8.ofString, String.toList_ofList]
  have whole : Segment.split host.flags.tailMode
      (Utf8.ofString (String.ofList (escapedText arguments)))
        = .ok ⟨Utf8.ofString (String.ofList (escapedText arguments)), false, none⟩ := by
    rw [bytes]
    exact split_escaped arguments
  have taken : Invocation.arguments host.flags engine.env
      (Utf8.ofString (String.ofList (escapedText arguments)))
      (String.ofList (escapedText arguments)) = .ok (meant arguments) := by
    unfold Invocation.arguments
    rw [notRaw, notExpression, bytes]
    exact words_escaped _ arguments
  have asks := read_written callableName arguments
  rw [← bytes] at asks
  rw [execute_forwards reachable active forwards (carries_escaped arguments) callable registered
    unshadowed isHost whole taken (by rwa [meant, List.length_map]) asks, if_pos within]

/-- A host command with quotes and variables in its arguments. -/
def cautiousHost : Command where
  name := "h"
  flags := { quotes := true, expandEnv := true }
  minArgs := 2
  maxArgs := some 2
  handler := .host fun _ => .ok Outcome.done

/-- An engine in which `w` hands its arguments to `v`, and `v` to a host
command. -/
def handingOn : Engine where
  builtins := ⟨Command.builtins ++ [cautiousHost]⟩
  scope := { innermost := { commands := ⟨[Command.user "w" ":v %a", Command.user "v" ":h %a"]⟩ } }

theorem reachable_handingOn : handingOn.Reachable := by
  have registered : register {} cautiousHost = .ok { handingOn with scope := {} } := rfl
  have withHost : Reachable { handingOn with scope := {} } := by
    refine .register cautiousHost (fun action isBuiltin => ?_) registered (.start _ _ _ _)
    cases isBuiltin
  have restored : (restoreAll { handingOn with scope := {} } [⟨"w", ":v %a"⟩, ⟨"v", ":h %a"⟩]).2
      = handingOn := rfl
  rw [← restored]
  exact .restore _ withHost

/-- Two arguments of characters that have a meaning elsewhere, the last of them
a blank. -/
def signs : List Escaped :=
  [⟨[' '], ['|', '&', '%', 'a'], by decide, List.all_eq_true.mp rfl, by decide⟩,
    ⟨['\t', ' '], ['"', '$', '\\', 'é', ' '], by decide, List.all_eq_true.mp rfl, by decide⟩]

/-- They arrive as they are through two user commands. -/
theorem arguments_arrive_unchanged_through_two :
    execute handingOn .typed (Utf8.encode ("w".toList ++ written signs)) =
      (.ok Outcome.done, { handingOn with
        calls := [{
          invocation := ⟨"h", ["|&%a", "\"$\\é "], String.ofList (escapedText signs), false, false,
            none⟩
          site := ⟨.typed, 2⟩ }] }) := by
  have last : Forwards handingOn.scope.innermost.commands " %a" "h" 1 "v" :=
    .wrapper (Head.isCallable_of_isWord rfl) rfl .target
  have forwards : Forwards handingOn.scope.innermost.commands " %a" "h" 2 "w" :=
    .wrapper (Head.isCallable_of_isWord rfl) rfl last
  have accepts : cautiousHost.accepts signs.length := by decide
  exact arguments_arrive_unchanged reachable_handingOn rfl forwards (by decide) rfl rfl rfl rfl rfl
    rfl signs accepts .typed

end ExLine.Engine

import ExLine.Engine.Plan

/-!
Contract: what a line has to say for its first sub-command to ask for something.

Owns:
- `Step.read_eq_call_iff`, the calls;
- `Step.active_of_move`, the lone ranges.

Does not own: what is made of a call (`ExLine.Proofs.Engine.Calls`).

A call has passed the head, the look-up of its word and the cut of its text, in
this order. In a branch that is not taken it has passed the check for control
words as well. Later proofs start from these facts and do not read a line again.
-/

set_option autoImplicit false

namespace ExLine.Step

variable {chain : List Registry} {active : Bool}

theorem nameless_ne_call
    (head found : CommandHead)
    (command : Command)
    (segment : Segment) :
    (nameless active head).plan ≠ .call command found segment := by
  unfold nameless
  simp only
  split
  · exact Plan.noConfusion
  · split
    · split <;> exact Plan.noConfusion
    · exact Plan.noConfusion

theorem named_eq_call_iff
    {head found : CommandHead}
    {command : Command}
    {segment : Segment} :
    (named chain active head).plan = .call command found segment ↔
      found = head
      ∧ Registry.resolve chain head.name = .ok command
      ∧ Segment.split command.flags.tailMode head.tail = .ok segment
      ∧ (active || command.flags.control) = true := by
  unfold named
  constructor
  · intro isCall
    split at isCall
    · split at isCall <;> cases isCall
    · rename_i meant resolved
      split at isCall
      · split at isCall <;> cases isCall
      · rename_i piece cut
        split at isCall
        · rename_i runs
          cases isCall
          exact ⟨rfl, resolved, cut, runs⟩
        · cases isCall
  · rintro ⟨rfl, resolved, cut, runs⟩
    simp only [resolved, cut, runs, if_true]

/-- A sub-command is a call if it has a head with a name, its word means a
command and the text of that command can be cut off, where commands run or the
command is a control command. -/
theorem read_eq_call_iff
    {line : Bytes}
    {command : Command}
    {head : CommandHead}
    {segment : Segment} :
    (read chain active line).plan = .call command head segment ↔
      Head.read line = .ok (.command head)
      ∧ head.name.isEmpty = false
      ∧ Registry.resolve chain head.name = .ok command
      ∧ Segment.split command.flags.tailMode head.tail = .ok segment
      ∧ (active || command.flags.control) = true := by
  unfold read
  constructor
  · intro isCall
    split at isCall
    · cases isCall
    · cases isCall
    · cases isCall
    · rename_i found start
      split at isCall
      · exact absurd isCall (nameless_ne_call _ _ _ _)
      · rename_i hasName
        obtain ⟨rfl, resolved, cut, runs⟩ := named_eq_call_iff.mp isCall
        exact ⟨start, Bool.eq_false_iff.mpr hasName, resolved, cut, runs⟩
  · rintro ⟨start, hasName, resolved, cut, runs⟩
    simp only [start, hasName, Bool.false_eq_true, if_false]
    exact named_eq_call_iff.mpr ⟨rfl, resolved, cut, runs⟩

/-- A lone range is looked at only where commands run. -/
theorem active_of_move
    {line : Bytes}
    {range : RangeSpec}
    (moves : (read chain active line).plan = .move range) :
    active = true := by
  unfold read nameless named at moves
  cases active with
  | true => rfl
  | false => grind

end ExLine.Step

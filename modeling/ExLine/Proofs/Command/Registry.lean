import ExLine.Scope
import ExLine.Command.Builtins
import Mathlib.Data.List.Induction
import Mathlib.Data.List.Nodup
import Mathlib.Data.List.Pairwise

/-!
Contract: names within a registry, and words that can mean one command only.

Owns:
- `along_history`, by which what every operation keeps holds all along a
  sequence of them;
- `Registry.Apart`, by which no two commands of a registry share a name, with
  the law that adding a command keeps it;
- the laws by which full names stay distinct, whatever is done to a registry;
- `Registry.resolve_of_unique`: a word that a single command of a chain bears
  means that command;
- `Registry.mem_of_resolve`: a word only ever means a command of the chain.

Does not own: which registries a line sees (`ExLine.Proofs.Engine.Sessions`).
-/

set_option autoImplicit false

namespace ExLine

/-- What each operation keeps, made in the state that it meets, holds in every
state of a history. -/
theorem along_history
    {State Operation : Type}
    {step : State → Operation → State}
    {property : State → Prop}
    {start : State}
    {operations earlier later : List Operation}
    (holds : property start)
    (kept : ∀ earlier operation later, operations = earlier ++ operation :: later →
      property (earlier.foldl step start) → property (step (earlier.foldl step start) operation))
    (split : operations = earlier ++ later) :
    property (earlier.foldl step start) := by
  -- From operation to operation, so the last one of the part comes off first.
  induction earlier using List.reverseRecOn generalizing later with
  | nil => exact holds
  | append_singleton earlier operation inductionHypothesis =>
    have splitBefore : operations = earlier ++ operation :: later := by
      rw [split, List.append_assoc]
      rfl
    rw [List.foldl_append]
    exact kept earlier operation later splitBefore (inductionHypothesis splitBefore)

namespace Registry

/-- No two of its commands share a name or an abbreviation. -/
def Apart (registry : Registry) : Prop :=
  registry.commands.Pairwise fun held later => List.Disjoint held.names later.names

theorem contains_eq_true_iff {registry : Registry} {name : String} :
    registry.contains name = true ↔ ∃ command ∈ registry.commands, name ∈ command.names := by
  unfold contains
  simp only [List.any_eq_true, List.contains_iff_mem]

theorem contains_of_mem
    {registry : Registry}
    {command : Command}
    {name : String}
    (member : command ∈ registry.commands)
    (named : name ∈ command.names) :
    registry.contains name = true :=
  contains_eq_true_iff.mpr ⟨command, member, named⟩

/-! ## Adding a command -/

theorem clash?_eq_none_iff {held command : Command} :
    clash? held command = none ↔ List.Disjoint held.names command.names := by
  unfold clash?
  rw [List.find?_eq_none]
  constructor
  · intro noClash name inHeld inCommand
    apply noClash name inCommand
    rwa [List.contains_iff_mem]
  · intro apart name inCommand inHeld
    rw [List.contains_iff_mem] at inHeld
    exact apart inHeld inCommand

theorem register_eq_ok_iff {registry after : Registry} {command : Command} :
    registry.register command = .ok after ↔
      (∀ held ∈ registry.commands, List.Disjoint held.names command.names)
        ∧ after = ⟨registry.commands ++ [command]⟩ := by
  unfold register
  cases clash : registry.commands.findSome? fun held => clash? held command with
  | some name =>
    obtain ⟨held, member, shared⟩ := List.exists_of_findSome?_eq_some clash
    constructor
    · intro registered
      cases registered
    · rintro ⟨apart, -⟩
      rw [clash?_eq_none_iff.mpr (apart held member)] at shared
      cases shared
  | none =>
    have apart : ∀ held ∈ registry.commands, List.Disjoint held.names command.names := by
      intro held member
      exact clash?_eq_none_iff.mp (List.findSome?_eq_none_iff.mp clash held member)
    constructor
    · intro registered
      cases registered
      exact ⟨apart, rfl⟩
    · rintro ⟨-, rfl⟩
      rfl

theorem Apart.register
    {registry after : Registry}
    {command : Command}
    (apart : registry.Apart)
    (registered : registry.register command = .ok after) :
    after.Apart := by
  obtain ⟨fromAll, rfl⟩ := register_eq_ok_iff.mp registered
  unfold Apart
  rw [List.pairwise_append]
  refine ⟨apart, List.pairwise_singleton _ _, ?_⟩
  intro held member added isAdded
  rw [List.mem_singleton.mp isAdded]
  exact fromAll held member

theorem Apart.eq_of_shared
    {registry : Registry}
    {first second : Command}
    {name : String}
    (apart : registry.Apart)
    (firstHeld : first ∈ registry.commands)
    (secondHeld : second ∈ registry.commands)
    (inFirst : name ∈ first.names)
    (inSecond : name ∈ second.names) :
    first = second := by
  by_contra differ
  have symmetric : Std.Symm fun held later : Command => List.Disjoint held.names later.names :=
    ⟨fun _ _ disjoint _ inLater inHeld => disjoint inHeld inLater⟩
  exact apart.forall firstHeld secondHeld differ inFirst inSecond

/-- The name of a command leads back to it. -/
theorem Apart.get?_of_mem
    {registry : Registry}
    {command : Command}
    (apart : registry.Apart)
    (member : command ∈ registry.commands) :
    registry.get? command.name = some command := by
  unfold get?
  cases found : registry.commands.find? fun held => held.name == command.name with
  | none => exact absurd (BEq.rfl) (List.find?_eq_none.mp found command member)
  | some held =>
    have sameName : held.name = command.name := by
      simpa using List.find?_some found
    rw [apart.eq_of_shared (List.mem_of_find?_eq_some found) member
      List.mem_cons_self (sameName ▸ List.mem_cons_self)]

theorem apart_builtins : Registry.builtins.Apart := by
  unfold Apart List.Disjoint
  decide

theorem mem_names_replaceIn
    {command : Command}
    {commands : List Command}
    {name : String} :
    name ∈ (replaceIn command commands).map (·.name) ↔
      name ∈ commands.map (·.name) ∨ name = command.name := by
  induction commands with
  | nil => simp [replaceIn]
  | cons held rest inductionHypothesis =>
    unfold replaceIn
    by_cases sameName : held.name = command.name
    · rw [if_pos sameName, List.map_cons, List.map_cons, sameName, List.mem_cons]
      constructor
      · exact .inl
      · rintro (inList | isName)
        · exact inList
        · exact .inl isName
    · rw [if_neg sameName, List.map_cons, List.map_cons, List.mem_cons, List.mem_cons,
        inductionHypothesis, or_assoc]

/-- A definition adds one name to those of the innermost frame. -/
theorem mem_names_define
    {scope defined : Scope}
    {command : Command}
    {force : Bool}
    (done : scope.define command force = .ok defined) :
    ∃ registry : Registry, defined = scope.withCommands registry
      ∧ ∀ name, name ∈ registry.names ↔
          name ∈ scope.innermost.commands.names ∨ name = command.name := by
  unfold Scope.define at done
  simp only [bind, Except.bind, pure, Except.pure] at done
  split at done
  · split at done
    · cases done
      exact ⟨_, rfl, fun name => mem_names_replaceIn⟩
    · cases done
  · split at done
    · cases done
    · rename_i extended registered
      cases done
      obtain ⟨-, rfl⟩ := register_eq_ok_iff.mp registered
      refine ⟨_, rfl, fun name => ?_⟩
      unfold names
      rw [List.map_append, List.mem_append, List.map_singleton, List.mem_singleton]

/-! ## Distinct names -/

theorem nodup_names_register
    {registry after : Registry}
    {command : Command}
    (distinct : registry.names.Nodup)
    (registered : registry.register command = .ok after) :
    after.names.Nodup := by
  obtain ⟨apart, rfl⟩ := register_eq_ok_iff.mp registered
  unfold names at distinct ⊢
  rw [List.map_append, List.map_singleton]
  apply distinct.append (List.nodup_singleton _)
  intro name inNames isNew
  obtain ⟨held, member, rfl⟩ := List.mem_map.mp inNames
  apply apart held member List.mem_cons_self
  rw [List.mem_singleton.mp isNew]
  exact List.mem_cons_self

/-- Where all names differ, a replacement takes the command in and the one of
its name out. -/
theorem replaceIn_perm
    {commands : List Command}
    (distinct : (commands.map (·.name)).Nodup)
    (command : Command) :
    (replaceIn command commands).Perm
      (command :: commands.filter fun held => held.name != command.name) := by
  induction commands with
  | nil => exact .refl _
  | cons held rest inductionHypothesis =>
    obtain ⟨heldIsNew, restDistinct⟩ := List.nodup_cons.mp distinct
    unfold replaceIn
    by_cases sameName : held.name = command.name
    · have keepsRest : rest.filter (fun held => held.name != command.name) = rest := by
        apply List.filter_eq_self.mpr
        intro other member
        rw [bne_iff_ne, ← sameName]
        intro alsoSame
        apply heldIsNew
        exact List.mem_map.mpr ⟨other, member, alsoSame⟩
      rw [if_pos sameName, List.filter_cons_of_neg (by simpa using sameName), keepsRest]
    · rw [if_neg sameName, List.filter_cons_of_pos (by simpa using sameName)]
      exact ((inductionHypothesis restDistinct).cons held).trans (.swap ..)

theorem nodup_names_replace
    {registry : Registry}
    (distinct : registry.names.Nodup)
    (command : Command) :
    (registry.replace command).names.Nodup := by
  have shuffled := (replaceIn_perm distinct command).map (·.name)
  apply shuffled.nodup_iff.mpr
  rw [List.map_cons, List.nodup_cons]
  constructor
  · intro inNames
    obtain ⟨held, member, sameName⟩ := List.mem_map.mp inNames
    have otherName := (List.mem_filter.mp member).2
    rw [sameName, bne_self_eq_false] at otherName
    cases otherName
  · exact distinct.sublist (List.filter_sublist.map _)

theorem nodup_names_erase
    {registry : Registry}
    (distinct : registry.names.Nodup)
    (name : String) :
    (registry.erase name).names.Nodup :=
  distinct.sublist (List.eraseP_sublist.map _)

theorem nodup_names_define
    {scope defined : Scope}
    {command : Command}
    {force : Bool}
    (distinct : scope.innermost.commands.names.Nodup)
    (done : scope.define command force = .ok defined) :
    defined.innermost.commands.names.Nodup := by
  unfold Scope.define at done
  simp only [bind, Except.bind, pure, Except.pure] at done
  split at done
  · split at done
    · cases done
      exact nodup_names_replace distinct command
    · cases done
  · split at done
    · cases done
    · rename_i extended registered
      cases done
      exact nodup_names_register distinct registered

/-! ## Words -/

/-- The name decides before the abbreviation, but a word that one command alone
bears means it on either ground. -/
theorem resolve_of_unique
    {chain : List Registry}
    {command : Command}
    {word : String}
    (member : command ∈ chain.flatMap (·.commands))
    (named : word ∈ command.names)
    (unique : ∀ held ∈ chain.flatMap (·.commands), word ∈ held.names → held = command) :
    resolve chain word = .ok command := by
  have byName : ∀ held ∈ chain.flatMap (·.commands), held.name = word → held = command := by
    intro held isHeld sameName
    apply unique held isHeld
    rw [← sameName]
    exact List.mem_cons_self
  have byAbbreviation : ∀ held ∈ chain.flatMap (·.commands), held.abbreviation = some word →
      held = command := by
    intro held isHeld sameAbbreviation
    apply unique held isHeld
    simp [Command.names, sameAbbreviation]
  unfold resolve
  simp only
  cases found : (chain.flatMap (·.commands)).find? fun held => held.name == word with
  | some held =>
    have sameName := List.find?_some found
    rw [byName held (List.mem_of_find?_eq_some found) (by simpa using sameName)]
  | none =>
    have otherName : command.name ≠ word := by
      intro sameName
      exact List.find?_eq_none.mp found command member (by simpa using sameName)
    have abbreviated : command.abbreviation = some word := by
      rcases List.mem_cons.mp named with isName | isAbbreviation
      · exact absurd isName.symm otherName
      · simpa using isAbbreviation
    cases shortened : (chain.flatMap (·.commands)).find?
        fun held => held.abbreviation == some word with
    | some held =>
      have sameAbbreviation := List.find?_some shortened
      have isCommand := byAbbreviation held (List.mem_of_find?_eq_some shortened)
        (by simpa using sameAbbreviation)
      simp only [isCommand]
    | none =>
      exact absurd (by simpa using abbreviated) (List.find?_eq_none.mp shortened command member)

theorem mem_of_mem_foldl_addNew
    {command : Command}
    {commands found : List Command}
    (member : command ∈ commands.foldl addNew found) :
    command ∈ found ∨ command ∈ commands := by
  induction commands generalizing found with
  | nil => exact .inl member
  | cons held rest inductionHypothesis =>
    rcases inductionHypothesis member with early | late
    · unfold addNew at early
      split at early
      · exact .inl early
      · rcases List.mem_append.mp early with before | added
        · exact .inl before
        · rw [List.mem_singleton.mp added]
          exact .inr List.mem_cons_self
    · exact .inr (List.mem_cons_of_mem _ late)

theorem mem_of_mem_withPrefix
    {command : Command}
    {commands : List Command}
    {word : String}
    (member : command ∈ withPrefix commands word) :
    command ∈ commands := by
  unfold withPrefix at member
  split at member
  · cases member
  · rcases mem_of_mem_foldl_addNew member with nothing | kept
    · cases nothing
    · exact List.mem_of_mem_filter kept

/-- A word only ever means a command that some registry holds. -/
theorem mem_of_resolve
    {chain : List Registry}
    {command : Command}
    {word : String}
    (resolved : resolve chain word = .ok command) :
    command ∈ chain.flatMap (·.commands) := by
  unfold resolve at resolved
  simp only at resolved
  split at resolved
  · rename_i found byName
    cases resolved
    exact List.mem_of_find?_eq_some byName
  split at resolved
  · rename_i found byAbbreviation
    cases resolved
    exact List.mem_of_find?_eq_some byAbbreviation
  split at resolved
  · cases resolved
  · rename_i found only
    cases resolved
    apply mem_of_mem_withPrefix
    rw [only]
    exact List.mem_singleton.mpr rfl
  · cases resolved

end Registry

end ExLine

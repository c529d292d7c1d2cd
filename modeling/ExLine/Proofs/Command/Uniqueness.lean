import ExLine.Proofs.Command.Registry
import Mathlib.Data.List.Flatten

/-!
Contract: names and abbreviations that stand for one command only.

Owns:
- `Registry.Operation` and `Registry.afterAll`, a registry as the result of the
  operations on it;
- `Registry.Unique`, by which no text stands twice among the names and the
  abbreviations of a registry;
- `Registry.names_unique_iff`, by which only a replacement can break that.

Does not own: what a word means (`ExLine.Proofs.Command.Registry`).

Adding a command compares its name and its abbreviation with those of every
other command. Replacing a command looks for its name among the names, and for
nothing else.
-/

set_option autoImplicit false

namespace ExLine.Registry

inductive Operation where
  | register (command : Command)
  | replace (command : Command)
  | erase (name : String)
  | clear

/-- The registry after an operation, whether the operation succeeds or not. -/
def after (registry : Registry) : Operation → Registry
  | .register command =>
    match registry.register command with
    | .ok registered => registered
    | .error _ => registry
  | .replace command => registry.replace command
  | .erase name => registry.erase name
  | .clear => empty

def afterAll (registry : Registry) (operations : List Operation) : Registry :=
  operations.foldl after registry

theorem afterAll_snoc
    (registry : Registry)
    (operations : List Operation)
    (operation : Operation) :
    registry.afterAll (operations ++ [operation])
      = (registry.afterAll operations).after operation :=
  List.foldl_append

/-- A command that is handed over has a name that is not its abbreviation. -/
def Operation.Proper : Operation → Prop
  | .register command | .replace command => command.abbreviation ≠ some command.name
  | .erase _ | .clear => True

/-- No text stands twice among the names and abbreviations. -/
def Unique (registry : Registry) : Prop :=
  (registry.commands.flatMap Command.names).Nodup

theorem unique_iff {registry : Registry} :
    registry.Unique ↔ (∀ command ∈ registry.commands, command.names.Nodup) ∧ registry.Apart :=
  List.nodup_flatMap

theorem nodup_names_of_proper
    {command : Command}
    (proper : command.abbreviation ≠ some command.name) :
    command.names.Nodup := by
  unfold Command.names
  cases shortened : command.abbreviation with
  | none => exact List.nodup_singleton _
  | some abbreviation =>
    rw [Option.toList_some, List.nodup_cons, List.mem_singleton]
    refine ⟨?_, List.nodup_singleton _⟩
    rintro rfl
    exact proper shortened

/-! ## One operation -/

/-- Full names stay distinct, whatever is done. -/
theorem nodup_names_after
    {registry : Registry}
    (distinct : registry.names.Nodup)
    (operation : Operation) :
    (registry.after operation).names.Nodup := by
  cases operation with
  | register command =>
    unfold after
    simp only
    split
    · rename_i registered done
      exact nodup_names_register distinct done
    · exact distinct
  | replace command => exact nodup_names_replace distinct command
  | erase name => exact nodup_names_erase distinct name
  | clear => exact List.nodup_nil

theorem Unique.sublist
    {registry smaller : Registry}
    (unique : registry.Unique)
    (sublist : smaller.commands.Sublist registry.commands) :
    smaller.Unique :=
  List.Nodup.sublist (sublist.flatMap Command.names) unique

theorem Unique.register
    {registry registered : Registry}
    {command : Command}
    (unique : registry.Unique)
    (proper : command.abbreviation ≠ some command.name)
    (done : registry.register command = .ok registered) :
    registered.Unique := by
  obtain ⟨each, apart⟩ := unique_iff.mp unique
  refine unique_iff.mpr ⟨?_, apart.register done⟩
  obtain ⟨-, rfl⟩ := register_eq_ok_iff.mp done
  intro held member
  rcases List.mem_append.mp member with earlier | new
  · exact each held earlier
  · rw [List.mem_singleton.mp new]
    exact nodup_names_of_proper proper

/-- The command shares nothing with the commands of other names. -/
def Spared (registry : Registry) (command : Command) : Prop :=
  ∀ held ∈ registry.commands, held.name ≠ command.name → List.Disjoint held.names command.names

theorem unique_replace_iff
    {registry : Registry}
    {command : Command}
    (distinct : registry.names.Nodup)
    (unique : registry.Unique)
    (proper : command.abbreviation ≠ some command.name) :
    (registry.replace command).Unique ↔ registry.Spared command := by
  have shuffled : (registry.replace command).Unique ↔
      (command.names ++ (registry.commands.filter fun held => held.name != command.name).flatMap
        Command.names).Nodup :=
    ((replaceIn_perm distinct command).flatMap_right Command.names).nodup_iff
  have others : ((registry.commands.filter fun held => held.name != command.name).flatMap
      Command.names).Nodup :=
    List.Nodup.sublist (List.filter_sublist.flatMap Command.names) unique
  rw [shuffled, List.nodup_append']
  constructor
  · rintro ⟨-, -, apart⟩ held member otherName name inHeld inCommand
    apply apart inCommand
    exact List.mem_flatMap.mpr ⟨held, List.mem_filter.mpr ⟨member, by simpa using otherName⟩, inHeld⟩
  · intro spared
    refine ⟨nodup_names_of_proper proper, others, ?_⟩
    intro name inCommand inOthers
    obtain ⟨held, member, inHeld⟩ := List.mem_flatMap.mp inOthers
    obtain ⟨isHeld, otherName⟩ := List.mem_filter.mp member
    exact spared held isHeld (by simpa using otherName) inHeld inCommand

/-- Of all operations, only a replacement can give a text a second meaning. -/
theorem Unique.after
    {registry : Registry}
    {operation : Operation}
    (distinct : registry.names.Nodup)
    (unique : registry.Unique)
    (proper : operation.Proper)
    (spared : ∀ command, operation = .replace command → registry.Spared command) :
    (registry.after operation).Unique := by
  cases operation with
  | register command =>
    unfold Registry.after
    simp only
    split
    · rename_i registered done
      exact unique.register proper done
    · exact unique
  | replace command =>
    exact (unique_replace_iff distinct unique proper).mpr (spared command rfl)
  | erase name => exact unique.sublist List.eraseP_sublist
  | clear => exact List.nodup_nil

/-! ## Any sequence of operations -/

theorem nodup_names_afterAll (operations : List Operation) :
    (empty.afterAll operations).names.Nodup := by
  apply @along_history Registry Operation after (fun registry => registry.names.Nodup)
  · exact List.nodup_nil
  · intro earlier operation later _ distinct
    exact nodup_names_after distinct operation
  · exact (List.append_nil operations).symm

/-- **Names are unique exactly as long as replacements spare the others.** Along
any sequence of operations on an empty registry no two commands have the same
name. No text stands twice among names and abbreviations at any time, if and
only if each command that replaces another, or is added in this way, shares
nothing with the commands of other names. -/
theorem names_unique_iff
    (operations : List Operation)
    (proper : ∀ operation ∈ operations, operation.Proper) :
    (∀ earlier later, operations = earlier ++ later → (empty.afterAll earlier).names.Nodup)
    ∧ ((∀ earlier later, operations = earlier ++ later → (empty.afterAll earlier).Unique) ↔
      ∀ earlier command later, operations = earlier ++ .replace command :: later →
        ∀ held ∈ (empty.afterAll earlier).commands, held.name ≠ command.name →
          List.Disjoint held.names command.names) := by
  refine ⟨fun earlier _ _ => nodup_names_afterAll earlier, ?_, ?_⟩
  · intro unique earlier command later split
    have before := unique earlier (.replace command :: later) split
    have afterwards := unique (earlier ++ [.replace command]) later
      (by rw [split, List.append_assoc]; rfl)
    rw [afterAll_snoc] at afterwards
    have properHere := proper (.replace command) (by rw [split]; simp)
    exact (unique_replace_iff (nodup_names_afterAll earlier) before properHere).mp afterwards
  · intro spared earlier later split
    refine @along_history Registry Operation after Unique empty _ _ _ List.nodup_nil
      (fun earlier operation later splitHere before => ?_) split
    have properHere := proper operation (by rw [splitHere]; simp)
    apply Unique.after (nodup_names_afterAll earlier) before properHere
    rintro command rfl
    exact spared earlier command later splitHere

/-- A command that is added under the abbreviation of another. -/
def underAbbreviation : List Operation :=
  [.register { name := "echo", abbreviation := some "ec", handler := .builtin .echo },
    .replace (Command.user "ec" ":echo 1")]

/-- After these operations `ec` stands for two commands. -/
theorem names_unique_not_always :
    (empty.afterAll underAbbreviation).names = ["echo", "ec"]
    ∧ ¬ ∀ earlier later, underAbbreviation = earlier ++ later →
        (empty.afterAll earlier).Unique := by
  have proper : ∀ operation ∈ underAbbreviation, operation.Proper := by
    simp [underAbbreviation, Operation.Proper, Command.user]
  refine ⟨rfl, fun unique => ?_⟩
  have spared := (names_unique_iff underAbbreviation proper).2.mp unique
    [.register { name := "echo", abbreviation := some "ec", handler := .builtin .echo }]
    (Command.user "ec" ":echo 1") [] rfl
  exact spared _ List.mem_cons_self (by decide) (List.mem_cons_of_mem _ List.mem_cons_self)
    List.mem_cons_self

end ExLine.Registry

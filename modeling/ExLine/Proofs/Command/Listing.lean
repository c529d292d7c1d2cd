import ExLine.Proofs.Command.Resolution
import ExLine.Proofs.Engine.Effects

/-!
Contract: the listing of user commands against the look-up of their names.

Owns:
- `Scope.Operation` and `Scope.afterAll`, a scope as the result of what is done to
  its frames and to their commands;
- `Scope.Tidy`, by which every frame holds user commands of distinct names, kept
  by every operation;
- `Scope.find?_userCommands`, by which a tidy listing shows under a name what the
  look-up finds;
- `Scope.listing_agrees_with_lookup`.

Does not own: the order of the listing (`ExLine.Scope`).

The listing goes from the root inwards and puts each command in the place of one
of its name. The look-up goes from the innermost frame outwards and takes the
first one. The last of a list and the first of the list turned round are the same
only if no frame holds two commands of one name.
-/

set_option autoImplicit false

namespace ExLine

/-- Its commands are user commands, and their names differ. -/
structure Registry.Tidy (registry : Registry) : Prop where
  distinct : registry.names.Nodup
  users : ∀ command ∈ registry.commands, command.isUser

namespace Scope

/-! ## What is done to a scope -/

/-- What can be done to the frames of a scope and to their commands. -/
inductive Operation where
  | push
  | pop
  | define (command : Command) (isUser : command.isUser) (force : Bool)
  | delete (name : String)
  | clear

/-- The scope after an operation, whether the operation succeeds or not. -/
def after (scope : Scope) : Operation → Scope
  | .push => scope.push
  | .pop =>
    match scope.pop with
    | some (_, outer) => outer
    | none => scope
  | .define command _ force =>
    match scope.define command force with
    | .ok defined => defined
    | .error _ => scope
  | .delete name => (scope.delete name).2
  | .clear => scope.clearCommands

/-- The scope after operations on a new one. -/
def afterAll (operations : List Operation) : Scope :=
  operations.foldl after empty

/-! ## Frames of distinct names -/

/-- Every frame is tidy. -/
def Tidy (scope : Scope) : Prop :=
  ∀ registry ∈ scope.chain, registry.Tidy

theorem tidy_noCommands : Registry.Tidy {} where
  distinct := List.nodup_nil
  users _ member := nomatch member

namespace Tidy

variable {scope : Scope}

theorem withCommands
    {registry : Registry}
    (tidy : scope.Tidy)
    (tidyHere : registry.Tidy) :
    (scope.withCommands registry).Tidy := by
  intro held member
  rcases List.mem_cons.mp member with rfl | below
  · exact tidyHere
  · exact tidy held (List.mem_cons_of_mem _ below)

theorem innermost (tidy : scope.Tidy) : scope.innermost.commands.Tidy :=
  tidy scope.innermost.commands List.mem_cons_self

theorem push (tidy : scope.Tidy) : scope.push.Tidy := by
  intro held member
  rcases List.mem_cons.mp member with rfl | below
  · exact tidy_noCommands
  · exact tidy held below

theorem pop
    {frame : Frame}
    {outer : Scope}
    (tidy : scope.Tidy)
    (left : scope.pop = some (frame, outer)) :
    outer.Tidy := by
  unfold Scope.pop at left
  split at left
  · cases left
  · rename_i next rest enclosing
    cases left
    intro held member
    apply tidy
    unfold chain frames
    rw [enclosing]
    exact List.mem_cons_of_mem _ member

theorem define
    {command : Command}
    {force : Bool}
    {defined : Scope}
    (tidy : scope.Tidy)
    (isUser : command.isUser)
    (done : scope.define command force = .ok defined) :
    defined.Tidy := by
  have distinct := Registry.nodup_names_define tidy.innermost.distinct done
  obtain ⟨registry, rfl, origin⟩ := Engine.define_eq_withCommands done
  refine tidy.withCommands ⟨distinct, fun held member => ?_⟩
  rcases origin held member with earlier | rfl
  · exact tidy.innermost.users held earlier
  · exact isUser

theorem delete (tidy : scope.Tidy) (name : String) : (scope.delete name).2.Tidy := by
  apply tidy.withCommands
  constructor
  · exact Registry.nodup_names_erase tidy.innermost.distinct name
  · exact fun held member => tidy.innermost.users held (List.mem_of_mem_eraseP member)

theorem after (tidy : scope.Tidy) (operation : Operation) : (scope.after operation).Tidy := by
  cases operation with
  | push => exact tidy.push
  | pop =>
    unfold Scope.after
    simp only
    split
    · rename_i frame outer left
      exact tidy.pop left
    · exact tidy
  | define command isUser force =>
    unfold Scope.after
    simp only
    split
    · rename_i defined done
      exact tidy.define isUser done
    · exact tidy
  | delete name => exact tidy.delete name
  | clear => exact tidy.withCommands tidy_noCommands

end Tidy

theorem tidy_afterAll (operations : List Operation) : (afterAll operations).Tidy := by
  apply List.foldlRecOn (motive := Tidy)
  · intro held member
    rw [List.mem_singleton.mp member]
    exact tidy_noCommands
  · exact fun scope tidy operation _ => tidy.after operation

/-! ## What a listing shows under a name -/

theorem names_shadow (shown : List UserCommand) (command : UserCommand) :
    (shadow shown command).map (·.name)
      = if command.name ∈ shown.map (·.name) then shown.map (·.name)
        else shown.map (·.name) ++ [command.name] := by
  induction shown with
  | nil => rfl
  | cons held rest inductionHypothesis =>
    unfold shadow
    by_cases sameName : held.name = command.name
    · simp [sameName]
    · simp only [if_neg sameName, List.map_cons, inductionHypothesis, List.mem_cons,
        Ne.symm sameName, false_or]
      split
      · rfl
      · rfl

theorem nodup_names_userCommands (scope : Scope) :
    (scope.userCommands.map (·.name)).Nodup := by
  apply List.foldlRecOn (motive := fun shown : List UserCommand => (shown.map (·.name)).Nodup)
  · exact List.nodup_nil
  · intro shown distinct command _
    rw [names_shadow]
    split
    · exact distinct
    · rename_i isNew
      exact distinct.append (List.nodup_singleton _) (List.disjoint_singleton.mpr isNew)

theorem find?_shadow (shown : List UserCommand) (command : UserCommand) (name : String) :
    (shadow shown command).find? (fun held => held.name == name)
      = if command.name = name then some command
        else shown.find? fun held => held.name == name := by
  induction shown with
  | nil =>
    show List.find? _ [command] = _
    rw [List.find?_singleton]
    simp
  | cons held rest inductionHypothesis =>
    unfold shadow
    by_cases sameName : held.name = command.name
    · rw [if_pos sameName]
      by_cases sought : command.name = name
      · rw [if_pos sought, List.find?_cons_of_pos (by simpa using sought)]
      · rw [if_neg sought, List.find?_cons_of_neg (by simpa using sought),
          List.find?_cons_of_neg (by simpa [sameName] using sought)]
    · rw [if_neg sameName]
      by_cases isHeld : held.name = name
      · have notSought : command.name ≠ name := fun sought => sameName (isHeld.trans sought.symm)
        rw [if_neg notSought, List.find?_cons_of_pos (by simpa using isHeld),
          List.find?_cons_of_pos (by simpa using isHeld)]
      · rw [List.find?_cons_of_neg (by simpa using isHeld), inductionHypothesis,
          List.find?_cons_of_neg (by simpa using isHeld)]

/-- In a listing the last entry of a name stands, and what was shown before only
where there is none. -/
theorem find?_foldl_shadow (entries shown : List UserCommand) (name : String) :
    (entries.foldl shadow shown).find? (fun held => held.name == name)
      = (entries.reverse.find? fun held => held.name == name).or
          (shown.find? fun held => held.name == name) := by
  induction entries generalizing shown with
  | nil => rfl
  | cons entry rest inductionHypothesis =>
    rw [List.foldl_cons, inductionHypothesis, find?_shadow, List.reverse_cons, List.find?_append,
      Option.or_assoc, List.find?_singleton]
    congr 1
    by_cases sought : entry.name = name
    · simp [sought]
    · simp [sought]

/-! ## Both ways through the frames -/

/-- The command of exactly that name in the innermost frame that has one. -/
def named? (scope : Scope) (name : String) : Option Command :=
  scope.chain.findSome? fun registry => registry.get? name

/-- What a listing shows of a command. -/
def shown? (command : Command) : Option UserCommand :=
  command.body?.map fun body => { name := command.name, body }

theorem shown?_eq_some_iff {command : Command} {entry : UserCommand} :
    shown? command = some entry ↔ command.body? = some entry.body ∧ command.name = entry.name := by
  unfold shown?
  rw [Option.map_eq_some_iff]
  constructor
  · rintro ⟨body, isBody, rfl⟩
    exact ⟨isBody, rfl⟩
  · rintro ⟨isBody, sameName⟩
    exact ⟨entry.body, isBody, by rw [sameName]⟩

theorem nodup_names_userCommandsOf
    {registry : Registry}
    (distinct : registry.names.Nodup) :
    ((userCommandsOf registry).map (·.name)).Nodup := by
  unfold Registry.names List.Nodup at distinct
  unfold userCommandsOf List.Nodup
  rw [List.pairwise_map] at distinct ⊢
  rw [List.pairwise_filterMap]
  apply distinct.imp
  intro first second differ entry isFirst other isSecond
  rw [← (shown?_eq_some_iff.mp isFirst).2, ← (shown?_eq_some_iff.mp isSecond).2]
  exact differ

/-- Within one frame the last entry of a name is the only one. -/
theorem find?_reverse_userCommandsOf
    {registry : Registry}
    (distinct : registry.names.Nodup)
    (name : String) :
    ((userCommandsOf registry).reverse.find? fun held => held.name == name)
      = (registry.get? name).bind shown? := by
  have reversed : ((userCommandsOf registry).reverse.map (·.name)).Nodup := by
    rw [List.map_reverse, List.nodup_reverse]
    exact nodup_names_userCommandsOf distinct
  apply Option.ext
  intro entry
  unfold Registry.get?
  rw [find?_key_eq_some_iff reversed, List.mem_reverse, Option.bind_eq_some_iff]
  simp only [find?_key_eq_some_iff distinct]
  constructor
  · rintro ⟨listed, sameName⟩
    obtain ⟨command, member, isShown⟩ := List.mem_filterMap.mp listed
    exact ⟨command, ⟨member, (shown?_eq_some_iff.mp isShown).2.trans sameName⟩, isShown⟩
  · rintro ⟨command, ⟨member, sameName⟩, isShown⟩
    refine ⟨List.mem_filterMap.mpr ⟨command, member, isShown⟩, ?_⟩
    exact (shown?_eq_some_iff.mp isShown).2.symm.trans sameName

/-- Frame by frame from the innermost one: a frame that has the name decides for
the listing as well, because it can only have it for a user command. -/
theorem findSome?_shown
    {chain : List Registry}
    (tidy : ∀ registry ∈ chain, registry.Tidy)
    (name : String) :
    (chain.findSome? fun registry =>
        (userCommandsOf registry).reverse.find? fun held => held.name == name)
      = (chain.findSome? fun registry => registry.get? name).bind shown? := by
  induction chain with
  | nil => rfl
  | cons registry rest inductionHypothesis =>
    have tidyHere := tidy registry List.mem_cons_self
    have later := inductionHypothesis fun held member => tidy held (List.mem_cons_of_mem _ member)
    rw [List.findSome?_cons, List.findSome?_cons, find?_reverse_userCommandsOf tidyHere.distinct]
    cases found : registry.get? name with
    | none => exact later
    | some command =>
      have isUser := tidyHere.users command (List.mem_of_find?_eq_some found)
      obtain ⟨body, isBody⟩ := Option.isSome_iff_exists.mp isUser
      have isShown : shown? command = some { name := command.name, body } :=
        shown?_eq_some_iff.mpr ⟨isBody, rfl⟩
      simp only [Option.bind_some, isShown]

theorem find?_userCommands
    {scope : Scope}
    (tidy : scope.Tidy)
    (name : String) :
    scope.userCommands.find? (fun held => held.name == name) = (scope.named? name).bind shown? := by
  unfold userCommands
  rw [find?_foldl_shadow, List.find?_nil, Option.or_none, List.flatMap_reverse,
    List.reverse_reverse, List.find?_flatMap]
  exact findSome?_shown tidy name

/-- The name that a look-up is made for is the name of what it finds. -/
theorem name_of_named?
    {scope : Scope}
    {name : String}
    {command : Command}
    (found : scope.named? name = some command) :
    command.name = name := by
  obtain ⟨registry, -, foundHere⟩ := List.exists_of_findSome?_eq_some found
  simpa using List.find?_some foundHere

/-- What is found under a name runs under that name, whatever other commands there
are besides those of the frames. -/
theorem resolve_of_named?
    {scope : Scope}
    {name : String}
    {command : Command}
    (found : scope.named? name = some command)
    (fixed : Registry) :
    Registry.resolve (scope.chain ++ [fixed]) name = .ok command := by
  have inFrames : (scope.chain.flatMap (·.commands)).find? (fun held => held.name == name)
      = some command := by
    rw [List.find?_flatMap]
    exact found
  have first := (Registry.find?_eq_some_iff (Registry.isName_iff name)).mp inFrames
  exact Registry.resolve_of_isFirst_name (first.append [fixed])

/-- **The listing of user commands agrees with what runs.** After any sequence of
entering and leaving frames, defining user commands with or without force, deleting
and clearing: no name stands twice in the listing. A name stands there with a body
exactly if the look-up of that very name, from the innermost frame outwards, finds a
user command with this body. What the look-up finds is what the name means among the
commands of the frames and any others behind them. -/
theorem listing_agrees_with_lookup (operations : List Operation) :
    ((afterAll operations).userCommands.map (·.name)).Nodup
    ∧ (∀ name body, { name, body } ∈ (afterAll operations).userCommands ↔
      ∃ command, (afterAll operations).named? name = some command ∧ command.body? = some body)
    ∧ ∀ name command, (afterAll operations).named? name = some command →
      ∀ fixed, Registry.resolve ((afterAll operations).chain ++ [fixed]) name = .ok command := by
  have distinct := nodup_names_userCommands (afterAll operations)
  refine ⟨distinct, fun name body => ?_, fun name command found fixed =>
    resolve_of_named? found fixed⟩
  have shownUnder := find?_userCommands (tidy_afterAll operations) name
  constructor
  · intro listed
    have isShown := (find?_key_eq_some_iff distinct).mpr ⟨listed, rfl⟩
    rw [shownUnder, Option.bind_eq_some_iff] at isShown
    obtain ⟨command, found, entry⟩ := isShown
    exact ⟨command, found, (shown?_eq_some_iff.mp entry).1⟩
  · rintro ⟨command, found, isBody⟩
    have entry : shown? command = some { name, body } :=
      shown?_eq_some_iff.mpr ⟨isBody, name_of_named? found⟩
    rw [found, Option.bind_some, entry] at shownUnder
    exact List.mem_of_find?_eq_some shownUnder

end Scope

end ExLine

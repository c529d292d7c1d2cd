import ExLine.Proofs.Command.Registry
import Mathlib.Data.Set.Subsingleton
import Mathlib.Data.String.Basic

/-!
Contract: what a command word means, in full.

Owns:
- `Registry.Finds` and `Registry.IsFirst`, a command of some kind in a chain of
  registries and the first such command;
- `Registry.namesFrom`, the names in a chain that start with a word;
- the laws of `Registry.withPrefix`: one command of each such name, and for each
  name the first one;
- `Registry.words_resolve_in_three_tiers`.

Does not own: which registries a line sees (`ExLine.Proofs.Engine.Sessions`).

Going through the commands and leaving out those whose name is already there does
not change what is found under a name. So everything about the commands that are
left is said by two laws: their names differ, and each is the first of its name.
-/

set_option autoImplicit false

namespace ExLine

/-- Where all keys differ, looking for a key finds each item under its own key and
nothing else. -/
theorem find?_key_eq_some_iff
    {α : Type}
    {key : α → String}
    {items : List α}
    (distinct : (items.map key).Nodup)
    {name : String}
    {item : α} :
    items.find? (fun held => key held == name) = some item ↔ item ∈ items ∧ key item = name := by
  constructor
  · intro found
    exact ⟨List.mem_of_find?_eq_some found, by simpa using List.find?_some found⟩
  · rintro ⟨member, rfl⟩
    cases found : items.find? fun held => key held == key item with
    | none => exact absurd (beq_self_eq_true (key item)) (List.find?_eq_none.mp found item member)
    | some held =>
      have sameKey : key held = key item := by simpa using List.find?_some found
      rw [List.inj_on_of_nodup_map distinct (List.mem_of_find?_eq_some found) member sameKey]

namespace Registry

/-! ## The first command of a kind -/

/-- Some registry of the chain holds a command of a kind. -/
def Finds (chain : List Registry) (kind : Command → Prop) : Prop :=
  ∃ registry ∈ chain, ∃ command ∈ registry.commands, kind command

/-- The command is the first one of a kind in the earliest registry that holds
one. -/
structure IsFirst (chain : List Registry) (kind : Command → Prop) (command : Command) : Prop where
  ofKind : kind command
  placed : ∃ earlier registry later before after,
    chain = earlier ++ registry :: later
    ∧ registry.commands = before ++ command :: after
    ∧ (∀ passed ∈ earlier, ∀ held ∈ passed.commands, ¬ kind held)
    ∧ ∀ held ∈ before, ¬ kind held

section Kinds

variable {chain : List Registry} {kind : Command → Prop} {test : Command → Bool}

theorem find?_eq_none_iff (tests : ∀ command, test command = true ↔ kind command) :
    (chain.flatMap (·.commands)).find? test = none ↔ ¬ Finds chain kind := by
  rw [List.find?_eq_none]
  constructor
  · rintro noneFits ⟨registry, inChain, command, member, fits⟩
    apply noneFits command
    · exact List.mem_flatMap.mpr ⟨registry, inChain, member⟩
    · exact (tests command).mpr fits
  · intro notFound command member fits
    obtain ⟨registry, inChain, inRegistry⟩ := List.mem_flatMap.mp member
    exact notFound ⟨registry, inChain, command, inRegistry, (tests command).mp fits⟩

theorem find?_eq_some_iff
    (tests : ∀ command, test command = true ↔ kind command)
    {command : Command} :
    (chain.flatMap (·.commands)).find? test = some command ↔ IsFirst chain kind command := by
  rw [List.find?_flatMap, List.findSome?_eq_some_iff]
  constructor
  · rintro ⟨earlier, registry, later, split, found, noneEarlier⟩
    obtain ⟨fits, before, after, splitHere, noneBefore⟩ := List.find?_eq_some_iff_append.mp found
    refine ⟨(tests command).mp fits, earlier, registry, later, before, after, split, splitHere,
      ?_, ?_⟩
    · intro passed isEarlier held member ofKind
      exact List.find?_eq_none.mp (noneEarlier passed isEarlier) held member
        ((tests held).mpr ofKind)
    · intro held member ofKind
      have fails := noneBefore held member
      rw [(tests held).mpr ofKind] at fails
      cases fails
  · rintro ⟨ofKind, earlier, registry, later, before, after, split, splitHere, noneEarlier,
      noneBefore⟩
    refine ⟨earlier, registry, later, split, ?_, ?_⟩
    · refine List.find?_eq_some_iff_append.mpr
        ⟨(tests command).mpr ofKind, before, after, splitHere, ?_⟩
      intro held member
      rw [Bool.not_eq_true', Bool.eq_false_iff]
      exact fun fits => noneBefore held member ((tests held).mp fits)
    · intro passed isEarlier
      apply List.find?_eq_none.mpr
      intro held member fits
      exact noneEarlier passed isEarlier held member ((tests held).mp fits)

/-- Registries behind the others change nothing about the first command. -/
theorem IsFirst.append
    {command : Command}
    (first : IsFirst chain kind command)
    (behind : List Registry) :
    IsFirst (chain ++ behind) kind command := by
  obtain ⟨ofKind, earlier, registry, later, before, after, split, splitHere, noneEarlier,
    noneBefore⟩ := first
  refine ⟨ofKind, earlier, registry, later ++ behind, before, after, ?_, splitHere, noneEarlier,
    noneBefore⟩
  rw [split, List.append_assoc, List.cons_append]

theorem exists_isFirst
    (tests : ∀ command, test command = true ↔ kind command)
    (finds : Finds chain kind) :
    ∃ command, IsFirst chain kind command := by
  cases found : (chain.flatMap (·.commands)).find? test with
  | none => exact absurd finds ((find?_eq_none_iff tests).mp found)
  | some command => exact ⟨command, (find?_eq_some_iff tests).mp found⟩

end Kinds

/-! ## Full names and abbreviations -/

theorem isName_iff (word : String) (command : Command) :
    (command.name == word) = true ↔ command.name = word :=
  beq_iff_eq

theorem isAbbreviation_iff (word : String) (command : Command) :
    (command.abbreviation == some word) = true ↔ command.abbreviation = some word :=
  beq_iff_eq

/-- The word is neither a name nor an abbreviation in the chain. -/
structure Unnamed (chain : List Registry) (word : String) : Prop where
  noName : ¬ Finds chain (·.name = word)
  noAbbreviation : ¬ Finds chain (·.abbreviation = some word)

section Words

variable {chain : List Registry} {word : String} {command : Command}

theorem resolve_of_isFirst_name (first : IsFirst chain (·.name = word) command) :
    resolve chain word = .ok command := by
  unfold resolve
  simp only [(find?_eq_some_iff (isName_iff word)).mpr first]

theorem resolve_of_isFirst_abbreviation
    (noName : ¬ Finds chain (·.name = word))
    (first : IsFirst chain (·.abbreviation = some word) command) :
    resolve chain word = .ok command := by
  unfold resolve
  simp only [(find?_eq_none_iff (isName_iff word)).mpr noName,
    (find?_eq_some_iff (isAbbreviation_iff word)).mpr first]

/-- A word that is no name and no abbreviation is left to the names that start
with it. -/
theorem resolve_of_unnamed (unnamed : Unnamed chain word) :
    resolve chain word
      = match withPrefix (chain.flatMap (·.commands)) word with
        | [] => .error (.noSuchCommand word)
        | [command] => .ok command
        | many =>
          .error (.ambiguousCommand word
            ((many.map (·.name)).mergeSort fun left right => left ≤ right)) := by
  have noName := (find?_eq_none_iff (isName_iff word)).mpr unnamed.noName
  have noAbbreviation :=
    (find?_eq_none_iff (isAbbreviation_iff word)).mpr unnamed.noAbbreviation
  unfold resolve
  rcases found : withPrefix (chain.flatMap (·.commands)) word
    with _ | ⟨first, _ | ⟨second, others⟩⟩ <;>
    simp only [noName, noAbbreviation, found]

end Words

/-! ## Names that start with a word -/

/-- The names in a chain that start with a word. -/
def namesFrom (chain : List Registry) (word : String) : Set String :=
  { name | Finds chain (·.name = name) ∧ word.toList <+: name.toList }

theorem find?_addNew (found : List Command) (command : Command) (name : String) :
    (addNew found command).find? (fun held => held.name == name)
      = (found ++ [command]).find? fun held => held.name == name := by
  unfold addNew
  split
  · rename_i known
    obtain ⟨held, member, sameName⟩ := List.any_eq_true.mp known
    rw [List.find?_append]
    by_cases sought : command.name = name
    · -- The command is there under its name already, so the one found does not change.
      have isFound : (found.find? fun held => held.name == name).isSome := by
        rw [List.find?_isSome, ← sought]
        exact ⟨held, member, sameName⟩
      rw [Option.or_of_isSome isFound]
    · rw [List.find?_cons_of_neg (by simpa using sought), List.find?_nil, Option.or_none]
  · rfl

theorem find?_foldl_addNew (commands found : List Command) (name : String) :
    (commands.foldl addNew found).find? (fun held => held.name == name)
      = (found ++ commands).find? fun held => held.name == name := by
  induction commands generalizing found with
  | nil => rw [List.foldl_nil, List.append_nil]
  | cons command rest inductionHypothesis =>
    rw [List.foldl_cons, inductionHypothesis, List.find?_append, find?_addNew,
      ← List.find?_append, ← List.append_cons]

theorem nodup_names_addNew
    {found : List Command}
    (distinct : (found.map (·.name)).Nodup)
    (command : Command) :
    ((addNew found command).map (·.name)).Nodup := by
  unfold addNew
  split
  · exact distinct
  · rename_i isNew
    rw [List.map_append, List.map_singleton]
    apply distinct.append (List.nodup_singleton _)
    intro name inFound isName
    obtain ⟨held, member, rfl⟩ := List.mem_map.mp inFound
    apply isNew
    exact List.any_eq_true.mpr ⟨held, member, beq_iff_eq.mpr (List.mem_singleton.mp isName)⟩

theorem nodup_names_withPrefix (commands : List Command) (word : String) :
    ((withPrefix commands word).map (·.name)).Nodup := by
  unfold withPrefix
  split
  · exact List.nodup_nil
  · apply List.foldlRecOn (motive := fun found : List Command => (found.map (·.name)).Nodup)
    · exact List.nodup_nil
    · exact fun found distinct command _ => nodup_names_addNew distinct command

/-- Under a name that starts with the word, the commands that are left and all
commands show the same. -/
theorem find?_withPrefix
    {word name : String}
    (nonempty : word ≠ "")
    (starts : word.toList <+: name.toList)
    (commands : List Command) :
    (withPrefix commands word).find? (fun held => held.name == name)
      = commands.find? fun held => held.name == name := by
  unfold withPrefix
  rw [if_neg (by simpa using nonempty), find?_foldl_addNew, List.nil_append, List.find?_filter]
  congr 1
  funext held
  by_cases sameName : held.name = name
  · subst sameName
    have keeps : Text.startsWith word held.name = true := List.isPrefixOf_iff_prefix.mpr starts
    simp [keeps]
  · simp [sameName]

theorem starts_of_mem_withPrefix
    {word : String}
    {commands : List Command}
    {command : Command}
    (member : command ∈ withPrefix commands word) :
    word.toList <+: command.name.toList := by
  unfold withPrefix at member
  split at member
  · cases member
  · rcases mem_of_mem_foldl_addNew member with nothing | kept
    · cases nothing
    · exact List.isPrefixOf_iff_prefix.mp (List.mem_filter.mp kept).2

/-- Names that differ come in strictly increasing order when they are sorted. -/
theorem pairwise_lt_mergeSort {names : List String} (distinct : names.Nodup) :
    (names.mergeSort fun left right => left ≤ right).Pairwise (· < ·) := by
  have sorted := @List.pairwise_mergeSort String (fun left right => left ≤ right)
    (fun _ _ _ early late =>
      decide_eq_true ((of_decide_eq_true early).trans (of_decide_eq_true late)))
    (fun left right => by simpa using le_total left right)
    names
  have differ := (List.mergeSort_perm names fun left right => left ≤ right).nodup_iff.mpr distinct
  exact sorted.imp₂ (fun _ _ atMost => lt_of_le_of_ne (of_decide_eq_true atMost)) differ

section Starts

variable {chain : List Registry} {word : String}

/-- Each command that is left is the first one of its name. -/
theorem isFirst_of_mem_withPrefix
    {command : Command}
    (nonempty : word ≠ "")
    (member : command ∈ withPrefix (chain.flatMap (·.commands)) word) :
    IsFirst chain (·.name = command.name) command := by
  have found := (find?_key_eq_some_iff (nodup_names_withPrefix _ word)).mpr ⟨member, rfl⟩
  rw [find?_withPrefix nonempty (starts_of_mem_withPrefix member)] at found
  exact (find?_eq_some_iff (isName_iff command.name)).mp found

/-- The commands that are left bear exactly the names that start with the word. -/
theorem mem_names_withPrefix_iff (nonempty : word ≠ "") {name : String} :
    name ∈ (withPrefix (chain.flatMap (·.commands)) word).map (·.name)
      ↔ name ∈ namesFrom chain word := by
  constructor
  · intro inNames
    obtain ⟨command, member, rfl⟩ := List.mem_map.mp inNames
    obtain ⟨registry, inChain, inRegistry⟩ := List.mem_flatMap.mp (mem_of_mem_withPrefix member)
    exact ⟨⟨registry, inChain, command, inRegistry, rfl⟩, starts_of_mem_withPrefix member⟩
  · rintro ⟨finds, starts⟩
    obtain ⟨command, first⟩ := exists_isFirst (isName_iff name) finds
    have found := (find?_eq_some_iff (isName_iff name)).mpr first
    rw [← find?_withPrefix nonempty starts] at found
    exact List.mem_map.mpr ⟨command, List.mem_of_find?_eq_some found, first.ofKind⟩

theorem resolve_of_namesFrom_empty
    (unnamed : Unnamed chain word)
    (nonempty : word ≠ "")
    (noneStarts : namesFrom chain word = ∅) :
    resolve chain word = .error (.noSuchCommand word) := by
  cases found : withPrefix (chain.flatMap (·.commands)) word with
  | nil => rw [resolve_of_unnamed unnamed, found]
  | cons command rest =>
    have named : command.name ∈ namesFrom chain word := by
      rw [← mem_names_withPrefix_iff nonempty, found]
      exact List.mem_cons_self
    rw [noneStarts] at named
    exact absurd named (Set.notMem_empty _)

theorem resolve_of_namesFrom_singleton
    {name : String}
    (unnamed : Unnamed chain word)
    (nonempty : word ≠ "")
    (only : namesFrom chain word = {name}) :
    ∃ command, IsFirst chain (·.name = name) command ∧ resolve chain word = .ok command := by
  have names : ∀ other, other ∈ (withPrefix (chain.flatMap (·.commands)) word).map (·.name)
      ↔ other = name := by
    intro other
    rw [mem_names_withPrefix_iff nonempty, only, Set.mem_singleton_iff]
  have distinct := nodup_names_withPrefix (chain.flatMap (·.commands)) word
  cases found : withPrefix (chain.flatMap (·.commands)) word with
  | nil =>
    rw [found] at names
    exact absurd ((names name).mpr rfl) List.not_mem_nil
  | cons command rest =>
    have member : command ∈ withPrefix (chain.flatMap (·.commands)) word := by
      rw [found]
      exact List.mem_cons_self
    have sameName : command.name = name := (names _).mp (List.mem_map_of_mem member)
    cases rest with
    | nil =>
      refine ⟨command, ?_, by rw [resolve_of_unnamed unnamed, found]⟩
      rw [← sameName]
      exact isFirst_of_mem_withPrefix nonempty member
    | cons second rest =>
      -- Two commands are left only if they have different names.
      rw [found] at names distinct
      have alsoSame : second.name = name :=
        (names _).mp (List.mem_cons_of_mem _ List.mem_cons_self)
      apply absurd distinct
      rw [List.map_cons, List.map_cons, sameName, alsoSame]
      exact fun apart => (List.nodup_cons.mp apart).1 List.mem_cons_self

theorem resolve_of_namesFrom_nontrivial
    (unnamed : Unnamed chain word)
    (nonempty : word ≠ "")
    (several : (namesFrom chain word).Nontrivial) :
    ∃ candidates, resolve chain word = .error (.ambiguousCommand word candidates)
      ∧ (∀ name, name ∈ candidates ↔ name ∈ namesFrom chain word)
      ∧ candidates.Pairwise (· < ·) := by
  obtain ⟨one, isOne, other, isOther, differ⟩ := several
  rw [← mem_names_withPrefix_iff nonempty] at isOne isOther
  cases found : withPrefix (chain.flatMap (·.commands)) word with
  | nil =>
    rw [found] at isOne
    cases isOne
  | cons command rest =>
    cases rest with
    | nil =>
      rw [found] at isOne isOther
      exact absurd ((List.mem_singleton.mp isOne).trans (List.mem_singleton.mp isOther).symm) differ
    | cons second rest =>
      have distinct := nodup_names_withPrefix (chain.flatMap (·.commands)) word
      have named := @mem_names_withPrefix_iff chain word nonempty
      rw [found] at distinct named
      refine ⟨_, by rw [resolve_of_unnamed unnamed, found], fun name => ?_,
        pairwise_lt_mergeSort distinct⟩
      rw [(List.mergeSort_perm _ _).mem_iff]
      exact named

end Starts

/-- The empty word stands for no command, unless one bears it. -/
theorem resolve_empty
    {chain : List Registry}
    {word : String}
    (unnamed : Unnamed chain word)
    (isEmpty : word = "") :
    resolve chain word = .error (.noSuchCommand word) := by
  subst isEmpty
  exact resolve_of_unnamed unnamed

/-- A word is reported as ambiguous only if two different names start with it. -/
theorem resolve_ne_ambiguous
    {chain : List Registry}
    {word : String}
    (atMostOne : (namesFrom chain word).Subsingleton)
    (name : String)
    (candidates : List String) :
    resolve chain word ≠ .error (.ambiguousCommand name candidates) := by
  by_cases named : Finds chain (·.name = word)
  · obtain ⟨command, first⟩ := exists_isFirst (isName_iff word) named
    rw [resolve_of_isFirst_name first]
    exact nofun
  by_cases abbreviated : Finds chain (·.abbreviation = some word)
  · obtain ⟨command, first⟩ := exists_isFirst (isAbbreviation_iff word) abbreviated
    rw [resolve_of_isFirst_abbreviation named first]
    exact nofun
  have unnamed : Unnamed chain word := ⟨named, abbreviated⟩
  by_cases isEmpty : word = ""
  · rw [resolve_empty unnamed isEmpty]
    exact nofun
  rcases atMostOne.eq_empty_or_singleton with noneStarts | ⟨only, isOnly⟩
  · rw [resolve_of_namesFrom_empty unnamed isEmpty noneStarts]
    exact nofun
  · obtain ⟨command, -, resolved⟩ := resolve_of_namesFrom_singleton unnamed isEmpty isOnly
    rw [resolved]
    exact nofun

/-- A registry at the end of a chain does not come between a word and the command
of that name. -/
theorem resolve_append_of_named
    {chain : List Registry}
    {word : String}
    (named : Finds chain (·.name = word))
    (last : Registry) :
    resolve (chain ++ [last]) word = resolve chain word := by
  obtain ⟨command, first⟩ := exists_isFirst (isName_iff word) named
  rw [resolve_of_isFirst_name first, resolve_of_isFirst_name (first.append [last])]

/-- **A word means a command by name, by abbreviation, or as the start of one name
only.** In any chain of registries: if some command has the word as its name, the
word means the first such command in the earliest registry. If none has, but some
command has it as its abbreviation, the word means the first such command. If none
has either, the names that start with the word decide, provided the word is not
empty. With no such name the word is unknown. With one it means the first command of
that name in the earliest registry that has one. With more it is reported together
with exactly these names, in increasing order, and so each of them once. A word is
never ambiguous for the sake of one name alone, however many registries define it,
and a registry added at the end of the chain does not change what a full name
means. -/
theorem words_resolve_in_three_tiers (chain : List Registry) (word : String) :
    (Finds chain (·.name = word) →
      ∃ command, IsFirst chain (·.name = word) command ∧ resolve chain word = .ok command)
    ∧ (¬ Finds chain (·.name = word) → Finds chain (·.abbreviation = some word) →
      ∃ command, IsFirst chain (·.abbreviation = some word) command
        ∧ resolve chain word = .ok command)
    ∧ (Unnamed chain word → word ≠ "" →
      (namesFrom chain word = ∅ → resolve chain word = .error (.noSuchCommand word))
      ∧ (∀ name, namesFrom chain word = {name} →
        ∃ command, IsFirst chain (·.name = name) command ∧ resolve chain word = .ok command)
      ∧ ((namesFrom chain word).Nontrivial →
        ∃ candidates, resolve chain word = .error (.ambiguousCommand word candidates)
          ∧ (∀ name, name ∈ candidates ↔ name ∈ namesFrom chain word)
          ∧ candidates.Pairwise (· < ·)))
    ∧ (Unnamed chain word → word = "" → resolve chain word = .error (.noSuchCommand word))
    ∧ ((namesFrom chain word).Subsingleton →
      ∀ name candidates, resolve chain word ≠ .error (.ambiguousCommand name candidates))
    ∧ (Finds chain (·.name = word) →
      ∀ last, resolve (chain ++ [last]) word = resolve chain word) := by
  refine ⟨?_, ?_, ?_, resolve_empty, resolve_ne_ambiguous, resolve_append_of_named⟩
  · intro named
    obtain ⟨command, first⟩ := exists_isFirst (isName_iff word) named
    exact ⟨command, first, resolve_of_isFirst_name first⟩
  · intro noName abbreviated
    obtain ⟨command, first⟩ := exists_isFirst (isAbbreviation_iff word) abbreviated
    exact ⟨command, first, resolve_of_isFirst_abbreviation noName first⟩
  · intro unnamed nonempty
    exact ⟨resolve_of_namesFrom_empty unnamed nonempty,
      fun name only => resolve_of_namesFrom_singleton unnamed nonempty only,
      resolve_of_namesFrom_nontrivial unnamed nonempty⟩

end Registry

end ExLine

import ExLine.Engine.Navigation
import Mathlib.Logic.Function.Iterate

/-!
Contract: where changes of directory lead, one after the other.

Owns:
- `Directory.written` and `Directory.IsNormal`, the paths that hold names only;
- `Directory.followed`, the names that are left of a path when `.` and `..` have been
  followed from the root on;
- `Directory.toList_resolve`: what is resolved from an absolute directory is written so,
  and `Directory.resolve_resolve`, by which two steps are one;
- `Engine.directory_changes_compose`.

Does not own: how an argument is taken from a line (`ExLine.Line.Arguments`).

A directory is kept as text and taken apart again at the next step. That this loses
nothing is `components_written`: names that are written are read back.
-/

set_option autoImplicit false

namespace ExLine

namespace Directory

/-! ## Names -/

/-- The name of a directory below another. -/
structure IsName (name : List Char) : Prop where
  nonempty : name ≠ []
  notDot : name ≠ ['.']
  notDots : name ≠ ['.', '.']
  noSlash : '/' ∉ name

instance (name : List Char) : Decidable (IsName name) :=
  decidable_of_iff (name ≠ [] ∧ name ≠ ['.'] ∧ name ≠ ['.', '.'] ∧ '/' ∉ name)
    ⟨fun ⟨nonempty, notDot, notDots, noSlash⟩ => ⟨nonempty, notDot, notDots, noSlash⟩,
      fun ⟨nonempty, notDot, notDots, noSlash⟩ => ⟨nonempty, notDot, notDots, noSlash⟩⟩

/-- The path that leads from the root through names: a slash before each of them, or
the slash of the root. -/
def written (names : List (List Char)) : List Char :=
  if names.isEmpty then ['/'] else names.flatMap ('/' :: ·)

/-- A path that is written with names only. -/
def IsNormal (path : String) : Prop :=
  ∃ names, (∀ name ∈ names, IsName name) ∧ path.toList = written names

theorem components_append (first second : List Char) :
    components (first ++ '/' :: second) = components first ++ components second := by
  unfold components
  rw [Chars.splitOn_append, List.filter_append]

theorem components_cons_slash (path : List Char) : components ('/' :: path) = components path :=
  components_append [] path

theorem IsName.components {name : List Char} (isName : IsName name) :
    Directory.components name = [name] := by
  unfold Directory.components
  rw [Chars.splitOn_of_notMem isName.noSlash]
  simp [isName.nonempty, isName.notDot]

theorem components_flatMap
    {names : List (List Char)}
    (areNames : ∀ name ∈ names, IsName name) :
    components (names.flatMap ('/' :: ·)) = names := by
  induction names with
  | nil => rfl
  | cons name rest inductionHypothesis =>
    have first := (areNames name List.mem_cons_self).components
    have later := inductionHypothesis fun other member =>
      areNames other (List.mem_cons_of_mem _ member)
    rw [List.flatMap_cons, List.cons_append, components_cons_slash]
    cases rest with
    | nil => rw [List.flatMap_nil, List.append_nil, first]
    | cons next others =>
      rw [List.flatMap_cons, List.cons_append, components_cons_slash] at later
      rw [List.flatMap_cons, List.cons_append, components_append, first, later,
        List.singleton_append]

/-- Names that are written are read back. -/
theorem components_written
    {names : List (List Char)}
    (areNames : ∀ name ∈ names, IsName name) :
    components (written names) = names := by
  unfold written
  cases names with
  | nil => rfl
  | cons name rest => exact components_flatMap areNames

theorem isAbsolute_written (names : List (List Char)) : isAbsolute (written names) = true := by
  cases names with
  | nil => rfl
  | cons name rest => rfl

/-- The text of a trail, which holds the last directory first. -/
theorem cons_spell (trail : List (List Char)) : '/' :: spell trail = written trail.reverse := by
  unfold spell
  generalize trail.reverse = names
  unfold written
  induction names with
  | nil => rfl
  | cons name rest inductionHypothesis =>
    cases rest with
    | nil => simp
    | cons next others =>
      simp only [List.isEmpty_cons, Bool.false_eq_true, if_false] at inductionHypothesis ⊢
      rw [List.intercalate_cons_cons, List.append_assoc, List.singleton_append, inductionHypothesis]
      rfl

/-! ## Steps from the root -/

/-- Goes one name further from a list of names, root first. -/
def step (names : List (List Char)) (name : List Char) : List (List Char) :=
  if name = ['.', '.'] then names.dropLast else names ++ [name]

/-- The names that are left when the components of a directory and of a path are
followed from the root on. A path that starts at the root is followed alone. -/
def followed (cwd path : String) : List (List Char) :=
  let start := if isAbsolute path.toList then [] else components cwd.toList
  (start ++ components path.toList).foldl step []

theorem reverse_foldl_enter (names trail : List (List Char)) :
    (names.foldl enter trail).reverse = names.foldl step trail.reverse := by
  induction names generalizing trail with
  | nil => rfl
  | cons name rest inductionHypothesis =>
    have oneStep : (enter trail name).reverse = step trail.reverse name := by
      unfold enter step
      split
      · rw [List.dropLast_reverse]
      · rw [List.reverse_cons]
    rw [List.foldl_cons, inductionHypothesis, oneStep, List.foldl_cons]

/-- Names are followed to where they are written. -/
theorem foldl_step_names
    {names : List (List Char)}
    (areNames : ∀ name ∈ names, IsName name)
    (start : List (List Char)) :
    names.foldl step start = start ++ names := by
  induction names generalizing start with
  | nil => exact (List.append_nil start).symm
  | cons name rest inductionHypothesis =>
    have notDots := (areNames name List.mem_cons_self).notDots
    rw [List.foldl_cons, inductionHypothesis fun other member =>
      areNames other (List.mem_cons_of_mem _ member), step, if_neg notDots, List.append_assoc,
      List.singleton_append]

/-- Following the components of paths leaves names only. -/
theorem isName_foldl_step
    {parts start : List (List Char)}
    (areParts : ∀ part ∈ parts, part ≠ [] ∧ part ≠ ['.'] ∧ '/' ∉ part)
    (areNames : ∀ name ∈ start, IsName name) :
    ∀ name ∈ parts.foldl step start, IsName name := by
  apply List.foldlRecOn (motive := fun names : List (List Char) => ∀ name ∈ names, IsName name)
  · exact areNames
  · intro names areNames part member
    unfold step
    split
    · exact fun name isLeft => areNames name ((List.dropLast_sublist names).subset isLeft)
    · rename_i notDots
      obtain ⟨nonempty, notDot, noSlash⟩ := areParts part member
      intro name isLeft
      rcases List.mem_append.mp isLeft with before | isLast
      · exact areNames name before
      · rw [List.mem_singleton.mp isLast]
        exact ⟨nonempty, notDot, notDots, noSlash⟩

theorem of_mem_components
    {path part : List Char}
    (member : part ∈ components path) :
    part ≠ [] ∧ part ≠ ['.'] ∧ '/' ∉ part := by
  obtain ⟨isPart, kept⟩ := List.mem_filter.mp member
  refine ⟨?_, ?_, Chars.notMem_of_mem_splitOn isPart⟩ <;> rintro rfl <;> simp at kept

theorem isName_followed (cwd path : String) : ∀ name ∈ followed cwd path, IsName name := by
  apply isName_foldl_step
  · intro part member
    rcases List.mem_append.mp member with inStart | inPath
    · split at inStart
      · cases inStart
      · exact of_mem_components inStart
    · exact of_mem_components inPath
  · exact fun name member => nomatch member

/-- A directory is resolved from an absolute one to where its components lead. -/
theorem toList_resolve
    {cwd : String}
    (absolute : isAbsolute cwd.toList = true)
    (path : String) :
    (resolve cwd path).toList = written (followed cwd path) := by
  have isFollowed : followed cwd path = ((components
      (if isAbsolute path.toList then [] else cwd.toList) ++ components path.toList).foldl
        enter []).reverse := by
    rw [reverse_foldl_enter, followed]
    split <;> rfl
  have fromRoot : (isAbsolute (if isAbsolute path.toList then [] else cwd.toList)
      || isAbsolute path.toList) = true := by
    split
    · rename_i isRooted
      rw [isRooted, Bool.or_true]
    · rw [absolute, Bool.true_or]
  unfold resolve
  simp only
  rw [if_pos fromRoot, String.toList_ofList, cons_spell, isFollowed]

theorem isAbsolute_resolve
    {cwd : String}
    (absolute : isAbsolute cwd.toList = true)
    (path : String) :
    isAbsolute (resolve cwd path).toList = true := by
  rw [toList_resolve absolute, isAbsolute_written]

theorem isNormal_resolve
    {cwd : String}
    (absolute : isAbsolute cwd.toList = true)
    (path : String) :
    IsNormal (resolve cwd path) :=
  ⟨followed cwd path, isName_followed cwd path, toList_resolve absolute path⟩

theorem components_resolve
    {cwd : String}
    (absolute : isAbsolute cwd.toList = true)
    (path : String) :
    components (resolve cwd path).toList = followed cwd path := by
  rw [toList_resolve absolute, components_written (isName_followed cwd path)]

/-- A path below another leads on from where the other leads. -/
theorem followed_append
    {cwd first second : String}
    (nonempty : first ≠ "") :
    followed cwd (first ++ "/" ++ second)
      = (components second.toList).foldl step (followed cwd first) := by
  have joined : (first ++ "/" ++ second).toList = first.toList ++ '/' :: second.toList := by
    simp
  have sameStart : isAbsolute (first ++ "/" ++ second).toList = isAbsolute first.toList := by
    rw [joined]
    cases chars : first.toList with
    | nil => exact absurd (String.toList_eq_nil_iff.mp chars) nonempty
    | cons char rest => rfl
  unfold followed
  rw [sameStart, joined, components_append]
  simp only
  rw [← List.append_assoc, List.foldl_append]

/-- Two changes of directory are one. -/
theorem resolve_resolve
    {cwd first second : String}
    (absolute : isAbsolute cwd.toList = true)
    (nonempty : first ≠ "")
    (relative : isAbsolute second.toList = false) :
    resolve (resolve cwd first) second = resolve cwd (first ++ "/" ++ second) := by
  apply String.toList_injective
  rw [toList_resolve (isAbsolute_resolve absolute first), toList_resolve absolute,
    followed_append nonempty]
  congr 1
  unfold followed
  simp only [relative, Bool.false_eq_true, if_false]
  rw [List.foldl_append, components_resolve absolute,
    foldl_step_names (isName_followed cwd first), List.nil_append]
  rfl

theorem IsNormal.absolute {path : String} (normal : IsNormal path) :
    isAbsolute path.toList = true := by
  obtain ⟨names, -, isWritten⟩ := normal
  rw [isWritten, isAbsolute_written]

/-- A directory that is written with names only names itself, seen from anywhere. -/
theorem IsNormal.resolve_eq
    {path : String}
    (normal : IsNormal path)
    {cwd : String}
    (absolute : isAbsolute cwd.toList = true) :
    resolve cwd path = path := by
  obtain ⟨names, areNames, isWritten⟩ := normal
  apply String.toList_injective
  rw [toList_resolve absolute, followed, isWritten, isAbsolute_written]
  simp only [if_true]
  rw [List.nil_append, components_written areNames, foldl_step_names areNames, List.nil_append]

end Directory

/-! ## Changes of directory -/

namespace Engine

open Directory

section Calls

variable {engine : Engine} {invocation : Invocation} {path : String}

theorem changeDirectory_path
    (argument : invocation.args = [path])
    (notBack : path ≠ "-") :
    engine.changeDirectory invocation = (engine.enterDirectory path).done := by
  unfold changeDirectory
  simp only [argument]
  rw [if_neg notBack]

theorem changeDirectory_back
    {previous : String}
    (argument : invocation.args = ["-"])
    (remembered : engine.view.previous = some previous) :
    engine.changeDirectory invocation = (engine.enterDirectory previous).done := by
  unfold changeDirectory
  simp only [argument, if_true, remembered]

end Calls

/-- The engine showing a directory, and remembering another. -/
def showing (engine : Engine) (cwd previous : String) : Engine :=
  { engine with view := { engine.view with cwd, previous := some previous } }

/-- To go back is to exchange the directory with the one before, if that is written
with names only. -/
theorem changeDirectory_showing
    {engine : Engine}
    {invocation : Invocation}
    {cwd previous : String}
    (argument : invocation.args = ["-"])
    (absolute : isAbsolute cwd.toList = true)
    (normal : IsNormal previous) :
    ((engine.showing cwd previous).changeDirectory invocation).2 = engine.showing previous cwd := by
  rw [changeDirectory_back argument rfl]
  show (engine.showing cwd previous).enterDirectory previous = _
  unfold enterDirectory showing
  simp only
  rw [normal.resolve_eq absolute]

theorem iterate_back
    {invocation : Invocation}
    {here there : String}
    (argument : invocation.args = ["-"])
    (normalHere : IsNormal here)
    (normalThere : IsNormal there)
    (engine : Engine)
    (count : Nat) :
    (fun engine : Engine => (engine.changeDirectory invocation).2)^[count]
        (engine.showing there here)
      = if count % 2 = 0 then engine.showing there here else engine.showing here there := by
  have back {one other : String} (normalOne : IsNormal one) (normalOther : IsNormal other) :
      ((engine.showing one other).changeDirectory invocation).2 = engine.showing other one :=
    changeDirectory_showing argument normalOne.absolute normalOther
  induction count with
  | zero => rfl
  | succ count inductionHypothesis =>
    rw [Function.iterate_succ_apply', inductionHypothesis]
    by_cases even : count % 2 = 0
    · have odd : ¬ (count + 1) % 2 = 0 := by omega
      rw [if_pos even, if_neg odd, back normalThere normalHere]
    · have odd : (count + 1) % 2 = 0 := by omega
      rw [if_neg even, if_pos odd, back normalHere normalThere]

/-- **Changes of directory lead to normal paths, compose and can be undone.** From any
absolute directory, a path leads where its components lead from the root on after those
of the directory, `..` going back one name and staying at the root; a path that starts at
the root leads there alone. The directory shown then is `/`, or has a slash before each
of its names. To follow a path and then a relative one is to follow both with a slash
between them. From a directory written in this way, going back and forth shows the two
directories in turn, and changes nothing else. -/
theorem directory_changes_compose
    {engine : Engine}
    {cd : String → Invocation}
    (argument : ∀ path, (cd path).args = [path])
    (absolute : isAbsolute engine.view.cwd.toList) :
    (∀ path, path ≠ "-" → ∃ cwd : String,
      engine.changeDirectory (cd path) = (.ok Outcome.done, engine.showing cwd engine.view.cwd)
      ∧ isAbsolute cwd.toList
      ∧ cwd.toList = written (followed engine.view.cwd path)
      ∧ ∀ name ∈ followed engine.view.cwd path, IsName name)
    ∧ (∀ first second, first ≠ "" → first ≠ "-" → second ≠ "-" →
      isAbsolute second.toList = false →
      ((engine.changeDirectory (cd first)).2.changeDirectory (cd second)).2.view.cwd
        = (engine.changeDirectory (cd (first ++ "/" ++ second))).2.view.cwd)
    ∧ (IsNormal engine.view.cwd → ∀ path, path ≠ "-" → ∀ count,
      let there := (engine.changeDirectory (cd path)).2
      (fun engine : Engine => (engine.changeDirectory (cd "-")).2)^[count] there
        = if count % 2 = 0 then engine.showing there.view.cwd engine.view.cwd
          else engine.showing engine.view.cwd there.view.cwd) := by
  refine ⟨fun path notBack => ?_, fun first second nonempty notBack notBackThen relative => ?_,
    fun normal path notBack count => ?_⟩
  · refine ⟨resolve engine.view.cwd path, changeDirectory_path (argument path) notBack,
      isAbsolute_resolve absolute path, toList_resolve absolute path,
      isName_followed engine.view.cwd path⟩
  · have notBackJoined : first ++ "/" ++ second ≠ "-" := by
      intro same
      have slash : '/' ∈ (first ++ "/" ++ second).toList := by simp
      rw [same] at slash
      exact absurd slash (by decide)
    rw [changeDirectory_path (argument first) notBack,
      changeDirectory_path (argument second) notBackThen,
      changeDirectory_path (argument (first ++ "/" ++ second)) notBackJoined]
    exact resolve_resolve absolute nonempty relative
  · intro there
    have thereIs : there = engine.showing (resolve engine.view.cwd path) engine.view.cwd := by
      show (engine.changeDirectory (cd path)).2 = _
      rw [changeDirectory_path (argument path) notBack]
      rfl
    rw [thereIs]
    exact iterate_back (argument "-") normal (isNormal_resolve absolute path) engine count

/-- A call with one argument. -/
def callWith (path : String) : Invocation where
  name := "cd"
  args := [path]
  text := path
  background := false
  bang := false
  range := none

/-- A new engine that shows `/home/u`. -/
def atHome : Engine :=
  showing {} "/home/u" "/"

/-- From `/home/u`, a path with repeated slashes and more parents than there are leads to
`/v`, a relative one leads on, and going back three times leads home. -/
theorem directory_changes_compose_from_home :
    ((atHome.changeDirectory (callWith "..//../../v/.")).2.changeDirectory
        (callWith "x")).2.view.cwd = "/v/x"
    ∧ (fun engine : Engine => (engine.changeDirectory (callWith "-")).2)^[3]
        (atHome.changeDirectory (callWith "..//../../v/.")).2
      = atHome.showing "/home/u" "/v" := by
  have leads : resolve "/home/u" "..//../../v/." = "/v" := by decide
  have leadsOn : resolve "/home/u" ("..//../../v/." ++ "/" ++ "x") = "/v/x" := by decide
  have normal : IsNormal "/home/u" := ⟨[['h', 'o', 'm', 'e'], ['u']], by decide, by decide⟩
  obtain ⟨-, composes, returns⟩ :=
    @directory_changes_compose atHome callWith (fun path => rfl) normal.absolute
  constructor
  · rw [composes "..//../../v/." "x" (by decide) (by decide) (by decide) (by decide),
      changeDirectory_path rfl (by decide)]
    exact leadsOn
  · rw [returns normal "..//../../v/." (by decide) 3, changeDirectory_path rfl (by decide)]
    exact congrArg (atHome.showing "/home/u") leads

end Engine

end ExLine

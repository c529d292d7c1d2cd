import ExLine.Proofs.Engine.Effects
import Mathlib.Data.List.Induction
import Mathlib.Data.List.Infix

/-!
Contract: which branch of a conditional block is selected.

Owns:
- `Branches.Word` and `Branches.afterAll`, the open blocks as the result of the
  words that were met, misplaced ones included;
- `Branches.Block` and `Branches.openBlocks`, what those words say of each block
  that is still open: where it was opened and the conditions of its branches;
- `Branches.levels_afterAll`, by which the flags of every level are a function of
  these conditions;
- `Engine.word?`, the word that an action stands for;
- `Branches.one_branch_of_each_block`.

Does not own: how a condition is evaluated (`ExLine.Engine.Conditional`).

The open blocks keep four flags for each level and nothing of what was met before.
The history keeps the conditions and no flags. What is asked of the flags is shown
of the history, where it is a matter of reading off.
-/

set_option autoImplicit false

namespace ExLine

namespace Branches

/-! ## Words -/

/-- A word that opens a block, moves within it or closes it. -/
inductive Word where
  | openBlock (condition : Bool)
  | nextBranch (condition : Bool)
  | fallback
  | closeBlock
  deriving DecidableEq, Repr

/-- What a word makes of the open blocks, where it may stand. -/
def move (branches : Branches) : Word → Except ControlError Branches
  | .openBlock condition => .ok (branches.openBlock condition)
  | .nextBranch condition => branches.nextBranch condition
  | .fallback => branches.fallback
  | .closeBlock => branches.closeBlock

/-- The open blocks after a word, whether it may stand there or not. -/
def after (branches : Branches) (word : Word) : Branches :=
  match branches.move word with
  | .ok moved => moved
  | .error _ => branches

/-- The open blocks after words, from no block on. -/
def afterAll (words : List Word) : Branches :=
  words.foldl after empty

theorem afterAll_snoc (words : List Word) (word : Word) :
    afterAll (words ++ [word]) = (afterAll words).after word :=
  List.foldl_append

/-! ## The history of the open blocks -/

/-- What the words say of a block that is still open. -/
structure Block where
  /-- The number of words before the one that opened it. -/
  opened : Nat
  /-- The conditions of its earlier branches, in order. -/
  earlier : List Bool
  /-- The condition of the branch being read, true for the fallback branch. -/
  current : Bool
  hasFallback : Bool
  deriving DecidableEq, Repr

namespace Block

/-- The branch being read is the first one whose condition is true. -/
def isChosen (block : Block) : Bool :=
  block.current && block.earlier.all (!·)

/-- The number of the branch being read. -/
def branch (block : Block) : Nat :=
  block.earlier.length

/-- The conditions of its branches so far. -/
def conditions (block : Block) : List Bool :=
  block.earlier ++ [block.current]

/-- The block at its next branch. -/
def next (block : Block) (condition isFallback : Bool) : Block where
  opened := block.opened
  earlier := block.conditions
  current := condition
  hasFallback := isFallback

end Block

/-- The open blocks after a word, `place` words having been met before. A word that
may not stand there says nothing of any block. -/
def follow (place : Nat) (blocks : List Block) (word : Word) : List Block :=
  match word, blocks with
  | .openBlock condition, _ => ⟨place, [], condition, false⟩ :: blocks
  | _, [] => []
  | .nextBranch condition, block :: outer =>
    if block.hasFallback then blocks else block.next condition false :: outer
  | .fallback, block :: outer =>
    if block.hasFallback then blocks else block.next true true :: outer
  | .closeBlock, _ :: outer => outer

/-- The blocks that are open after words, innermost first. -/
def openBlocks (words : List Word) : List Block :=
  words.zipIdx.foldl (fun blocks entry => follow entry.2 blocks entry.1) []

theorem openBlocks_snoc (words : List Word) (word : Word) :
    openBlocks (words ++ [word]) = follow words.length (openBlocks words) word := by
  unfold openBlocks
  rw [List.zipIdx_append, List.foldl_append]
  simp

/-! ## Levels as a function of the history -/

/-- The level of a block, given whether the code around it runs. -/
def Block.level (block : Block) (enclosingActive : Bool) : Level where
  enclosingActive := enclosingActive
  taken := block.hasFallback || enclosingActive && (block.current || block.earlier.any id)
  active := enclosingActive && block.isChosen
  seenElse := block.hasFallback

@[simp]
theorem Block.seenElse_level (block : Block) (enclosingActive : Bool) :
    (block.level enclosingActive).seenElse = block.hasFallback :=
  rfl

/-- Commands run where every open block is in its chosen branch. -/
def runsIn (blocks : List Block) : Bool :=
  blocks.all Block.isChosen

def levelsOf : List Block → List Level
  | [] => []
  | block :: outer => block.level (runsIn outer) :: levelsOf outer

theorem isActive_levelsOf (blocks : List Block) :
    isActive ⟨levelsOf blocks⟩ = runsIn blocks := by
  cases blocks with
  | nil => rfl
  | cons block outer => exact Bool.and_comm _ _

theorem all_active_levelsOf (blocks : List Block) :
    (levelsOf blocks).all (·.active) = runsIn blocks := by
  induction blocks with
  | nil => rfl
  | cons block outer inductionHypothesis =>
    have shown : runsIn (block :: outer) = (block.isChosen && runsIn outer) := rfl
    rw [levelsOf, List.all_cons, inductionHypothesis, shown]
    unfold Block.level
    cases runsIn outer <;> simp

/-- A block without a fallback branch moves on as its level does: what was taken
stays so, and only the first condition that is true is chosen. -/
theorem Block.level_next
    {block : Block}
    (goesOn : block.hasFallback = false)
    (enclosingActive condition isFallback : Bool) :
    (block.next condition isFallback).level enclosingActive =
      let active := enclosingActive && !(block.level enclosingActive).taken && condition
      { enclosingActive
        taken := isFallback || (block.level enclosingActive).taken || active
        active
        seenElse := isFallback } := by
  have noneBefore : block.earlier.all (!·) = !block.earlier.any id := by
    rw [List.not_any_eq_all_not]
    rfl
  unfold Block.level Block.next Block.isChosen Block.conditions
  simp only [goesOn, List.all_append, List.any_append, List.all_cons, List.all_nil, List.any_cons,
    List.any_nil, noneBefore, id]
  cases enclosingActive <;> cases condition <;> cases isFallback <;> cases block.current <;>
    cases block.earlier.any id <;> rfl

/-- One word does to the levels what it does to the history. -/
theorem after_levelsOf (place : Nat) (blocks : List Block) (word : Word) :
    after ⟨levelsOf blocks⟩ word = ⟨levelsOf (follow place blocks word)⟩ := by
  cases word with
  | openBlock condition =>
    show openBlock ⟨levelsOf blocks⟩ condition = _
    unfold openBlock
    rw [isActive_levelsOf]
    simp [follow, levelsOf, Block.level, Block.isChosen]
  | nextBranch condition =>
    cases blocks with
    | nil => rfl
    | cons block outer =>
      cases stays : block.hasFallback with
      | true =>
        simp only [after, move, nextBranch, follow, levelsOf, Block.seenElse_level, stays, if_true]
      | false =>
        simp only [after, move, nextBranch, follow, levelsOf, Block.seenElse_level, stays,
          Bool.false_eq_true, if_false, Block.level_next stays]
        rfl
  | fallback =>
    cases blocks with
    | nil => rfl
    | cons block outer =>
      cases stays : block.hasFallback with
      | true =>
        simp only [after, move, fallback, follow, levelsOf, Block.seenElse_level, stays, if_true]
      | false =>
        simp only [after, move, fallback, follow, levelsOf, Block.seenElse_level, stays,
          Bool.false_eq_true, if_false, Block.level_next stays, Bool.and_true, Bool.true_or]
        rfl
  | closeBlock =>
    cases blocks with
    | nil => rfl
    | cons block outer => rfl

theorem levels_afterAll (words : List Word) :
    (afterAll words).levels = levelsOf (openBlocks words) := by
  induction words using List.reverseRecOn with
  | nil => rfl
  | append_singleton words word inductionHypothesis =>
    have before : afterAll words = ⟨levelsOf (openBlocks words)⟩ := by
      rw [← inductionHypothesis]
    rw [afterAll_snoc, openBlocks_snoc, before, after_levelsOf words.length]

theorem afterAll_eq (words : List Word) : afterAll words = ⟨levelsOf (openBlocks words)⟩ := by
  rw [← levels_afterAll]

/-! ## The flags of a level -/

theorem exists_of_levelsOf
    {blocks : List Block}
    {inner outer : List Level}
    {level : Level}
    (split : levelsOf blocks = inner ++ level :: outer) :
    ∃ (block : Block) (enclosing : List Block),
      level = block.level (runsIn enclosing) ∧ outer = levelsOf enclosing := by
  induction blocks generalizing inner with
  | nil => exact absurd split.symm (List.append_ne_nil_of_right_ne_nil _ (List.cons_ne_nil _ _))
  | cons block enclosing inductionHypothesis =>
    cases inner with
    | nil =>
      obtain ⟨isLevel, isOuter⟩ := List.cons.inj split
      exact ⟨block, enclosing, isLevel.symm, isOuter.symm⟩
    | cons innermost inner => exact inductionHypothesis (List.cons.inj split).2

theorem Block.taken_of_active
    {block : Block}
    {enclosingActive : Bool}
    (active : (block.level enclosingActive).active) :
    enclosingActive ∧ (block.level enclosingActive).taken := by
  unfold Block.level Block.isChosen at active ⊢
  simp only [Bool.and_eq_true] at active
  simp [active.1, active.2.1]

theorem length_levelsOf (blocks : List Block) : (levelsOf blocks).length = blocks.length := by
  induction blocks with
  | nil => rfl
  | cons block outer inductionHypothesis =>
    rw [levelsOf, List.length_cons, List.length_cons, inductionHypothesis]

/-- A level is active only while its block is in the chosen branch. -/
theorem isChosen_of_active
    {blocks : List Block}
    {entry : Block × Level}
    (member : entry ∈ blocks.zip (levelsOf blocks))
    (active : entry.2.active) :
    entry.1.isChosen := by
  induction blocks with
  | nil => cases member
  | cons block outer inductionHypothesis =>
    rcases List.mem_cons.mp member with rfl | below
    · exact (Bool.and_eq_true _ _ ▸ active).2
    · exact inductionHypothesis below

/-! ## The life of a block -/

/-- The later block is the same one: opened by the same word, with no branch taken
back. -/
def Block.Continues (block later : Block) : Prop :=
  later.opened = block.opened ∧ block.conditions <+: later.conditions

theorem Block.continues_next (block : Block) (condition isFallback : Bool) :
    block.Continues (block.next condition isFallback) :=
  ⟨rfl, List.prefix_append _ _⟩

theorem Block.Continues.refl (block : Block) : block.Continues block :=
  ⟨rfl, List.prefix_rfl⟩

theorem Block.Continues.trans
    {first second third : Block}
    (early : first.Continues second)
    (late : second.Continues third) :
    first.Continues third :=
  ⟨late.1.trans early.1, early.2.trans late.2⟩

/-- After a word, an open block is new or the same as one before. -/
theorem origin_of_follow
    {place : Nat}
    {blocks : List Block}
    {word : Word}
    {block : Block}
    (member : block ∈ follow place blocks word) :
    block.opened = place ∨ ∃ before ∈ blocks, before.Continues block := by
  have stays {blocks : List Block} (member : block ∈ blocks) :
      block.opened = place ∨ ∃ before ∈ blocks, before.Continues block :=
    .inr ⟨block, member, .refl block⟩
  have moves {innermost : Block} {outer : List Block} {condition isFallback : Bool}
      (member : block ∈ innermost.next condition isFallback :: outer) :
      block.opened = place ∨ ∃ before ∈ innermost :: outer, before.Continues block := by
    rcases List.mem_cons.mp member with rfl | below
    · exact .inr ⟨innermost, List.mem_cons_self, innermost.continues_next _ _⟩
    · exact stays (List.mem_cons_of_mem _ below)
  revert member
  fun_cases follow place blocks word with
  | case1 condition =>
    intro member
    rcases List.mem_cons.mp member with rfl | below
    · exact .inl rfl
    · exact stays below
  | case2 =>
    intro member
    cases member
  | case3 => exact stays
  | case4 => exact moves
  | case5 => exact stays
  | case6 => exact moves
  | case7 innermost outer =>
    intro member
    exact stays (List.mem_cons_of_mem _ member)

/-- No word opens two blocks, and the outer of two blocks was opened first. -/
theorem opened_follow_sublist (place : Nat) (blocks : List Block) (word : Word) :
    ((follow place blocks word).map Block.opened).Sublist (place :: blocks.map Block.opened) := by
  have same {opened : List Nat} : opened.Sublist (place :: opened) := List.sublist_cons_self _ _
  fun_cases follow place blocks word with
  | case1 condition => exact List.Sublist.refl _
  | case2 => exact List.nil_sublist _
  | case3 => exact same
  | case4 => exact same
  | case5 => exact same
  | case6 => exact same
  | case7 block outer => exact (List.sublist_cons_self _ _).trans same

theorem opened_sublist (words : List Word) :
    ((openBlocks words).map Block.opened).Sublist (List.range words.length).reverse := by
  induction words using List.reverseRecOn with
  | nil => exact List.Sublist.refl _
  | append_singleton words word inductionHypothesis =>
    rw [openBlocks_snoc, List.length_append, List.length_singleton, List.range_succ,
      List.reverse_append]
    exact (opened_follow_sublist _ _ _).trans (inductionHypothesis.cons_cons _)

theorem opened_lt
    {words : List Word}
    {block : Block}
    (member : block ∈ openBlocks words) :
    block.opened < words.length := by
  have inRange := (opened_sublist words).subset (List.mem_map_of_mem member)
  rwa [List.mem_reverse, List.mem_range] at inRange

theorem eq_of_opened
    {words : List Word}
    {block other : Block}
    (member : block ∈ openBlocks words)
    (otherMember : other ∈ openBlocks words)
    (same : block.opened = other.opened) :
    block = other := by
  have distinct : ((openBlocks words).map Block.opened).Nodup :=
    (List.nodup_reverse.mpr List.nodup_range).sublist (opened_sublist words)
  exact List.inj_on_of_nodup_map distinct member otherMember same

/-- From one moment to a later one, an open block is new or the same as one
before. -/
theorem origin_of_openBlocks
    {earlier later : List Word}
    {block : Block}
    (member : block ∈ openBlocks (earlier ++ later)) :
    earlier.length ≤ block.opened ∨ ∃ before ∈ openBlocks earlier, before.Continues block := by
  induction later using List.reverseRecOn generalizing block with
  | nil =>
    rw [List.append_nil] at member
    exact .inr ⟨block, member, .refl block⟩
  | append_singleton later word inductionHypothesis =>
    rw [← List.append_assoc, openBlocks_snoc] at member
    rcases origin_of_follow member with isNew | ⟨between, isOpen, continued⟩
    · left
      rw [isNew, List.length_append]
      exact Nat.le_add_right _ _
    · rcases inductionHypothesis isOpen with isNew | ⟨before, wasOpen, continuedBefore⟩
      · exact .inl (continued.1 ▸ isNew)
      · exact .inr ⟨before, wasOpen, continuedBefore.trans continued⟩

/-- A block that is in its chosen branch at two moments is in the same branch. -/
theorem Block.Continues.branch_eq
    {block later : Block}
    (continued : block.Continues later)
    (chosen : block.isChosen)
    (chosenLater : later.isChosen) :
    block.branch = later.branch := by
  unfold Block.isChosen at chosen chosenLater
  simp only [Bool.and_eq_true, List.all_eq_true, Bool.not_eq_true'] at chosen chosenLater
  rcases List.prefix_concat_iff.mp continued.2 with same | wasEarlier
  · have sameLength := congrArg List.length same
    unfold Block.conditions at sameLength
    rw [List.length_append, List.length_append] at sameLength
    exact Nat.add_right_cancel sameLength
  · -- The chosen branch is over, so no later one can be the first.
    have inEarlier : block.current ∈ later.earlier :=
      wasEarlier.subset (List.mem_append_right _ List.mem_cons_self)
    have isFalse := chosenLater.2 _ inEarlier
    rw [chosen.1] at isFalse
    cases isFalse

/-! ## Misplaced words -/

/-- Why a word may not stand where these blocks are open. -/
def fault? (blocks : List Block) : Word → Option ControlError
  | .openBlock _ => none
  | .nextBranch _ =>
    match blocks with
    | [] => some .elseifWithoutIf
    | block :: _ => if block.hasFallback then some .elseifAfterElse else none
  | .fallback =>
    match blocks with
    | [] => some .elseWithoutIf
    | block :: _ => if block.hasFallback then some .repeatedElse else none
  | .closeBlock => if blocks.isEmpty then some .endifWithoutIf else none

theorem move_levelsOf_eq_error_iff
    {blocks : List Block}
    {word : Word}
    {error : ControlError} :
    move ⟨levelsOf blocks⟩ word = .error error ↔ fault? blocks word = some error := by
  cases word with
  | openBlock condition => simp [move, fault?]
  | nextBranch condition =>
    cases blocks with
    | nil => simp [move, nextBranch, levelsOf, fault?]
    | cons block outer =>
      cases stays : block.hasFallback <;> simp [move, nextBranch, levelsOf, fault?, stays]
  | fallback =>
    cases blocks with
    | nil => simp [move, fallback, levelsOf, fault?]
    | cons block outer =>
      cases stays : block.hasFallback <;> simp [move, fallback, levelsOf, fault?, stays]
  | closeBlock => cases blocks <;> simp [move, closeBlock, levelsOf, fault?]

/-- A condition decides nothing exactly where none is asked for. -/
theorem nextBranch_true_eq_iff (branches : Branches) :
    branches.nextBranch true = branches.nextBranch false ↔ branches.needsCondition = false := by
  unfold nextBranch needsCondition
  cases branches.levels with
  | nil => simp
  | cons level outer =>
    obtain ⟨enclosingActive, taken, active, seenElse⟩ := level
    cases enclosingActive <;> cases taken <;> cases seenElse <;> simp

end Branches

namespace Engine

open Branches

theorem conditionReply_ne_control (verdict : Except ExprError Bool) (error : ControlError) :
    conditionReply verdict ≠ .error (.control error) := by
  cases verdict <;> simp [conditionReply]

theorem moved_word (engine : Engine) (word : Word) :
    (engine.moved (engine.scope.branches.move word)).2
      = engine.withBranches (engine.scope.branches.after word)
    ∧ ∀ error, (engine.moved (engine.scope.branches.move word)).1 = .error (.control error)
      ↔ engine.scope.branches.move word = .error error := by
  unfold after
  cases engine.scope.branches.move word with
  | ok branches => exact ⟨rfl, fun error => by simp [moved, done]⟩
  | error found => exact ⟨rfl, fun error => by simp [moved, refuse]⟩

/-- The word that an action on conditional blocks stands for. Where its condition is
not asked for, it counts as false. -/
def word? (engine : Engine) (invocation : Invocation) : Builtin → Option Word
  | .ifBlock =>
    some (.openBlock (engine.scope.branches.isActive && isTrue (engine.condition invocation)))
  | .elseIfBranch =>
    some (.nextBranch
      (engine.scope.branches.needsCondition && isTrue (engine.condition invocation)))
  | .elseBranch => some .fallback
  | .endIf => some .closeBlock
  | _ => none

theorem exists_word_of_conditional
    (engine : Engine)
    {action : Builtin}
    (conditional : action.isConditional)
    (invocation : Invocation) :
    ∃ word, engine.word? invocation action = some word := by
  cases action with
  | ifBlock | elseIfBranch | elseBranch | endIf => exact ⟨_, rfl⟩
  | _ => cases conditional

/-- An action does to the open blocks what its word does, and reports a misplaced
word as such. -/
theorem runBuiltin_of_word
    {engine : Engine}
    {invocation : Invocation}
    {action : Builtin}
    {word : Word}
    (named : engine.word? invocation action = some word)
    (site : Site) :
    (engine.runBuiltin action site invocation).2
      = engine.withBranches (engine.scope.branches.after word)
    ∧ ∀ error, (engine.runBuiltin action site invocation).1 = .error (.control error)
      ↔ engine.scope.branches.move word = .error error := by
  cases action with
  | ifBlock =>
    cases named
    unfold runBuiltin ifBlock
    simp only
    split
    · rename_i asked
      rw [asked, Bool.true_and]
      exact ⟨rfl, fun error => by simp [conditionReply_ne_control, move]⟩
    · rename_i unasked
      rw [Bool.eq_false_iff.mpr unasked, Bool.false_and]
      exact ⟨rfl, fun error => by simp [done, move]⟩
  | elseIfBranch =>
    cases named
    unfold runBuiltin elseIfBranch
    simp only
    split
    · rename_i asked
      rw [asked, Bool.true_and]
      unfold after move
      simp only
      cases engine.scope.branches.nextBranch (isTrue (engine.condition invocation)) with
      | ok branches => exact ⟨rfl, fun error => by simp [conditionReply_ne_control]⟩
      | error found => exact ⟨rfl, fun error => by simp [refuse]⟩
    · rename_i unasked
      rw [Bool.eq_false_iff.mpr unasked, Bool.false_and]
      exact engine.moved_word (.nextBranch false)
  | elseBranch =>
    cases named
    exact engine.moved_word .fallback
  | endIf =>
    cases named
    exact engine.moved_word .closeBlock
  | _ => cases named

end Engine

namespace Branches

/-- The open blocks after words, each with its level. -/
def withLevels (words : List Word) : List (Block × Level) :=
  (openBlocks words).zip (afterAll words).levels

/-- **At most one branch of a block is selected.** Take any sequence of words, well
nested or not. A level knows whether all levels around it are active; it is active
only if they are, and then it is marked as taken, as it is in the fallback branch.
Commands run exactly if every open block is in the first of its branches whose
condition is true. A block whose level is active at two moments is in the same branch
at both. A word is refused exactly where it is misplaced, by its own error, and leaves
the open blocks alone; an action of an engine does with its own word the same to the
engine as a whole. The condition of an `elseif` makes no difference exactly where none is asked
for. -/
theorem one_branch_of_each_block (words : List Word) :
    (∀ inner level outer, (afterAll words).levels = inner ++ level :: outer →
      level.enclosingActive = outer.all (·.active)
      ∧ (level.active → level.enclosingActive ∧ level.taken)
      ∧ (level.seenElse → level.taken))
    ∧ (afterAll words).depth = (openBlocks words).length
    ∧ ((afterAll words).isActive ↔ ∀ block ∈ openBlocks words, block.isChosen)
    ∧ (∀ earlier later, words = earlier ++ later →
      ∀ before ∈ withLevels earlier, ∀ now ∈ withLevels words,
        before.1.opened = now.1.opened → before.2.active → now.2.active →
          before.1.branch = now.1.branch)
    ∧ (∀ word error, (afterAll words).move word = .error error ↔
      fault? (openBlocks words) word = some error)
    ∧ (∀ word error, fault? (openBlocks words) word = some error →
      afterAll (words ++ [word]) = afterAll words)
    ∧ (∀ engine : Engine, engine.scope.branches = afterAll words →
      ∀ action site invocation, action.isConditional → ∃ word,
        engine.word? invocation action = some word
        ∧ (engine.runBuiltin action site invocation).2
          = engine.withBranches (afterAll (words ++ [word]))
        ∧ ∀ error, (engine.runBuiltin action site invocation).1 = .error (.control error) ↔
          fault? (openBlocks words) word = some error)
    ∧ ((afterAll words).nextBranch true = (afterAll words).nextBranch false ↔
      (afterAll words).needsCondition = false) := by
  have refused (word : Word) (error : ControlError) : (afterAll words).move word = .error error ↔
      fault? (openBlocks words) word = some error := by
    rw [afterAll_eq, move_levelsOf_eq_error_iff]
  refine ⟨?_, ?_, ?_, ?_, refused, ?_, ?_, nextBranch_true_eq_iff _⟩
  · intro inner level outer split
    rw [levels_afterAll] at split
    obtain ⟨block, enclosing, rfl, rfl⟩ := exists_of_levelsOf split
    refine ⟨(all_active_levelsOf enclosing).symm, Block.taken_of_active, fun inElse => ?_⟩
    exact Bool.or_eq_true_iff.mpr (.inl inElse)
  · rw [depth, levels_afterAll, length_levelsOf]
  · rw [afterAll_eq, isActive_levelsOf, runsIn, List.all_eq_true]
  · rintro earlier later rfl before member now memberNow same active activeNow
    unfold withLevels at member memberNow
    rw [levels_afterAll] at member memberNow
    have wasOpen := (List.of_mem_zip member).1
    rcases origin_of_openBlocks (List.of_mem_zip memberNow).1
      with isNew | ⟨origin, isOpen, continued⟩
    · have opened := opened_lt wasOpen
      omega
    · rw [eq_of_opened isOpen wasOpen (continued.1.symm.trans same.symm)] at continued
      exact continued.branch_eq (isChosen_of_active member active)
        (isChosen_of_active memberNow activeNow)
  · intro word error faulty
    rw [afterAll_snoc, after, (refused word error).mpr faulty]
  · intro engine isNow action site invocation conditional
    obtain ⟨word, named⟩ := engine.exists_word_of_conditional conditional invocation
    obtain ⟨afterwards, reported⟩ := Engine.runBuiltin_of_word named site
    refine ⟨word, named, ?_, fun error => ?_⟩
    · rw [afterwards, isNow, afterAll_snoc]
    · rw [reported, isNow, refused]

end Branches

end ExLine

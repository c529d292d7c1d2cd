import ExLine.Engine.Script
import ExLine.Proofs.Engine.Frames

/-!
Contract: which user commands a run can bring about.

Owns:
- `Engine.Defines`, by which some frame holds a user command;
- `Engine.DistinctNames`, by which no frame holds two user commands of one name;
- `Engine.Grows`, by which the fixed commands stay, every user command was there
  before or is one that a line may define, and distinct names stay distinct;
- the law that lines, and scripts line by line, make an engine grow so.

Does not own: the commands that are added between two runs
(`ExLine.Proofs.Engine.Reachable`).

The check of a name stands in one action only. Whatever is said about the names
of user commands in any state of any run follows from this law, without a
second look at the actions.
-/

set_option autoImplicit false

namespace ExLine.Engine

/-- Some frame holds the user command. -/
def Defines (engine : Engine) (command : Command) : Prop :=
  ∃ registry ∈ engine.scope.chain, command ∈ registry.commands

theorem defines_withCommands
    {engine : Engine}
    {registry : Registry}
    {command : Command} :
    (engine.withCommands registry).Defines command ↔
      command ∈ registry.commands
        ∨ ∃ frame ∈ engine.scope.enclosing, command ∈ frame.commands.commands := by
  unfold Defines
  constructor
  · rintro ⟨held, member, inside⟩
    rcases List.mem_cons.mp member with rfl | below
    · exact .inl inside
    · obtain ⟨frame, isFrame, rfl⟩ := List.mem_map.mp below
      exact .inr ⟨frame, isFrame, inside⟩
  · rintro (inside | ⟨frame, isFrame, inside⟩)
    · exact ⟨registry, List.mem_cons_self, inside⟩
    · exact ⟨frame.commands, List.mem_cons_of_mem _ (List.mem_map_of_mem isFrame), inside⟩

/-- No frame holds two user commands of the same name. -/
def DistinctNames (engine : Engine) : Prop :=
  ∀ registry ∈ engine.scope.chain, registry.names.Nodup

theorem DistinctNames.withCommands
    {engine : Engine}
    {registry : Registry}
    (distinct : engine.DistinctNames)
    (nodup : registry.names.Nodup) :
    (engine.withCommands registry).DistinctNames := by
  intro held member
  rcases List.mem_cons.mp member with rfl | below
  · exact nodup
  · exact distinct held (List.mem_cons_of_mem _ below)

structure Grows (before after : Engine) : Prop where
  builtins : after.builtins = before.builtins
  origin : ∀ command, after.Defines command → before.Defines command ∨ before.Admits command
  distinct : before.DistinctNames → after.DistinctNames

namespace Grows

theorem congr
    {before after : Engine}
    (sameBuiltins : after.builtins = before.builtins)
    (sameChain : after.scope.chain = before.scope.chain) :
    Grows before after := by
  refine ⟨sameBuiltins, fun command defined => .inl ?_, fun distinct => ?_⟩
  · unfold Defines at defined ⊢
    rwa [sameChain] at defined
  · unfold DistinctNames at distinct ⊢
    rwa [sameChain]

theorem refl (engine : Engine) : Grows engine engine :=
  congr rfl rfl

theorem trans
    {first second third : Engine}
    (early : Grows first second)
    (late : Grows second third) :
    Grows first third := by
  refine ⟨late.builtins.trans early.builtins, fun command defined => ?_,
    fun distinct => late.distinct (early.distinct distinct)⟩
  rcases late.origin command defined with earlier | ⟨name, body, isUser, valid, free⟩
  · exact early.origin command earlier
  · rw [early.builtins] at free
    exact .inr ⟨name, body, isUser, valid, free⟩

/-- Only the actions that manage user commands touch them, and what they leave
was there or has been checked. -/
theorem of_effect
    {engine after : Engine}
    {action : Builtin}
    (effect : Effect engine action after) :
    Grows engine after := by
  cases effect with
  | commands manages registry origin keepsDistinct =>
    refine ⟨rfl, fun command defined => ?_, fun distinct =>
      distinct.withCommands (keepsDistinct (distinct _ List.mem_cons_self))⟩
    rcases defines_withCommands.mp defined with inside | ⟨frame, isFrame, inside⟩
    · rcases origin command inside with held | admitted
      · exact .inl ⟨_, List.mem_cons_self, held⟩
      · exact .inr admitted
    · exact .inl ⟨_, List.mem_cons_of_mem _ (List.mem_map_of_mem isFrame), inside⟩
  | none | vars | branches | finished | launch | directory | mappings => exact congr rfl rfl

theorem of_change
    {levels : Nat}
    {engine after : Engine}
    (change : Change (runUser levels) engine after) :
    Grows engine after := by
  cases change with
  | none => exact refl engine
  | move range =>
    unfold moveTo
    split <;> exact congr rfl rfl
  | builtin effect => exact of_effect effect
  | host made => exact congr rfl rfl
  | user site body invocation =>
    -- The frame of the body is gone again, with all that it held.
    obtain ⟨kept, sameScope⟩ := keeps_runUser levels site body invocation engine
    exact congr kept.builtins (congrArg Scope.chain sameScope)

theorem runLine (levels : Nat) (engine : Engine) (site : Site) (line : Bytes) :
    Grows engine (engine.runLine (runUser levels) site line).2 :=
  of_runLine (fun change grown => grown.trans (of_change change)) engine site line (refl engine)

theorem runLines (engine : Engine) (lines : List Script.LogicalLine) :
    Grows engine (engine.runLines lines).2 := by
  induction lines generalizing engine with
  | nil => exact refl engine
  | cons line rest inductionHypothesis =>
    have first : Grows engine (engine.runTop .script (Utf8.encode line.text)).2 :=
      runLine _ _ _ _
    unfold Engine.runLines
    simp only
    split
    · exact first
    · exact first.trans (inductionHypothesis _)

end Grows

end ExLine.Engine

import ExLine.Proofs.Script.Structured

/-!
Contract: a script as the sequence of its lines.

Owns:
- the laws by which traces are put together;
- `Engine.Runs`, the run of a sequence of lines that nothing stops, and how two
  such runs follow each other;
- the report of a script whose lines run so;
- the lines that are read back from a flattened text.

Does not own: what a single line does (`ExLine.Proofs.Script.Steps`).
-/

set_option autoImplicit false

namespace ExLine

/-! ## Outcomes and traces -/

namespace Outcome

theorem joinLines_empty_left (text : String) : joinLines "" text = text := by
  unfold joinLines
  split
  · rename_i empty
    exact (String.isEmpty_iff.mp empty).symm
  · rfl

theorem joinLines_assoc (first second third : String) :
    joinLines (joinLines first second) third = joinLines first (joinLines second third) := by
  unfold joinLines
  by_cases noFirst : first = "" <;> by_cases noSecond : second = "" <;>
    by_cases noThird : third = "" <;>
      simp [noFirst, noSecond, noThird, String.append_assoc]

theorem done_combine (outcome : Outcome) : done.combine outcome = outcome := by
  obtain ⟨code, out, err⟩ := outcome
  unfold combine
  simp only [done, joinLines_empty_left]
  congr
  show (if code == 0 then 0 else code) = code
  by_cases zero : code = 0
  · simp [zero]
  · simp [zero]

theorem combine_done (outcome : Outcome) : outcome.combine done = outcome :=
  rfl

theorem combine_assoc (first second third : Outcome) :
    (first.combine second).combine third = first.combine (second.combine third) := by
  unfold combine
  simp only [joinLines_assoc, isOk]
  congr 1
  by_cases thirdOk : third.code = 0
  · simp [thirdOk]
  · simp [thirdOk]

end Outcome

namespace Trace

theorem empty_append (trace : Trace) : empty.append trace = trace := by
  unfold append empty
  rw [Outcome.done_combine, List.nil_append]

theorem append_empty (trace : Trace) : trace.append empty = trace := by
  unfold append empty
  rw [Outcome.combine_done, List.append_nil]

theorem append_assoc (first second third : Trace) :
    (first.append second).append third = first.append (second.append third) := by
  unfold append
  rw [Outcome.combine_assoc, List.append_assoc]

end Trace

/-! ## Runs of lines -/

namespace Engine

/-- The lines run one after the other from an engine to another, and none of
them stops the script. -/
inductive Runs : Engine → List (List Char) → Trace → Engine → Prop where
  | nil (engine : Engine) : Runs engine [] Trace.empty engine
  | cons
      {engine middle after : Engine}
      {text : List Char}
      {rest : List (List Char)}
      {reply : Reply}
      {trace : Trace}
      (first : engine.runTop .script (Utf8.encode text) = (reply, middle))
      (goesOn : middle.scope.isFinished = false)
      (later : Runs middle rest trace after) :
      Runs engine (text :: rest) ((Trace.ofReply reply).append trace) after

namespace Runs

theorem append
    {engine middle after : Engine}
    {early late : List (List Char)}
    {first second : Trace}
    (before : Runs engine early first middle)
    (behind : Runs middle late second after) :
    Runs engine (early ++ late) (first.append second) after := by
  induction before with
  | nil engine =>
    rw [Trace.empty_append]
    exact behind
  | cons line goesOn later inductionHypothesis =>
    rw [Trace.append_assoc]
    exact .cons line goesOn (inductionHypothesis behind)

/-- What a script reports whose lines run to the end. -/
theorem runLines
    {engine after : Engine}
    {lines : List Script.LogicalLine}
    {trace : Trace}
    (runs : Runs engine (lines.map (·.text)) trace after) :
    (engine.runLines lines).2 = after
      ∧ (engine.runLines lines).1.outcome = trace.outcome
      ∧ (engine.runLines lines).1.failures.map (·.error) = trace.errors
      ∧ (engine.runLines lines).1.completed = true := by
  induction lines generalizing engine trace with
  | nil =>
    cases runs
    exact ⟨rfl, rfl, rfl, rfl⟩
  | cons line rest inductionHypothesis =>
    cases runs with
    | cons first goesOn later =>
      obtain ⟨sameEngine, sameOutcome, sameErrors, complete⟩ := inductionHypothesis later
      unfold Engine.runLines
      simp only [first, goesOn, Bool.false_eq_true, if_false]
      rename_i reply trace
      cases reply with
      | ok outcome =>
        refine ⟨sameEngine, ?_, sameErrors, complete⟩
        exact congrArg outcome.combine sameOutcome
      | error error =>
        refine ⟨sameEngine, ?_, congrArg (error :: ·) sameErrors, complete⟩
        exact sameOutcome.trans (Outcome.done_combine trace.outcome).symm

end Runs

end Engine

/-! ## The lines of a text -/

namespace Script

theorem splitOn_line
    {line : List Char}
    (noBreak : '\n' ∉ line)
    (rest : List Char) :
    Chars.splitOn '\n' (line ++ '\n' :: rest) = line :: Chars.splitOn '\n' rest := by
  rw [Chars.splitOn_append, Chars.splitOn_of_notMem noBreak, List.singleton_append]

theorem dropReturn_of_oneLine {line : List Char} (oneLine : OneLine line) :
    dropReturn line = line := by
  unfold dropReturn
  rw [if_neg]
  intro atEnd
  simp only [beq_iff_eq] at atEnd
  exact oneLine.2 (List.mem_of_getLast? atEnd)

/-- The lines of a text are read back from it. -/
theorem physicalLines_flatMap
    {lines : List (List Char)}
    (oneLine : ∀ line ∈ lines, OneLine line) :
    physicalLines (lines.flatMap fun line => line ++ ['\n']) = lines := by
  unfold physicalLines
  induction lines with
  | nil => rfl
  | cons line rest inductionHypothesis =>
    have first := oneLine line List.mem_cons_self
    have later := inductionHypothesis fun other member =>
      oneLine other (List.mem_cons_of_mem _ member)
    rw [List.flatMap_cons, List.append_assoc, List.singleton_append, splitOn_line first.1]
    generalize rest.flatMap _ = text at later ⊢
    cases parts : Chars.splitOn '\n' text with
    | nil => exact absurd parts (Chars.splitOn_ne_nil text)
    | cons part others =>
      rw [parts] at later
      rw [linesOfParts, dropReturn_of_oneLine first, later]
      exact fun none => nomatch none

/-- Lines none of which continues another are the lines of the script. -/
theorem joinLines_texts
    {lines : List (List Char)}
    (separate : ∀ line ∈ lines, isContinuation line = false)
    (number : Nat) :
    (joinLines number lines).map (·.text) = lines := by
  induction lines generalizing number with
  | nil =>
    rw [joinLines]
    rfl
  | cons line rest inductionHypothesis =>
    have later := inductionHypothesis fun other member =>
      separate other (List.mem_cons_of_mem _ member)
    have none : rest.takeWhile isContinuation = [] ∧ rest.dropWhile isContinuation = rest := by
      cases rest with
      | nil => exact ⟨rfl, rfl⟩
      | cons next others =>
        have starts := separate next (List.mem_cons_of_mem _ List.mem_cons_self)
        simp [starts]
    rw [joinLines]
    simp only [none.1, none.2, List.map_cons, later, List.flatMap_nil, List.append_nil]

/-- The lines of a script that is written line by line. -/
theorem logicalLines_texts
    {lines : List (List Char)}
    (oneLine : ∀ line ∈ lines, OneLine line)
    (separate : ∀ line ∈ lines, isContinuation line = false) :
    (logicalLines (String.ofList (lines.flatMap fun line => line ++ ['\n']))).map (·.text)
      = lines := by
  unfold logicalLines
  rw [String.toList_ofList, physicalLines_flatMap oneLine, joinLines_texts separate]

/-! ## The lines of a program -/

/-- A line that is read back from a script as it was written. -/
structure StandsAlone (line : List Char) : Prop where
  oneLine : OneLine line
  separate : isContinuation line = false

/-- A line that starts with a letter or an exclamation mark continues no
other. -/
theorem standsAlone_of_word
    {blanks word tail : List Char}
    (blank : blanks.all Chars.isBlank)
    (isWord : Chars.isWord word)
    (oneLine : OneLine (blanks ++ (word ++ tail))) :
    StandsAlone (blanks ++ (word ++ tail)) := by
  refine ⟨oneLine, ?_⟩
  unfold isContinuation continuation?
  rw [List.dropWhile_append_of_pos (List.all_eq_true.mp blank)]
  rcases Chars.cases_of_isWord isWord with rfl | ⟨first, rest, rfl, letter, -⟩
  · rfl
  · have noBlank : Chars.isBlank first = false := by
      rw [Bool.eq_false_iff]
      intro isBlank
      simp only [Chars.isBlank, Bool.or_eq_true, beq_iff_eq] at isBlank
      rcases isBlank with rfl | rfl <;> cases letter
    rw [List.cons_append, List.dropWhile_cons_of_neg (by simp [noBlank])]
    split
    · rename_i starts
      cases starts
      cases letter
    · rfl

/-- A line with a keyword, whatever follows it. -/
theorem standsAlone_of_keyword
    {word tail : List Char}
    (isWord : Chars.isWord word)
    (oneLine : OneLine word)
    (tailOneLine : OneLine tail) :
    StandsAlone (word ++ tail) := by
  refine @standsAlone_of_word [] word tail rfl isWord ?_
  show OneLine (word ++ tail)
  constructor
  · exact fun member => (List.mem_append.mp member).elim oneLine.1 tailOneLine.1
  · exact fun member => (List.mem_append.mp member).elim oneLine.2 tailOneLine.2

theorem IsCondition.spaceOneLine {condition : List Char} (isCondition : IsCondition condition) :
    OneLine (' ' :: condition) := by
  have oneLine := isCondition.oneLine
  exact ⟨by simpa using oneLine.1, by simpa using oneLine.2⟩

mutual

/-- Every line of a program is read back as it was written. -/
theorem Code.standsAlone
    {commands : Registry} :
    (code : Code) → code.WellFormed commands → ∀ line ∈ code.lines, StandsAlone line
  | .done, _ => fun _ member => nomatch member
  | .line text next, wellFormed => by
    intro line member
    rcases List.mem_cons.mp member with rfl | later
    · obtain ⟨blank, isWord, -, -, -, -, -, oneLine⟩ := wellFormed.1
      exact standsAlone_of_word blank isWord oneLine
    · exact next.standsAlone wellFormed.2 line later
  | .block condition body arms next, wellFormed => by
    obtain ⟨isCondition, bodyOk, armsOk, nextOk⟩ := wellFormed
    intro line member
    rcases List.mem_append.mp member with inside | later
    · rcases List.mem_append.mp inside with first | inArms
      · rcases List.mem_cons.mp first with rfl | inBody
        · exact standsAlone_of_keyword rfl (by decide) isCondition.spaceOneLine
        · exact body.standsAlone bodyOk line inBody
      · exact arms.standsAlone armsOk line inArms
    · exact next.standsAlone nextOk line later

theorem Arms.standsAlone
    {commands : Registry} :
    (arms : Arms) → arms.WellFormed commands → ∀ line ∈ arms.lines, StandsAlone line
  | .close, _ => by
    intro line member
    rw [List.mem_singleton.mp member]
    exact ⟨by decide, by decide⟩
  | .fallback body, wellFormed => by
    intro line member
    rcases List.mem_append.mp member with first | last
    · rcases List.mem_cons.mp first with rfl | inBody
      · exact ⟨by decide, by decide⟩
      · exact body.standsAlone wellFormed line inBody
    · rw [List.mem_singleton.mp last]
      exact ⟨by decide, by decide⟩
  | .branch condition body arms, wellFormed => by
    obtain ⟨isCondition, bodyOk, armsOk⟩ := wellFormed
    intro line member
    rcases List.mem_append.mp member with first | inArms
    · rcases List.mem_cons.mp first with rfl | inBody
      · exact standsAlone_of_keyword rfl (by decide) isCondition.spaceOneLine
      · exact body.standsAlone bodyOk line inBody
    · exact arms.standsAlone armsOk line inArms

end

end Script

end ExLine

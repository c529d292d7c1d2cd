import ExLine.Proofs.Script.Lines

/-!
Contract: scripts whose lines are written with continuations.

Owns:
- `Script.CutLine`, a line in pieces, as it stands in a script and as it is meant;
- `Script.joinLines_cut`, by which joining gives back the lines with the numbers
  at which they start;
- `Engine.lineReplies` and `Engine.failures_runLines`, the failures of a script
  from the replies of its lines;
- `Engine.continuations_transparent`.

Does not own: what a line does (`ExLine.Engine.Run`).

Running looks at the texts of the lines only. Their numbers go into the report,
and nowhere else.
-/

set_option autoImplicit false

namespace ExLine

/-! ## Lines in pieces -/

namespace Script

/-- A further piece of a line, on a line of its own. -/
structure Continuation where
  /-- What stands before the backslash. -/
  blanks : List Char
  text : List Char
  blank : ∀ char ∈ blanks, Chars.isBlank char = true

/-- A line of a script in pieces. The line itself continues no other. -/
structure CutLine where
  first : List Char
  further : List Continuation
  standsAlone : StandsAlone (first ++ further.flatMap (·.text))

/-- A further piece as it is written. -/
def Continuation.line (piece : Continuation) : List Char :=
  piece.blanks ++ '\\' :: piece.text

namespace CutLine

/-- The line that is meant. -/
def whole (cut : CutLine) : List Char :=
  cut.first ++ cut.further.flatMap (·.text)

/-- The line as it is written, piece by piece. -/
def physical (cut : CutLine) : List (List Char) :=
  cut.first :: cut.further.map (·.line)

/-- The numbers of the physical lines at which the lines start. -/
def starts (number : Nat) : List CutLine → List Nat
  | [] => []
  | cut :: cuts => number :: starts (number + cut.physical.length) cuts

/-- The lines that are meant, with the numbers at which they start. -/
def numbered (number : Nat) : List CutLine → List LogicalLine
  | [] => []
  | cut :: cuts => ⟨number, cut.whole⟩ :: numbered (number + cut.physical.length) cuts

theorem map_number_numbered (number : Nat) (cuts : List CutLine) :
    (numbered number cuts).map (·.number) = starts number cuts := by
  induction cuts generalizing number with
  | nil => rfl
  | cons cut cuts inductionHypothesis =>
    exact congrArg (number :: ·) (inductionHypothesis _)

theorem map_text_numbered (number : Nat) (cuts : List CutLine) :
    (numbered number cuts).map (·.text) = cuts.map whole := by
  induction cuts generalizing number with
  | nil => rfl
  | cons cut cuts inductionHypothesis =>
    exact congrArg (cut.whole :: ·) (inductionHypothesis _)

theorem le_of_mem_starts
    {number start : Nat}
    {cuts : List CutLine}
    (member : start ∈ starts number cuts) :
    number ≤ start := by
  induction cuts generalizing number with
  | nil => cases member
  | cons cut cuts inductionHypothesis =>
    rcases List.mem_cons.mp member with rfl | later
    · exact Nat.le_refl _
    · exact Nat.le_trans (Nat.le_add_right _ _) (inductionHypothesis later)

/-- Every line starts behind the ones before it. -/
theorem pairwise_starts (number : Nat) (cuts : List CutLine) :
    (starts number cuts).Pairwise (· < ·) := by
  induction cuts generalizing number with
  | nil => exact .nil
  | cons cut cuts inductionHypothesis =>
    refine .cons (fun start member => ?_) (inductionHypothesis _)
    have behind := le_of_mem_starts member
    have takesLine : 0 < cut.physical.length := Nat.succ_pos _
    omega

end CutLine

/-! ## Joining the pieces -/

theorem continuation?_line (piece : Continuation) : continuation? piece.line = some piece.text := by
  have skipped : piece.line.dropWhile Chars.isBlank = '\\' :: piece.text := by
    unfold Continuation.line
    rw [List.dropWhile_append_of_pos piece.blank]
    rfl
  unfold continuation?
  rw [skipped]
  rfl

/-- The front of a line that continues no other continues no other. -/
theorem not_continuation_of_append
    {first more : List Char}
    (separate : isContinuation (first ++ more) = false) :
    isContinuation first = false := by
  rw [Bool.eq_false_iff] at separate ⊢
  intro continues
  apply separate
  unfold isContinuation continuation? at continues ⊢
  split at continues
  · rename_i rest skipped
    rw [List.dropWhile_append, skipped]
    rfl
  · cases continues

theorem takeWhile_pieces
    (further : List Continuation)
    (cuts : List CutLine) :
    (further.map (·.line) ++ cuts.flatMap (·.physical)).takeWhile isContinuation
        = further.map (·.line)
      ∧ (further.map (·.line) ++ cuts.flatMap (·.physical)).dropWhile isContinuation
        = cuts.flatMap (·.physical) := by
  have continues : ∀ line ∈ further.map (·.line), isContinuation line = true := by
    intro line member
    obtain ⟨piece, -, rfl⟩ := List.mem_map.mp member
    unfold isContinuation
    rw [continuation?_line]
    rfl
  have stops : (cuts.flatMap (·.physical)).takeWhile isContinuation = []
      ∧ (cuts.flatMap (·.physical)).dropWhile isContinuation = cuts.flatMap (·.physical) := by
    cases cuts with
    | nil => exact ⟨rfl, rfl⟩
    | cons next others =>
      have starts := not_continuation_of_append next.standsAlone.separate
      simp [CutLine.physical, starts]
  rw [List.takeWhile_append_of_pos continues, List.dropWhile_append_of_pos continues, stops.1,
    stops.2, List.append_nil]
  exact ⟨rfl, rfl⟩

/-- Joining the pieces gives the lines that are meant. -/
theorem joinLines_cut (number : Nat) (cuts : List CutLine) :
    joinLines number (cuts.flatMap (·.physical)) = CutLine.numbered number cuts := by
  induction cuts generalizing number with
  | nil =>
    rw [List.flatMap_nil, joinLines]
    rfl
  | cons cut cuts inductionHypothesis =>
    obtain ⟨taken, left⟩ := takeWhile_pieces cut.further cuts
    have joined : (cut.further.map (·.line)).flatMap (fun text => (continuation? text).getD [])
        = cut.further.flatMap (·.text) := by
      rw [List.flatMap_map]
      simp only [continuation?_line, Option.getD_some]
    have count : number + 1 + (cut.further.map (·.line)).length
        = number + cut.physical.length := by
      simp only [CutLine.physical, List.length_cons]
      omega
    rw [List.flatMap_cons, CutLine.physical, List.cons_append, joinLines]
    simp only [taken, left, joined, count, inductionHypothesis]
    rfl

/-- The text of a script with the given lines, each of them ended by a line feed. -/
def written (lines : List (List Char)) : String :=
  String.ofList (lines.flatMap fun line => line ++ ['\n'])

theorem Continuation.not_mem_line
    {piece : Continuation}
    {char : Char}
    (notBlank : Chars.isBlank char = false)
    (notBackslash : char ≠ '\\')
    (notInText : char ∉ piece.text) :
    char ∉ piece.line := by
  intro member
  rcases List.mem_append.mp member with inBlanks | behind
  · have blank := piece.blank char inBlanks
    rw [notBlank] at blank
    cases blank
  · rcases List.mem_cons.mp behind with isBackslash | inText
    · exact notBackslash isBackslash
    · exact notInText inText

theorem CutLine.oneLine_physical (cut : CutLine) : ∀ line ∈ cut.physical, OneLine line := by
  obtain ⟨noBreak, noReturn⟩ := cut.standsAlone.oneLine
  rw [List.mem_append, not_or] at noBreak noReturn
  intro line member
  rcases List.mem_cons.mp member with rfl | further
  · exact ⟨noBreak.1, noReturn.1⟩
  · obtain ⟨piece, inCut, rfl⟩ := List.mem_map.mp further
    have inWhole {char : Char} (inPiece : char ∈ piece.text) :
        char ∈ cut.further.flatMap (·.text) :=
      List.mem_flatMap.mpr ⟨piece, inCut, inPiece⟩
    exact ⟨piece.not_mem_line rfl (by decide) fun inPiece => noBreak.2 (inWhole inPiece),
      piece.not_mem_line rfl (by decide) fun inPiece => noReturn.2 (inWhole inPiece)⟩

theorem logicalLines_cut (cuts : List CutLine) :
    logicalLines (written (cuts.flatMap (·.physical))) = CutLine.numbered 1 cuts := by
  have oneLine : ∀ line ∈ cuts.flatMap (·.physical), OneLine line := by
    intro line member
    obtain ⟨cut, -, inCut⟩ := List.mem_flatMap.mp member
    exact cut.oneLine_physical line inCut
  unfold logicalLines written
  rw [String.toList_ofList, physicalLines_flatMap oneLine, joinLines_cut]

theorem texts_whole (cuts : List CutLine) :
    (logicalLines (written (cuts.map CutLine.whole))).map (·.text) = cuts.map CutLine.whole := by
  apply logicalLines_texts
  · intro line member
    obtain ⟨cut, -, rfl⟩ := List.mem_map.mp member
    exact cut.standsAlone.oneLine
  · intro line member
    obtain ⟨cut, -, rfl⟩ := List.mem_map.mp member
    exact cut.standsAlone.separate

end Script

/-! ## Reports -/

/-- Reports that differ in the numbers of the lines only. -/
structure ScriptReport.SameButNumbers (report other : ScriptReport) : Prop where
  outcome : report.outcome = other.outcome
  completed : report.completed = other.completed
  errors : report.failures.map (·.error) = other.failures.map (·.error)

/-- The failures among the replies of lines with the given numbers. -/
def failuresAt (numbers : List Nat) (replies : List Reply) : List ScriptFailure :=
  (numbers.zip replies).filterMap fun
    | (number, .error error) => some ⟨number, error⟩
    | (_, .ok _) => none

theorem failuresAt_cons
    (number : Nat)
    (numbers : List Nat)
    (reply : Reply)
    (replies : List Reply) :
    failuresAt (number :: numbers) (reply :: replies)
      = failuresAt [number] [reply] ++ failuresAt numbers replies := by
  cases reply <;> rfl

theorem failuresAt_nil (numbers : List Nat) : failuresAt numbers [] = [] := by
  unfold failuresAt
  rw [List.zip_nil_right]
  rfl

/-- Every failure has a number of its own, in order. -/
theorem sublist_failuresAt (numbers : List Nat) (replies : List Reply) :
    ((failuresAt numbers replies).map (·.line)).Sublist numbers := by
  induction numbers generalizing replies with
  | nil => exact .slnil
  | cons number numbers inductionHypothesis =>
    cases replies with
    | nil => exact List.nil_sublist _
    | cons reply replies =>
      cases reply with
      | ok outcome => exact (inductionHypothesis replies).cons number
      | error error => exact (inductionHypothesis replies).cons_cons number

/-- One more failure with the last number keeps the numbers in order. -/
theorem pairwise_append_last
    {numbers lines ending : List Nat}
    (increasing : numbers.Pairwise (· < ·))
    (within : lines.Sublist numbers)
    (atEnd : ending = [] ∨ ∃ last ∈ numbers.getLast?, ending = [last]) :
    (lines ++ ending).Pairwise (· ≤ ·) := by
  have inOrder : lines.Pairwise (· ≤ ·) := (increasing.sublist within).imp Nat.le_of_lt
  rcases atEnd with rfl | ⟨last, isLast, rfl⟩
  · rwa [List.append_nil]
  · obtain ⟨front, rfl⟩ := List.getLast?_eq_some_iff.mp isLast
    refine List.pairwise_append.mpr ⟨inOrder, List.pairwise_singleton _ _, ?_⟩
    intro line inLines other isOther
    rw [List.mem_singleton.mp isOther]
    rcases List.mem_append.mp (within.subset inLines) with inFront | isSame
    · exact Nat.le_of_lt ((List.pairwise_append.mp increasing).2.2 line inFront last
        List.mem_cons_self)
    · exact Nat.le_of_eq (List.mem_singleton.mp isSame)

namespace ScriptReport.SameButNumbers

theorem cons
    {report other : ScriptReport}
    (same : report.SameButNumbers other)
    (number otherNumber : Nat)
    (reply : Reply) :
    (report.cons number reply).SameButNumbers (other.cons otherNumber reply) := by
  cases reply with
  | ok outcome => exact ⟨congrArg outcome.combine same.outcome, same.completed, same.errors⟩
  | error error => exact ⟨same.outcome, same.completed, congrArg (error :: ·) same.errors⟩

theorem reportOpenBlock
    {report other : ScriptReport}
    (same : report.SameButNumbers other)
    (branches : Branches)
    (number otherNumber : Nat) :
    (Engine.reportOpenBlock report branches number).SameButNumbers
      (Engine.reportOpenBlock other branches otherNumber) := by
  unfold Engine.reportOpenBlock
  rw [same.completed]
  split
  · refine ⟨same.outcome, rfl, ?_⟩
    simp only [List.map_append, same.errors]
    rfl
  · exact same

end ScriptReport.SameButNumbers

namespace Engine

open Script

/-- The replies of lines that run one after the other, up to one that stops the
script. -/
def lineReplies (engine : Engine) : List (List Char) → List Reply
  | [] => []
  | text :: rest =>
    let first := engine.runTop .script (Utf8.encode text)
    first.1 :: if first.2.scope.isFinished then [] else first.2.lineReplies rest

theorem runLines_cons (engine : Engine) (line : LogicalLine) (rest : List LogicalLine) :
    engine.runLines (line :: rest) =
      let first := engine.runTop .script (Utf8.encode line.text)
      if first.2.scope.isFinished then
        (({ ScriptReport.empty with completed := false }).cons line.number first.1, first.2)
      else
        let later := first.2.runLines rest
        (later.1.cons line.number first.1, later.2) :=
  rfl

theorem failures_cons (number : Nat) (reply : Reply) (report : ScriptReport) :
    (report.cons number reply).failures = failuresAt [number] [reply] ++ report.failures := by
  cases reply <;> rfl

/-- The failures of a script are the failing replies of its lines, with the
numbers of these lines. -/
theorem failures_runLines (engine : Engine) (lines : List LogicalLine) :
    (engine.runLines lines).1.failures
      = failuresAt (lines.map (·.number)) (engine.lineReplies (lines.map (·.text))) := by
  induction lines generalizing engine with
  | nil => rfl
  | cons line rest inductionHypothesis =>
    rw [runLines_cons, List.map_cons, List.map_cons, lineReplies, failuresAt_cons]
    simp only
    split
    · rw [failures_cons, failuresAt_nil]
      rfl
    · rw [failures_cons, inductionHypothesis]

/-- Running looks at the texts of the lines only. -/
theorem runLines_congr
    (engine : Engine)
    {lines other : List LogicalLine}
    (sameTexts : lines.map (·.text) = other.map (·.text)) :
    (engine.runLines lines).2 = (engine.runLines other).2
      ∧ (engine.runLines lines).1.SameButNumbers (engine.runLines other).1 := by
  induction lines generalizing engine other with
  | nil =>
    obtain rfl := List.map_eq_nil_iff.mp sameTexts.symm
    exact ⟨rfl, rfl, rfl, rfl⟩
  | cons line rest inductionHypothesis =>
    cases other with
    | nil => cases sameTexts
    | cons otherLine otherRest =>
      obtain ⟨sameText, sameRest⟩ := List.cons.inj sameTexts
      rw [runLines_cons, runLines_cons, ← show line.text = otherLine.text from sameText]
      simp only
      split
      · have stopped : ScriptReport.SameButNumbers { ScriptReport.empty with completed := false }
            { ScriptReport.empty with completed := false } := ⟨rfl, rfl, rfl⟩
        exact ⟨rfl, stopped.cons _ _ _⟩
      · obtain ⟨sameEngine, sameReport⟩ :=
          inductionHypothesis (engine.runTop .script (Utf8.encode line.text)).2 sameRest
        exact ⟨sameEngine, sameReport.cons _ _ _⟩

/-- Scripts whose lines have the same texts differ in the numbers of their
reports only. -/
theorem runScript_congr
    (engine : Engine)
    {text other : String}
    (sameTexts : (logicalLines text).map (·.text) = (logicalLines other).map (·.text)) :
    (engine.runScript text).2 = (engine.runScript other).2
      ∧ (engine.runScript text).1.SameButNumbers (engine.runScript other).1 := by
  obtain ⟨sameEngine, sameReport⟩ := runLines_congr (engine.withBranches {}) sameTexts
  unfold runScript
  simp only [sameEngine]
  exact ⟨trivial, sameReport.reportOpenBlock _ _ _⟩

/-- A script reports the failures of its lines, and at the end a block that is
left open. -/
theorem failures_runScript
    (engine : Engine)
    (text : String) :
    ∃ ending, (engine.runScript text).1.failures
        = ((engine.withBranches {}).runLines (logicalLines text)).1.failures ++ ending
      ∧ (ending = [] ∨ ∃ last ∈ (logicalLines text).getLast?,
        ending = [⟨last.number, .control .missingEndif⟩]) := by
  unfold runScript reportOpenBlock
  simp only
  split
  · rename_i leftOpen
    refine ⟨_, rfl, .inr ?_⟩
    cases lines : (logicalLines text).getLast? with
    | some last => exact ⟨last, rfl, rfl⟩
    | none =>
      -- Without a line there is no block.
      rw [List.getLast?_eq_none_iff.mp lines] at leftOpen
      cases leftOpen
  · exact ⟨[], (List.append_nil _).symm, .inl rfl⟩

/-- **Continuations are transparent.** A script whose lines are cut into pieces,
each further piece on a line of its own behind blanks and a backslash, gives the
same outcome as the script with the whole lines. It is completed if that one is,
leaves the same engine and reports the same errors in the same order. A failing
line is reported with the number of the physical line at which it starts. These
numbers increase, and the report of a block that is left open, which has the
number of the last line, comes at the end. -/
theorem continuations_transparent (engine : Engine) (cuts : List CutLine) :
    let uncut := engine.runScript (written (cuts.map CutLine.whole))
    let cut := engine.runScript (written (cuts.flatMap CutLine.physical))
    cut.1.outcome = uncut.1.outcome
    ∧ cut.1.completed = uncut.1.completed
    ∧ cut.2 = uncut.2
    ∧ cut.1.failures.map (·.error) = uncut.1.failures.map (·.error)
    ∧ (cut.1.failures.map (·.line)).Pairwise (· ≤ ·)
    ∧ ∃ own ending, cut.1.failures = own ++ ending
      ∧ own = failuresAt (CutLine.starts 1 cuts)
          ((engine.withBranches {}).lineReplies (cuts.map CutLine.whole))
      ∧ (own.map (·.line)).Pairwise (· < ·)
      ∧ (ending = [] ∨ ∃ last ∈ (CutLine.starts 1 cuts).getLast?,
          ending = [⟨last, .control .missingEndif⟩]) := by
  intro uncut cut
  have lines := logicalLines_cut cuts
  have sameTexts : (logicalLines (written (cuts.flatMap CutLine.physical))).map (·.text)
      = (logicalLines (written (cuts.map CutLine.whole))).map (·.text) := by
    rw [lines, CutLine.map_text_numbered, texts_whole]
  obtain ⟨sameEngine, same⟩ := runScript_congr engine sameTexts
  obtain ⟨ending, failures, atEnd⟩ :=
    failures_runScript engine (written (cuts.flatMap CutLine.physical))
  rw [failures_runLines, lines, CutLine.map_number_numbered, CutLine.map_text_numbered] at failures
  have lastStart : ending = [] ∨ ∃ last ∈ (CutLine.starts 1 cuts).getLast?,
      ending = [⟨last, .control .missingEndif⟩] := by
    refine atEnd.imp_right fun ⟨last, isLast, isEnding⟩ => ⟨last.number, ?_, isEnding⟩
    rw [← CutLine.map_number_numbered, List.getLast?_map, ← lines, isLast]
    rfl
  have increasing := CutLine.pairwise_starts 1 cuts
  have within := sublist_failuresAt (CutLine.starts 1 cuts)
    ((engine.withBranches {}).lineReplies (cuts.map CutLine.whole))
  refine ⟨same.outcome, same.completed, sameEngine, same.errors, ?_, _, ending, failures, rfl,
    increasing.sublist within, lastStart⟩
  show ((engine.runScript _).1.failures.map (·.line)).Pairwise (· ≤ ·)
  rw [failures, List.map_append]
  apply pairwise_append_last increasing within
  rcases lastStart with rfl | ⟨last, isLast, rfl⟩
  · exact .inl rfl
  · exact .inr ⟨last, isLast, rfl⟩

/-- The lines `3,1` and `z`, the first of them in three pieces. -/
def rangeInPieces : List CutLine :=
  [⟨['3'],
      [⟨[' ', '\t'], [','], List.all_eq_true.mp rfl⟩, ⟨[], ['1'], List.all_eq_true.mp rfl⟩],
      ⟨by decide, by decide⟩⟩,
    ⟨['z'], [], ⟨by decide, by decide⟩⟩]

/-- The range moves the cursor as it does in one piece, and the unknown command
is reported for the fourth physical line. -/
theorem continuations_transparent_range_in_pieces :
    let engine : Engine := { view := { length := 3 } }
    (engine.runScript "3\n \t\\,\n\\1\nz\n").2 = (engine.runScript "3,1\nz\n").2
    ∧ (engine.runScript "3\n \t\\,\n\\1\nz\n").2.view.cursor = 2
    ∧ (engine.runScript "3\n \t\\,\n\\1\nz\n").1.failures
      = [⟨4, .noSuchCommand "z"⟩] := by
  intro engine
  have inPieces : written (rangeInPieces.flatMap CutLine.physical)
      = "3\n \t\\,\n\\1\nz\n" := by decide
  have inOne : written (rangeInPieces.map CutLine.whole) = "3,1\nz\n" := by decide
  have same := (continuations_transparent engine rangeInPieces).2.2.1
  rw [inPieces, inOne] at same
  exact ⟨same, by decide +kernel, by decide +kernel⟩

end Engine

end ExLine

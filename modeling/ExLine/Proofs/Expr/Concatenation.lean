import ExLine.Proofs.Expr.SideBySide

/-!
Contract: the tokens of texts that are put together, and of texts that are cut.

Owns:
- for each way of reading a token, that the token is read alike when the text is
  cut somewhere behind it;
- `Token.exists_cut_of_lex_error`: what stands in front of a fault has tokens;
- `LexError.offset_append`, by which the place of a fault moves with its text;
- `Token.lexing_is_stable`: blanks between two texts keep their tokens apart, and
  a fault lies inside its text.

Does not own: the tokens of a text in front of a blank (`ExLine.Proofs.Expr.SideBySide`).

A reader takes the longest token, so what it takes depends on all that follows. A
cut behind a token only takes away what the token could have gone on with: nothing
completes an operator of one character, and a literal that ends at the first of two
quotes because nothing closes the second still ends there.
-/

set_option autoImplicit false

namespace ExLine

namespace Token

/-! ## One token -/

section Cut

variable {chars after more text : List Char} {token : Token}

theorem readOperator_of_cut
    (found : readOperator (chars ++ more) = some (token, after ++ more)) :
    readOperator chars = some (token, after) := by
  unfold readOperator at found
  split at found
  case h_19 => cases found
  case h_1 | h_2 | h_3 | h_5 | h_7 | h_9 | h_11 | h_13 | h_15 =>
    rename_i rest shape
    obtain ⟨rfl, rfl⟩ := Prod.mk.inj (Option.some.inj found)
    obtain rfl : chars = _ :: _ :: after := List.append_cancel_right shape
    rfl
  case h_17 | h_18 =>
    rename_i rest shape
    obtain ⟨rfl, rfl⟩ := Prod.mk.inj (Option.some.inj found)
    obtain rfl : chars = _ :: after := List.append_cancel_right shape
    rfl
  all_goals
    rename_i rest noPair shape
    obtain ⟨rfl, rfl⟩ := Prod.mk.inj (Option.some.inj found)
    obtain rfl : chars = _ :: after := List.append_cancel_right shape
    rw [readOperator]
    intro later isPair
    exact noPair (later ++ more) (by rw [isPair]; rfl)

theorem readSingle_eq_none_iff : readSingle chars = none ↔ '\'' ∉ chars := by
  fun_induction readSingle chars with
  | case1 => simp
  | case2 => simp
  | case3 => simp
  | case4 => simp
  | case5 char rest _ noQuote inductionHypothesis =>
    rw [Option.map_eq_none_iff, inductionHypothesis, List.mem_cons, not_or]
    exact ⟨fun absent => ⟨Ne.symm noQuote, absent⟩, fun absent => absent.2⟩

theorem readSingle_of_cut
    (found : readSingle (chars ++ more) = some (text, after ++ more)) :
    readSingle chars = some (text, after) := by
  generalize whole : chars ++ more = all at found
  fun_induction readSingle all generalizing chars text with
  | case1 => cases found
  | case2 rest inner innerAfter readInner inductionHypothesis =>
    cases found
    obtain ⟨taken, rfl, -⟩ := passes_of_readSingle readInner
    rw [← List.append_assoc] at whole
    obtain rfl : chars = '\'' :: '\'' :: (taken ++ after) := List.append_cancel_right whole
    rw [readSingle, inductionHypothesis (List.append_assoc _ _ _) readInner]
  | case3 rest notClosed =>
    -- Nothing closes the second quote in the longer text, so nothing does after the cut.
    obtain ⟨rfl, same⟩ := Prod.mk.inj (Option.some.inj found)
    rw [same] at whole
    obtain rfl : chars = '\'' :: after := List.append_cancel_right whole
    cases after with
    | nil => rfl
    | cons quote later =>
      obtain ⟨rfl, rfl⟩ := List.cons.inj same
      have notLater : readSingle later = none := readSingle_eq_none_iff.mpr fun member =>
        readSingle_eq_none_iff.mp notClosed (List.mem_append_left more member)
      rw [readSingle, notLater]
  | case4 rest noPair =>
    cases found
    obtain rfl : chars = '\'' :: after := List.append_cancel_right whole
    rw [readSingle]
    intro later isPair
    exact noPair (later ++ more) (by rw [isPair]; rfl)
  | case5 char rest _ noQuote inductionHypothesis =>
    obtain ⟨⟨inner, innerAfter⟩, readInner, same⟩ := Option.map_eq_some_iff.mp found
    cases same
    obtain ⟨taken, rfl, -⟩ := passes_of_readSingle readInner
    rw [← List.append_assoc] at whole
    obtain rfl : chars = char :: (taken ++ after) := List.append_cancel_right whole
    rw [readSingle_cons noQuote, inductionHypothesis (List.append_assoc _ _ _) readInner]
    rfl

theorem readDouble_of_cut
    (found : readDouble (chars ++ more) = some (text, after ++ more)) :
    readDouble chars = some (text, after) := by
  generalize whole : chars ++ more = all at found
  fun_induction readDouble all generalizing chars text with
  | case1 => cases found
  | case2 rest =>
    cases found
    obtain rfl : chars = '"' :: after := List.append_cancel_right whole
    rfl
  | case3 => cases found
  | case4 => cases found
  | case5 char rest noBreak inductionHypothesis =>
    obtain ⟨⟨inner, innerAfter⟩, readInner, same⟩ := Option.map_eq_some_iff.mp found
    cases same
    obtain ⟨taken, rfl, -⟩ := passes_of_readDouble readInner
    rw [← List.append_assoc] at whole
    obtain rfl : chars = '\\' :: char :: (taken ++ after) := List.append_cancel_right whole
    rw [readDouble, if_neg noBreak, inductionHypothesis (List.append_assoc _ _ _) readInner]
    rfl
  | case6 char rest noQuote notLast notEscape inductionHypothesis =>
    have noBackslash : char ≠ '\\' := ne_backslash_of_plain notLast notEscape
    obtain ⟨⟨inner, innerAfter⟩, readInner, same⟩ := Option.map_eq_some_iff.mp found
    cases same
    obtain ⟨taken, rfl, -⟩ := passes_of_readDouble readInner
    rw [← List.append_assoc] at whole
    obtain rfl : chars = char :: (taken ++ after) := List.append_cancel_right whole
    rw [readDouble_cons noQuote noBackslash,
      inductionHypothesis (List.append_assoc _ _ _) readInner]
    rfl

/-- A name that ends in front of a cut starts in front of it. -/
theorem ne_nil_of_name_cut
    (starts : (chars ++ more).head?.any Chars.isNameStart)
    (left : (chars ++ more).dropWhile Chars.isNameChar = after ++ more) :
    chars ≠ [] := by
  rintro rfl
  obtain ⟨name, -⟩ := run_of_cut left
  cases more with
  | nil => cases starts
  | cons first others =>
    have inName : Chars.isNameChar first := Chars.isNameChar_of_isNameStart starts
    rw [List.nil_append, List.takeWhile_cons_of_pos inName] at name
    cases name

/-- A token that ends before a place is read as well when the text is cut at that
place. -/
theorem read_of_cut (found : read (chars ++ more) = .ok (token, after ++ more)) :
    read chars = .ok (token, after) := by
  have shorter := length_lt_of_read found
  cases chars with
  | nil =>
    rw [List.nil_append, List.length_append] at shorter
    omega
  | cons char rest =>
    rw [List.cons_append, read] at found
    rw [read]
    split at found
    · rename_i isSingle
      rw [if_pos isSingle]
      split at found
      · rename_i readIt
        cases found
        rw [readSingle_of_cut readIt]
      · cases found
    rename_i noSingle
    rw [if_neg noSingle]
    split at found
    · rename_i isDouble
      rw [if_pos isDouble]
      split at found
      · rename_i readIt
        cases found
        rw [readDouble_of_cut readIt]
      · cases found
    rename_i noDouble
    rw [if_neg noDouble]
    rw [← List.cons_append] at found
    split at found
    · rename_i digit
      obtain ⟨number, isNumber, same⟩ := bind_eq_ok_iff.mp found
      obtain ⟨rfl, left⟩ := Prod.mk.inj (pure_eq_ok_iff.mp same)
      obtain ⟨digits, behind⟩ := run_of_cut left.symm
      rw [if_pos digit, digits, behind, isNumber]
      rfl
    rename_i noDigit
    rw [if_neg noDigit]
    split at found
    · rename_i starts
      obtain ⟨rfl, left⟩ := Prod.mk.inj (Except.ok.inj found)
      obtain ⟨name, behind⟩ := run_of_cut left
      rw [if_pos starts, name, behind]
    rename_i noStart
    rw [if_neg noStart]
    split at found
    · rename_i isEnv
      obtain ⟨rfl, left⟩ := Prod.mk.inj (Except.ok.inj found)
      obtain ⟨name, behind⟩ := run_of_cut left
      rw [List.head?_append_of_ne_nil _
        (ne_nil_of_name_cut (Bool.and_eq_true_iff.mp isEnv).2 left)] at isEnv
      rw [if_pos isEnv, name, behind]
    · rename_i noEnv
      have noEnvCut : ¬ (char = '$' && rest.head?.any Chars.isNameStart) := by
        intro isEnv
        apply noEnv
        cases rest with
        | nil => simp at isEnv
        | cons first rest => exact isEnv
      rw [if_neg noEnvCut]
      split at found
      · rename_i readIt
        cases found
        rw [readOperator_of_cut readIt]
      · cases found

end Cut

end Token

/-! ## The place of a fault -/

theorem LexError.offset_append (error : LexError) (before : List Char) :
    error.offset (before ++ error.unread) = (Utf8.encode before).length := by
  rw [offset, Utf8.encode_append, List.length_append, Nat.add_sub_cancel]

namespace Token

/-- Blanks in front of a text change neither its tokens nor its fault. -/
theorem lex_blanks_append
    {blanks : List Char}
    (blank : ∀ char ∈ blanks, Chars.isBlank char)
    (chars : List Char) :
    lex (blanks ++ chars) = lex chars := by
  rw [← lex_dropWhile, List.dropWhile_append_of_pos blank, lex_dropWhile]

/-- What stands in front of a fault has tokens, and something stands at the fault. -/
theorem exists_cut_of_lex_error
    {chars : List Char}
    {error : LexError}
    (failed : lex chars = .error error) :
    ∃ before tokens, chars = before ++ error.unread ∧ error.unread ≠ []
      ∧ lex before = .ok tokens := by
  fun_induction lex chars with
  | case1 => cases failed
  | case2 char rest isBlank inductionHypothesis =>
    obtain ⟨before, tokens, same, unread, lexed⟩ := inductionHypothesis failed
    exact ⟨char :: before, tokens, congrArg (char :: ·) same, unread,
      (lex_of_blank isBlank).trans lexed⟩
  | case3 char rest noBlank token after found inductionHypothesis =>
    rcases bind_eq_error_iff.mp failed with failedLater | ⟨later, -, none⟩
    · obtain ⟨before, tokens, rfl, unread, lexed⟩ := inductionHypothesis failedLater
      obtain ⟨taken, whole, -⟩ := passes_of_read found
      rw [← List.append_assoc] at whole
      rw [whole] at found
      have foundShorter : read (taken ++ before) = .ok (token, before) := read_of_cut found
      cases taken with
      | nil =>
        have shorter := length_lt_of_read foundShorter
        exact absurd shorter (Nat.lt_irrefl _)
      | cons first taken =>
        obtain ⟨rfl, -⟩ := List.cons.inj whole
        rw [Bool.not_eq_true] at noBlank
        exact ⟨char :: (taken ++ before), token :: tokens, whole, unread,
          lex_of_read noBlank foundShorter lexed⟩
    · cases none
  | case4 char rest noBlank fault notFound =>
    cases failed
    exact ⟨[], [], rfl, List.cons_ne_nil _ _, by rw [lex]⟩

/-! ## Whole texts -/

/-- **Blanks keep tokens apart, and a fault lies inside its text.** Let blanks
stand between a text with tokens and another text. Together they have the tokens
of both, and if the second text has a fault, they have the same fault, as many
bytes further on as now stand in front. A fault of any text lies where one of its
characters starts, and the text up to there has tokens. -/
theorem lexing_is_stable :
    (∀ first second gap tokens, lex first = .ok tokens →
        gap ≠ [] → (∀ char ∈ gap, Chars.isBlank char) →
        (∀ others, lex second = .ok others → lex (first ++ gap ++ second) = .ok (tokens ++ others))
          ∧ ∀ error, lex second = .error error →
            ∃ moved, lex (first ++ gap ++ second) = .error moved ∧ moved.fault = error.fault
              ∧ moved.offset (first ++ gap ++ second)
                = (Utf8.encode first).length + (Utf8.encode gap).length + error.offset second)
      ∧ ∀ source error, lex source = .error error →
        ∃ before tokens, source = before ++ error.unread
          ∧ error.offset source = (Utf8.encode before).length
          ∧ error.offset source < (Utf8.encode source).length
          ∧ lex before = .ok tokens := by
  constructor
  · intro first second gap tokens lexed nonempty blank
    have begins : ∀ char ∈ (gap ++ second).head?, Chars.isBlank char := by
      rw [List.head?_append_of_ne_nil _ nonempty]
      exact fun char isFirst => blank char (List.mem_of_head? isFirst)
    have together : lex (first ++ gap ++ second) = (lex second).map (tokens ++ ·) := by
      rw [List.append_assoc, lex_append lexed begins, lex_blanks_append blank]
    constructor
    · intro others lexedSecond
      rw [together, lexedSecond]
      rfl
    · intro error failed
      obtain ⟨before, -, rfl, -⟩ := exists_cut_of_lex_error failed
      refine ⟨error, by rw [together, failed]; rfl, rfl, ?_⟩
      rw [← List.append_assoc, error.offset_append, error.offset_append, Utf8.encode_append,
        Utf8.encode_append, List.length_append, List.length_append]
  · intro source error failed
    obtain ⟨before, tokens, rfl, unread, lexed⟩ := exists_cut_of_lex_error failed
    refine ⟨before, tokens, rfl, error.offset_append before, ?_, lexed⟩
    have atFault := List.length_pos_of_ne_nil (Utf8.encode_ne_nil unread)
    rw [error.offset_append, Utf8.encode_append, List.length_append]
    omega

/-- The second text ends in a doubled quote that nothing closes, so its literal ends
at the first of the two, and the second one is at fault. -/
theorem lexing_is_stable_doubled_quote :
    lex "'é' .".toList = .ok [.single "é", .dot]
      ∧ lex "= 'y''9".toList = .error ⟨.unexpectedCharacter, "'9".toList⟩
      ∧ (∃ moved, lex ("'é' .".toList ++ ['\t', ' '] ++ "= 'y''9".toList) = .error moved
        ∧ moved.fault = .unexpectedCharacter
        ∧ moved.offset ("'é' .".toList ++ ['\t', ' '] ++ "= 'y''9".toList) = 6 + 2 + 5)
      ∧ ∃ before tokens, "= 'y''9".toList = before ++ "'9".toList ∧ lex before = .ok tokens
        ∧ lex ("'é' .".toList ++ ['\t', ' '] ++ before) = .ok ([.single "é", .dot] ++ tokens) := by
  have blank : ∀ char ∈ ['\t', ' '], Chars.isBlank char :=
    List.forall_mem_cons.mpr ⟨rfl, List.forall_mem_singleton.mpr rfl⟩
  have lexed : lex "'é' .".toList = .ok [.single "é", .dot] := by decide +kernel
  have failed : lex "= 'y''9".toList = .error ⟨.unexpectedCharacter, "'9".toList⟩ := by decide +kernel
  obtain ⟨stable, inside⟩ := lexing_is_stable
  obtain ⟨before, tokens, whole, -, -, lexedBefore⟩ := inside _ _ failed
  obtain ⟨moved, together, fault, place⟩ :=
    (stable _ _ _ _ lexed (List.cons_ne_nil _ _) blank).2 _ failed
  have tokensOfBoth := (stable _ _ _ _ lexed (List.cons_ne_nil _ _) blank).1 _ lexedBefore
  exact ⟨lexed, failed, ⟨moved, together, fault, place.trans (by decide)⟩,
    before, tokens, whole, lexedBefore, tokensOfBoth⟩

end Token

end ExLine

import ExLine.Engine.Run
import ExLine.Proofs.Text.Runs
import Mathlib.Algebra.Group.Nat.Even

/-!
Contract: what becomes of the percent signs of a body.

Owns:
- `BodyPart`, a part of a body, with its written form and what it is filled
  with;
- `expandBody_append_of_even`, by which a body is expanded piece by piece: it may
  be cut wherever no pair of percent signs is cut;
- `expansion_fills_once`: the written parts are filled, each once, and no
  argument text is looked at again.

Does not own: what an expanded body does (`ExLine.Proofs.Engine.Wrappers`).

The expansion takes a percent sign together with what follows it, so in a row of
percent signs it matters at which of them a reader starts. From the left every
second one starts a pair; where the row is even, the text may be cut after it.
-/

set_option autoImplicit false

namespace ExLine

/-! ## Rows of percent signs -/

/-- The row of percent signs that a text ends in. -/
def percentRow (chars : List Char) : List Char :=
  chars.rtakeWhile (· == '%')

theorem percentRow_cons_of_ne
    {char : Char}
    (other : char ≠ '%')
    (rest : List Char) :
    percentRow (char :: rest) = percentRow rest := by
  unfold percentRow
  rw [rtakeWhile_cons, if_neg]
  intro both
  exact other (beq_iff_eq.mp both.1)

/-- A percent sign in front of another character is not in the row at the end. -/
theorem percentRow_percent_cons
    {rest : List Char}
    (nonempty : rest ≠ [])
    (other : rest.head? ≠ some '%') :
    percentRow ('%' :: rest) = percentRow rest := by
  obtain ⟨next, later, rfl⟩ := List.exists_cons_of_ne_nil nonempty
  unfold percentRow
  rw [rtakeWhile_cons, if_neg]
  intro both
  exact other (congrArg some (beq_iff_eq.mp (both.2 next List.mem_cons_self)))

theorem even_percentRow_pair (rest : List Char) :
    Even (percentRow ('%' :: '%' :: rest)).length ↔ Even (percentRow rest).length := by
  unfold percentRow
  rw [rtakeWhile_cons]
  by_cases all : ∀ item ∈ rest, (item == '%') = true
  · have whole : rest.rtakeWhile (· == '%') = rest := List.rtakeWhile_eq_self_iff.mpr all
    rw [if_pos ⟨rfl, List.forall_mem_cons.mpr ⟨rfl, all⟩⟩, whole]
    simp [Nat.even_add_one]
  · rw [if_neg, rtakeWhile_cons, if_neg]
    · exact fun both => all both.2
    · exact fun both => all (List.forall_mem_cons.mp both.2).2

/-! ## Expansion, piece by piece -/

/-- A character stands for itself if it is no percent sign, or one that makes no
pair with what follows it. -/
theorem expandBody_cons_alone
    {char : Char}
    {rest : List Char}
    (alone : char = '%' → rest.head? ≠ some 'a' ∧ rest.head? ≠ some '%')
    (args : List Char) :
    expandBody args (char :: rest) = char :: expandBody args rest := by
  rw [expandBody]
  · rintro after isPercent rfl
    exact (alone isPercent).1 rfl
  · rintro after isPercent rfl
    exact (alone isPercent).2 rfl

theorem expandBody_cons_of_ne
    {char : Char}
    (other : char ≠ '%')
    (args rest : List Char) :
    expandBody args (char :: rest) = char :: expandBody args rest :=
  expandBody_cons_alone (fun isPercent => absurd isPercent other) args

/-- The last case of the expansion, as a condition on the next character. -/
theorem alone_of_noPair
    {char : Char}
    {rest : List Char}
    (noPlace : ∀ after, char = '%' → rest = 'a' :: after → False)
    (noPair : ∀ after, char = '%' → rest = '%' :: after → False)
    (isPercent : char = '%') :
    rest.head? ≠ some 'a' ∧ rest.head? ≠ some '%' := by
  constructor
  · intro first
    obtain ⟨after, shape⟩ := List.head?_eq_some_iff.mp first
    exact noPlace after isPercent shape
  · intro first
    obtain ⟨after, shape⟩ := List.head?_eq_some_iff.mp first
    exact noPair after isPercent shape

/-- A body may be cut wherever the percent signs in front of the cut are even in
number. -/
theorem expandBody_append_of_even
    {before : List Char}
    (even : Even (percentRow before).length)
    (args rest : List Char) :
    expandBody args (before ++ rest) = expandBody args before ++ expandBody args rest := by
  fun_induction expandBody args before with
  | case1 => rfl
  | case2 before inductionHypothesis =>
    rw [percentRow_percent_cons (List.cons_ne_nil _ _) (by simp),
      percentRow_cons_of_ne (by decide)] at even
    rw [List.cons_append, List.cons_append, expandBody, inductionHypothesis even,
      List.append_assoc]
  | case3 before inductionHypothesis =>
    rw [even_percentRow_pair] at even
    rw [List.cons_append, List.cons_append, expandBody, inductionHypothesis even,
      List.cons_append]
  | case4 char before noPlace noPair inductionHypothesis =>
    have alone := alone_of_noPair noPlace noPair
    -- A percent sign at the cut would be a row of one.
    have nonempty : char = '%' → before ≠ [] := by
      rintro rfl rfl
      exact absurd even (by decide)
    have evenLater : Even (percentRow before).length := by
      by_cases isPercent : char = '%'
      · subst isPercent
        rwa [percentRow_percent_cons (nonempty rfl) (alone rfl).2] at even
      · rwa [percentRow_cons_of_ne isPercent] at even
    have aloneStill (isPercent : char = '%') :
        (before ++ rest).head? ≠ some 'a' ∧ (before ++ rest).head? ≠ some '%' := by
      rw [List.head?_append_of_ne_nil before (nonempty isPercent)]
      exact alone isPercent
    rw [List.cons_append, expandBody_cons_alone aloneStill, inductionHypothesis evenLater,
      List.cons_append]

/-- A text without a percent sign is expanded to itself. -/
theorem expandBody_append
    {chars : List Char}
    (noPercent : '%' ∉ chars)
    (args rest : List Char) :
    expandBody args (chars ++ rest) = chars ++ expandBody args rest := by
  induction chars with
  | nil => rfl
  | cons char chars inductionHypothesis =>
    have other : char ≠ '%' := by
      rintro rfl
      exact noPercent List.mem_cons_self
    have later := inductionHypothesis fun member => noPercent (List.mem_cons_of_mem _ member)
    rw [List.cons_append, expandBody_cons_of_ne other, later, List.cons_append]

/-! ## Parts of a body -/

/-- A part of a body: text that stands for itself, or the place of the
arguments. -/
inductive BodyPart where
  | literal (chars : List Char)
  | arguments
  deriving DecidableEq, Repr

namespace BodyPart

/-- A text with every percent sign written twice. -/
def doublePercents (chars : List Char) : List Char :=
  chars.flatMap fun char => if char = '%' then ['%', '%'] else [char]

/-- The part as it is written. -/
def written : BodyPart → List Char
  | .literal chars => doublePercents chars
  | .arguments => ['%', 'a']

/-- What stands in the place of the part in a call with an argument text. -/
def filled (args : List Char) : BodyPart → List Char
  | .literal chars => chars
  | .arguments => args

theorem expandBody_doublePercents (args chars rest : List Char) :
    expandBody args (doublePercents chars ++ rest) = chars ++ expandBody args rest := by
  induction chars with
  | nil => rfl
  | cons char chars inductionHypothesis =>
    unfold doublePercents at inductionHypothesis ⊢
    rw [List.flatMap_cons, List.append_assoc]
    split
    · rename_i isPercent
      rw [List.cons_append, List.cons_append, List.nil_append, expandBody, inductionHypothesis,
        isPercent, List.cons_append]
    · rename_i other
      rw [List.cons_append, List.nil_append, expandBody_cons_of_ne other, inductionHypothesis,
        List.cons_append]

theorem expandBody_written (args : List Char) (parts : List BodyPart) :
    expandBody args (parts.flatMap written) = parts.flatMap (filled args) := by
  induction parts with
  | nil => rfl
  | cons part parts inductionHypothesis =>
    rw [List.flatMap_cons, List.flatMap_cons]
    cases part with
    | literal chars =>
      show expandBody args (doublePercents chars ++ parts.flatMap written) = chars ++ _
      rw [expandBody_doublePercents, inductionHypothesis]
    | arguments => exact congrArg (args ++ ·) inductionHypothesis

/-- The parts of a body do not depend on the arguments. -/
theorem exists_parts (body : List Char) :
    ∃ parts : List BodyPart, ∀ args, expandBody args body = parts.flatMap (filled args) := by
  fun_induction expandBody [] body with
  | case1 => exact ⟨[], fun _ => rfl⟩
  | case2 rest inductionHypothesis =>
    obtain ⟨parts, law⟩ := inductionHypothesis
    exact ⟨.arguments :: parts, fun args => congrArg (args ++ ·) (law args)⟩
  | case3 rest inductionHypothesis =>
    obtain ⟨parts, law⟩ := inductionHypothesis
    exact ⟨.literal ['%'] :: parts, fun args => congrArg ('%' :: ·) (law args)⟩
  | case4 char rest noPlace noPair inductionHypothesis =>
    obtain ⟨parts, law⟩ := inductionHypothesis
    refine ⟨.literal [char] :: parts, fun args => ?_⟩
    rw [expandBody_cons_alone (alone_of_noPair noPlace noPair), law args]
    rfl

end BodyPart

open BodyPart

/-- **A body is filled in one pass.** Text with its percent signs written twice
and places for the arguments come back as that text with the arguments in those
places, whatever the arguments hold. Every body is such a row of parts for all
arguments alike, so nothing that was put in is expanded. A body without percent
signs stays as it is, and so does a percent sign that starts no pair: one that
follows an even row of them and precedes neither an `a` nor another. -/
theorem expansion_fills_once :
    (∀ args (parts : List BodyPart),
        expandBody args (parts.flatMap written) = parts.flatMap (filled args))
      ∧ (∀ body, ∃ parts : List BodyPart, ∀ args,
        expandBody args body = parts.flatMap (filled args))
      ∧ (∀ args body, '%' ∉ body → expandBody args body = body)
      ∧ ∀ args before rest, Even (percentRow before).length →
        rest.head? ≠ some 'a' → rest.head? ≠ some '%' →
        expandBody args (before ++ '%' :: rest)
          = expandBody args before ++ '%' :: expandBody args rest := by
  refine ⟨expandBody_written, exists_parts, ?_, ?_⟩
  · intro args body noPercent
    have expanded := expandBody_append noPercent args []
    rwa [List.append_nil, expandBody, List.append_nil] at expanded
  · intro args before rest even noPlace noPair
    rw [expandBody_append_of_even even, expandBody_cons_alone fun _ => ⟨noPlace, noPair⟩]

/-- The body `%%%a%a%%%` with arguments that look like the body itself. The last
percent sign stands at the end, after an even row. -/
theorem expansion_fills_once_with_own_text :
    expandBody "a%%%a".toList "%%%a%a%%".toList = "%a%%%aa%%%a%".toList
      ∧ Even (percentRow "%%%a%a%%".toList).length
      ∧ expandBody "a%%%a".toList ("%%%a%a%%".toList ++ ['%']) = "%a%%%aa%%%a%%".toList := by
  obtain ⟨filledIn, -, -, keeps⟩ := expansion_fills_once
  have first : expandBody "a%%%a".toList "%%%a%a%%".toList = "%a%%%aa%%%a%".toList :=
    filledIn "a%%%a".toList [.literal ['%'], .arguments, .arguments, .literal ['%']]
  have even : Even (percentRow "%%%a%a%%".toList).length := by decide
  refine ⟨first, even, ?_⟩
  rw [keeps "a%%%a".toList _ [] even (by decide) (by decide), first]
  rfl

end ExLine

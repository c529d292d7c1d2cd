import ExLine.Proofs.Line.Arguments
import Mathlib.Data.List.DropRight
import Mathlib.Data.List.TakeWhile

/-!
Contract: white space at the ends of a text.

Owns:
- which texts trimming on the right, and trimming on both sides, leaves alone;
- when the two give the same;
- `Chars.dropRightWhile_trimEnd`, by which the unescaped blanks at the end are
  part of the white space there.

Does not own: blanks that a backslash escapes (`ExLine.Proofs.Line.Padding`).
-/

set_option autoImplicit false

namespace ExLine.Chars

section Class

variable {holds : Char → Bool} {chars : List Char}

theorem dropWhile_eq_self_iff :
    chars.dropWhile holds = chars ↔ ∀ first ∈ chars.head?, holds first = false := by
  cases chars with
  | nil => simp
  | cons first rest => simp [List.dropWhile_eq_self_iff]

theorem dropRightWhile_eq_self_iff :
    dropRightWhile holds chars = chars ↔ ∀ last ∈ chars.getLast?, holds last = false := by
  have fromLeft : dropRightWhile holds chars = chars
      ↔ chars.reverse.dropWhile holds = chars.reverse := List.reverse_eq_iff
  rw [fromLeft, dropWhile_eq_self_iff, List.head?_reverse]

theorem dropRightWhile_eq_nil_iff :
    dropRightWhile holds chars = [] ↔ ∀ char ∈ chars, holds char :=
  List.rdropWhile_eq_nil_iff

theorem dropRightWhile_cons (first : Char) (rest : List Char) :
    dropRightWhile holds (first :: rest)
      = if holds first ∧ dropRightWhile holds rest = [] then []
        else first :: dropRightWhile holds rest := by
  unfold dropRightWhile
  rw [List.reverse_cons, List.dropWhile_append]
  by_cases ended : rest.reverse.dropWhile holds = []
  · by_cases dropped : holds first
    · simp [ended, dropped]
    · simp [ended, dropped]
  · simp [ended]

/-- Trimming on both sides may start at either. -/
theorem dropRightWhile_dropWhile :
    dropRightWhile holds (chars.dropWhile holds)
      = (dropRightWhile holds chars).dropWhile holds := by
  induction chars with
  | nil => rfl
  | cons first rest inductionHypothesis =>
    rw [dropRightWhile_cons]
    by_cases dropped : holds first
    · rw [List.dropWhile_cons_of_pos dropped, inductionHypothesis]
      split
      · rename_i ended
        rw [ended.2]
      · rw [List.dropWhile_cons_of_pos dropped]
    · rw [List.dropWhile_cons_of_neg dropped, dropRightWhile_cons,
        if_neg (fun ended => dropped ended.1), List.dropWhile_cons_of_neg dropped]

/-- Trimming on both sides leaves a text alone if each side does. -/
theorem trimmed_eq_self_iff :
    dropRightWhile holds (chars.dropWhile holds) = chars ↔
      (∀ first ∈ chars.head?, holds first = false)
        ∧ ∀ last ∈ chars.getLast?, holds last = false := by
  rw [← dropWhile_eq_self_iff, ← dropRightWhile_eq_self_iff]
  constructor
  · intro same
    have front : chars.dropWhile holds = chars := by
      have shorter : (dropRightWhile holds (chars.dropWhile holds)).length
          ≤ (chars.dropWhile holds).length := (List.rdropWhile_prefix holds _).length_le
      rw [same] at shorter
      exact (List.dropWhile_sublist holds).eq_of_length_le shorter
    rw [front] at same
    exact ⟨front, same⟩
  · rintro ⟨front, back⟩
    rw [front, back]

/-- What is trimmed on the right needs no trimming on the left if nothing is
left of it, or the text needs none. -/
theorem trimmed_eq_dropRightWhile_iff :
    dropRightWhile holds (chars.dropWhile holds) = dropRightWhile holds chars ↔
      (∀ char ∈ chars, holds char) ∨ ∀ first ∈ chars.head?, holds first = false := by
  rw [dropRightWhile_dropWhile, dropWhile_eq_self_iff, ← dropRightWhile_eq_nil_iff]
  by_cases ended : dropRightWhile holds chars = []
  · simp [ended]
  · have sameHead : (dropRightWhile holds chars).head? = chars.head? := by
      cases chars with
      | nil => rfl
      | cons first rest =>
        rw [dropRightWhile_cons] at ended ⊢
        split
        · rename_i all
          rw [if_pos all] at ended
          exact absurd rfl ended
        · rfl
    rw [sameHead]
    simp [ended]

end Class

theorem isWhitespace_of_isBlank {char : Char} (blank : isBlank char) : isWhitespace char := by
  simp only [isBlank, Bool.or_eq_true, beq_iff_eq] at blank
  rcases blank with rfl | rfl
  · decide
  · decide

theorem dropRightWhile_trimEnd (chars : List Char) :
    dropRightWhile isWhitespace (trimEnd chars) = dropRightWhile isWhitespace chars := by
  have sameFromRight (reversed : List Char) :
      (dropUnescapedBlanks reversed).dropWhile isWhitespace
        = reversed.dropWhile isWhitespace := by
    induction reversed with
    | nil => rfl
    | cons char before inductionHypothesis =>
      unfold dropUnescapedBlanks
      simp only
      split
      · rename_i dropped
        rw [Bool.and_eq_true] at dropped
        rw [inductionHypothesis, List.dropWhile_cons_of_pos (isWhitespace_of_isBlank dropped.1)]
      · rfl
  unfold dropRightWhile trimEnd
  rw [List.reverse_reverse, sameFromRight]

end ExLine.Chars

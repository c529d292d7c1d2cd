import Mathlib.Data.List.DropRight
import Mathlib.Data.List.TakeWhile

/-!
Contract: runs of items of one class in a list.

Owns:
- the run that a list starts with, in front of items that do not go on with it,
  and after items behind it have been cut off;
- `rtakeWhile_cons`, by which the run that a list ends in is found from the left.

Does not own: which classes the readers of a text ask for.
-/

set_option autoImplicit false

namespace ExLine

variable {α : Type} {holds : α → Bool}

/-! ## In front of other items -/

section Stop

variable {more : List α} (stops : ∀ item ∈ more.head?, holds item = false)

include stops

/-- A run is not longer for what follows, if that does not go on with it. -/
theorem takeWhile_append_of_stop (items : List α) :
    (items ++ more).takeWhile holds = items.takeWhile holds := by
  induction items with
  | nil =>
    cases more with
    | nil => rfl
    | cons item rest =>
      rw [List.nil_append, List.takeWhile_cons, stops item rfl]
      rfl
  | cons item items inductionHypothesis =>
    rw [List.cons_append, List.takeWhile_cons, List.takeWhile_cons, inductionHypothesis]

theorem dropWhile_append_of_stop (items : List α) :
    (items ++ more).dropWhile holds = items.dropWhile holds ++ more := by
  induction items with
  | nil =>
    cases more with
    | nil => rfl
    | cons item rest =>
      rw [List.nil_append, List.dropWhile_cons, stops item rfl]
      rfl
  | cons item items inductionHypothesis =>
    rw [List.cons_append, List.dropWhile_cons, List.dropWhile_cons, inductionHypothesis]
    split <;> rfl

end Stop

/-! ## After a cut -/

/-- A run that ends before a place ends there as well if the list is cut at that
place. -/
theorem run_of_cut
    {items after more : List α}
    (left : (items ++ more).dropWhile holds = after ++ more) :
    items.takeWhile holds = (items ++ more).takeWhile holds ∧ items.dropWhile holds = after := by
  have parts := List.takeWhile_append_dropWhile (p := holds) (l := items ++ more)
  rw [left, ← List.append_assoc] at parts
  have same := List.append_cancel_right parts
  generalize run : (items ++ more).takeWhile holds = taken at same
  have inRun : ∀ item ∈ taken, holds item := by
    rw [← run]
    exact List.all_eq_true.mp List.all_takeWhile
  have ended : ∀ item ∈ after.head?, holds item = false := by
    intro item first
    obtain ⟨rest, rfl⟩ := List.head?_eq_some_iff.mp first
    have stopped := List.head?_dropWhile_not holds (items ++ more)
    rw [left] at stopped
    simpa using stopped
  rw [← same, List.takeWhile_append_of_pos inRun, List.dropWhile_append_of_pos inRun]
  cases after with
  | nil => simp
  | cons item rest => simp [ended item rfl]

/-! ## At the end -/

theorem rtakeWhile_cons (holds : α → Bool) (first : α) (rest : List α) :
    (first :: rest).rtakeWhile holds
      = if holds first ∧ ∀ item ∈ rest, holds item then first :: rest
        else rest.rtakeWhile holds := by
  unfold List.rtakeWhile
  rw [List.reverse_cons, List.takeWhile_append]
  by_cases all : ∀ item ∈ rest, holds item
  · have whole : rest.reverse.takeWhile holds = rest.reverse :=
      List.takeWhile_eq_self_iff.mpr fun item member => all item (List.mem_reverse.mp member)
    rw [if_pos (congrArg List.length whole), whole]
    by_cases here : holds first
    · rw [if_pos ⟨here, all⟩, List.takeWhile_cons_of_pos here]
      simp
    · rw [if_neg (fun both => here both.1), List.takeWhile_cons_of_neg here]
      simp
  · have part : (rest.reverse.takeWhile holds).length ≠ rest.reverse.length := by
      intro sameLength
      have whole := (List.takeWhile_prefix holds).eq_of_length sameLength
      exact all fun item member =>
        List.takeWhile_eq_self_iff.mp whole item (List.mem_reverse.mpr member)
    rw [if_neg part, if_neg (fun both => all both.2)]

end ExLine

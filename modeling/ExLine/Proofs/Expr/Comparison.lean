import ExLine.Expr.Eval
import ExLine.Proofs.Expr.Decimal
import Mathlib.Data.Int.Order.Basic
import Mathlib.Data.String.Basic

/-!
Contract: the comparison operators on values of both kinds.

Owns:
- `Value.order_eq_iff`, by which two values are equal exactly if they are written
  alike, `Value.Precedes` with `Value.order_lt_iff`, and `Value.swap_order`;
- `BinaryOp.asking`, the operator that asks for an order, and what it yields;
- `BinaryOp.comparisons_coherent`.

Does not own: how an integer is written (`ExLine.Proofs.Expr.Decimal`).

Two integers are compared as numbers, and any other pair as texts. Equality does
not show which of the two has been done, because different integers have
different texts. The order does show it, and so it is not transitive.
-/

set_option autoImplicit false

namespace ExLine

/-! ## The order of two values -/

namespace Value

/-- Integers are read back from their texts, but the text of the least one is read as
its successor. So that one is told apart by its text itself. -/
theorem text_int_eq_iff {first second : Int64} :
    (Value.int first).text = (Value.int second).text ↔ first = second := by
  refine ⟨fun same => ?_, fun same => same ▸ rfl⟩
  have readBack : (Value.str (Value.int first).text).toInt
      = (Value.str (Value.int second).text).toInt := by rw [same]
  rw [toInt_text, toInt_text] at readBack
  have least : (Value.int Int64.minValue).text ≠ (Value.int (Int64.minValue + 1)).text := by decide
  split at readBack <;> split at readBack
  · rename_i isLeast isLeastToo
    rw [isLeast, isLeastToo]
  · rename_i isLeast _
    rw [isLeast, ← readBack] at same
    exact absurd same least
  · rename_i _ isLeast
    rw [isLeast, readBack] at same
    exact absurd same.symm least
  · exact readBack

theorem order_eq_iff {left right : Value} :
    left.order right = .eq ↔ left.text = right.text := by
  cases left with
  | str first => exact Std.compare_eq_iff_eq
  | int first =>
    cases right with
    | str second => exact Std.compare_eq_iff_eq
    | int second =>
      show compare first.toInt second.toInt = .eq ↔ _
      rw [text_int_eq_iff, Std.compare_eq_iff_eq, Int64.toInt_inj]

/-- Of two integers the smaller one comes first, and of any other two values the
one whose text comes first. -/
def Precedes : Value → Value → Prop
  | .int first, .int second => first < second
  | left, right => left.text < right.text

theorem order_lt_iff {left right : Value} : left.order right = .lt ↔ left.Precedes right := by
  cases left with
  | str first => exact compare_lt_iff_lt
  | int first =>
    cases right with
    | str second => exact compare_lt_iff_lt
    | int second =>
      show compare first.toInt second.toInt = .lt ↔ first < second
      rw [compare_lt_iff_lt, Int64.lt_iff_toInt_lt]

theorem swap_order (left right : Value) :
    (left.order right).swap = right.order left := by
  cases left with
  | int first | str first =>
    cases right with
    | int second | str second =>
      simp only [order]
      exact Std.OrientedOrd.eq_swap.symm

theorem ofBool_eq_one_iff {flag : Bool} : Value.ofBool flag = .int 1 ↔ flag = true := by
  cases flag with
  | false => decide
  | true => decide

end Value

theorem UnaryOp.not_ofBool (flag : Bool) :
    UnaryOp.not.apply (.ofBool flag) = .ofBool !flag := by
  cases flag with
  | false => rfl
  | true => rfl

/-! ## The operators -/

namespace BinaryOp

/-- The operator that asks whether two values stand in a given order. -/
def asking : Ordering → BinaryOp
  | .lt => .lt
  | .eq => .eq
  | .gt => .gt

theorem mem_iff_asking {op : BinaryOp} :
    op ∈ [BinaryOp.lt, .eq, .gt] ↔ ∃ ordering, op = asking ordering := by
  constructor
  · simp only [List.mem_cons, List.not_mem_nil, or_false]
    rintro (rfl | rfl | rfl)
    · exact ⟨.lt, rfl⟩
    · exact ⟨.eq, rfl⟩
    · exact ⟨.gt, rfl⟩
  · rintro ⟨ordering, rfl⟩
    cases ordering with
    | lt | eq | gt => decide

theorem apply_asking (ordering : Ordering) (left right : Value) :
    (asking ordering).apply left right = .ofBool (left.order right == ordering) := by
  cases ordering with
  | lt | eq | gt => rfl

theorem asking_yields_iff {ordering : Ordering} {left right : Value} :
    (asking ordering).apply left right = .int 1 ↔ left.order right = ordering := by
  rw [apply_asking, Value.ofBool_eq_one_iff, beq_iff_eq]

theorem eq_yields_iff {left right : Value} :
    BinaryOp.eq.apply left right = .int 1 ↔ left.text = right.text :=
  (@asking_yields_iff .eq left right).trans Value.order_eq_iff

theorem equivalence_eq :
    Equivalence fun left right => BinaryOp.eq.apply left right = .int 1 where
  refl _ := eq_yields_iff.mpr rfl
  symm same := eq_yields_iff.mpr (eq_yields_iff.mp same).symm
  trans early late :=
    eq_yields_iff.mpr ((eq_yields_iff.mp early).trans (eq_yields_iff.mp late))

theorem existsUnique_yields (left right : Value) :
    ∃! op, op ∈ [BinaryOp.lt, .eq, .gt] ∧ op.apply left right = .int 1 := by
  refine ⟨asking (left.order right), ⟨?_, ?_⟩, ?_⟩
  · exact mem_iff_asking.mpr ⟨left.order right, rfl⟩
  · exact asking_yields_iff.mpr rfl
  · rintro op ⟨member, yields⟩
    obtain ⟨ordering, rfl⟩ := mem_iff_asking.mp member
    rw [asking_yields_iff.mp yields]

theorem lt_eq_gt_flipped (left right : Value) :
    BinaryOp.lt.apply left right = BinaryOp.gt.apply right left := by
  show Value.ofBool (left.order right == .lt) = .ofBool (right.order left == .gt)
  rw [← Value.swap_order left right]
  cases left.order right with
  | lt | eq | gt => rfl

/-- **The comparison operators are coherent on integers and texts together.** `==`
yields 1 exactly if both values are written alike, and so it is an equivalence.
`<` yields 1 exactly if the left value precedes the right one, and exactly one of
`<`, `==` and `>` yields 1. The other three are negations: `<=` of `>`, `>=` of
`<`, and `!=` of `==`. `<` is `>` with the operands exchanged. -/
theorem comparisons_coherent :
    Equivalence (fun left right => BinaryOp.eq.apply left right = .int 1)
    ∧ ∀ left right : Value,
      (BinaryOp.eq.apply left right = .int 1 ↔ left.text = right.text)
      ∧ (BinaryOp.lt.apply left right = .int 1 ↔ left.Precedes right)
      ∧ (∃! op, op ∈ [BinaryOp.lt, .eq, .gt] ∧ op.apply left right = .int 1)
      ∧ BinaryOp.le.apply left right = UnaryOp.not.apply (BinaryOp.gt.apply left right)
      ∧ BinaryOp.ge.apply left right = UnaryOp.not.apply (BinaryOp.lt.apply left right)
      ∧ BinaryOp.ne.apply left right = UnaryOp.not.apply (BinaryOp.eq.apply left right)
      ∧ BinaryOp.lt.apply left right = BinaryOp.gt.apply right left := by
  refine ⟨equivalence_eq, fun left right => ?_⟩
  refine ⟨eq_yields_iff, ?_, existsUnique_yields left right, ?_, ?_, ?_, lt_eq_gt_flipped left right⟩
  · exact (@asking_yields_iff .lt left right).trans Value.order_lt_iff
  · exact (UnaryOp.not_ofBool (left.order right == .gt)).symm
  · exact (UnaryOp.not_ofBool (left.order right == .lt)).symm
  · exact (UnaryOp.not_ofBool (left.order right == .eq)).symm

/-- Coherence goes no further: 9 comes before 10 as a number and 10 before the
text 5 as a text, but 9 does not come before the text 5. -/
example :
    BinaryOp.lt.apply (.int 9) (.int 10) = .int 1
    ∧ BinaryOp.lt.apply (.int 10) (.str "5") = .int 1
    ∧ BinaryOp.lt.apply (.int 9) (.str "5") = .int 0 := by
  decide

end BinaryOp

end ExLine

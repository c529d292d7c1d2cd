import ExLine.Proofs.Results
import ExLine.Range.Basic
import Mathlib.Algebra.Group.Nat.Defs

/-!
Contract: which written ranges denote lines of a view.

Owns:
- `Address.InView` and `RangeSpec.InView`, by which the addresses of a range are
  lines of the view;
- `LineRange.InView`, the same of a range that has been resolved;
- the laws that exactly the ranges in view can be resolved, and that what they
  resolve to is in view and in order.

Does not own: how a range is written (`ExLine.Range.Parser`).

The laws are about views that a signed 64-bit word can count. In a longer view
the number of lines is taken modulo 2^64, and an address is compared with that.
-/

set_option autoImplicit false

namespace ExLine

/-- The line that an address stands for, which need not be one of the view. -/
def Address.line (address : Address) (cursor length : Nat) : Int :=
  address.base.position cursor length + address.offset

def Address.InView (address : Address) (cursor length : Nat) : Prop :=
  0 ≤ address.line cursor length ∧ address.line cursor length < length

/-- All addresses of the range are lines of the view. -/
def RangeSpec.InView (spec : RangeSpec) (cursor length : Nat) : Prop :=
  match spec with
  | .whole => True
  | .single address => address.InView cursor length
  | .pair first second => first.InView cursor length ∧ second.InView cursor length

/-- The range is the whole view, or lines of it in order. -/
def LineRange.InView (range : LineRange) (length : Nat) : Prop :=
  match range with
  | .whole => True
  | .lines first last => first ≤ last ∧ last < length

theorem RangeSpec.resolve_single_iff
    {address : Address}
    {cursor length : Nat}
    {range : LineRange} :
    (RangeSpec.single address).resolve cursor length = .ok range ↔
      ∃ line, address.resolve cursor length = .ok line ∧ range = .lines line line := by
  simp only [RangeSpec.resolve, bind_eq_ok_iff, pure_eq_ok_iff]

theorem RangeSpec.resolve_pair_iff
    {first second : Address}
    {cursor length : Nat}
    {range : LineRange} :
    (RangeSpec.pair first second).resolve cursor length = .ok range ↔
      ∃ one, first.resolve cursor length = .ok one
        ∧ ∃ other, second.resolve cursor length = .ok other
          ∧ range = .lines (min one other) (max one other) := by
  simp only [RangeSpec.resolve, bind_eq_ok_iff, pure_eq_ok_iff]

section Bounded

variable {cursor length : Nat} (bounded : length < 2 ^ 63)

include bounded

theorem Address.resolve_eq_ok_iff
    {address : Address}
    {line : Nat} :
    address.resolve cursor length = .ok line ↔
      address.InView cursor length ∧ address.line cursor length = line := by
  have counts : wordOfCount length = length := Int64.toInt_ofNat_of_lt bounded
  unfold Address.resolve Address.InView
  rw [show address.base.position cursor length + address.offset
    = address.line cursor length from rfl, counts]
  generalize address.line cursor length = value
  simp only
  split
  · rename_i tooFar
    unfold fitsWord minWord maxWord at tooFar
    simp only [Bool.not_eq_true', Bool.and_eq_false_iff, decide_eq_false_iff_not] at tooFar
    constructor
    · intro resolved
      cases resolved
    · intro inView
      omega
  · split
    · rename_i outside
      simp only [Bool.or_eq_true, decide_eq_true_eq] at outside
      constructor
      · intro resolved
        cases resolved
      · intro inView
        omega
    · rename_i inside
      simp only [Bool.or_eq_true, decide_eq_true_eq] at inside
      rw [Except.ok.injEq]
      omega

theorem Address.exists_resolve_iff {address : Address} :
    (∃ line, address.resolve cursor length = .ok line) ↔ address.InView cursor length := by
  constructor
  · rintro ⟨line, resolved⟩
    exact ((resolve_eq_ok_iff bounded).mp resolved).1
  · intro inView
    refine ⟨(address.line cursor length).toNat, (resolve_eq_ok_iff bounded).mpr ⟨inView, ?_⟩⟩
    exact (Int.toNat_of_nonneg inView.1).symm

theorem RangeSpec.inView_of_resolve
    {spec : RangeSpec}
    {range : LineRange}
    (resolved : spec.resolve cursor length = .ok range) :
    spec.InView cursor length ∧ range.InView length := by
  cases spec with
  | whole =>
    cases resolved
    exact ⟨trivial, trivial⟩
  | single address =>
    obtain ⟨line, found, rfl⟩ := RangeSpec.resolve_single_iff.mp resolved
    obtain ⟨inView, isLine⟩ := (Address.resolve_eq_ok_iff bounded).mp found
    have below := inView.2
    exact ⟨inView, Nat.le_refl line, by omega⟩
  | pair first second =>
    obtain ⟨one, foundFirst, other, foundSecond, rfl⟩ := RangeSpec.resolve_pair_iff.mp resolved
    obtain ⟨firstInView, isOne⟩ := (Address.resolve_eq_ok_iff bounded).mp foundFirst
    obtain ⟨secondInView, isOther⟩ := (Address.resolve_eq_ok_iff bounded).mp foundSecond
    have belowFirst := firstInView.2
    have belowSecond := secondInView.2
    refine ⟨⟨firstInView, secondInView⟩, ?_, ?_⟩ <;> omega

theorem RangeSpec.exists_resolve_iff {spec : RangeSpec} :
    (∃ range, spec.resolve cursor length = .ok range) ↔ spec.InView cursor length := by
  constructor
  · rintro ⟨range, resolved⟩
    exact (inView_of_resolve bounded resolved).1
  · intro inView
    cases spec with
    | whole => exact ⟨.whole, rfl⟩
    | single address =>
      obtain ⟨line, found⟩ := (Address.exists_resolve_iff bounded).mpr inView
      exact ⟨.lines line line, resolve_single_iff.mpr ⟨line, found, rfl⟩⟩
    | pair first second =>
      obtain ⟨one, foundFirst⟩ := (Address.exists_resolve_iff bounded).mpr inView.1
      obtain ⟨other, foundSecond⟩ := (Address.exists_resolve_iff bounded).mpr inView.2
      exact ⟨_, resolve_pair_iff.mpr ⟨one, foundFirst, other, foundSecond, rfl⟩⟩

end Bounded

end ExLine

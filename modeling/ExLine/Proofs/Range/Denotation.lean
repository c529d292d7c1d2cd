import ExLine.Proofs.Range.InView
import ExLine.Proofs.Range.Written
import Mathlib.Data.Int.Order.Basic

/-!
Contract: the lines that a written range denotes, in unbounded integers and as
they are resolved.

Owns:
- `Written.Range.ends` and `Written.Range.lines`, what a written range denotes in
  a view, given how its numbers count;
- `Written.Range.resolve_spec`: a range that has been read is resolved as if every
  number in it counted up to the ceiling only;
- `Written.addresses_denote_exactly_iff`, when this is what the text says.

Does not own: how a range is written (`ExLine.Proofs.Range.Written`).

Sums of offsets and the sum with the base are checked, so they are exact wherever
an address is resolved at all. The one place where a value is changed is the
ceiling on numbers. A number over it stands for another line, and a second number
can bring that line back into the view.
-/

set_option autoImplicit false

namespace ExLine

namespace Written

/-! ## Values -/

/-- The line that a base stands for, if numbers count so. -/
def Base.position (count : Nat → Nat) (cursor length : Nat) : Base → Int
  | .line first more => (count (number (first :: more)) : Int) - 1
  | .current => cursor
  | .last => (length : Int) - 1

/-- The line that an address stands for, if numbers count so. It need not be one
of the view. -/
def Address.line (count : Nat → Nat) (cursor length : Nat) : Address → Int
  | .based base terms => base.position count cursor length + sum count terms
  | .offset first more => cursor + sum count (first :: more)

/-- A side that is left out is the cursor line. -/
def sideLine (count : Nat → Nat) (cursor length : Nat) (side : Option Address) : Int :=
  side.elim (cursor : Int) (Address.line count cursor length)

/-- The least and the greatest line that the addresses of a range stand for. The
whole view has no addresses. -/
def Range.ends (count : Nat → Nat) (cursor length : Nat) : Range → Option (Int × Int)
  | .whole => none
  | .single address => some (address.line count cursor length, address.line count cursor length)
  | .pair first second =>
    let one := sideLine count cursor length first
    let other := sideLine count cursor length second
    some (min one other, max one other)

/-- The lines that a range denotes: the whole view, or all lines between its ends
if both are lines of the view. -/
def Range.lines (count : Nat → Nat) (cursor length : Nat) (range : Range) : Option LineRange :=
  match range.ends count cursor length with
  | none => some .whole
  | some (low, high) =>
    if 0 ≤ low ∧ high < length then some (.lines low.toNat high.toNat) else none

/-- Two ways to count denote the same lines if the ends are the same, or if under
both of them an end is outside the view. -/
theorem Range.lines_eq_iff
    {range : Range}
    {count other : Nat → Nat}
    {cursor length : Nat} :
    range.lines count cursor length = range.lines other cursor length ↔
      range.ends count cursor length = range.ends other cursor length
        ∨ (range.lines count cursor length = none ∧ range.lines other cursor length = none) := by
  constructor
  · intro same
    by_cases outside : range.lines count cursor length = none
    · exact .inr ⟨outside, same ▸ outside⟩
    left
    unfold lines at same outside
    cases range with
    | whole => rfl
    | single address =>
      simp only [ends] at same outside ⊢
      grind
    | pair first second =>
      simp only [ends] at same outside ⊢
      grind
  · rintro (sameEnds | ⟨outside, outsideOther⟩)
    · unfold lines
      rw [sameEnds]
    · rw [outside, outsideOther]

/-! ## Numbers under the ceiling -/

/-- The numbers that a term writes out. -/
def Term.numbers (term : Term) : List Nat :=
  if term.digits.isEmpty then [] else [number term.digits]

def Base.numbers : Base → List Nat
  | .line first more => [number (first :: more)]
  | _ => []

def Address.numbers : Address → List Nat
  | .based base terms => base.numbers ++ terms.flatMap Term.numbers
  | .offset first more => (first :: more).flatMap Term.numbers

/-- The numbers that a range writes out. -/
def Range.numbers : Range → List Nat
  | .whole => []
  | .single address => address.numbers
  | .pair first second => first.elim [] Address.numbers ++ second.elim [] Address.numbers

section Congruence

variable {count other : Nat → Nat} {cursor length : Nat}

theorem sum_congr
    {terms : List Term}
    (alike : ∀ number ∈ terms.flatMap Term.numbers, count number = other number) :
    sum count terms = sum other terms := by
  unfold sum
  congr 1
  apply List.map_congr_left
  intro term member
  unfold Term.value
  by_cases bare : term.digits.isEmpty
  · simp only [bare, if_true]
  · have written : number term.digits ∈ terms.flatMap Term.numbers := by
      refine List.mem_flatMap.mpr ⟨term, member, ?_⟩
      unfold Term.numbers
      rw [if_neg bare]
      exact List.mem_cons_self
    simp only [bare, alike _ written]

theorem Address.line_congr
    {address : Address}
    (alike : ∀ number ∈ address.numbers, count number = other number) :
    address.line count cursor length = address.line other cursor length := by
  cases address with
  | based base terms =>
    have sameSum : sum count terms = sum other terms := sum_congr fun number member =>
      alike number (List.mem_append_right _ member)
    have sameBase : base.position count cursor length = base.position other cursor length := by
      cases base with
      | line first more =>
        have same := alike _ (List.mem_append_left _ List.mem_cons_self)
        simp only [Base.position, same]
      | current => rfl
      | last => rfl
    simp only [Address.line, sameSum, sameBase]
  | offset first more =>
    have sameSum : sum count (first :: more) = sum other (first :: more) := sum_congr alike
    simp only [Address.line, sameSum]

theorem sideLine_congr
    {side : Option Address}
    (alike : ∀ number ∈ side.elim [] Address.numbers, count number = other number) :
    sideLine count cursor length side = sideLine other cursor length side := by
  cases side with
  | none => rfl
  | some address => exact Address.line_congr alike

/-- What a range denotes depends on how the numbers in it count, and on no
others. -/
theorem Range.ends_congr
    {range : Range}
    (alike : ∀ number ∈ range.numbers, count number = other number) :
    range.ends count cursor length = range.ends other cursor length := by
  cases range with
  | whole => rfl
  | single address =>
    have same : address.line count cursor length = address.line other cursor length :=
      Address.line_congr alike
    simp only [Range.ends, same]
  | pair first second =>
    have sameFirst : sideLine count cursor length first = sideLine other cursor length first :=
      sideLine_congr fun number member => alike number (List.mem_append_left _ member)
    have sameSecond : sideLine count cursor length second = sideLine other cursor length second :=
      sideLine_congr fun number member => alike number (List.mem_append_right _ member)
    simp only [Range.ends, sameFirst, sameSecond]

end Congruence

theorem cutOff_of_le {number : Nat} (small : number ≤ numberCeiling) : cutOff number = id number :=
  Nat.min_eq_left small

end Written

/-! ## Resolution -/

open Written

theorem Address.resolve_eq_ok_iff_of_line
    {address : Address}
    {cursor length line : Nat}
    {value : Int}
    (bounded : length < 2 ^ 63)
    (isLine : address.line cursor length = value) :
    address.resolve cursor length = .ok line ↔ line = value ∧ value < length := by
  rw [Address.resolve_eq_ok_iff bounded]
  unfold Address.InView
  rw [isLine]
  omega

section Resolution

variable {cursor length : Nat} (inView : cursor < length) (bounded : length < 2 ^ 63)

include inView bounded

theorem Written.Base.position_spec (base : Written.Base) :
    base.spec.position cursor length = base.position cutOff cursor length := by
  cases base with
  | line first more => rfl
  | current => exact Int64.toInt_ofNat_of_lt (by omega)
  | last =>
    have oneLess : Int64.ofNat length - 1 = Int64.ofNat (length - 1) :=
      (Int64.ofNat_sub length 1 (by omega)).symm
    show (Int64.ofNat length - 1).toInt = (length : Int) - 1
    rw [oneLess, Int64.toInt_ofNat_of_lt (by omega)]
    omega

/-- An address is read so that it stands for the line of its text, with every
number cut off. -/
theorem Written.Address.line_spec (address : Written.Address) :
    address.spec.line cursor length = address.line cutOff cursor length := by
  cases address with
  | based base terms =>
    exact congrArg (· + sum cutOff terms) (Base.position_spec inView bounded base)
  | offset first more =>
    exact congrArg (· + sum cutOff (first :: more)) (Base.position_spec inView bounded .current)

theorem Written.line_sideSpec (side : Option Written.Address) :
    (sideSpec side).line cursor length = sideLine cutOff cursor length side := by
  cases side with
  | none => exact (Int.add_zero _).trans (Base.position_spec inView bounded .current)
  | some address => exact Address.line_spec inView bounded address

theorem Written.Range.resolve_spec_eq_ok_iff
    {written : Written.Range}
    {range : LineRange} :
    written.spec.resolve cursor length = .ok range ↔
      written.lines cutOff cursor length = some range := by
  cases written with
  | whole =>
    show Except.ok LineRange.whole = _ ↔ some LineRange.whole = _
    rw [Except.ok.injEq, Option.some.injEq]
  | single address =>
    show (RangeSpec.single address.spec).resolve cursor length = _ ↔ _
    simp only [RangeSpec.resolve_single_iff, lines, ends,
      ExLine.Address.resolve_eq_ok_iff_of_line bounded (Address.line_spec inView bounded address)]
    generalize address.line cutOff cursor length = value
    constructor
    · rintro ⟨line, ⟨rfl, below⟩, rfl⟩
      rw [if_pos ⟨by omega, below⟩]
      rfl
    · intro denoted
      split at denoted
      · cases denoted
        exact ⟨value.toNat, by omega, rfl⟩
      · cases denoted
  | pair first second =>
    show (RangeSpec.pair (sideSpec first) (sideSpec second)).resolve cursor length = _ ↔ _
    simp only [RangeSpec.resolve_pair_iff, lines, ends,
      ExLine.Address.resolve_eq_ok_iff_of_line bounded (line_sideSpec inView bounded first),
      ExLine.Address.resolve_eq_ok_iff_of_line bounded (line_sideSpec inView bounded second)]
    generalize sideLine cutOff cursor length first = one
    generalize sideLine cutOff cursor length second = other
    constructor
    · rintro ⟨lineOne, ⟨rfl, belowOne⟩, lineOther, ⟨rfl, belowOther⟩, rfl⟩
      rw [if_pos (by omega)]
      congr <;> omega
    · intro denoted
      split at denoted
      · cases denoted
        refine ⟨one.toNat, by omega, other.toNat, by omega, ?_⟩
        congr <;> omega
      · cases denoted

/-- A range that has been read is resolved by its text, with every number cut
off. -/
theorem Written.Range.resolve_spec (written : Written.Range) :
    (written.spec.resolve cursor length).toOption = written.lines cutOff cursor length := by
  cases resolved : written.spec.resolve cursor length with
  | ok range => exact ((resolve_spec_eq_ok_iff inView bounded).mp resolved).symm
  | error error =>
    cases found : written.lines cutOff cursor length with
    | none => rfl
    | some range =>
      rw [(resolve_spec_eq_ok_iff inView bounded).mpr found] at resolved
      cases resolved

end Resolution

namespace Written

/-- **Addresses denote the lines of their text exactly if cutting numbers off does
no harm.** A range that is read from a line is written in one way only. It is
resolved to the lines of this text with every number cut off at the ceiling, and
refused if one of them is outside the view. These are the lines of the text itself
if and only if the ends are the same with the numbers cut off, or are outside the
view either way. So it is if no number is over the ceiling. -/
theorem addresses_denote_exactly_iff
    {bytes rest : Bytes}
    {spec : RangeSpec}
    {cursor length : Nat}
    (found : RangeSpec.read bytes = .ok (some spec, rest))
    (inView : cursor < length)
    (bounded : length < 2 ^ 63) :
    ∃ written : Range,
      (∀ other : Range, other.text ++ rest = bytes ↔ other = written)
      ∧ (spec.resolve cursor length).toOption = written.lines cutOff cursor length
      ∧ ((spec.resolve cursor length).toOption = written.lines id cursor length ↔
          written.ends cutOff cursor length = written.ends id cursor length
            ∨ (written.lines cutOff cursor length = none
              ∧ written.lines id cursor length = none))
      ∧ ((∀ number ∈ written.numbers, number ≤ numberCeiling) →
          (spec.resolve cursor length).toOption = written.lines id cursor length) := by
  obtain ⟨written, rfl, textIs⟩ := RangeSpec.exists_written_of_read found
  rw [Range.resolve_spec inView bounded]
  refine ⟨written, fun other => ⟨fun sameText => ?_, ?_⟩, rfl, Range.lines_eq_iff, fun small => ?_⟩
  · exact Range.text_injective (List.append_cancel_right (sameText.trans textIs.symm))
  · rintro rfl
    exact textIs
  · exact Range.lines_eq_iff.mpr (.inl (Range.ends_congr fun number member =>
      cutOff_of_le (small number member)))

/-- The address `5000000000000000000-4611686018427387900`. -/
def farOff : Range :=
  .single (.based (.line 5 (List.replicate 18 0))
    [⟨true, [4, 6, 1, 1, 6, 8, 6, 0, 1, 8, 4, 2, 7, 3, 8, 7, 9, 0, 0]⟩])

/-- In a view of ten lines that address denotes none of them, and is resolved to
the third. -/
theorem addresses_denote_exactly_iff_far_off :
    ∃ spec, RangeSpec.read farOff.text = .ok (some spec, [])
      ∧ (spec.resolve 0 10).toOption = some (.lines 2 2)
      ∧ farOff.lines id 0 10 = none
      ∧ ¬ farOff.ends cutOff 0 10 = farOff.ends id 0 10 := by
  have found : RangeSpec.read farOff.text
      = .ok (some (.single ⟨.line 4611686018427387903, -4611686018427387900⟩), []) := by decide +kernel
  obtain ⟨written, unique, -, exactly, -⟩ :=
    @addresses_denote_exactly_iff _ _ _ 0 10 found (by decide) (by decide)
  obtain rfl : farOff = written := (unique farOff).mp (List.append_nil _)
  have none : farOff.lines id 0 10 = none := by decide
  refine ⟨_, found, by decide, none, fun same => ?_⟩
  have wrong := exactly.mpr (.inl same)
  rw [none] at wrong
  exact absurd wrong (by decide)

end Written

end ExLine

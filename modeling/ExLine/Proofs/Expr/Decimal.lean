import ExLine.Expr.Value
import Mathlib.Data.List.TakeWhile

/-!
Contract: integers written in decimal and read back.

Owns:
- `Value.leadingInt_digits` and `Value.leadingInt_minus`, what a text of digits
  is read as;
- `Value.toInt_text`: every integer comes back from its text, the least one
  excepted.

Does not own: where integers are kept as text (`ExLine.Proofs.Engine.Counting`).

A text is read as a magnitude first, and the sign is put on afterwards. The
magnitude of the least integer is one above the ceiling, so it is cut down
before it gets its sign.
-/

set_option autoImplicit false

namespace ExLine

namespace Chars

theorem decimalValue_toDigits (number : Nat) :
    decimalValue (Nat.toDigits 10 number) = number :=
  Nat.ofDigitChars_ten_toDigits

theorem isDigit_of_mem_toDigits
    {char : Char}
    {number : Nat}
    (member : char ∈ Nat.toDigits 10 number) :
    isDigit char := by
  have digit := Nat.isDigit_of_mem_toDigits (by decide) (by decide) member
  simpa [Char.isDigit, isDigit, Char.le_def] using digit

theorem isWhitespace_of_isDigit {char : Char} (digit : isDigit char) :
    isWhitespace char = false := by
  simp only [isDigit, Bool.and_eq_true, decide_eq_true_eq, Char.le_def,
    UInt32.le_iff_toNat_le] at digit
  obtain ⟨atLeast, atMost⟩ := digit
  have low : 0x30 ≤ char.toNat := atLeast
  have high : char.toNat ≤ 0x39 := atMost
  unfold isWhitespace
  simp only [Bool.or_eq_false_iff, Bool.and_eq_false_iff, decide_eq_false_iff_not,
    beq_eq_false_iff_ne]
  omega

end Chars

namespace Value

theorem leadingInt_digits (number : Nat) :
    leadingInt (Nat.toDigits 10 number) = Int64.ofNat (min number textIntCeiling) := by
  have all : (Nat.toDigits 10 number).takeWhile Chars.isDigit = Nat.toDigits 10 number :=
    List.takeWhile_eq_self_iff.mpr fun char member => Chars.isDigit_of_mem_toDigits member
  have value := Chars.decimalValue_toDigits number
  obtain ⟨first, rest, shape⟩ := List.exists_cons_of_ne_nil (@Nat.toDigits_ne_nil number 10)
  have firstDigit : Chars.isDigit first := by
    apply @Chars.isDigit_of_mem_toDigits first number
    rw [shape]
    exact List.mem_cons_self
  have noWhitespace : ¬ Chars.isWhitespace first := by
    rw [Chars.isWhitespace_of_isDigit firstDigit]
    exact Bool.false_ne_true
  rw [shape] at all value ⊢
  unfold leadingInt
  rw [List.dropWhile_cons_of_neg noWhitespace]
  split
  · rename_i digits isMinus
    cases isMinus
    cases firstDigit
  · simp only [all, value]

theorem leadingInt_minus (number : Nat) :
    leadingInt ('-' :: Nat.toDigits 10 number) = -Int64.ofNat (min number textIntCeiling) := by
  have all : (Nat.toDigits 10 number).takeWhile Chars.isDigit = Nat.toDigits 10 number :=
    List.takeWhile_eq_self_iff.mpr fun char member => Chars.isDigit_of_mem_toDigits member
  show -Int64.ofNat (min (Chars.decimalValue ((Nat.toDigits 10 number).takeWhile Chars.isDigit))
    textIntCeiling) = _
  rw [all, Chars.decimalValue_toDigits]

/-- The text of an integer that is not negative. -/
theorem text_of_nonneg
    {value : Int64}
    {number : Nat}
    (same : value.toInt = number) :
    (Value.int value).text.toList = Nat.toDigits 10 number := by
  show (toString value.toInt).toList = _
  rw [same]
  exact Nat.toList_repr

theorem text_of_neg
    {value : Int64}
    {number : Nat}
    (same : value.toInt = -(number + 1 : Nat)) :
    (Value.int value).text.toList = '-' :: Nat.toDigits 10 (number + 1) := by
  show (toString value.toInt).toList = _
  rw [same]
  show ("-" ++ Nat.repr (number + 1)).toList = _
  rw [String.toList_append, Nat.toList_repr]
  rfl

/-- An integer comes back from its text, unless it is the least one. -/
theorem toInt_text (value : Int64) :
    (Value.str (Value.int value).text).toInt
      = if value = Int64.minValue then Int64.minValue + 1 else value := by
  show leadingInt (Value.int value).text.toList = _
  have lower := value.le_toInt
  have upper := value.toInt_lt
  by_cases negative : value.toInt < 0
  · obtain ⟨number, same⟩ : ∃ number : Nat, value.toInt = -(number + 1 : Nat) :=
      ⟨(-value.toInt - 1).toNat, by omega⟩
    rw [text_of_neg same, leadingInt_minus]
    split
    · rename_i isLeast
      subst isLeast
      have magnitude : number + 1 = 2 ^ 63 := by
        rw [Int64.toInt_minValue] at same
        omega
      rw [magnitude]
      rfl
    · rename_i notLeast
      have small : number + 1 ≤ textIntCeiling := by
        have differ : value.toInt ≠ Int64.minValue.toInt :=
          fun least => notLeast (Int64.toInt_inj.mp least)
        rw [Int64.toInt_minValue] at differ
        unfold textIntCeiling
        omega
      apply Int64.toInt_inj.mp
      rw [Nat.min_eq_left small, Int64.toInt_neg_ofNat_of_le (by omega), same]
  · obtain ⟨number, same⟩ : ∃ number : Nat, value.toInt = number :=
      ⟨value.toInt.toNat, by omega⟩
    have notLeast : value ≠ Int64.minValue := by
      rintro rfl
      exact negative Int64.toInt_minValue_lt_zero
    have small : number ≤ textIntCeiling := by
      unfold textIntCeiling
      omega
    rw [if_neg notLeast, text_of_nonneg same, leadingInt_digits]
    apply Int64.toInt_inj.mp
    rw [Nat.min_eq_left small, Int64.toInt_ofNat_of_lt (by omega), same]

end Value

end ExLine

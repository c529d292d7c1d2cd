import ExLine.Range.Basic
import ExLine.Text.Bytes
import ExLine.Text.Chars

/-!
Contract: reading a range from the front of a line.

Owns: `RangeSpec.read`, the longest range that a byte string starts with,
together with the bytes after it.

Does not own: what a range denotes (`ExLine.Range.Basic`).

A range is `%`, an address, or two addresses around a comma. An address is
`.`, `$` or a number, followed by any number of signed terms; a sign without
digits counts one. Either side of a comma may be left out and then is the
cursor line.
-/

set_option autoImplicit false

namespace ExLine

/-- The greatest unsigned 64-bit integer: a longer number is refused. -/
def maxNumber : Nat := 18446744073709551615

/-- Numbers are cut off here, so that a sum of two of them is still a word. -/
def numberCeiling : Nat := 4611686018427387903

/-- The number that a run of digits denotes. -/
def readNumber (digits : Bytes) : Except RangeError Nat :=
  let value := Chars.decimalValue (digits.map Byte.toChar)
  if value > maxNumber then .error (.numberTooLarge digits.asciiText)
  else .ok (min value numberCeiling)

/-- The base at the front of a byte string, if there is one, and the bytes
after it. -/
def Base.read (bytes : Bytes) : Except RangeError (Option Base × Bytes) :=
  match bytes with
  | [] => .ok (none, [])
  | byte :: rest =>
    if byte = Byte.dot then .ok (some .current, rest)
    else if byte = Byte.dollar then .ok (some .last, rest)
    else if Byte.isDigit byte then do
      let number ← readNumber (bytes.takeWhile Byte.isDigit)
      return (some (.line number), bytes.dropWhile Byte.isDigit)
    else .ok (none, bytes)

/-- The size of a signed term: its digits, or one without any. -/
def readTermSize (bytes : Bytes) : Except RangeError Nat :=
  let digits := bytes.takeWhile Byte.isDigit
  if digits.isEmpty then .ok 1 else readNumber digits

/-- A term with its sign. -/
def signedTerm (sign : UInt8) (size : Nat) : Int :=
  if sign = Byte.minus then -size else size

/-- Adds up the signed terms at the front of a byte string. Each partial sum
has to be a word. Returns the sum and the bytes after the terms. -/
def readTerms (sum : Int) : Bytes → Except RangeError (Int × Bytes)
  | [] => .ok (sum, [])
  | sign :: rest =>
    if sign = Byte.plus || sign = Byte.minus then do
      let size ← readTermSize rest
      if fitsWord (sum + signedTerm sign size) then
        readTerms (sum + signedTerm sign size) (rest.dropWhile Byte.isDigit)
      else .error .offsetOutOfBounds
    else .ok (sum, sign :: rest)
termination_by bytes => bytes.length
decreasing_by
  have shorter := (List.dropWhile_sublist (l := rest) Byte.isDigit).length_le
  simp only [List.length_cons]
  omega

/-- The address at the front of a byte string, if there is one, and the bytes
after it. Terms without a base count from the cursor. -/
def Address.read (bytes : Bytes) : Except RangeError (Option Address × Bytes) := do
  let (base, afterBase) ← Base.read bytes
  let (offset, rest) ← readTerms 0 afterBase
  let address :=
    match base with
    | some base => some ⟨base, offset⟩
    | none => if rest.length < afterBase.length then some ⟨.current, offset⟩ else none
  return (address, rest)

/-- The range at the front of a byte string, if there is one, and the bytes
after it. -/
def RangeSpec.read (bytes : Bytes) : Except RangeError (Option RangeSpec × Bytes) :=
  match bytes with
  | [] => .ok (none, [])
  | byte :: afterByte =>
    if byte = Byte.percent then .ok (some .whole, afterByte)
    else do
      let (first, rest) ← Address.read bytes
      match rest with
      | [] => return (first.map .single, [])
      | next :: afterNext =>
        if next = Byte.comma then do
          let (second, afterSecond) ← Address.read afterNext
          return (some (.pair (first.getD .cursor) (second.getD .cursor)), afterSecond)
        else return (first.map .single, rest)

/-! ## What follows a range is no longer than its line -/

theorem Base.length_le_of_read
    {bytes rest : Bytes}
    {base : Option Base}
    (found : Base.read bytes = .ok (base, rest)) :
    rest.length ≤ bytes.length := by
  unfold Base.read at found
  split at found
  · cases found
    exact Nat.le_refl _
  · split at found
    · cases found
      simp
    · split at found
      · cases found
        simp
      · split at found
        · simp only [bind, Except.bind, pure, Except.pure] at found
          split at found
          · cases found
          · cases found
            exact (List.dropWhile_sublist Byte.isDigit).length_le
        · cases found
          exact Nat.le_refl _

theorem length_le_of_readTerms
    {sum total : Int}
    {bytes rest : Bytes}
    (found : readTerms sum bytes = .ok (total, rest)) :
    rest.length ≤ bytes.length := by
  fun_induction readTerms sum bytes with
  | case1 =>
    cases found
    exact Nat.le_refl _
  | case2 sum sign bytes signed inductionHypothesis =>
    simp only [bind, Except.bind] at found
    split at found
    · cases found
    · split at found
      · have digitsShorter := (List.dropWhile_sublist (l := bytes) Byte.isDigit).length_le
        have termsShorter := inductionHypothesis _ found
        simp only [List.length_cons]
        omega
      · cases found
  | case3 =>
    cases found
    exact Nat.le_refl _

theorem Address.length_le_of_read
    {bytes rest : Bytes}
    {address : Option Address}
    (found : Address.read bytes = .ok (address, rest)) :
    rest.length ≤ bytes.length := by
  unfold Address.read at found
  simp only [bind, Except.bind, pure, Except.pure] at found
  split at found
  · cases found
  · rename_i base readBase
    split at found
    · cases found
    · rename_i terms readIt
      cases found
      exact Nat.le_trans (length_le_of_readTerms readIt) (Base.length_le_of_read readBase)

theorem RangeSpec.length_le_of_read
    {bytes rest : Bytes}
    {spec : Option RangeSpec}
    (found : RangeSpec.read bytes = .ok (spec, rest)) :
    rest.length ≤ bytes.length := by
  unfold RangeSpec.read at found
  split at found
  · cases found
    exact Nat.le_refl _
  · split at found
    · cases found
      simp
    · simp only [bind, Except.bind, pure, Except.pure] at found
      split at found
      · cases found
      · rename_i first readFirst
        have firstShorter := Address.length_le_of_read readFirst
        split at found
        · cases found
          simp
        · rename_i next afterNext continued
          rw [continued] at firstShorter
          simp only [List.length_cons] at firstShorter
          split at found
          · split at found
            · cases found
            · rename_i second readSecond
              cases found
              have secondShorter := Address.length_le_of_read readSecond
              simp only [List.length_cons]
              omega
          · cases found
            simp only [continued, List.length_cons]
            omega

end ExLine

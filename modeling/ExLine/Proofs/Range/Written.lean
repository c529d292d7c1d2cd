import ExLine.Proofs.Line.Rest
import ExLine.Proofs.Results
import Mathlib.Data.List.Basic
import Mathlib.Data.List.Induction
import Mathlib.Data.List.TakeWhile
import Mathlib.Data.Nat.Digits.Defs

/-!
Contract: ranges as they are written.

Owns:
- `Written.Range`, the texts of ranges as a type: digits, signs, bases, sides;
- `Written.Range.text_injective`, by which a text is written in one way only;
- `Written.Range.spec`, the range that is read from such a text, and
  `RangeSpec.exists_written_of_read`: whatever is read was written so.

Does not own: the lines that a written range denotes
(`ExLine.Proofs.Range.Denotation`).

Digits have no bound here, and offsets are not added up. What the reader makes
of both is the concern of `spec` alone.
-/

set_option autoImplicit false

namespace ExLine

open Bytes

/-! ## Digits -/

namespace Byte

/-- The byte of a decimal digit. -/
def ofDigit (digit : Fin 10) : UInt8 :=
  UInt8.ofNat (48 + digit)

theorem isDigit_ofDigit : ∀ digit, isDigit (ofDigit digit) = true := by
  decide

theorem ofDigit_injective : Function.Injective ofDigit := by
  unfold Function.Injective
  decide

theorem digitValue_ofDigit : ∀ digit, Chars.digitValue (toChar (ofDigit digit)) = digit := by
  decide

theorem exists_ofDigit {byte : UInt8} (isDigit : isDigit byte = true) :
    ∃ digit, ofDigit digit = byte := by
  unfold Byte.isDigit at isDigit
  rw [Bool.and_eq_true, decide_eq_true_eq, decide_eq_true_eq, UInt8.le_iff_toNat_le,
    UInt8.le_iff_toNat_le] at isDigit
  have low : 48 ≤ byte.toNat := isDigit.1
  have high : byte.toNat ≤ 57 := isDigit.2
  refine ⟨⟨byte.toNat - 48, by omega⟩, UInt8.toNat_inj.mp ?_⟩
  unfold ofDigit
  rw [UInt8.toNat_ofNat']
  simp only
  omega

end Byte

/-- Runs of bytes of a class, each in front of a byte outside the class, are
told apart. -/
theorem Bytes.append_inj_of_stops
    {holds : UInt8 → Bool}
    {first second tail other : Bytes}
    (inFirst : ∀ byte ∈ first, holds byte = true)
    (inSecond : ∀ byte ∈ second, holds byte = true)
    (stops : Stops holds tail)
    (stopsOther : Stops holds other)
    (same : first ++ tail = second ++ other) :
    first = second ∧ tail = other := by
  have sameRun := congrArg (List.takeWhile holds) same
  rw [takeWhile_append_of_stop stops, takeWhile_append_of_stop stopsOther,
    List.takeWhile_eq_self_iff.mpr inFirst, List.takeWhile_eq_self_iff.mpr inSecond] at sameRun
  subst sameRun
  exact ⟨rfl, List.append_cancel_left same⟩

namespace Written

/-- The number that digits denote, however many there are. -/
def number (digits : List (Fin 10)) : Nat :=
  Nat.ofDigits 10 (digits.reverse.map Fin.val)

def digitsText (digits : List (Fin 10)) : Bytes :=
  digits.map Byte.ofDigit

theorem isDigit_of_mem_digitsText {digits : List (Fin 10)} :
    ∀ byte ∈ digitsText digits, Byte.isDigit byte = true := by
  intro byte member
  obtain ⟨digit, -, rfl⟩ := List.mem_map.mp member
  exact Byte.isDigit_ofDigit digit

theorem digitsText_injective : Function.Injective digitsText :=
  List.map_injective_iff.mpr Byte.ofDigit_injective

/-- A run of digits is the text of some digits. -/
theorem exists_digitsText {bytes : Bytes} (run : ∀ byte ∈ bytes, Byte.isDigit byte = true) :
    ∃ digits, digitsText digits = bytes := by
  induction bytes with
  | nil => exact ⟨[], rfl⟩
  | cons byte rest inductionHypothesis =>
    obtain ⟨digit, rfl⟩ := Byte.exists_ofDigit (run byte List.mem_cons_self)
    obtain ⟨digits, rfl⟩ := inductionHypothesis fun other member =>
      run other (List.mem_cons_of_mem _ member)
    exact ⟨digit :: digits, rfl⟩

theorem decimalValue_digitsText (digits : List (Fin 10)) :
    Chars.decimalValue ((digitsText digits).map Byte.toChar) = number digits := by
  induction digits using List.reverseRecOn with
  | nil => rfl
  | append_singleton digits digit inductionHypothesis =>
    have value := Byte.digitValue_ofDigit digit
    unfold Chars.decimalValue digitsText number at inductionHypothesis ⊢
    rw [List.map_append, List.map_append, List.foldl_append, inductionHypothesis]
    simp only [List.map_cons, List.map_nil, List.foldl_cons, List.foldl_nil, value,
      List.reverse_append, List.reverse_cons, List.reverse_nil, List.nil_append, List.cons_append,
      Nat.ofDigits_cons]
    omega

/-! ## Texts of ranges -/

/-- A signed term. Without digits it counts one. -/
structure Term where
  minus : Bool
  digits : List (Fin 10)
  deriving DecidableEq, Repr

inductive Base where
  /-- A line number, which has at least one digit. -/
  | line (first : Fin 10) (more : List (Fin 10))
  /-- A dot. -/
  | current
  /-- A dollar sign. -/
  | last
  deriving DecidableEq, Repr

/-- An address has a base or a term. -/
inductive Address where
  | based (base : Base) (terms : List Term)
  /-- Terms alone count from the cursor. -/
  | offset (first : Term) (more : List Term)
  deriving DecidableEq, Repr

inductive Range where
  | whole
  | single (address : Address)
  /-- Either side of a comma may be left out. -/
  | pair (first second : Option Address)
  deriving DecidableEq, Repr

def Term.text (term : Term) : Bytes :=
  (if term.minus then Byte.minus else Byte.plus) :: digitsText term.digits

def termsText (terms : List Term) : Bytes :=
  terms.flatMap Term.text

def Base.text : Base → Bytes
  | .line first more => digitsText (first :: more)
  | .current => [Byte.dot]
  | .last => [Byte.dollar]

def Address.text : Address → Bytes
  | .based base terms => base.text ++ termsText terms
  | .offset first more => termsText (first :: more)

/-- The text of one side of a comma. -/
def sideText (side : Option Address) : Bytes :=
  side.elim [] Address.text

def Range.text : Range → Bytes
  | .whole => [Byte.percent]
  | .single address => address.text
  | .pair first second => sideText first ++ Byte.comma :: sideText second

/-! ## One way to write a text -/

theorem stops_termsText {holds : UInt8 → Bool} (noPlus : holds Byte.plus = false)
    (noMinus : holds Byte.minus = false) (terms : List Term) : Stops holds (termsText terms) := by
  intro byte first
  cases terms with
  | nil => cases first
  | cons term terms =>
    cases first
    show holds (if term.minus then Byte.minus else Byte.plus) = false
    split
    · exact noMinus
    · exact noPlus

theorem termsText_injective : Function.Injective termsText := by
  intro terms others same
  induction terms generalizing others with
  | nil =>
    cases others with
    | nil => rfl
    | cons other others => cases same
  | cons term terms inductionHypothesis =>
    cases others with
    | nil => cases same
    | cons other others =>
      obtain ⟨minus, digits⟩ := term
      obtain ⟨otherMinus, otherDigits⟩ := other
      obtain ⟨sameSign, sameTail⟩ := List.cons.inj same
      have sameMinus : minus = otherMinus := by
        have signs : ∀ one other : Bool, (if one then Byte.minus else Byte.plus)
            = (if other then Byte.minus else Byte.plus) → one = other := by decide
        exact signs _ _ sameSign
      obtain ⟨sameDigits, sameTerms⟩ :=
        append_inj_of_stops isDigit_of_mem_digitsText isDigit_of_mem_digitsText
          (stops_termsText rfl rfl terms) (stops_termsText rfl rfl others) sameTail
      cases digitsText_injective sameDigits
      rw [sameMinus, inductionHypothesis sameTerms]

/-- A byte that a base may hold. -/
def inBase (byte : UInt8) : Bool :=
  Byte.isDigit byte || byte == Byte.dot || byte == Byte.dollar

theorem inBase_of_isDigit {byte : UInt8} (isDigit : Byte.isDigit byte = true) :
    inBase byte = true := by
  unfold inBase
  rw [isDigit]
  rfl

theorem Base.inBase_of_mem_text {base : Base} : ∀ byte ∈ base.text, inBase byte = true := by
  intro byte member
  cases base with
  | line first more => exact inBase_of_isDigit (isDigit_of_mem_digitsText byte member)
  | current => rw [List.mem_singleton.mp member]; rfl
  | last => rw [List.mem_singleton.mp member]; rfl

theorem Base.text_injective : Function.Injective Base.text := by
  intro base other same
  -- A dot or a dollar sign is no digit, so a line number is told from the other two.
  have notDigit {first : Fin 10} {more : List (Fin 10)} {byte : UInt8}
      (noDigit : Byte.isDigit byte = false) : digitsText (first :: more) ≠ [byte] := by
    intro same
    have isDigit := Byte.isDigit_ofDigit first
    rw [(List.cons.inj same).1, noDigit] at isDigit
    cases isDigit
  cases base with
  | line first more =>
    cases other with
    | line otherFirst otherMore =>
      cases digitsText_injective same
      rfl
    | current => exact absurd same (notDigit rfl)
    | last => exact absurd same (notDigit rfl)
  | current =>
    cases other with
    | line otherFirst otherMore => exact absurd same.symm (notDigit rfl)
    | current => rfl
    | last => exact absurd (List.cons.inj same).1 (by decide)
  | last =>
    cases other with
    | line otherFirst otherMore => exact absurd same.symm (notDigit rfl)
    | current => exact absurd (List.cons.inj same).1 (by decide)
    | last => rfl

theorem Base.text_ne_nil (base : Base) : base.text ≠ [] := by
  cases base <;> exact List.cons_ne_nil _ _

/-- A term starts with a sign, and a base does not. -/
theorem Base.text_append_ne_termsText (base : Base) (terms others : List Term) :
    base.text ++ termsText terms ≠ termsText others := by
  intro same
  have sameFromNothing : base.text ++ termsText terms = [] ++ termsText others := same
  obtain ⟨noBase, -⟩ := append_inj_of_stops Base.inBase_of_mem_text
    (fun _ member => absurd member List.not_mem_nil) (stops_termsText rfl rfl terms)
    (stops_termsText rfl rfl others) sameFromNothing
  exact base.text_ne_nil noBase

theorem Address.text_injective : Function.Injective Address.text := by
  intro address other same
  cases address with
  | based base terms =>
    cases other with
    | based otherBase otherTerms =>
      obtain ⟨sameBase, sameTerms⟩ :=
        append_inj_of_stops Base.inBase_of_mem_text Base.inBase_of_mem_text
          (stops_termsText rfl rfl terms) (stops_termsText rfl rfl otherTerms) same
      rw [Base.text_injective sameBase, termsText_injective sameTerms]
    | offset first more => exact absurd same (base.text_append_ne_termsText terms _)
  | offset first more =>
    cases other with
    | based base terms => exact absurd same.symm (base.text_append_ne_termsText terms _)
    | offset otherFirst otherMore =>
      cases termsText_injective same
      rfl

/-- A byte that an address may hold. -/
def inAddress (byte : UInt8) : Bool :=
  inBase byte || byte == Byte.plus || byte == Byte.minus

theorem inAddress_of_inBase {byte : UInt8} (isInBase : inBase byte = true) :
    inAddress byte = true := by
  unfold inAddress
  rw [isInBase]
  rfl

theorem inAddress_of_mem_termsText {terms : List Term} :
    ∀ byte ∈ termsText terms, inAddress byte = true := by
  intro byte member
  obtain ⟨term, -, inTerm⟩ := List.mem_flatMap.mp member
  rcases List.mem_cons.mp inTerm with rfl | inDigits
  · cases term.minus <;> rfl
  · exact inAddress_of_inBase (inBase_of_isDigit (isDigit_of_mem_digitsText byte inDigits))

theorem Address.inAddress_of_mem_text {address : Address} :
    ∀ byte ∈ address.text, inAddress byte = true := by
  intro byte member
  cases address with
  | based base terms =>
    rcases List.mem_append.mp member with inBaseText | inTerms
    · exact inAddress_of_inBase (Base.inBase_of_mem_text byte inBaseText)
    · exact inAddress_of_mem_termsText byte inTerms
  | offset first more => exact inAddress_of_mem_termsText byte member

theorem Address.text_ne_nil (address : Address) : address.text ≠ [] := by
  cases address with
  | based base terms => exact List.append_ne_nil_of_left_ne_nil base.text_ne_nil _
  | offset first more => exact List.cons_ne_nil _ _

theorem inAddress_of_mem_sideText {side : Option Address} :
    ∀ byte ∈ sideText side, inAddress byte = true := by
  intro byte member
  cases side with
  | none => cases member
  | some address => exact Address.inAddress_of_mem_text byte member

theorem sideText_injective : Function.Injective sideText := by
  intro side other same
  cases side with
  | none =>
    cases other with
    | none => rfl
    | some address => exact absurd same.symm address.text_ne_nil
  | some address =>
    cases other with
    | none => exact absurd same address.text_ne_nil
    | some otherAddress => exact congrArg some (Address.text_injective same)

theorem notMem_text {address : Address} {byte : UInt8} (outside : inAddress byte = false) :
    byte ∉ address.text := by
  intro member
  rw [Address.inAddress_of_mem_text byte member] at outside
  cases outside

/-- A text is written in one way only. -/
theorem Range.text_injective : Function.Injective Range.text := by
  intro range other same
  have stopsComma (rest : Bytes) : Stops inAddress (Byte.comma :: rest) := by
    intro byte first
    cases first
    rfl
  have percentOfPair (first second : Option Address) :
      (Range.pair first second).text ≠ Range.whole.text := by
    intro same
    have member : Byte.comma ∈ (Range.pair first second).text :=
      List.mem_append_right _ List.mem_cons_self
    rw [same] at member
    exact absurd (List.mem_singleton.mp member) (by decide)
  have percentOfSingle (address : Address) :
      (Range.single address).text ≠ Range.whole.text := by
    intro same
    have member : Byte.percent ∈ (Range.single address).text := same ▸ List.mem_cons_self
    exact absurd member (notMem_text rfl)
  have commaOfSingle (address : Address) (first second : Option Address) :
      (Range.single address).text ≠ (Range.pair first second).text := by
    intro same
    have member : Byte.comma ∈ (Range.single address).text :=
      same ▸ List.mem_append_right _ List.mem_cons_self
    exact absurd member (notMem_text rfl)
  cases range with
  | whole =>
    cases other with
    | whole => rfl
    | single address => exact absurd same.symm (percentOfSingle address)
    | pair first second => exact absurd same.symm (percentOfPair first second)
  | single address =>
    cases other with
    | whole => exact absurd same (percentOfSingle address)
    | single otherAddress => exact congrArg _ (Address.text_injective same)
    | pair first second => exact absurd same (commaOfSingle address first second)
  | pair first second =>
    cases other with
    | whole => exact absurd same (percentOfPair first second)
    | single address => exact absurd same.symm (commaOfSingle address first second)
    | pair otherFirst otherSecond =>
      obtain ⟨sameFirst, sameRest⟩ :=
        append_inj_of_stops inAddress_of_mem_sideText inAddress_of_mem_sideText
          (stopsComma _) (stopsComma _) same
      rw [sideText_injective sameFirst, sideText_injective (List.cons.inj sameRest).2]

/-! ## The range that is read -/

/-- A number as the reader keeps it. -/
def cutOff (number : Nat) : Nat :=
  min number numberCeiling

/-- The value of a term, if numbers count so. -/
def Term.value (count : Nat → Nat) (term : Term) : Int :=
  let size := if term.digits.isEmpty then 1 else count (number term.digits)
  if term.minus then -size else size

/-- The sum of terms, if numbers count so. -/
def sum (count : Nat → Nat) (terms : List Term) : Int :=
  (terms.map (Term.value count)).sum

def Base.spec : Base → ExLine.Base
  | .line first more => .line (cutOff (number (first :: more)))
  | .current => .current
  | .last => .last

def Address.spec : Address → ExLine.Address
  | .based base terms => ⟨base.spec, sum cutOff terms⟩
  | .offset first more => ⟨.current, sum cutOff (first :: more)⟩

def sideSpec (side : Option Address) : ExLine.Address :=
  (side.map Address.spec).getD .cursor

def Range.spec : Range → RangeSpec
  | .whole => .whole
  | .single address => .single address.spec
  | .pair first second => .pair (sideSpec first) (sideSpec second)

end Written

open Written

/-! ## What is read was written -/

section Readers

variable {bytes rest : Bytes}

theorem takeWhile_isDigit_eq (bytes : Bytes) :
    ∃ digits, digitsText digits = bytes.takeWhile Byte.isDigit :=
  exists_digitsText fun _ member => List.all_eq_true.mp List.all_takeWhile _ member

theorem eq_cutOff_of_readNumber
    {digits : List (Fin 10)}
    {value : Nat}
    (found : readNumber (digitsText digits) = .ok value) :
    value = cutOff (number digits) := by
  unfold readNumber at found
  rw [decimalValue_digitsText] at found
  simp only at found
  split at found
  · cases found
  · cases found
    rfl

theorem Base.exists_written_of_read
    {base : Option Base}
    (found : Base.read bytes = .ok (base, rest)) :
    (base = none ∧ rest = bytes)
      ∨ ∃ written : Written.Base, base = some written.spec ∧ written.text ++ rest = bytes := by
  unfold Base.read at found
  split at found
  · cases found
    exact .inl ⟨rfl, rfl⟩
  · rename_i byte after
    split at found
    · rename_i isDot
      cases found
      exact .inr ⟨.current, rfl, by rw [isDot]; rfl⟩
    split at found
    · rename_i isDollar
      cases found
      exact .inr ⟨.last, rfl, by rw [isDollar]; rfl⟩
    split at found
    · rename_i isDigit
      obtain ⟨digits, isRun⟩ := takeWhile_isDigit_eq (byte :: after)
      obtain ⟨value, isNumber, isBase⟩ := bind_eq_ok_iff.mp found
      rw [← isRun] at isNumber
      cases pure_eq_ok_iff.mp isBase
      cases digits with
      | nil =>
        rw [List.takeWhile_cons_of_pos isDigit] at isRun
        cases isRun
      | cons first more =>
        refine .inr ⟨.line first more, ?_, ?_⟩
        · rw [eq_cutOff_of_readNumber isNumber]
          rfl
        · show digitsText (first :: more) ++ _ = _
          rw [isRun, List.takeWhile_append_dropWhile]
    · cases found
      exact .inl ⟨rfl, rfl⟩

theorem exists_term_of_readTermSize
    {sign : UInt8}
    {size : Nat}
    (signed : sign = Byte.plus ∨ sign = Byte.minus)
    (found : readTermSize bytes = .ok size) :
    ∃ term : Term, term.text ++ bytes.dropWhile Byte.isDigit = sign :: bytes
      ∧ term.value cutOff = signedTerm sign size := by
  obtain ⟨digits, isRun⟩ := takeWhile_isDigit_eq bytes
  unfold readTermSize at found
  rw [← isRun] at found
  have sizeIs : size = if digits.isEmpty then 1 else cutOff (number digits) := by
    cases digits with
    | nil =>
      cases found
      rfl
    | cons first more => exact eq_cutOff_of_readNumber found
  have textIs : digitsText digits ++ bytes.dropWhile Byte.isDigit = bytes := by
    rw [isRun, List.takeWhile_append_dropWhile]
  rcases signed with rfl | rfl
  · refine ⟨⟨false, digits⟩, congrArg (Byte.plus :: ·) textIs, ?_⟩
    rw [sizeIs]
    rfl
  · refine ⟨⟨true, digits⟩, congrArg (Byte.minus :: ·) textIs, ?_⟩
    rw [sizeIs]
    rfl

/-- The terms that are read are those that were written, added up in order. -/
theorem exists_written_of_readTerms
    {start total : Int}
    (found : readTerms start bytes = .ok (total, rest)) :
    ∃ terms, termsText terms ++ rest = bytes ∧ total = start + sum cutOff terms := by
  fun_induction readTerms start bytes with
  | case1 =>
    cases found
    exact ⟨[], rfl, (Int.add_zero _).symm⟩
  | case2 start sign bytes signed inductionHypothesis =>
    obtain ⟨size, isSize, goesOn⟩ := bind_eq_ok_iff.mp found
    split at goesOn
    · obtain ⟨terms, textIs, totalIs⟩ := inductionHypothesis size goesOn
      obtain ⟨term, termIs, valueIs⟩ := exists_term_of_readTermSize (by simpa using signed) isSize
      refine ⟨term :: terms, ?_, ?_⟩
      · rw [← termIs, ← textIs]
        exact List.append_assoc _ _ _
      · show total = start + (term.value cutOff + sum cutOff terms)
        rw [totalIs, valueIs]
        omega
    · cases goesOn
  | case3 =>
    cases found
    exact ⟨[], rfl, (Int.add_zero _).symm⟩

theorem Address.exists_written_of_read
    {address : Option Address}
    (found : Address.read bytes = .ok (address, rest)) :
    ∃ side : Option Written.Address,
      address = side.map Written.Address.spec ∧ sideText side ++ rest = bytes := by
  obtain ⟨⟨base, afterBase⟩, isBase, found⟩ := bind_eq_ok_iff.mp found
  obtain ⟨⟨offset, afterTerms⟩, isTerms, found⟩ := bind_eq_ok_iff.mp found
  cases pure_eq_ok_iff.mp found
  obtain ⟨terms, termsIs, offsetIs⟩ := exists_written_of_readTerms isTerms
  rw [Int.zero_add] at offsetIs
  subst termsIs offsetIs
  rcases Base.exists_written_of_read isBase with ⟨rfl, rfl⟩ | ⟨written, rfl, rfl⟩
  · cases terms with
    | nil =>
      refine ⟨none, ?_, rfl⟩
      exact if_neg (Nat.lt_irrefl _)
    | cons first more =>
      refine ⟨some (.offset first more), ?_, rfl⟩
      apply if_pos
      rw [List.length_append]
      exact Nat.lt_add_of_pos_left (List.length_pos_iff.mpr (List.cons_ne_nil _ _))
  · exact ⟨some (.based written terms), rfl, List.append_assoc _ _ _⟩

/-- Every range that is read was written, in front of what is left. -/
theorem RangeSpec.exists_written_of_read
    {spec : RangeSpec}
    (found : RangeSpec.read bytes = .ok (some spec, rest)) :
    ∃ written : Written.Range, spec = written.spec ∧ written.text ++ rest = bytes := by
  unfold RangeSpec.read at found
  split at found
  · cases found
  · rename_i byte afterByte
    split at found
    · rename_i isPercent
      cases found
      exact ⟨.whole, rfl, by rw [isPercent]; rfl⟩
    · obtain ⟨⟨first, afterFirst⟩, readFirst, found⟩ := bind_eq_ok_iff.mp found
      obtain ⟨side, rfl, textIs⟩ := Address.exists_written_of_read readFirst
      -- Without a comma there is one address, and it has been read.
      have alone {left : Bytes}
          (ends : (some spec, rest) = ((side.map Written.Address.spec).map RangeSpec.single, left))
          (textIs : sideText side ++ left = byte :: afterByte) :
          ∃ written : Written.Range, spec = written.spec
            ∧ written.text ++ rest = byte :: afterByte := by
        cases side with
        | none => cases ends
        | some address =>
          cases ends
          exact ⟨.single address, rfl, textIs⟩
      simp only at found
      split at found
      · exact alone (pure_eq_ok_iff.mp found) textIs
      · rename_i next afterNext
        split at found
        · rename_i isComma
          obtain ⟨⟨second, afterSecond⟩, readSecond, found⟩ := bind_eq_ok_iff.mp found
          obtain ⟨otherSide, rfl, otherIs⟩ := Address.exists_written_of_read readSecond
          cases pure_eq_ok_iff.mp found
          refine ⟨.pair side otherSide, rfl, ?_⟩
          rw [← textIs, ← otherIs, isComma]
          exact List.append_assoc _ _ _
        · exact alone (pure_eq_ok_iff.mp found) textIs

end Readers

end ExLine

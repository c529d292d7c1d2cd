import ExLine.Proofs.Line.Head
import ExLine.Proofs.Range.Denotation
import Mathlib.Data.List.Infix

/-!
Contract: ranges that are written down are read back.

Owns:
- `RangeSpec.IsSmall`, the ranges whose numbers the reader does not cut off;
- `Written.Range.Spells`, the texts that stand for such a range, and
  `RangeSpec.written`, the plain one among them;
- the law that the reader takes such a text as this range and takes nothing of
  what follows, and that a name behind it is read with it.

Does not own: texts whose numbers are cut off (`ExLine.Proofs.Range.Written`).

A pair whose second side is left out has no end of its own: a dot or a dollar
sign behind it is that side. Nothing else that follows a text is taken for a part
of it, except more digits, terms or a comma.
-/

set_option autoImplicit false

namespace ExLine

open Bytes

/-! ## Spellings -/

def Base.IsSmall : Base → Prop
  | .line number => number ≤ numberCeiling
  | .current => True
  | .last => True

def Address.IsSmall (address : Address) : Prop :=
  address.base.IsSmall ∧ address.offset.natAbs ≤ numberCeiling

/-- No line number and no offset is over the ceiling. -/
def RangeSpec.IsSmall : RangeSpec → Prop
  | .whole => True
  | .single address => address.IsSmall
  | .pair first second => first.IsSmall ∧ second.IsSmall

namespace Written

/-- The terms add up to the offset, and neither a term nor the sum of the first
few is over the ceiling. -/
structure AddUpTo (terms : List Term) (offset : Int) : Prop where
  smallTerms : ∀ term ∈ terms, (term.value id).natAbs ≤ numberCeiling
  smallSums : ∀ earlier ∈ terms.inits, (sum id earlier).natAbs ≤ numberCeiling
  total : sum id terms = offset

inductive Base.Spells : Base → ExLine.Base → Prop
  | line
      {first : Fin 10}
      {more : List (Fin 10)}
      (small : number (first :: more) ≤ numberCeiling) :
      Spells (.line first more) (.line (number (first :: more)))
  | current : Spells .current .current
  | last : Spells .last .last

inductive Address.Spells : Address → ExLine.Address → Prop
  | based
      {base : Base}
      {terms : List Term}
      {spec : ExLine.Base}
      {offset : Int}
      (isBase : base.Spells spec)
      (addUp : AddUpTo terms offset) :
      Spells (.based base terms) ⟨spec, offset⟩
  /-- In front of terms the dot may be left out. -/
  | offset
      {first : Term}
      {more : List Term}
      {offset : Int}
      (addUp : AddUpTo (first :: more) offset) :
      Spells (.offset first more) ⟨.current, offset⟩

inductive SideSpells : Option Address → ExLine.Address → Prop
  | written
      {address : Address}
      {spec : ExLine.Address}
      (spells : address.Spells spec) :
      SideSpells (some address) spec
  | leftOut : SideSpells none .cursor

/-- The texts that stand for a range. -/
inductive Range.Spells : Range → RangeSpec → Prop
  | whole : Spells .whole .whole
  | single
      {address : Address}
      {spec : ExLine.Address}
      (spells : address.Spells spec) :
      Spells (.single address) (.single spec)
  | pair
      {first second : Option Address}
      {one other : ExLine.Address}
      (firstSpells : SideSpells first one)
      (secondSpells : SideSpells second other) :
      Spells (.pair first second) (.pair one other)

/-- A range that ends with a comma. -/
def Range.IsOpen (range : Range) : Prop :=
  ∃ first, range = .pair first none

/-! ## The plain spelling -/

def lastDigit (number : Nat) : Fin 10 :=
  ⟨number % 10, Nat.mod_lt number (by decide)⟩

/-- The digits of a number, without leading zeros. -/
def decimal (number : Nat) : List (Fin 10) :=
  ((Nat.digits 10 number).map lastDigit).reverse

theorem number_decimal (value : Nat) : number (decimal value) = value := by
  have digitsKept : ((Nat.digits 10 value).map lastDigit).map Fin.val
      = Nat.digits 10 value := by
    rw [List.map_map]
    refine (List.map_congr_left fun digit member => ?_).trans (List.map_id _)
    exact Nat.mod_eq_of_lt (Nat.digits_lt_base (by decide) member)
  unfold number decimal
  rw [List.reverse_reverse, digitsKept, Nat.ofDigits_digits]

theorem decimal_ne_nil {value : Nat} (nonzero : value ≠ 0) : decimal value ≠ [] := by
  intro noDigits
  have isZero := number_decimal value
  rw [noDigits] at isZero
  exact nonzero isZero.symm

/-- The base of a line number, which is a zero if there are no digits. -/
def Base.ofDigits : List (Fin 10) → Base
  | [] => .line (lastDigit 0) []
  | first :: more => .line first more

theorem Base.spells_ofDigits {digits : List (Fin 10)} (small : number digits ≤ numberCeiling) :
    (ofDigits digits).Spells (.line (number digits)) := by
  cases digits with
  | nil => exact .line (Nat.zero_le _)
  | cons first more => exact .line small

/-- One term, or none if there is nothing to add. -/
def plainTerms (offset : Int) : List Term :=
  if offset = 0 then [] else [⟨decide (offset < 0), decimal offset.natAbs⟩]

theorem sum_singleton (count : Nat → Nat) (term : Term) : sum count [term] = term.value count :=
  Int.add_zero _

theorem value_plainTerm {offset : Int} (nonzero : offset ≠ 0) :
    Term.value id ⟨decide (offset < 0), decimal offset.natAbs⟩ = offset := by
  have someDigits : (decimal offset.natAbs).isEmpty = false :=
    List.isEmpty_eq_false_iff.mpr (decimal_ne_nil (by omega))
  simp only [Term.value, someDigits, number_decimal, Bool.false_eq_true, if_false,
    decide_eq_true_eq, id_eq]
  omega

theorem addUpTo_plainTerms {offset : Int} (small : offset.natAbs ≤ numberCeiling) :
    AddUpTo (plainTerms offset) offset := by
  unfold plainTerms
  split
  · rename_i isZero
    refine ⟨fun _ member => absurd member List.not_mem_nil, ?_, isZero.symm⟩
    intro earlier member
    rw [List.mem_singleton.mp member]
    exact Nat.zero_le _
  · rename_i nonzero
    have value := value_plainTerm nonzero
    refine ⟨?_, ?_, ?_⟩
    · intro term member
      rw [List.mem_singleton.mp member, value]
      exact small
    · intro earlier member
      rcases List.mem_pair.mp member with rfl | rfl
      · exact Nat.zero_le _
      · rw [sum_singleton, value]
        exact small
    · rw [sum_singleton, value]

end Written

open Written

def Base.written : Base → Written.Base
  | .line number => .ofDigits (decimal number)
  | .current => .current
  | .last => .last

def Address.written (address : Address) : Written.Address :=
  .based address.base.written (plainTerms address.offset)

/-- The text of a range with every base and every side, and with no more than one
term on each. -/
def RangeSpec.written : RangeSpec → Written.Range
  | .whole => .whole
  | .single address => .single address.written
  | .pair first second => .pair (some first.written) (some second.written)

theorem Base.spells_written {base : Base} (small : base.IsSmall) :
    base.written.Spells base := by
  cases base with
  | line value =>
    have smallDigits : number (decimal value) ≤ numberCeiling := by
      rw [number_decimal]
      exact small
    have spells := Base.spells_ofDigits smallDigits
    rwa [number_decimal] at spells
  | current => exact .current
  | last => exact .last

theorem Address.spells_written {address : Address} (small : address.IsSmall) :
    address.written.Spells address :=
  .based (Base.spells_written small.1) (addUpTo_plainTerms small.2)

theorem RangeSpec.spells_written {spec : RangeSpec} (small : spec.IsSmall) :
    spec.written.Spells spec := by
  cases spec with
  | whole => exact .whole
  | single address => exact .single (Address.spells_written small)
  | pair first second =>
    exact .pair (.written (Address.spells_written small.1))
      (.written (Address.spells_written small.2))

/-! ## Numbers and terms -/

section Terms

variable {rest : Bytes}

theorem readNumber_digitsText
    {digits : List (Fin 10)}
    (small : number digits ≤ numberCeiling) :
    readNumber (digitsText digits) = .ok (number digits) := by
  have inWord : ¬ number digits > maxNumber := by
    unfold numberCeiling at small
    unfold maxNumber
    omega
  unfold readNumber
  rw [decimalValue_digitsText]
  simp only [if_neg inWord]
  exact congrArg Except.ok (cutOff_of_le small)

theorem takeWhile_digitsText_append
    (stops : Stops Byte.isDigit rest)
    (digits : List (Fin 10)) :
    (digitsText digits ++ rest).takeWhile Byte.isDigit = digitsText digits := by
  rw [takeWhile_append_of_stop stops, List.takeWhile_eq_self_iff.mpr isDigit_of_mem_digitsText]

theorem dropWhile_digitsText_append
    (stops : Stops Byte.isDigit rest)
    (digits : List (Fin 10)) :
    (digitsText digits ++ rest).dropWhile Byte.isDigit = rest := by
  rw [dropWhile_append_of_stop stops, List.dropWhile_eq_nil_iff.mpr isDigit_of_mem_digitsText,
    List.nil_append]

/-- The byte of a sign. -/
def Byte.isSign (byte : UInt8) : Bool :=
  byte = plus || byte = minus

/-- A byte that would belong to the last term of an address, or start another. -/
def Byte.inTerm (byte : UInt8) : Bool :=
  isDigit byte || isSign byte

theorem Bytes.Stops.notDigitOfTerm (stops : Stops Byte.inTerm rest) : Stops Byte.isDigit rest :=
  fun byte first => (Bool.or_eq_false_iff.mp (stops byte first)).1

theorem Bytes.Stops.notSign (stops : Stops Byte.inTerm rest) : Stops Byte.isSign rest :=
  fun byte first => (Bool.or_eq_false_iff.mp (stops byte first)).2

theorem stops_termsText_append
    {holds : UInt8 → Bool}
    (noPlus : holds Byte.plus = false)
    (noMinus : holds Byte.minus = false)
    (stops : Stops holds rest)
    (terms : List Term) :
    Stops holds (termsText terms ++ rest) := by
  cases terms with
  | nil => exact stops
  | cons term terms => exact stops_termsText noPlus noMinus (term :: terms)

theorem Written.Term.exists_size
    {term : Term}
    (small : (term.value id).natAbs ≤ numberCeiling)
    (stops : Stops Byte.isDigit rest) :
    ∃ size, readTermSize (digitsText term.digits ++ rest) = .ok size
      ∧ signedTerm (if term.minus then Byte.minus else Byte.plus) size = term.value id := by
  obtain ⟨minus, digits⟩ := term
  unfold readTermSize
  rw [takeWhile_digitsText_append stops]
  cases digits with
  | nil =>
    refine ⟨1, rfl, ?_⟩
    cases minus <;> rfl
  | cons first more =>
    have smallNumber : number (first :: more) ≤ numberCeiling := by
      cases minus with
      | false => exact small
      | true =>
        have sameSize : (Term.value id ⟨true, first :: more⟩).natAbs = number (first :: more) :=
          Int.natAbs_neg _
        rwa [sameSize] at small
    refine ⟨number (first :: more), readNumber_digitsText smallNumber, ?_⟩
    cases minus <;> rfl

/-- One term is taken, and reading goes on behind it. -/
theorem readTerms_term
    {start : Int}
    {term : Term}
    (small : (term.value id).natAbs ≤ numberCeiling)
    (fits : fitsWord (start + term.value id))
    (stops : Stops Byte.isDigit rest) :
    readTerms start (term.text ++ rest) = readTerms (start + term.value id) rest := by
  obtain ⟨size, readSize, sizeIs⟩ := Term.exists_size small stops
  have signed : ((if term.minus then Byte.minus else Byte.plus) = Byte.plus
      || (if term.minus then Byte.minus else Byte.plus) = Byte.minus) = true := by
    cases term.minus <;> rfl
  rw [Term.text, List.cons_append, readTerms, if_pos signed, readSize]
  simp only [bind, Except.bind, sizeIs, if_pos fits, dropWhile_digitsText_append stops]

theorem readTerms_of_stops (stops : Stops Byte.isSign rest) (start : Int) :
    readTerms start rest = .ok (start, rest) := by
  cases rest with
  | nil => rw [readTerms]
  | cons byte after =>
    have noSign : ¬ (byte = Byte.plus || byte = Byte.minus) :=
      Bool.eq_false_iff.mp (stops byte rfl)
    rw [readTerms, if_neg noSign]

theorem fitsWord_of_small {value : Int} (small : value.natAbs ≤ numberCeiling) :
    fitsWord value = true := by
  unfold numberCeiling at small
  unfold fitsWord minWord maxWord
  rw [Bool.and_eq_true, decide_eq_true_eq, decide_eq_true_eq]
  omega

/-- All terms are taken, from whatever sum reading starts with. -/
theorem readTerms_termsText
    {terms : List Term}
    {start : Int}
    (smallTerms : ∀ term ∈ terms, (term.value id).natAbs ≤ numberCeiling)
    (smallSums : ∀ earlier, earlier <+: terms → (start + sum id earlier).natAbs ≤ numberCeiling)
    (stops : Stops Byte.inTerm rest) :
    readTerms start (termsText terms ++ rest) = .ok (start + sum id terms, rest) := by
  induction terms generalizing start with
  | nil =>
    rw [show start + sum id [] = start from Int.add_zero _]
    exact readTerms_of_stops stops.notSign start
  | cons term terms inductionHypothesis =>
    have smallTerm := smallTerms term List.mem_cons_self
    have afterTerm (others : List Term) :
        start + sum id (term :: others) = start + term.value id + sum id others :=
      (Int.add_assoc _ _ _).symm
    have fits : fitsWord (start + term.value id) := by
      have smallSum := smallSums [term] (List.prefix_append [term] terms)
      rw [sum_singleton] at smallSum
      exact fitsWord_of_small smallSum
    have text : termsText (term :: terms) ++ rest = term.text ++ (termsText terms ++ rest) :=
      List.append_assoc _ _ _
    rw [text, readTerms_term smallTerm fits
      (stops_termsText_append rfl rfl stops.notDigitOfTerm terms), afterTerm terms]
    refine inductionHypothesis
      (fun other member => smallTerms other (List.mem_cons_of_mem _ member)) ?_
    intro earlier before
    rw [← afterTerm earlier]
    exact smallSums (term :: earlier) (List.cons_prefix_cons.mpr ⟨rfl, before⟩)

theorem Written.AddUpTo.readTerms_eq
    {terms : List Term}
    {offset : Int}
    (addUp : AddUpTo terms offset)
    (stops : Stops Byte.inTerm rest) :
    readTerms 0 (termsText terms ++ rest) = .ok (offset, rest) := by
  have smallSums : ∀ earlier, earlier <+: terms
      → (0 + sum id earlier).natAbs ≤ numberCeiling := by
    intro earlier before
    rw [Int.zero_add]
    exact addUp.smallSums earlier ((List.mem_inits _ _).mpr before)
  rw [readTerms_termsText addUp.smallTerms smallSums stops, Int.zero_add, addUp.total]

end Terms

/-! ## Addresses -/

section Addresses

variable {rest : Bytes}

theorem Base.read_of_stops (stops : Stops inBase rest) : Base.read rest = .ok (none, rest) := by
  cases rest with
  | nil => rfl
  | cons byte after =>
    have outside := stops byte rfl
    simp only [inBase, Bool.or_eq_false_iff, beq_eq_false_iff_ne] at outside
    obtain ⟨⟨noDigit, noDot⟩, noDollar⟩ := outside
    unfold Base.read
    simp only [if_neg noDot, if_neg noDollar, noDigit, Bool.false_eq_true, if_false]

theorem Written.Base.Spells.read_eq
    {base : Written.Base}
    {spec : ExLine.Base}
    (spells : base.Spells spec)
    (stops : Stops Byte.isDigit rest) :
    ExLine.Base.read (base.text ++ rest) = .ok (some spec, rest) := by
  cases spells with
  | @line first more small =>
    have isDigit := Byte.isDigit_ofDigit first
    have noDot : Byte.ofDigit first ≠ Byte.dot := by
      intro isDot
      rw [isDot] at isDigit
      cases isDigit
    have noDollar : Byte.ofDigit first ≠ Byte.dollar := by
      intro isDollar
      rw [isDollar] at isDigit
      cases isDigit
    have taken := takeWhile_digitsText_append stops (first :: more)
    have left := dropWhile_digitsText_append stops (first :: more)
    have split : digitsText (first :: more) ++ rest
        = Byte.ofDigit first :: (digitsText more ++ rest) := rfl
    rw [split] at taken left
    show ExLine.Base.read (digitsText (first :: more) ++ rest) = _
    rw [split, ExLine.Base.read, if_neg noDot, if_neg noDollar, if_pos isDigit, taken, left,
      readNumber_digitsText small]
    rfl
  | current => rfl
  | last => rfl

theorem Written.Address.Spells.read_eq
    {address : Written.Address}
    {spec : ExLine.Address}
    (spells : address.Spells spec)
    (stops : Stops Byte.inTerm rest) :
    ExLine.Address.read (address.text ++ rest) = .ok (some spec, rest) := by
  cases spells with
  | @based base terms baseSpec offset isBase addUp =>
    have stopsDigits : Stops Byte.isDigit (termsText terms ++ rest) :=
      stops_termsText_append rfl rfl stops.notDigitOfTerm terms
    show ExLine.Address.read ((base.text ++ termsText terms) ++ rest) = _
    rw [List.append_assoc, ExLine.Address.read, isBase.read_eq stopsDigits]
    simp only [bind, Except.bind, addUp.readTerms_eq stops]
    rfl
  | @offset first more offset addUp =>
    have noBase : ExLine.Base.read (termsText (first :: more) ++ rest)
        = .ok (none, termsText (first :: more) ++ rest) :=
      Base.read_of_stops (stops_termsText rfl rfl (first :: more))
    have shorter : rest.length < (termsText (first :: more) ++ rest).length := by
      rw [List.length_append]
      exact Nat.lt_add_of_pos_left (Nat.succ_pos _)
    show ExLine.Address.read (termsText (first :: more) ++ rest) = _
    rw [ExLine.Address.read, noBase]
    simp only [bind, Except.bind, addUp.readTerms_eq stops, if_pos shorter]
    rfl

/-- A byte that would be the base of an address. -/
def Byte.isSymbol (byte : UInt8) : Bool :=
  byte == dot || byte == dollar

theorem Address.read_of_stops
    (stops : Stops Byte.inTerm rest)
    (noSymbol : Stops Byte.isSymbol rest) :
    Address.read rest = .ok (none, rest) := by
  have noBase : Stops inBase rest := by
    intro byte first
    have noDigit := stops.notDigitOfTerm byte first
    have symbol := noSymbol byte first
    unfold Byte.isSymbol at symbol
    unfold inBase
    rw [noDigit, Bool.false_or, symbol]
  rw [Address.read, Base.read_of_stops noBase]
  simp only [bind, Except.bind, readTerms_of_stops stops.notSign, Nat.lt_irrefl, if_false]
  rfl

theorem Address.read_nil : Address.read [] = .ok (none, []) :=
  read_of_stops (fun _ first => nomatch first) (fun _ first => nomatch first)

/-- If nothing is taken as an address, there is no base. -/
theorem Address.noSymbol_of_read
    {address : Option Address}
    (found : Address.read rest = .ok (address, rest)) :
    Stops Byte.isSymbol rest := by
  obtain ⟨⟨base, afterBase⟩, readBase, found⟩ := bind_eq_ok_iff.mp found
  obtain ⟨⟨offset, afterTerms⟩, readIt, found⟩ := bind_eq_ok_iff.mp found
  have noShorter : rest.length ≤ afterBase.length := by
    have same : afterTerms = rest := (congrArg Prod.snd (pure_eq_ok_iff.mp found)).symm
    rw [← same]
    exact length_le_of_readTerms readIt
  intro byte first
  rw [Bool.eq_false_iff]
  intro symbol
  obtain ⟨after, rfl⟩ := List.head?_eq_some_iff.mp first
  have taken : afterBase = after := by
    unfold Byte.isSymbol at symbol
    simp only [Bool.or_eq_true, beq_iff_eq] at symbol
    rcases symbol with rfl | rfl
    · cases readBase
      rfl
    · cases readBase
      rfl
  rw [taken, List.length_cons] at noShorter
  omega

theorem Written.SideSpells.exists_read
    {side : Option Written.Address}
    {spec : ExLine.Address}
    (spells : SideSpells side spec)
    (stops : Stops Byte.inTerm rest)
    (noSymbol : side = none → Stops Byte.isSymbol rest) :
    ∃ found, ExLine.Address.read (sideText side ++ rest) = .ok (found, rest)
      ∧ found.getD .cursor = spec := by
  cases spells with
  | written spells => exact ⟨some spec, spells.read_eq stops, rfl⟩
  | leftOut => exact ⟨none, Address.read_of_stops stops (noSymbol rfl), rfl⟩

end Addresses

/-! ## Ranges -/

section Ranges

variable {bytes rest : Bytes}

theorem RangeSpec.read_single
    {address : Address}
    (noPercent : Stops (· == Byte.percent) bytes)
    (found : Address.read bytes = .ok (some address, rest))
    (noComma : Stops (· == Byte.comma) rest) :
    RangeSpec.read bytes = .ok (some (.single address), rest) := by
  cases bytes with
  | nil =>
    rw [Address.read_nil] at found
    cases found
  | cons byte after =>
    have notPercent : byte ≠ Byte.percent := by simpa using noPercent byte rfl
    unfold RangeSpec.read
    simp only [if_neg notPercent, found, bind, Except.bind]
    cases rest with
    | nil => rfl
    | cons next afterNext =>
      have notComma : next ≠ Byte.comma := by simpa using noComma next rfl
      simp only [if_neg notComma]
      rfl

/-- Behind a comma the second side is read, whatever the first one is. -/
theorem RangeSpec.read_pair
    {first : Option Address}
    {afterComma : Bytes}
    (noPercent : Stops (· == Byte.percent) bytes)
    (found : Address.read bytes = .ok (first, Byte.comma :: afterComma)) :
    RangeSpec.read bytes = (Address.read afterComma).map fun second =>
      (some (.pair (first.getD .cursor) (second.1.getD .cursor)), second.2) := by
  cases bytes with
  | nil =>
    rw [Address.read_nil] at found
    cases found
  | cons byte after =>
    have notPercent : byte ≠ Byte.percent := by simpa using noPercent byte rfl
    unfold RangeSpec.read
    simp only [if_neg notPercent, found, bind, Except.bind, if_true]
    cases Address.read afterComma <;> rfl

theorem Written.stops_sideText_append
    {holds : UInt8 → Bool}
    (outside : ∀ byte, inAddress byte = true → holds byte = false)
    (side : Option Written.Address)
    (stops : Stops holds rest) :
    Stops holds (sideText side ++ rest) := by
  intro byte first
  cases isText : sideText side with
  | nil =>
    rw [isText] at first
    exact stops byte first
  | cons other others =>
    rw [isText] at first
    cases first
    exact outside byte (inAddress_of_mem_sideText byte (isText ▸ List.mem_cons_self))

theorem Written.notPercent_of_inAddress {byte : UInt8} (inside : inAddress byte = true) :
    (byte == Byte.percent) = false := by
  rw [beq_eq_false_iff_ne]
  rintro rfl
  cases inside

theorem stops_comma {holds : UInt8 → Bool} (noComma : holds Byte.comma = false) (bytes : Bytes) :
    Stops holds (Byte.comma :: bytes) := by
  intro byte first
  cases first
  exact noComma

/-- A pair is read as far as its comma, and from there on as its second side. -/
theorem Written.SideSpells.read_pair
    {first : Option Written.Address}
    {one : ExLine.Address}
    (spells : SideSpells first one)
    (afterComma : Bytes) :
    RangeSpec.read (sideText first ++ Byte.comma :: afterComma)
      = (ExLine.Address.read afterComma).map fun second =>
          (some (.pair one (second.1.getD .cursor)), second.2) := by
  obtain ⟨found, readFirst, rfl⟩ :=
    spells.exists_read (stops_comma rfl afterComma) fun _ => stops_comma rfl afterComma
  exact RangeSpec.read_pair
    (stops_sideText_append (fun _ => notPercent_of_inAddress) first (stops_comma rfl afterComma))
    readFirst

/-- A byte that a text would take with it, though it could end before. -/
def Byte.extendsRange (byte : UInt8) : Bool :=
  inTerm byte || byte == comma

theorem Bytes.Stops.notInTerm (stops : Stops Byte.extendsRange rest) : Stops Byte.inTerm rest :=
  fun byte first => (Bool.or_eq_false_iff.mp (stops byte first)).1

theorem Bytes.Stops.notComma (stops : Stops Byte.extendsRange rest) :
    Stops (· == Byte.comma) rest :=
  fun byte first => (Bool.or_eq_false_iff.mp (stops byte first)).2

theorem Written.Range.Spells.read_eq
    {written : Written.Range}
    {spec : RangeSpec}
    (spells : written.Spells spec)
    (stops : Stops Byte.extendsRange rest)
    (noSymbol : written.IsOpen → Stops Byte.isSymbol rest) :
    RangeSpec.read (written.text ++ rest) = .ok (some spec, rest) := by
  cases spells with
  | whole => rfl
  | @single address spec spells =>
    have noPercent : Stops (· == Byte.percent) (address.text ++ rest) := by
      obtain ⟨byte, others, isText⟩ := List.exists_cons_of_ne_nil address.text_ne_nil
      rw [isText]
      intro other first
      cases first
      exact notPercent_of_inAddress
        (Address.inAddress_of_mem_text byte (isText ▸ List.mem_cons_self))
    exact RangeSpec.read_single noPercent (spells.read_eq stops.notInTerm) stops.notComma
  | @pair first second one other firstSpells secondSpells =>
    obtain ⟨found, readSecond, rfl⟩ := secondSpells.exists_read stops.notInTerm fun leftOut =>
      noSymbol ⟨first, leftOut ▸ rfl⟩
    show RangeSpec.read ((sideText first ++ Byte.comma :: sideText second) ++ rest) = _
    rw [List.append_assoc, List.cons_append, firstSpells.read_pair, readSecond]
    rfl

/-- An open pair takes a base that follows it. -/
theorem Written.Range.Spells.noSymbol_of_read
    {written : Written.Range}
    {spec : RangeSpec}
    (spells : written.Spells spec)
    (isOpen : written.IsOpen)
    (found : RangeSpec.read (written.text ++ rest) = .ok (some spec, rest)) :
    Stops Byte.isSymbol rest := by
  obtain ⟨first, rfl⟩ := isOpen
  cases spells with
  | pair firstSpells secondSpells =>
    have text : (Range.pair first none).text ++ rest = sideText first ++ Byte.comma :: rest :=
      List.append_assoc _ _ _
    rw [text, firstSpells.read_pair] at found
    obtain ⟨⟨second, afterSecond⟩, readSecond, same⟩ := map_eq_ok_iff.mp found
    cases congrArg Prod.snd same
    exact Address.noSymbol_of_read readSecond

end Ranges

/-! ## Heads -/

section Heads

variable {rest : Bytes}

theorem Written.inRange_of_inAddress {byte : UInt8} (inside : inAddress byte = true) :
    Byte.inRange byte = true := by
  simp only [inAddress, inBase, Bool.or_eq_true, beq_iff_eq] at inside
  simp only [Byte.inRange, Bool.or_eq_true, beq_iff_eq]
  tauto

theorem Written.Range.exists_text_eq_cons (written : Written.Range) :
    ∃ byte others, written.text = byte :: others ∧ Byte.inRange byte = true := by
  cases written with
  | whole => exact ⟨Byte.percent, [], rfl, rfl⟩
  | single address =>
    obtain ⟨byte, others, isText⟩ := List.exists_cons_of_ne_nil address.text_ne_nil
    refine ⟨byte, others, isText, inRange_of_inAddress ?_⟩
    exact Address.inAddress_of_mem_text byte (isText ▸ List.mem_cons_self)
  | pair first second =>
    show ∃ byte others, sideText first ++ _ = byte :: others ∧ _
    cases isText : sideText first with
    | nil => exact ⟨Byte.comma, _, rfl, rfl⟩
    | cons byte others =>
      refine ⟨byte, _, rfl, inRange_of_inAddress ?_⟩
      exact inAddress_of_mem_sideText byte (isText ▸ List.mem_cons_self)

/-- A letter, followed by letters, digits and underscores. -/
def Bytes.IsName (name : Bytes) : Prop :=
  ∃ first more, name = first :: more ∧ Byte.isLetter first ∧ ∀ byte ∈ more, Byte.isNameByte byte

theorem Byte.startsName_of_isLetter {byte : UInt8} (letter : isLetter byte) : startsName byte := by
  unfold startsName
  rw [letter]
  rfl

/-- A letter has no meaning in a range. -/
theorem Byte.not_inRange_of_isLetter {byte : UInt8} (letter : isLetter byte) :
    inRange byte = false := by
  have starts := startsName_of_isLetter letter
  have notDigit := not_digit_of_startsName starts
  simp [inRange, notDigit, ne_of_startsName starts plus, ne_of_startsName starts minus,
    ne_of_startsName starts dot, ne_of_startsName starts dollar, ne_of_startsName starts comma,
    ne_of_startsName starts percent]

theorem Byte.not_inRange_of_isBlank {byte : UInt8} (blank : isBlank byte) :
    inRange byte = false := by
  simp only [isBlank, Bool.or_eq_true, beq_iff_eq] at blank
  rcases blank with rfl | rfl
  · rfl
  · rfl

theorem stops_blanks_append
    {holds : UInt8 → Bool}
    {blanks : Bytes}
    (noBlank : ∀ byte, Byte.isBlank byte → holds byte = false)
    (blank : ∀ byte ∈ blanks, Byte.isBlank byte)
    (stops : Stops holds rest) :
    Stops holds (blanks ++ rest) := by
  cases blanks with
  | nil => exact stops
  | cons byte blanks =>
    intro other first
    cases first
    exact noBlank byte (blank byte List.mem_cons_self)

/-- Behind blanks or none, a name ends a range. -/
theorem Bytes.IsName.endsRange
    {blanks name tail : Bytes}
    (isName : name.IsName)
    (blank : ∀ byte ∈ blanks, Byte.isBlank byte) :
    Stops Byte.inRange (blanks ++ (name ++ tail)) := by
  obtain ⟨first, more, rfl, letter, -⟩ := isName
  refine stops_blanks_append (fun _ => Byte.not_inRange_of_isBlank) blank ?_
  intro byte isFirst
  cases isFirst
  exact Byte.not_inRange_of_isLetter letter

theorem Bytes.Stops.notExtending (stops : Stops Byte.inRange rest) :
    Stops Byte.extendsRange rest := by
  intro byte first
  have outside := stops byte first
  simp only [Byte.inRange, Bool.or_eq_false_iff, beq_eq_false_iff_ne] at outside
  simp [Byte.extendsRange, Byte.inTerm, Byte.isSign, outside]

theorem Bytes.Stops.notSymbol (stops : Stops Byte.inRange rest) : Stops Byte.isSymbol rest := by
  intro byte first
  have outside := stops byte first
  simp only [Byte.inRange, Bool.or_eq_false_iff, beq_eq_false_iff_ne] at outside
  simp [Byte.isSymbol, outside]

theorem Bytes.IsName.skipBlanks_append
    {blanks name tail : Bytes}
    (isName : name.IsName)
    (blank : ∀ byte ∈ blanks, Byte.isBlank byte) :
    skipBlanks (blanks ++ (name ++ tail)) = name ++ tail := by
  obtain ⟨first, more, rfl, letter, -⟩ := isName
  have starts := Byte.startsName_of_isLetter letter
  have noBlank : ¬ Byte.isBlank first := by
    simp [Byte.isBlank, Byte.ne_of_startsName starts Byte.space,
      Byte.ne_of_startsName starts Byte.tab]
  unfold skipBlanks
  rw [List.dropWhile_append_of_pos blank, List.cons_append, List.dropWhile_cons_of_neg noBlank]

/-- A line that starts with a range starts with a command. -/
theorem Head.read_of_inRange
    {byte : UInt8}
    (inRange : Byte.inRange byte = true)
    (line : Bytes) :
    Head.read (byte :: line) = (CommandHead.read (byte :: line)).map .command := by
  have ne (other : UInt8) (outside : Byte.inRange other = false) : byte ≠ other := by
    rintro rfl
    rw [outside] at inRange
    cases inRange
  have noLead : ¬ Byte.leads byte = true := by
    simp [Byte.leads, Byte.isBlank, ne Byte.space rfl, ne Byte.tab rfl, ne Byte.colon rfl]
  rw [Head.read_eq_start, List.dropWhile_cons_of_neg noLead, Head.start,
    if_neg (ne Byte.doubleQuote rfl), if_neg (ne Byte.bar rfl)]

theorem Written.Range.Spells.readHead_eq
    {written : Written.Range}
    {spec : RangeSpec}
    {blanks name tail : Bytes}
    (spells : written.Spells spec)
    (blank : ∀ byte ∈ blanks, Byte.isBlank byte)
    (isName : name.IsName)
    (ends : Stops Byte.isNameByte tail) :
    Head.read (written.text ++ (blanks ++ (name ++ tail)))
      = .ok (.command ⟨some spec, name.asciiText, (splitBang name tail).1,
          (splitBang name tail).2.skipBlanks⟩) := by
  have endsRange : Stops Byte.inRange (blanks ++ (name ++ tail)) := isName.endsRange blank
  have readRange := spells.read_eq endsRange.notExtending fun _ => endsRange.notSymbol
  have splits : splitName (name ++ tail) = (name, tail) := by
    obtain ⟨first, more, rfl, letter, others⟩ := isName
    exact splitName_name letter others ends
  obtain ⟨byte, others, isText, inRange⟩ := written.exists_text_eq_cons
  have readHead : CommandHead.read (written.text ++ (blanks ++ (name ++ tail)))
      = .ok ⟨some spec, name.asciiText, (splitBang name tail).1,
          (splitBang name tail).2.skipBlanks⟩ := by
    rw [CommandHead.read, readRange]
    simp only [bind, Except.bind, isName.skipBlanks_append blank, splits]
    rfl
  rw [isText, List.cons_append] at readHead ⊢
  rw [Head.read_of_inRange inRange, readHead]
  rfl

end Heads

namespace Written

/-- **Ranges are read back from what is written, except that an open pair takes a
base.** A range whose numbers are not over the ceiling has a plain spelling. Each of
its spellings, in front of bytes that start with no digit, no sign and no comma, is
read as this range, and what is left are these bytes. The one exception is a pair
whose second side is left out: it is read so if and only if neither a dot nor a
dollar sign follows. With blanks and a name behind it, every spelling is the range
of that command. -/
theorem ranges_are_read_back
    {spec : RangeSpec}
    (small : spec.IsSmall) :
    spec.written.Spells spec
      ∧ ∀ written : Range, written.Spells spec →
          (∀ rest : Bytes, Stops Byte.extendsRange rest →
            (RangeSpec.read (written.text ++ rest) = .ok (some spec, rest) ↔
              (written.IsOpen → Stops Byte.isSymbol rest)))
          ∧ ∀ blanks name tail : Bytes,
              (∀ byte ∈ blanks, Byte.isBlank byte) → name.IsName → Stops Byte.isNameByte tail →
              Head.read (written.text ++ (blanks ++ (name ++ tail)))
                = .ok (.command ⟨some spec, name.asciiText, (splitBang name tail).1,
                    (splitBang name tail).2.skipBlanks⟩) := by
  refine ⟨RangeSpec.spells_written small, fun written spells => ⟨?_, ?_⟩⟩
  · intro rest stops
    constructor
    · intro found isOpen
      exact spells.noSymbol_of_read isOpen found
    · exact spells.read_eq stops
  · intro blanks name tail blank isName ends
    exact spells.readHead_eq blank isName ends

/-- The pair `+3-,`, from the second line behind the cursor to the cursor. -/
def backFromNearby : Range :=
  .pair (some (.offset ⟨false, [lastDigit 3]⟩ [⟨true, []⟩])) none

/-- That pair in front of a bar, of a dot, and of the command `d!`. -/
theorem ranges_are_read_back_from_nearby :
    RangeSpec.IsSmall (.pair ⟨.current, 2⟩ .cursor)
      ∧ backFromNearby.Spells (.pair ⟨.current, 2⟩ .cursor)
      ∧ RangeSpec.read (backFromNearby.text ++ [Byte.bar])
          = .ok (some (.pair ⟨.current, 2⟩ .cursor), [Byte.bar])
      ∧ RangeSpec.read (backFromNearby.text ++ [Byte.dot])
          ≠ .ok (some (.pair ⟨.current, 2⟩ .cursor), [Byte.dot])
      ∧ Head.read (backFromNearby.text ++ ([Byte.space] ++ ([0x64] ++ [Byte.bang])))
          = .ok (.command ⟨some (.pair ⟨.current, 2⟩ .cursor), "d", true, []⟩) := by
  have small : RangeSpec.IsSmall (.pair ⟨.current, 2⟩ .cursor) :=
    ⟨⟨trivial, by decide⟩, trivial, by decide⟩
  have spells : backFromNearby.Spells (.pair ⟨.current, 2⟩ .cursor) :=
    .pair (.written (.offset ⟨by decide, by decide, by decide⟩)) .leftOut
  have isOpen : backFromNearby.IsOpen := ⟨_, rfl⟩
  obtain ⟨ranges, heads⟩ := (ranges_are_read_back small).2 backFromNearby spells
  have stops (byte : UInt8) {holds : UInt8 → Bool} (outside : holds byte = false) :
      Stops holds [byte] := by
    intro other first
    cases first
    exact outside
  refine ⟨small, spells, ?_, ?_, ?_⟩
  · exact (ranges _ (stops _ rfl)).mpr fun _ => stops _ rfl
  · intro found
    have noSymbol := (ranges _ (stops _ rfl)).mp found isOpen
    cases noSymbol Byte.dot rfl
  · exact heads _ _ _ (List.forall_mem_singleton.mpr rfl)
      ⟨0x64, [], rfl, rfl, List.forall_mem_nil _⟩ (stops _ rfl)

/-- The pair `1,`. -/
def fromFirst : Range :=
  .pair (some (.based (.line (lastDigit 1) []) [])) none

/-- Spellings are not read back in front of everything that starts with no digit, no
sign and no comma: in front of a dollar sign the pair from the first line to the
cursor is read as the pair from the first line to the last, and the dollar sign is
taken. -/
theorem open_pair_takes_dollar :
    RangeSpec.IsSmall (.pair ⟨.line 1, 0⟩ .cursor)
      ∧ fromFirst.Spells (.pair ⟨.line 1, 0⟩ .cursor)
      ∧ Stops Byte.extendsRange [Byte.dollar]
      ∧ RangeSpec.read (fromFirst.text ++ [Byte.dollar])
          = .ok (some (.pair ⟨.line 1, 0⟩ ⟨.last, 0⟩), [])
      ∧ RangeSpec.read (fromFirst.text ++ [Byte.dollar])
          ≠ .ok (some (.pair ⟨.line 1, 0⟩ .cursor), [Byte.dollar]) := by
  have found : RangeSpec.read (fromFirst.text ++ [Byte.dollar])
      = .ok (some (.pair ⟨.line 1, 0⟩ ⟨.last, 0⟩), []) := by decide +kernel
  have smallNumber : 1 ≤ numberCeiling := by decide
  refine ⟨⟨⟨smallNumber, by decide⟩, trivial, by decide⟩, ?_, ?_, found, ?_⟩
  · exact .pair (.written (.based (.line (by decide)) ⟨by decide, by decide, by decide⟩)) .leftOut
  · intro byte first
    cases first
    rfl
  · rw [found]
    simp
end Written

end ExLine

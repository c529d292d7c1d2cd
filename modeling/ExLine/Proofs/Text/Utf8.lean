import ExLine.Text.Utf8
import ExLine.Text.Chars

/-!
Contract: the encoding of characters, as the scanners of bytes meet it.

Owns:
- the two shapes of an encoded character: one byte below 0x80, or bytes that
  are all above it;
- `Utf8.decode_encode` and `Utf8.encode_scan`, by which decoding takes back what
  encoding made, and encoding what decoding made;
- `Utf8.decode_append_ascii`: bytes of the command syntax after a byte string do
  not change whether it is well formed.

Does not own: replacing malformed bytes.
-/

set_option autoImplicit false

namespace ExLine.Utf8

/-! ## Shapes of an encoded character -/

/-- A character below U+0080 is encoded by its own code. -/
theorem encodeChar_of_ascii {char : Char} (ascii : char.toNat ≤ 0x7f) :
    String.utf8EncodeChar char = [UInt8.ofNat char.toNat] := by
  unfold String.utf8EncodeChar
  exact if_pos ascii

/-- All bytes of any other character are above the ASCII ones, so none of them
is a byte of the command syntax. -/
theorem high_of_mem_encodeChar
    {char : Char}
    (wide : 0x7f < char.toNat)
    {byte : UInt8}
    (member : byte ∈ String.utf8EncodeChar char) :
    0x80 ≤ byte := by
  have notOne : ¬ char.val.toNat ≤ 0x7f := Nat.not_le.mpr wide
  unfold String.utf8EncodeChar at member
  simp only [if_neg notOne] at member
  split at member
  · simp only [List.mem_cons, List.not_mem_nil, or_false] at member
    rcases member with rfl | rfl <;>
      simp only [UInt8.le_iff_toNat_le, UInt8.toNat_ofNat', UInt8.reduceToNat] <;> omega
  · split at member
    · simp only [List.mem_cons, List.not_mem_nil, or_false] at member
      rcases member with rfl | rfl | rfl <;>
        simp only [UInt8.le_iff_toNat_le, UInt8.toNat_ofNat', UInt8.reduceToNat] <;> omega
    · simp only [List.mem_cons, List.not_mem_nil, or_false] at member
      rcases member with rfl | rfl | rfl | rfl <;>
        simp only [UInt8.le_iff_toNat_le, UInt8.toNat_ofNat', UInt8.reduceToNat] <;> omega

/-- After its leading byte an encoding has no byte of the command syntax. -/
theorem encodeChar_eq_cons (char : Char) :
    ∃ lead others, String.utf8EncodeChar char = lead :: others ∧ ∀ byte ∈ others, 0x80 ≤ byte := by
  by_cases ascii : char.toNat ≤ 0x7f
  · exact ⟨_, [], encodeChar_of_ascii ascii, fun _ member => nomatch member⟩
  · obtain ⟨lead, others, shape⟩ :=
      List.exists_cons_of_ne_nil (String.utf8EncodeChar_ne_nil (c := char))
    refine ⟨lead, others, shape, fun byte member => ?_⟩
    exact high_of_mem_encodeChar (Nat.not_le.mp ascii) (shape ▸ List.mem_cons_of_mem lead member)

/-- A byte below 0x80 stands only in the encoding of its own character. -/
theorem encodeChar_of_mem_ascii
    {char : Char}
    {byte : UInt8}
    (low : byte < 0x80)
    (member : byte ∈ String.utf8EncodeChar char) :
    char = Byte.toChar byte := by
  by_cases ascii : char.toNat ≤ 0x7f
  · rw [encodeChar_of_ascii ascii, List.mem_singleton] at member
    rw [member, Byte.toChar, UInt8.toNat_ofNat', Nat.mod_eq_of_lt (by omega), Char.ofNat_toNat]
  · have high := high_of_mem_encodeChar (Nat.not_le.mp ascii) member
    exact absurd low (UInt8.not_lt.mpr high)

theorem encode_nil : encode [] = [] :=
  rfl

theorem encode_cons (char : Char) (chars : List Char) :
    encode (char :: chars) = String.utf8EncodeChar char ++ encode chars :=
  rfl

theorem encode_append (first second : List Char) :
    encode (first ++ second) = encode first ++ encode second :=
  List.flatMap_append

theorem encode_ne_nil {chars : List Char} (nonempty : chars ≠ []) : encode chars ≠ [] := by
  obtain ⟨char, rest, rfl⟩ := List.exists_cons_of_ne_nil nonempty
  rw [encode_cons]
  exact List.append_ne_nil_of_left_ne_nil String.utf8EncodeChar_ne_nil _

/-! ## Decoding what was encoded -/

theorem scan_one {lead : UInt8} (one : isOne lead) (bytes : Bytes) :
    scan (lead :: bytes) = (scan bytes).cons (Byte.toChar lead) := by
  rw [scan.eq_def (lead :: bytes)]
  simp only [if_pos one]

theorem scan_two {lead second : UInt8} (notOne : ¬ isOne lead) (two : isTwo lead second)
    (bytes : Bytes) :
    scan (lead :: second :: bytes) = (scan bytes).cons (charOfTwo lead second) := by
  rw [scan.eq_def (lead :: second :: bytes)]
  simp only [if_neg notOne, if_pos two]

theorem scan_three {lead second third : UInt8} (notOne : ¬ isOne lead)
    (notTwo : ¬ isTwo lead second) (three : isThree lead second third) (bytes : Bytes) :
    scan (lead :: second :: third :: bytes)
      = (scan bytes).cons (charOfThree lead second third) := by
  rw [scan.eq_def (lead :: second :: third :: bytes)]
  simp only [if_neg notOne, if_neg notTwo, if_pos three]

theorem scan_four {lead second third fourth : UInt8} (notOne : ¬ isOne lead)
    (notTwo : ¬ isTwo lead second) (notThree : ¬ isThree lead second third)
    (four : isFour lead second third fourth) (bytes : Bytes) :
    scan (lead :: second :: third :: fourth :: bytes)
      = (scan bytes).cons (charOfFour lead second third fourth) := by
  rw [scan.eq_def (lead :: second :: third :: fourth :: bytes)]
  simp only [if_neg notOne, if_neg notTwo, if_neg notThree, if_pos four]

/-- A character is a Unicode scalar value. -/
theorem char_bounds (char : Char) :
    char.toNat < 0xd800 ∨ 0xdfff < char.toNat ∧ char.toNat < 0x110000 := by
  have valid := char.valid
  simp only [UInt32.isValidChar, Nat.isValidChar] at valid
  show char.val.toNat < _ ∨ _ < char.val.toNat ∧ char.val.toNat < _
  omega

theorem scan_encodeChar (char : Char) (bytes : Bytes) :
    scan (String.utf8EncodeChar char ++ bytes) = (scan bytes).cons char := by
  have bounds := char_bounds char
  have restored {code : Nat} (same : code = char.toNat) : Char.ofNat code = char := by
    rw [same, Char.ofNat_toNat]
  unfold String.utf8EncodeChar
  change scan ((if char.toNat ≤ 0x7f then [UInt8.ofNat char.toNat] else _) ++ bytes) = _
  split
  · rw [List.singleton_append, scan_one, Byte.toChar, restored]
    · rw [UInt8.toNat_ofNat']
      omega
    · simp only [isOne, UInt8.le_iff_toNat_le, UInt8.toNat_ofNat', UInt8.reduceToNat,
        decide_eq_true_eq]
      omega
  change scan ((if char.toNat ≤ 0x7ff then
    [UInt8.ofNat (char.toNat / 64 % 32 + 192), UInt8.ofNat (char.toNat % 64 + 128)]
    else _) ++ bytes) = _
  split
  · rw [List.cons_append, List.singleton_append, scan_two, charOfTwo, restored]
    · simp only [UInt8.toNat_ofNat']
      omega
    · simp only [isOne, UInt8.le_iff_toNat_le, UInt8.toNat_ofNat', UInt8.reduceToNat,
        decide_eq_true_eq]
      omega
    · simp only [isTwo, leadsTwo, isContinuation, UInt8.le_iff_toNat_le, UInt8.toNat_ofNat',
        UInt8.reduceToNat, Bool.and_eq_true, decide_eq_true_eq]
      omega
  change scan ((if char.toNat ≤ 0xffff then
    [UInt8.ofNat (char.toNat / 4096 % 16 + 224), UInt8.ofNat (char.toNat / 64 % 64 + 128),
      UInt8.ofNat (char.toNat % 64 + 128)]
    else _) ++ bytes) = _
  split
  · rw [List.cons_append, List.cons_append, List.singleton_append, scan_three, charOfThree,
      restored]
    · simp only [UInt8.toNat_ofNat']
      omega
    · simp only [isOne, UInt8.le_iff_toNat_le, UInt8.toNat_ofNat', UInt8.reduceToNat,
        decide_eq_true_eq]
      omega
    · simp only [isTwo, leadsTwo, isContinuation, UInt8.le_iff_toNat_le, UInt8.toNat_ofNat',
        UInt8.reduceToNat, Bool.and_eq_true, decide_eq_true_eq]
      omega
    · simp only [isThree, opensThree, isContinuation, UInt8.le_iff_toNat_le, UInt8.toNat_ofNat',
        UInt8.reduceToNat, Bool.and_eq_true, Bool.or_eq_true, decide_eq_true_eq, beq_iff_eq,
        ← UInt8.toNat_inj]
      omega
  · show scan ([UInt8.ofNat (char.toNat / 262144 % 8 + 240),
      UInt8.ofNat (char.toNat / 4096 % 64 + 128), UInt8.ofNat (char.toNat / 64 % 64 + 128),
      UInt8.ofNat (char.toNat % 64 + 128)] ++ bytes) = _
    rw [List.cons_append, List.cons_append, List.cons_append, List.singleton_append, scan_four,
      charOfFour, restored]
    · simp only [UInt8.toNat_ofNat']
      omega
    all_goals
      simp only [isOne, isTwo, leadsTwo, isThree, opensThree, isFour, opensFour, isContinuation,
        UInt8.le_iff_toNat_le, UInt8.toNat_ofNat', UInt8.reduceToNat, Bool.and_eq_true,
        Bool.or_eq_true, decide_eq_true_eq, beq_iff_eq, ← UInt8.toNat_inj]
      omega

theorem scan_encode (chars : List Char) : scan (encode chars) = ⟨chars, []⟩ := by
  induction chars with
  | nil => rfl
  | cons char rest inductionHypothesis =>
    rw [encode_cons, scan_encodeChar, inductionHypothesis]
    rfl

/-- Decoding takes back what encoding made. -/
theorem decode_encode (chars : List Char) : decode (encode chars) = .ok (String.ofList chars) := by
  unfold decode
  rw [scan_encode]
  rfl

/-- Nothing that was encoded is replaced. -/
theorem decodeLossy_encode (chars : List Char) : decodeLossy (encode chars) = chars := by
  rw [decodeLossy]
  simp only [scan_encode, dif_pos]

/-! ## Encoding what was decoded -/

/-- A Unicode scalar value is the code of its character. -/
theorem toNat_ofNat_of_valid {code : Nat} (valid : code.isValidChar) :
    (Char.ofNat code).toNat = code := by
  rw [Char.ofNat, dif_pos valid]
  rfl

theorem encodeChar_toChar {lead : UInt8} (one : isOne lead) :
    String.utf8EncodeChar (Byte.toChar lead) = [lead] := by
  simp only [isOne, UInt8.le_iff_toNat_le, UInt8.reduceToNat, decide_eq_true_eq] at one
  have code : (Byte.toChar lead).toNat = lead.toNat := toNat_ofNat_of_valid (.inl (by omega))
  rw [encodeChar_of_ascii (by omega), code, UInt8.ofNat_toNat]

theorem encodeChar_charOfTwo {lead second : UInt8} (two : isTwo lead second) :
    String.utf8EncodeChar (charOfTwo lead second) = [lead, second] := by
  simp only [isTwo, leadsTwo, isContinuation, UInt8.le_iff_toNat_le, UInt8.reduceToNat,
    Bool.and_eq_true, decide_eq_true_eq] at two
  have code : (charOfTwo lead second).toNat = lead.toNat % 32 * 64 + second.toNat % 64 :=
    toNat_ofNat_of_valid (.inl (by omega))
  unfold String.utf8EncodeChar
  simp only [Char.toNat_val, code]
  rw [if_neg (by omega), if_pos (by omega)]
  simp only [List.cons.injEq, and_true, ← UInt8.toNat_inj, UInt8.toNat_ofNat']
  omega

theorem encodeChar_charOfThree {lead second third : UInt8} (three : isThree lead second third) :
    String.utf8EncodeChar (charOfThree lead second third) = [lead, second, third] := by
  simp only [isThree, opensThree, isContinuation, UInt8.le_iff_toNat_le, UInt8.reduceToNat,
    Bool.and_eq_true, Bool.or_eq_true, decide_eq_true_eq, beq_iff_eq, ← UInt8.toNat_inj] at three
  have code : (charOfThree lead second third).toNat
      = lead.toNat % 16 * 4096 + second.toNat % 64 * 64 + third.toNat % 64 :=
    toNat_ofNat_of_valid (by omega)
  unfold String.utf8EncodeChar
  simp only [Char.toNat_val, code]
  rw [if_neg (by omega), if_neg (by omega), if_pos (by omega)]
  simp only [List.cons.injEq, and_true, ← UInt8.toNat_inj, UInt8.toNat_ofNat']
  omega

theorem encodeChar_charOfFour {lead second third fourth : UInt8}
    (four : isFour lead second third fourth) :
    String.utf8EncodeChar (charOfFour lead second third fourth)
      = [lead, second, third, fourth] := by
  simp only [isFour, opensFour, isContinuation, UInt8.le_iff_toNat_le, UInt8.reduceToNat,
    Bool.and_eq_true, Bool.or_eq_true, decide_eq_true_eq, beq_iff_eq, ← UInt8.toNat_inj] at four
  have code : (charOfFour lead second third fourth).toNat
      = lead.toNat % 8 * 262144 + second.toNat % 64 * 4096 + third.toNat % 64 * 64
        + fourth.toNat % 64 :=
    toNat_ofNat_of_valid (by omega)
  unfold String.utf8EncodeChar
  simp only [Char.toNat_val, code]
  rw [if_neg (by omega), if_neg (by omega), if_neg (by omega)]
  simp only [List.cons.injEq, and_true, ← UInt8.toNat_inj, UInt8.toNat_ofNat']
  omega

theorem encode_scan_cons
    {char : Char}
    {sequence bytes : Bytes}
    (encoded : String.utf8EncodeChar char = sequence)
    (scanned : encode (scan bytes).chars ++ (scan bytes).rest = bytes) :
    encode ((scan bytes).cons char).chars ++ ((scan bytes).cons char).rest
      = sequence ++ bytes := by
  show String.utf8EncodeChar char ++ encode (scan bytes).chars ++ (scan bytes).rest = _
  rw [encoded, List.append_assoc, scanned]

/-- Decoding a prefix loses no byte. -/
theorem encode_scan (bytes : Bytes) :
    encode (scan bytes).chars ++ (scan bytes).rest = bytes := by
  fun_induction scan bytes with
  | case1 => rfl
  | case2 lead rest one inductionHypothesis =>
    exact encode_scan_cons (encodeChar_toChar one) inductionHypothesis
  | case3 => rfl
  | case4 lead notOne second rest two inductionHypothesis =>
    exact encode_scan_cons (encodeChar_charOfTwo two) inductionHypothesis
  | case5 => rfl
  | case6 lead notOne second notTwo third rest three inductionHypothesis =>
    exact encode_scan_cons (encodeChar_charOfThree three) inductionHypothesis
  | case7 => rfl
  | case8 lead notOne second notTwo third notThree fourth rest four inductionHypothesis =>
    exact encode_scan_cons (encodeChar_charOfFour four) inductionHypothesis
  | case9 => rfl

/-- What is left after the longest well-formed prefix starts with no character. -/
theorem scan_rest (bytes : Bytes) : scan (scan bytes).rest = ⟨[], (scan bytes).rest⟩ := by
  fun_induction scan bytes with
  | case1 => rfl
  | case2 lead rest one inductionHypothesis => exact inductionHypothesis
  | case4 lead notOne second rest two inductionHypothesis => exact inductionHypothesis
  | case6 lead notOne second notTwo third rest three inductionHypothesis =>
    exact inductionHypothesis
  | case8 lead notOne second notTwo third notThree fourth rest four inductionHypothesis =>
    exact inductionHypothesis
  | _ => simp [scan, *]

theorem scan_encode_append (chars : List Char) (bytes : Bytes) :
    scan (encode chars ++ bytes) = ⟨chars ++ (scan bytes).chars, (scan bytes).rest⟩ := by
  induction chars with
  | nil => rfl
  | cons char chars inductionHypothesis =>
    rw [encode_cons, List.append_assoc, scan_encodeChar, inductionHypothesis]
    rfl

theorem decode_eq_ok_iff {bytes : Bytes} {text : String} :
    decode bytes = .ok text ↔ bytes = ofString text := by
  constructor
  · intro decoded
    unfold decode at decoded
    simp only at decoded
    split at decoded
    · rename_i whole
      rw [List.isEmpty_iff] at whole
      have exact := encode_scan bytes
      rw [whole, List.append_nil] at exact
      rw [← Except.ok.inj decoded, ofString, String.toList_ofList, exact]
    · cases decoded
  · rintro rfl
    rw [ofString, decode_encode, String.ofList_toList]

/-- A malformed sequence stays malformed in front of ASCII bytes. -/
theorem scan_malformed_append
    {rest suffix : Bytes}
    (malformed : scan rest = ⟨[], rest⟩)
    (nonempty : rest ≠ [])
    (ascii : ∀ byte ∈ suffix, byte < 0x80) :
    scan (rest ++ suffix) = ⟨[], rest ++ suffix⟩ := by
  have whole := encode_scan (rest ++ suffix)
  generalize scan (rest ++ suffix) = scanned at whole
  obtain ⟨chars, left⟩ := scanned
  cases chars with
  | nil => rw [← whole]; rfl
  | cons char chars =>
    exfalso
    rw [encode_cons, List.append_assoc] at whole
    rcases List.append_eq_append_iff.mp whole with ⟨more, isRest, -⟩ | ⟨more, isChar, isSuffix⟩
    · rw [isRest, scan_encodeChar] at malformed
      cases malformed
    · obtain ⟨lead, others, shape, high⟩ := encodeChar_eq_cons char
      cases more with
      | nil =>
        rw [List.append_nil] at isChar
        rw [← isChar, ← List.append_nil (String.utf8EncodeChar char), scan_encodeChar] at malformed
        cases malformed
      | cons byte more =>
        -- The character would have to reach from `rest` into the ASCII bytes.
        obtain ⟨first, later, rfl⟩ := List.exists_cons_of_ne_nil nonempty
        rw [shape, List.cons_append] at isChar
        have inside : byte ∈ others := by
          rw [(List.cons.inj isChar).2]
          exact List.mem_append_right _ List.mem_cons_self
        have low : byte < 0x80 := ascii byte (isSuffix ▸ List.mem_cons_self)
        exact absurd low (UInt8.not_lt.mpr (high byte inside))

theorem encode_toChar {bytes : Bytes} (ascii : ∀ byte ∈ bytes, byte < 0x80) :
    encode (bytes.map Byte.toChar) = bytes := by
  induction bytes with
  | nil => rfl
  | cons byte bytes inductionHypothesis =>
    rw [List.forall_mem_cons] at ascii
    have one : isOne byte := by
      have low := UInt8.lt_iff_toNat_lt.mp ascii.1
      simp only [isOne, UInt8.le_iff_toNat_le, UInt8.reduceToNat, decide_eq_true_eq] at low ⊢
      omega
    rw [List.map_cons, encode_cons, encodeChar_toChar one, inductionHypothesis ascii.2]
    rfl

/-- ASCII bytes after a byte string neither repair it nor break it, and an error
is found at the same place. -/
theorem decode_append_ascii
    {suffix : Bytes}
    (ascii : ∀ byte ∈ suffix, byte < 0x80)
    (bytes : Bytes) :
    decode (bytes ++ suffix) = (decode bytes).map (· ++ Bytes.asciiText suffix) := by
  have parts := encode_scan bytes
  have malformed := scan_rest bytes
  unfold decode
  generalize scan bytes = scanned at parts malformed
  obtain ⟨chars, rest⟩ := scanned
  simp only at parts malformed
  rw [← parts, List.append_assoc, scan_encode_append]
  by_cases ended : rest = []
  · have suffixScan : scan suffix = ⟨suffix.map Byte.toChar, []⟩ := by
      rw [← encode_toChar ascii, scan_encode, encode_toChar ascii]
    rw [ended, List.nil_append, suffixScan]
    simp [Except.map, Bytes.asciiText]
  · rw [scan_malformed_append malformed ended ascii]
    simp [ended, Except.map]

end ExLine.Utf8

import Forward.Lib.Ascii
import Forward.Lib.Nibbles

/-!
# Hex credentials

`hygiene::hex`: lowercase encoding, and decoding of a fixed number of bytes.
Text is a `String`; its bytes are its UTF-8 encoding, as in the source.
-/

namespace Forward.Hygiene

open Lib

def textBytes (text : String) : List UInt8 := text.toByteArray.data.toList

def hexDigit (byte : UInt8) : Option UInt8 :=
  if 48 ≤ byte ∧ byte ≤ 57 then some (byte - 48)
  else if 97 ≤ byte ∧ byte ≤ 102 then some (byte - 87)
  else if 65 ≤ byte ∧ byte ≤ 70 then some (byte - 55)
  else none

/-- `u8::from_str_radix(pair, 16)` on a two-byte text. The standard library
accepts a leading `+` before the digits. -/
def fromStrRadix16 (hi lo : UInt8) : Option UInt8 :=
  if hi = 43 then hexDigit lo
  else do
    let h ← hexDigit hi
    let l ← hexDigit lo
    return h * 16 + l

def hexChar (nibble : UInt8) : Char :=
  if nibble < 10 then Char.ofNat (48 + nibble.toNat) else Char.ofNat (87 + nibble.toNat)

def encode (bytes : List UInt8) : String :=
  String.ofList
    (bytes.flatMap fun (byte : UInt8) => [hexChar (byte >>> 4), hexChar (byte &&& 0x0f)])

/-- The pairwise loop of `decode_exact`; an odd byte at the end is dropped by
`as_chunks`. -/
def decodePairs : List UInt8 → Option (List UInt8)
  | hi :: lo :: rest => do
    let byte ← fromStrRadix16 hi lo
    let bytes ← decodePairs rest
    return byte :: bytes
  | _ => some []

def decodeExact (raw : String) (expectedLen : Nat) : Option (List UInt8) :=
  let bytes := textBytes raw
  if bytes.length ≠ expectedLen * 2 ∨ ¬ bytes.all fun byte => (hexDigit byte).isSome then none
  else decodePairs bytes

/-! ## Digits -/

def isHexDigit (c : Char) : Bool :=
  c.isDigit || ('a' ≤ c && c ≤ 'f') || ('A' ≤ c && c ≤ 'F')

def asciiByte (c : Char) : UInt8 := UInt8.ofNat c.toNat

variable {c : Char}

theorem forall_ascii {P : Char → Prop} (h : ∀ n : Fin 128, P (Char.ofNat n.val))
    (hc : isAscii c) : P c := by
  have hChar := h ⟨c.toNat, of_decide_eq_true hc⟩
  rwa [Char.ofNat_toNat] at hChar

variable {byte value : UInt8}

theorem hexDigit_cases (h : hexDigit byte = some value) :
    (48 ≤ byte ∧ byte ≤ 57 ∧ value = byte - 48) ∨ (97 ≤ byte ∧ byte ≤ 102 ∧ value = byte - 87) ∨
      (65 ≤ byte ∧ byte ≤ 70 ∧ value = byte - 55) := by
  unfold hexDigit at h
  split at h
  · rename_i hRange
    exact .inl ⟨hRange.1, hRange.2, (Option.some.inj h).symm⟩
  · split at h
    · rename_i hRange
      exact .inr (.inl ⟨hRange.1, hRange.2, (Option.some.inj h).symm⟩)
    · split at h
      · rename_i hRange
        exact .inr (.inr ⟨hRange.1, hRange.2, (Option.some.inj h).symm⟩)
      · cases h

theorem hexDigit_lt (h : hexDigit byte = some value) : value < 16 := by
  rcases hexDigit_cases h with ⟨hLow, hHigh, rfl⟩ | ⟨hLow, hHigh, rfl⟩ | ⟨hLow, hHigh, rfl⟩ <;>
    grind

theorem toNat_lt_of_hexDigit (h : hexDigit byte = some value) : byte.toNat < 128 := by
  rcases hexDigit_cases h with ⟨-, hHigh, -⟩ | ⟨-, hHigh, -⟩ | ⟨-, hHigh, -⟩ <;>
    exact Nat.lt_of_le_of_lt (UInt8.le_iff_toNat_le.mp hHigh) (by decide)

theorem hexDigit_asciiByte (hc : isAscii c) :
    (hexDigit (asciiByte c)).isSome = isHexDigit c :=
  forall_ascii (P := fun c => (hexDigit (asciiByte c)).isSome = isHexDigit c)
    (by decide +kernel) hc

theorem toNat_asciiByte (hc : isAscii c) : (asciiByte c).toNat = c.toNat := by
  have hLow : c.toNat < 128 := of_decide_eq_true hc
  rw [asciiByte, UInt8.toNat_ofNat']
  omega

theorem asciiByte_inj {d : Char} (hc : isAscii c) (hd : isAscii d) :
    asciiByte c = asciiByte d ↔ c = d := by
  rw [← UInt8.toNat_inj, toNat_asciiByte hc, toNat_asciiByte hd, Char.toNat_inj]

theorem asciiByte_plus (hc : isAscii c) : asciiByte c = 43 ↔ c = '+' :=
  asciiByte_inj (d := '+') hc (by decide)

theorem isAsciiGraphic_of_isHexDigit (h : isHexDigit c) : isAsciiGraphic c := by
  simp only [isHexDigit, Bool.or_eq_true, Bool.and_eq_true, decide_eq_true_eq] at h
  rcases h with (hDigit | ⟨hFirst, hLast⟩) | ⟨hFirst, hLast⟩
  · exact isAsciiGraphic_of_isDigit hDigit
  · have hAbove : 97 ≤ c.toNat := UInt32.le_iff_toNat_le.mp hFirst
    have hBelow : c.toNat ≤ 102 := UInt32.le_iff_toNat_le.mp hLast
    exact isAsciiGraphic_iff.mpr (by omega)
  · have hAbove : 65 ≤ c.toNat := UInt32.le_iff_toNat_le.mp hFirst
    have hBelow : c.toNat ≤ 70 := UInt32.le_iff_toNat_le.mp hLast
    exact isAsciiGraphic_iff.mpr (by omega)

theorem plain_of_graphic (h : isAsciiGraphic c) :
    isAscii c ∧ c ≠ ' ' ∧ asciiByte c ≠ 10 ∧ asciiByte c ≠ 13 := by
  obtain ⟨hLow, hHigh⟩ := isAsciiGraphic_iff.mp h
  have hAscii : isAscii c = true := decide_eq_true (by omega)
  -- the other three characters are not visible
  have hOther : ∀ d : Char, d.toNat < 33 → c ≠ d := by
    rintro d hd rfl
    omega
  exact ⟨hAscii, hOther ' ' (by decide),
    fun hEq => hOther '\n' (by decide) ((asciiByte_inj hAscii (by decide)).mp hEq),
    fun hEq => hOther '\r' (by decide) ((asciiByte_inj hAscii (by decide)).mp hEq)⟩

theorem isAscii_of_isHexDigit (h : isHexDigit c) : isAscii c :=
  (plain_of_graphic (isAsciiGraphic_of_isHexDigit h)).1

variable {n : Nat}

theorem plain_of_mem_decimal (h : c ∈ Nat.toDigits 10 n) :
    isAscii c ∧ c ≠ ' ' ∧ asciiByte c ≠ 10 ∧ asciiByte c ≠ 13 :=
  plain_of_graphic (isAsciiGraphic_of_isDigit (isDigit_of_mem_decimal h))

theorem hexChar_of_hexDigit (hc : isAscii c)
    (h : hexDigit (asciiByte c) = some value) : hexChar value = c.toLower := by
  have hAll := forall_ascii
    (P := fun c => ((hexDigit (asciiByte c)).all fun v => hexChar v == c.toLower) = true)
    (by decide +kernel) hc
  rw [h] at hAll
  exact eq_of_beq hAll

theorem hexDigit_hexChar {nibble : UInt8} (h : nibble < 16) :
    hexDigit (asciiByte (hexChar nibble)) = some nibble ∧ isAscii (hexChar nibble) :=
  forall_nibble (P := fun nibble =>
    hexDigit (asciiByte (hexChar nibble)) = some nibble ∧ isAscii (hexChar nibble))
    (by decide) h

/-! ## Texts of digits -/

theorem textBytes_append (text more : String) :
    textBytes (text ++ more) = textBytes text ++ textBytes more := by
  simp [textBytes, String.toByteArray_append]

theorem textBytes_ascii {text : String} (h : ∀ c ∈ text.toList, isAscii c) :
    textBytes text = text.toList.map asciiByte := by
  unfold textBytes
  rw [utf8_eq_flatMap, utf8_of_ascii h]
  rfl

theorem ascii_of_textBytes {text : String} (h : ∀ byte ∈ textBytes text, byte.toNat < 128) :
    ∀ c ∈ text.toList, isAscii c := by
  unfold textBytes at h
  rw [utf8_eq_flatMap] at h
  exact ascii_of_utf8 h

theorem decodePairs_cons {high low : UInt8} {digit : UInt8} (hHigh : hexDigit high = some value)
    (hLow : hexDigit low = some digit) (rest : List UInt8) :
    decodePairs (high :: low :: rest) =
      (decodePairs rest).map fun bytes => (value * 16 + digit) :: bytes := by
  have hSign : high ≠ 43 := by
    rintro rfl
    cases hHigh
  simp only [decodePairs, fromStrRadix16, if_neg hSign, hHigh, hLow]
  cases decodePairs rest <;> rfl

theorem decodePairs_digits (bytes : List UInt8) :
    decodePairs (bytes.flatMap fun (byte : UInt8) =>
      [asciiByte (hexChar (byte >>> 4)), asciiByte (hexChar (byte &&& 0x0f))]) = some bytes := by
  induction bytes with
  | nil => rfl
  | cons byte rest ih =>
    have hHigh := (hexDigit_hexChar (nibbles_lt byte).1).1
    have hLow := (hexDigit_hexChar (nibbles_lt byte).2).1
    rw [List.flatMap_cons, List.cons_append, List.cons_append, List.nil_append,
      decodePairs_cons hHigh hLow, ih, byte_of_nibbles]
    rfl

theorem digits_of_decodePairs {chars : List Char} (k : Nat) (hLength : chars.length = k * 2)
    (hDigits : chars.all isHexDigit = true) :
    ∃ bytes, decodePairs (chars.map asciiByte) = some bytes ∧ bytes.length = k ∧
      bytes.flatMap (fun (byte : UInt8) => [hexChar (byte >>> 4), hexChar (byte &&& 0x0f)]) =
        chars.map Char.toLower := by
  induction k generalizing chars with
  | zero =>
    obtain rfl := List.eq_nil_of_length_eq_zero (by omega : chars.length = 0)
    exact ⟨[], rfl, rfl, rfl⟩
  | succ k ih =>
    obtain ⟨high, low, rest, rfl⟩ : ∃ high low rest, chars = high :: low :: rest := by
      match chars, hLength with
      | high :: low :: rest, _ => exact ⟨high, low, rest, rfl⟩
      | [_], hOdd =>
        rw [List.length_singleton] at hOdd
        omega
      | [], hNone =>
        rw [List.length_nil] at hNone
        omega
    simp only [List.all_cons, Bool.and_eq_true] at hDigits
    obtain ⟨hHigh, hLow, hRest⟩ := hDigits
    have hAsciiHigh := isAscii_of_isHexDigit hHigh
    have hAsciiLow := isAscii_of_isHexDigit hLow
    rw [← hexDigit_asciiByte hAsciiHigh] at hHigh
    rw [← hexDigit_asciiByte hAsciiLow] at hLow
    obtain ⟨value, hValue⟩ := Option.isSome_iff_exists.mp hHigh
    obtain ⟨digit, hDigit⟩ := Option.isSome_iff_exists.mp hLow
    simp only [List.length_cons] at hLength
    obtain ⟨bytes, hBytes, hCount, hBack⟩ := ih (by omega) hRest
    obtain ⟨hNibble, hNibble'⟩ := nibbles_of_byte (hexDigit_lt hValue) (hexDigit_lt hDigit)
    refine ⟨(value * 16 + digit) :: bytes, ?_, ?_, ?_⟩
    · rw [List.map_cons, List.map_cons, decodePairs_cons hValue hDigit, hBytes]
      rfl
    · rw [List.length_cons, hCount]
    · rw [List.flatMap_cons, hNibble, hNibble', hBack, hexChar_of_hexDigit hAsciiHigh hValue,
        hexChar_of_hexDigit hAsciiLow hDigit]
      rfl

/-! ## The two functions -/

variable {bytes : List UInt8}

/-- **What `decode_exact` accepts**: exactly as many digits as it expects. -/
theorem decodeExact_eq_some_iff {raw : String} :
    decodeExact raw n = some bytes ↔
      (raw.toList.length = n * 2 ∧ raw.toList.all isHexDigit = true) ∧
        decodePairs (raw.toList.map asciiByte) = some bytes := by
  have hIff : (¬ ((textBytes raw).length ≠ n * 2 ∨
      ¬ (textBytes raw).all fun byte => (hexDigit byte).isSome)) ↔
      raw.toList.length = n * 2 ∧ raw.toList.all isHexDigit = true := by
    constructor
    · intro hNot
      obtain ⟨hLength, hAll⟩ := not_or.mp hNot
      rw [not_not] at hLength hAll
      have hAscii : ∀ c ∈ raw.toList, isAscii c := by
        refine ascii_of_textBytes fun byte hByte => ?_
        obtain ⟨value, hValue⟩ := Option.isSome_iff_exists.mp (List.all_eq_true.mp hAll byte hByte)
        exact toNat_lt_of_hexDigit hValue
      rw [textBytes_ascii hAscii] at hLength hAll
      refine ⟨by simpa using hLength, List.all_eq_true.mpr fun c hc => ?_⟩
      rw [← hexDigit_asciiByte (hAscii c hc)]
      exact List.all_eq_true.mp hAll _ (List.mem_map_of_mem hc)
    · rintro ⟨hLength, hAll⟩
      have hAscii : ∀ c ∈ raw.toList, isAscii c = true := fun c hc =>
        isAscii_of_isHexDigit (List.all_eq_true.mp hAll c hc)
      rw [textBytes_ascii hAscii, not_or, not_not, not_not, List.length_map]
      refine ⟨hLength, List.all_eq_true.mpr fun byte hByte => ?_⟩
      obtain ⟨c, hc, rfl⟩ := List.mem_map.mp hByte
      rw [hexDigit_asciiByte (hAscii c hc)]
      exact List.all_eq_true.mp hAll c hc
  unfold decodeExact
  dsimp only
  split
  · rename_i hRefused
    constructor
    · nofun
    · rintro ⟨hAccepted, -⟩
      exact absurd hRefused (hIff.mpr hAccepted)
  · rename_i hAccepted
    have hDigits := hIff.mp hAccepted
    have hAscii : ∀ c ∈ raw.toList, isAscii c = true := fun c hc =>
      isAscii_of_isHexDigit (List.all_eq_true.mp hDigits.2 c hc)
    rw [textBytes_ascii hAscii]
    exact ⟨fun hEq => ⟨hDigits, hEq⟩, fun hEq => hEq.2⟩

/-! ### Encodings -/

theorem toList_encode (bytes : List UInt8) :
    (encode bytes).toList = bytes.flatMap fun (byte : UInt8) =>
      [hexChar (byte >>> 4), hexChar (byte &&& 0x0f)] := String.toList_ofList

theorem mem_encode (h : c ∈ (encode bytes).toList) : ∃ nibble < 16, c = hexChar nibble := by
  rw [toList_encode] at h
  obtain ⟨byte, -, hIn⟩ := List.mem_flatMap.mp h
  simp only [List.mem_cons, List.not_mem_nil, or_false] at hIn
  rcases hIn with rfl | rfl
  · exact ⟨_, (nibbles_lt byte).1, rfl⟩
  · exact ⟨_, (nibbles_lt byte).2, rfl⟩

theorem length_encode (bytes : List UInt8) : (encode bytes).toList.length = bytes.length * 2 := by
  rw [toList_encode]
  induction bytes with
  | nil => rfl
  | cons byte rest ih =>
    rw [List.flatMap_cons, List.length_append, ih]
    simp only [List.length_cons, List.length_nil]
    omega

theorem isHexDigit_of_mem_encode (h : c ∈ (encode bytes).toList) : isHexDigit c := by
  obtain ⟨nibble, hNibble, rfl⟩ := mem_encode h
  obtain ⟨hRead, hAscii⟩ := hexDigit_hexChar hNibble
  rw [← hexDigit_asciiByte hAscii, hRead]
  rfl

theorem plain_of_mem_encode (h : c ∈ (encode bytes).toList) :
    isAscii c ∧ c ≠ ' ' ∧ asciiByte c ≠ 10 ∧ asciiByte c ≠ 13 :=
  plain_of_graphic (isAsciiGraphic_of_isHexDigit (isHexDigit_of_mem_encode h))

theorem decodeExact_encode (bytes : List UInt8) :
    decodeExact (encode bytes) bytes.length = some bytes := by
  refine decodeExact_eq_some_iff.mpr ⟨⟨length_encode bytes, ?_⟩, ?_⟩
  · exact List.all_eq_true.mpr fun c hc => isHexDigit_of_mem_encode hc
  · rw [toList_encode, List.map_flatMap]
    exact decodePairs_digits bytes

theorem encode_of_decodeExact {raw : String}
    (h : decodeExact raw n = some bytes) : encode bytes = raw.toLower := by
  obtain ⟨⟨hLength, hDigits⟩, hRead⟩ := decodeExact_eq_some_iff.mp h
  obtain ⟨other, hOther, -, hBack⟩ := digits_of_decodePairs n hLength hDigits
  obtain rfl := Option.mem_unique hRead hOther
  refine String.toList_inj.mp ?_
  show (encode bytes).toList = (raw.map Char.toLower).toList
  rw [String.toList_map]
  exact String.toList_ofList.trans hBack

end Forward.Hygiene

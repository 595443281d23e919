import Forward.Secrets.Names

/-!
# The text of a session token

`SessionToken::parse_hex` reads 64 bytes of text pair by pair with `u8::from_str_radix`, which
takes a plus sign before a digit; `hex::decode_exact` looks at every byte first. So `parse_hex`
also accepts a text whose pairs begin with a sign (`signed_token`).
-/

namespace Forward.Secrets

open Lib Hygiene

/-- Pairs of a digit and, before it, a digit or a plus sign. -/
def signedPairs : List Char → Bool
  | [] => true
  | [_] => false
  | high :: low :: rest => (isHexDigit high || high == '+') && isHexDigit low && signedPairs rest

def HexText (text : String) (n : Nat) : Prop :=
  text.toList.length = n ∧ text.toList.all isHexDigit = true

/-! ## Pairs -/

variable {chars : List Char}

theorem signedPairs_of_digits (k : Nat) (hLength : chars.length = k * 2)
    (h : chars.all isHexDigit = true) : signedPairs chars = true := by
  induction chars using signedPairs.induct generalizing k with
  | case1 => rfl
  | case2 =>
    rw [List.length_singleton] at hLength
    omega
  | case3 high low rest ih =>
    simp only [List.all_cons, Bool.and_eq_true] at h
    obtain ⟨hHigh, hLow, hRest⟩ := h
    simp only [List.length_cons] at hLength
    simp [signedPairs, hHigh, hLow, ih (k - 1) (by omega) hRest]

theorem digits_of_signedPairs (h : signedPairs chars)
    (hPlain : '+' ∉ chars) : chars.all isHexDigit = true := by
  induction chars using signedPairs.induct with
  | case1 => rfl
  | case2 => cases h
  | case3 high low rest ih =>
    simp only [signedPairs, Bool.and_eq_true, Bool.or_eq_true, beq_iff_eq] at h
    simp only [List.mem_cons, not_or] at hPlain
    have hHigh : isHexDigit high := h.1.1.resolve_right (Ne.symm hPlain.1)
    simp [hHigh, h.1.2, ih h.2 hPlain.2.2]

theorem isAscii_of_signedPairs (h : signedPairs chars) : ∀ c ∈ chars, isAscii c := by
  induction chars using signedPairs.induct with
  | case1 => nofun
  | case2 => cases h
  | case3 high low rest ih =>
    simp only [signedPairs, Bool.and_eq_true, Bool.or_eq_true, beq_iff_eq] at h
    obtain ⟨⟨hHigh, hLow⟩, hRest⟩ := h
    have hAscii : isAscii high := by
      rcases hHigh with hDigit | rfl
      · exact isAscii_of_isHexDigit hDigit
      · rfl
    intro c hc
    simp only [List.mem_cons] at hc
    rcases hc with rfl | rfl | hIn
    · exact hAscii
    · exact isAscii_of_isHexDigit hLow
    · exact ih hRest c hIn

theorem fromStrRadix16_isSome {high low : Char} (hHigh : isAscii high)
    (hLow : isAscii low) :
    (fromStrRadix16 (asciiByte high) (asciiByte low)).isSome =
      ((isHexDigit high || high == '+') && isHexDigit low) := by
  rw [← hexDigit_asciiByte hHigh, ← hexDigit_asciiByte hLow]
  unfold fromStrRadix16
  by_cases hSign : high = '+'
  · rw [if_pos ((asciiByte_plus hHigh).mpr hSign)]
    simp [hSign]
  · rw [if_neg fun hEq => hSign ((asciiByte_plus hHigh).mp hEq)]
    cases hexDigit (asciiByte high) with
    | none => simp [hSign]
    | some => cases hexDigit (asciiByte low) <;> rfl

theorem decodePairs_isSome (k : Nat) (hLength : chars.length = k * 2)
    (hAscii : ∀ c ∈ chars, isAscii c) :
    (decodePairs (chars.map asciiByte)).isSome = signedPairs chars := by
  induction chars using signedPairs.induct generalizing k with
  | case1 => rfl
  | case2 =>
    rw [List.length_singleton] at hLength
    omega
  | case3 high low rest ih =>
    simp only [List.length_cons] at hLength
    simp only [List.mem_cons, forall_eq_or_imp] at hAscii
    obtain ⟨hHigh, hLow, hRest⟩ := hAscii
    have hTail := ih (k - 1) (by omega) hRest
    have hPair := fromStrRadix16_isSome hHigh hLow
    simp only [List.map_cons, decodePairs, signedPairs]
    rw [← hPair, ← hTail]
    cases fromStrRadix16 (asciiByte high) (asciiByte low) with
    | none => rfl
    | some => cases decodePairs (rest.map asciiByte) <;> rfl

theorem ascii_of_decodePairs {bytes out : List UInt8} (k : Nat) (hLength : bytes.length = k * 2)
    (h : decodePairs bytes = some out) :
    (∀ byte ∈ bytes, byte.toNat < 128) ∧ out.length = k := by
  induction k generalizing bytes out with
  | zero =>
    obtain rfl := List.eq_nil_of_length_eq_zero (by omega : bytes.length = 0)
    cases h
    exact ⟨nofun, rfl⟩
  | succ k ih =>
    match bytes, hLength with
    | [_], hOdd =>
      rw [List.length_singleton] at hOdd
      omega
    | high :: low :: rest, hLength =>
      simp only [List.length_cons] at hLength
      simp only [decodePairs] at h
      obtain ⟨byte, hPair, hTail⟩ := Option.bind_eq_some_iff.mp h
      obtain ⟨tail, hRest, hOut⟩ := Option.bind_eq_some_iff.mp hTail
      cases hOut
      obtain ⟨hAscii, hCount⟩ := ih (by omega) hRest
      have hBoth : high.toNat < 128 ∧ low.toNat < 128 := by
        unfold fromStrRadix16 at hPair
        split at hPair
        · rename_i hSign
          subst hSign
          exact ⟨by decide, toNat_lt_of_hexDigit hPair⟩
        · obtain ⟨value, hHigh, hNext⟩ := Option.bind_eq_some_iff.mp hPair
          obtain ⟨digit, hLow, -⟩ := Option.bind_eq_some_iff.mp hNext
          exact ⟨toNat_lt_of_hexDigit hHigh, toNat_lt_of_hexDigit hLow⟩
      refine ⟨?_, by rw [List.length_cons, hCount]⟩
      intro b hb
      simp only [List.mem_cons] at hb
      rcases hb with rfl | rfl | hIn
      · exact hBoth.1
      · exact hBoth.2
      · exact hAscii b hIn

/-! ## Tokens -/

theorem SessionToken.parseHex_ok {text : String} {token : SessionToken}
    (h : parseHex text = .ok token) :
    (textBytes text).length = tokenLen * 2 ∧ decodePairs (textBytes text) = some token.bytes := by
  unfold parseHex at h
  split at h
  · cases h
  · rename_i hLength
    split at h
    · cases h
    · rename_i hBytes
      split at h
      · cases h
        exact ⟨not_not.mp hLength, hBytes⟩
      · cases h

theorem SessionToken.parseHex_ascii {text : String} {bytes : List UInt8}
    (hLength : text.toList.length = tokenLen * 2) (hAscii : ∀ c ∈ text.toList, isAscii c)
    (h : decodePairs (text.toList.map asciiByte) = some bytes) :
    ∃ token, parseHex text = .ok token ∧ token.bytes = bytes := by
  have hBytes := textBytes_ascii hAscii
  have hCount : bytes.length = tokenLen :=
    (ascii_of_decodePairs tokenLen ((List.length_map _).trans hLength) h).2
  refine ⟨⟨bytes, hCount⟩, ?_, rfl⟩
  unfold parseHex
  rw [hBytes, List.length_map, if_neg (not_not.mpr hLength), h]
  exact dif_pos hCount

theorem SessionToken.parseHex_ok_iff (text : String) :
    (∃ token, parseHex text = .ok token) ↔
      text.toList.length = 64 ∧ signedPairs text.toList := by
  constructor
  · rintro ⟨token, h⟩
    obtain ⟨hLength, hPairs⟩ := parseHex_ok h
    have hAscii := ascii_of_textBytes (ascii_of_decodePairs tokenLen hLength hPairs).1
    rw [textBytes_ascii hAscii] at hLength hPairs
    rw [List.length_map] at hLength
    refine ⟨hLength, ?_⟩
    rw [← decodePairs_isSome tokenLen hLength hAscii, hPairs]
    rfl
  · rintro ⟨hLength, hPairs⟩
    have hAscii := isAscii_of_signedPairs hPairs
    rw [← decodePairs_isSome tokenLen hLength hAscii] at hPairs
    obtain ⟨bytes, hBytes⟩ := Option.isSome_iff_exists.mp hPairs
    obtain ⟨token, hToken, -⟩ := parseHex_ascii hLength hAscii hBytes
    exact ⟨token, hToken⟩

/-- **Session tokens and their texts.** `parse_hex` accepts exactly the texts of 64
digits, but for texts with a plus sign whose pairs are each a digit with a digit or
a sign before it. On 64 digits it gives the bytes of `decode_exact`. Encoding and
decoding invert each other, up to lower case. -/
theorem token_text_forms (text : String) (bytes : List UInt8) :
    (((∃ token, SessionToken.parseHex text = .ok token) ↔ HexText text 64) ↔
      ¬ (text.toList.length = 64 ∧ signedPairs text.toList = true ∧ '+' ∈ text.toList)) ∧
    (HexText text 64 → ∃ token, SessionToken.parseHex text = .ok token ∧
      decodeExact text 32 = some token.bytes) ∧
    decodeExact (encode bytes) bytes.length = some bytes ∧
    ∀ n, decodeExact text n = some bytes → encode bytes = text.toLower := by
  refine ⟨?_, ?_, decodeExact_encode bytes, fun n => encode_of_decodeExact⟩
  · rw [SessionToken.parseHex_ok_iff]
    constructor
    · rintro hAgree ⟨hLength, hPairs, hSign⟩
      have hDigits := (hAgree.mp ⟨hLength, hPairs⟩).2
      cases List.all_eq_true.mp hDigits '+' hSign
    · intro hNot
      constructor
      · rintro ⟨hLength, hPairs⟩
        refine ⟨hLength, digits_of_signedPairs hPairs ?_⟩
        exact fun hSign => hNot ⟨hLength, hPairs, hSign⟩
      · rintro ⟨hLength, hDigits⟩
        exact ⟨hLength, signedPairs_of_digits 32 hLength hDigits⟩
  · rintro ⟨hLength, hDigits⟩
    have hAscii : ∀ c ∈ text.toList, isAscii c = true := fun c hc =>
      isAscii_of_isHexDigit (List.all_eq_true.mp hDigits c hc)
    obtain ⟨bytes, hBytes, -⟩ := digits_of_decodePairs 32 hLength hDigits
    obtain ⟨token, hToken, rfl⟩ := SessionToken.parseHex_ascii hLength hAscii hBytes
    exact ⟨token, hToken, decodeExact_eq_some_iff.mpr ⟨⟨hLength, hDigits⟩, hBytes⟩⟩

/-- **A sign in a token.** `+` and a digit, and 62 digits more, are no token text,
but `parse_hex` accepts them. -/
theorem signed_token :
    let text := String.ofList ('+' :: List.replicate 63 '0')
    (∃ token, SessionToken.parseHex text = .ok token) ∧ ¬ HexText text 64 := by
  refine ⟨(SessionToken.parseHex_ok_iff _).mpr ?_, ?_⟩
  · rw [String.toList_ofList]
    decide
  · rintro ⟨-, hDigits⟩
    rw [String.toList_ofList] at hDigits
    cases hDigits

end Forward.Secrets

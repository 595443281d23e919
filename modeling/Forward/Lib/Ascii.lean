import Mathlib.Data.List.Induction
import Mathlib.Data.Nat.Basic
import Forward.Lib.Text

/-!
# Texts as bytes

The UTF-8 bytes of a text, for texts of ASCII characters and for the one byte
that no path may hold; and numbers as decimal texts.
-/

namespace Forward.Lib

/-! ## UTF-8 -/

/-- `from_utf8` on bytes that are all ASCII. -/
def asciiChars (bytes : List UInt8) : List Char := bytes.map fun byte => Char.ofNat byte.toNat

theorem utf8_eq_flatMap (text : String) :
    text.toByteArray.data.toList = text.toList.flatMap String.utf8EncodeChar := by
  obtain ⟨chars, rfl⟩ : ∃ chars, text = String.ofList chars := ⟨text.toList, by simp⟩
  rw [String.toByteArray_ofList, String.toList_ofList, List.utf8Encode]
  simp

/-- The text that bytes encode, if they are UTF-8. -/
def fromUtf8 (bytes : List UInt8) : Option String := String.fromUTF8? ⟨bytes.toArray⟩

theorem fromUtf8_eq_some_iff {bytes : List UInt8} {text : String} :
    fromUtf8 bytes = some text ↔ text.toByteArray.data.toList = bytes := by
  unfold fromUtf8 String.fromUTF8?
  constructor
  · intro h
    split at h
    · cases h
      rfl
    · cases h
  · rintro rfl
    have hArray : (⟨text.toByteArray.data.toList.toArray⟩ : ByteArray) = text.toByteArray := rfl
    rw [hArray, dif_pos text.isValidUTF8]
    rfl

variable {c : Char}

theorem utf8EncodeChar_of_ascii (h : isAscii c) :
    String.utf8EncodeChar c = [UInt8.ofNat c.toNat] := by
  have hLow : c.val.toNat ≤ 127 := by
    have : c.toNat < 128 := of_decide_eq_true h
    show c.toNat ≤ 127
    omega
  unfold String.utf8EncodeChar
  exact if_pos hLow

variable {text : List Char}

theorem utf8_of_ascii (h : ∀ c ∈ text, isAscii c) :
    text.flatMap String.utf8EncodeChar = text.map fun c => UInt8.ofNat c.toNat := by
  induction text with
  | nil => rfl
  | cons c rest ih =>
    obtain ⟨hHead, hRest⟩ := List.forall_mem_cons.mp h
    rw [List.flatMap_cons, utf8EncodeChar_of_ascii hHead, ih hRest]
    rfl

theorem ofNat_toNat_of_ascii (h : isAscii c) :
    Char.ofNat (UInt8.ofNat c.toNat).toNat = c := by
  have hLow : c.toNat < 128 := of_decide_eq_true h
  have hByte : (UInt8.ofNat c.toNat).toNat = c.toNat := by
    rw [UInt8.toNat_ofNat']
    omega
  rw [hByte, Char.ofNat_toNat]

theorem asciiChars_utf8 (h : ∀ c ∈ text, isAscii c) :
    asciiChars (text.flatMap String.utf8EncodeChar) = text := by
  rw [utf8_of_ascii h, asciiChars, List.map_map]
  calc text.map _ = text.map id := List.map_congr_left fun c hc => ofNat_toNat_of_ascii (h c hc)
    _ = text := List.map_id text

theorem isAscii_of_utf8EncodeChar
    (h : ∀ byte ∈ String.utf8EncodeChar c, byte.toNat < 128) : isAscii c := by
  by_contra hNot
  have hHigh : ¬ c.val.toNat ≤ 127 := by
    intro hLow
    exact hNot (decide_eq_true (show c.toNat < 128 from by
      have hEq : c.toNat = c.val.toNat := rfl
      omega))
  have hLead : ∀ n : Nat, 128 ≤ n → n < 256 → ¬ (UInt8.ofNat n).toNat < 128 := by
    intro n hn hLt
    rw [UInt8.toNat_ofNat']
    omega
  have hSize : c.val.toNat < 1114112 := by
    rcases c.valid with hValid | hValid
    · omega
    · exact hValid.2
  unfold String.utf8EncodeChar at h
  dsimp only at h
  rw [if_neg hHigh] at h
  split at h
  · exact hLead _ (by omega) (by omega) (h _ List.mem_cons_self)
  · split at h
    · exact hLead _ (by omega) (by omega) (h _ List.mem_cons_self)
    · exact hLead _ (by omega) (by omega) (h _ List.mem_cons_self)

theorem ascii_of_utf8 (h : ∀ byte ∈ text.flatMap String.utf8EncodeChar, byte.toNat < 128) :
    ∀ c ∈ text, isAscii c := by
  intro c hc
  exact isAscii_of_utf8EncodeChar fun byte hByte => h byte (List.mem_flatMap.mpr ⟨c, hc, hByte⟩)

theorem newline_of_fromUtf8 {bytes : List UInt8} {text : String} (h : fromUtf8 bytes = some text)
    (hNewline : '\n' ∈ text.toList) : 10 ∈ bytes := by
  rw [← fromUtf8_eq_some_iff.mp h, utf8_eq_flatMap]
  exact List.mem_flatMap.mpr ⟨'\n', hNewline, by decide⟩

theorem zero_notMem_utf8EncodeChar (h : c ≠ '\x00') : (0 : UInt8) ∉ String.utf8EncodeChar c := by
  have hPos : 0 < c.val.toNat := by
    rcases Nat.eq_zero_or_pos c.val.toNat with hZero | hPos
    · exact absurd (Char.ext (UInt32.toNat_inj.mp hZero)) h
    · exact hPos
  have hByte : ∀ n : Nat, 0 < n → n < 256 → (0 : UInt8) ≠ UInt8.ofNat n := by
    intro n hn hLt hEq
    have hNat := congrArg UInt8.toNat hEq
    rw [UInt8.toNat_ofNat', UInt8.toNat_zero] at hNat
    omega
  unfold String.utf8EncodeChar
  dsimp only
  split
  · simp only [List.mem_singleton]
    exact hByte _ hPos (by omega)
  · split
    · simp only [List.mem_cons, List.not_mem_nil, or_false, not_or]
      exact ⟨hByte _ (by omega) (by omega), hByte _ (by omega) (by omega)⟩
    · split
      · simp only [List.mem_cons, List.not_mem_nil, or_false, not_or]
        exact ⟨hByte _ (by omega) (by omega), hByte _ (by omega) (by omega),
          hByte _ (by omega) (by omega)⟩
      · simp only [List.mem_cons, List.not_mem_nil, or_false, not_or]
        exact ⟨hByte _ (by omega) (by omega), hByte _ (by omega) (by omega),
          hByte _ (by omega) (by omega), hByte _ (by omega) (by omega)⟩

theorem zero_notMem_utf8 (h : '\x00' ∉ text) :
    (0 : UInt8) ∉ text.flatMap String.utf8EncodeChar := by
  intro hMem
  obtain ⟨c, hc, hZero⟩ := List.mem_flatMap.mp hMem
  refine zero_notMem_utf8EncodeChar ?_ hZero
  rintro rfl
  exact h hc

/-! ## Decimal texts -/

theorem toList_toString (n : Nat) : (toString n).toList = Nat.toDigits 10 n := Nat.toList_repr

variable {n : Nat}

theorem isDigit_of_mem_decimal (h : c ∈ Nat.toDigits 10 n) :
    c.isDigit := Nat.isDigit_of_mem_toDigits (by omega) (by omega) h

theorem isAsciiGraphic_iff : isAsciiGraphic c ↔ 33 ≤ c.toNat ∧ c.toNat ≤ 126 := by
  simp only [isAsciiGraphic, Bool.and_eq_true, decide_eq_true_eq]
  exact Iff.rfl

theorem isUpper_iff : c.isUpper ↔ 65 ≤ c.toNat ∧ c.toNat ≤ 90 := by
  change decide ('A'.val ≤ c.val ∧ c.val ≤ 'Z'.val) = true ↔ _
  rw [decide_eq_true_eq]
  rfl

theorem isLower_iff : c.isLower ↔ 97 ≤ c.toNat ∧ c.toNat ≤ 122 := by
  change (decide ('a'.val ≤ c.val) && decide (c.val ≤ 'z'.val)) = true ↔ _
  rw [Bool.and_eq_true, decide_eq_true_eq, decide_eq_true_eq]
  rfl

theorem isAsciiGraphic_of_isDigit (h : c.isDigit) : isAsciiGraphic c := by
  simp only [Char.isDigit, Bool.and_eq_true, decide_eq_true_eq] at h
  have hLow : 48 ≤ c.toNat := UInt32.le_iff_toNat_le.mp h.1
  have hHigh : c.toNat ≤ 57 := UInt32.le_iff_toNat_le.mp h.2
  rw [isAsciiGraphic_iff]
  omega

variable {digits : List Char}

theorem stripPlus_of_digits (h : digits.all Char.isDigit = true) :
    (stripPrefix ['+'] digits).getD digits = digits := by
  cases digits with
  | nil => rfl
  | cons c =>
    have hDigit : c.isDigit := List.all_eq_true.mp h c List.mem_cons_self
    have hSign : ('+' == c) = false := by
      refine beq_false_of_ne ?_
      rintro rfl
      cases hDigit
    simp [stripPrefix, List.isPrefixOf, hSign]

theorem length_decimal_u16 (h : n < 2 ^ 16) : (Nat.toDigits 10 n).length ≤ 5 :=
  (Nat.length_toDigits_le_iff (by omega) (by omega)).mpr (by omega)

theorem length_decimal_u64 (h : n < 2 ^ 64) : (Nat.toDigits 10 n).length ≤ 20 :=
  (Nat.length_toDigits_le_iff (by omega) (by omega)).mpr (by omega)

/-- The value of a list of digits, as `parseU64` computes it. -/
def digitsValue (digits : List Char) : Nat :=
  digits.foldl (fun n c => 10 * n + (c.toNat - '0'.toNat)) 0

theorem parseU64_of_digits (hNe : digits ≠ [])
    (hAll : digits.all Char.isDigit = true) :
    parseU64 digits =
      if digitsValue digits < 2 ^ 64 then some (digitsValue digits) else none := by
  have hShape : ¬ (digits.isEmpty || !digits.all Char.isDigit) = true := by simp [hNe, hAll]
  unfold parseU64
  simp only [stripPlus_of_digits hAll]
  rw [if_neg hShape]
  rfl

theorem parseU64_decimal (n : Nat) :
    parseU64 (Nat.toDigits 10 n) = if n < 2 ^ 64 then some n else none := by
  have hValue : digitsValue (Nat.toDigits 10 n) = n :=
    Nat.ofDigitChars_toDigits (by omega) (by omega)
  rw [parseU64_of_digits Nat.toDigits_ne_nil
    (List.all_eq_true.mpr fun c hc => isDigit_of_mem_decimal hc), hValue]

theorem digitsValue_concat (digits : List Char) (c : Char) :
    digitsValue (digits ++ [c]) = 10 * digitsValue digits + (c.toNat - '0'.toNat) := by
  simp [digitsValue, List.foldl_append]

theorem toDigits_of_isDigit (h : c.isDigit) :
    c.toNat - '0'.toNat < 10 ∧ Nat.toDigits 10 (c.toNat - '0'.toNat) = [c] := by
  have hRange := isAsciiGraphic_iff.mp (isAsciiGraphic_of_isDigit h)
  have hAll : ∀ n : Fin 128, (Char.ofNat n.val).isDigit →
      (Char.ofNat n.val).toNat - '0'.toNat < 10 ∧
        Nat.toDigits 10 ((Char.ofNat n.val).toNat - '0'.toNat) = [Char.ofNat n.val] := by
    decide +kernel
  have hChar := hAll ⟨c.toNat, by omega⟩
  rw [Char.ofNat_toNat] at hChar
  exact hChar h

theorem decimal_of_digits (hNe : digits ≠ [])
    (hAll : digits.all Char.isDigit = true) :
    ∃ k, digits = List.replicate k '0' ++ Nat.toDigits 10 (digitsValue digits) := by
  induction digits using List.reverseRecOn with
  | nil => exact absurd rfl hNe
  | append_singleton front c ih =>
    rw [List.all_append, Bool.and_eq_true] at hAll
    obtain ⟨hFront, hLast⟩ := hAll
    have hDigit : c.isDigit = true := by simpa using hLast
    obtain ⟨hSmall, hChar⟩ := toDigits_of_isDigit hDigit
    rw [digitsValue_concat]
    rcases Nat.eq_zero_or_pos (digitsValue front) with hZero | hPos
    · rw [hZero, Nat.mul_zero, Nat.zero_add, hChar]
      -- nothing but zeros in front of the last digit
      by_cases hNone : front = []
      · exact ⟨0, by rw [hNone]; rfl⟩
      · obtain ⟨k, hk⟩ := ih hNone hFront
        rw [hZero, Nat.toDigits_zero, ← List.replicate_succ'] at hk
        exact ⟨k + 1, by rw [← hk]⟩
    · have hNone : front ≠ [] := by
        rintro rfl
        exact absurd hPos (Nat.lt_irrefl 0)
      obtain ⟨k, hk⟩ := ih hNone hFront
      refine ⟨k, ?_⟩
      rw [← Nat.toDigits_append_toDigits (by omega) hPos hSmall, hChar, ← List.append_assoc, ← hk]

theorem parseU64_digits (hAll : digits.all Char.isDigit = true)
    (h : parseU64 digits = some n) : n = digitsValue digits ∧ n < 2 ^ 64 := by
  have hNe : digits ≠ [] := by
    rintro rfl
    cases h
  rw [parseU64_of_digits hNe hAll] at h
  split at h
  · rename_i hWord
    rw [← Option.some.inj h]
    exact ⟨rfl, hWord⟩
  · cases h

end Forward.Lib

import Forward.Lib.Ascii

/-!
# Base64 without padding

Three bytes are four digits of six bits each. One or two bytes that are left give
two or three digits, the last of them filled up with zero bits.
-/

namespace Forward.Lib.Base64

def alphabet : List Char :=
  "ABCDEFGHIJKLMNOPQRSTUVWXYZabcdefghijklmnopqrstuvwxyz0123456789+/".toList

def digit (n : Nat) : Char := alphabet.getD (n % 64) 'A'

def encode : List UInt8 → List Char
  | [] => []
  | [a] => [digit (a.toNat / 4), digit (a.toNat % 4 * 16)]
  | [a, b] =>
    [digit (a.toNat / 4), digit (a.toNat % 4 * 16 + b.toNat / 16), digit (b.toNat % 16 * 4)]
  | a :: b :: c :: bytes =>
    digit (a.toNat / 4) :: digit (a.toNat % 4 * 16 + b.toNat / 16) ::
      digit (b.toNat % 16 * 4 + c.toNat / 64) :: digit (c.toNat % 64) :: encode bytes

theorem length_encode (bytes : List UInt8) :
    (encode bytes).length = (4 * bytes.length + 2) / 3 := by
  fun_induction encode bytes with
  | case1 => rfl
  | case2 a => simp
  | case3 a b => simp
  | case4 a b c bytes ih =>
    simp only [List.length_cons, ih]
    omega

theorem isAsciiGraphic_digit (n : Nat) : isAsciiGraphic (digit n) := by
  have hAll : ∀ c ∈ alphabet, isAsciiGraphic c := List.all_eq_true.mp (by decide +kernel)
  unfold digit
  rw [List.getD_eq_getElem?_getD]
  cases hDigit : alphabet[n % 64]? with
  | none => decide
  | some c => exact hAll c (List.mem_of_getElem? hDigit)

theorem isAsciiGraphic_of_mem_encode {bytes : List UInt8} {c : Char} (h : c ∈ encode bytes) :
    isAsciiGraphic c := by
  fun_induction encode bytes with
  | case1 => cases h
  | case2 a =>
    simp only [List.mem_cons, List.not_mem_nil, or_false] at h
    rcases h with rfl | rfl <;> exact isAsciiGraphic_digit _
  | case3 a b =>
    simp only [List.mem_cons, List.not_mem_nil, or_false] at h
    rcases h with rfl | rfl | rfl <;> exact isAsciiGraphic_digit _
  | case4 a b c' bytes ih =>
    simp only [List.mem_cons] at h
    rcases h with rfl | rfl | rfl | rfl | hRest
    · exact isAsciiGraphic_digit _
    · exact isAsciiGraphic_digit _
    · exact isAsciiGraphic_digit _
    · exact isAsciiGraphic_digit _
    · exact ih hRest

example : encode [77, 97, 110, 77, 97] = "TWFuTWE".toList := by decide +kernel

end Forward.Lib.Base64

import Mathlib.Data.Nat.Basic

/-!
# The two nibbles of a byte

A hexadecimal digit is half a byte. Nothing wraps around when two of them are put
together.
-/

namespace Forward.Lib

theorem forall_nibble {P : UInt8 → Prop} (h : ∀ n : Fin 16, P (UInt8.ofNat n.val)) {nibble : UInt8}
    (hNibble : nibble < 16) : P nibble := by
  have hValue := h ⟨nibble.toNat, UInt8.lt_iff_toNat_lt.mp hNibble⟩
  rwa [UInt8.ofNat_toNat] at hValue

theorem toNat_high (byte : UInt8) : (byte >>> 4).toNat = byte.toNat / 16 := by
  rw [UInt8.toNat_shiftRight, Nat.shiftRight_eq_div_pow]
  rfl

theorem toNat_low (byte : UInt8) : (byte &&& 0x0f).toNat = byte.toNat % 16 := by
  rw [UInt8.toNat_and]
  exact Nat.and_two_pow_sub_one_eq_mod byte.toNat 4

theorem nibbles_lt (byte : UInt8) : byte >>> 4 < 16 ∧ byte &&& 0x0f < 16 := by
  rw [UInt8.lt_iff_toNat_lt, UInt8.lt_iff_toNat_lt, toNat_high, toNat_low]
  have hByte := byte.toNat_lt
  show byte.toNat / 16 < 16 ∧ byte.toNat % 16 < 16
  omega

theorem toNat_nibbles {high low : UInt8} (hHigh : high < 16) (hLow : low < 16) :
    (high * 16 + low).toNat = high.toNat * 16 + low.toNat := by
  have hHighNat : high.toNat < 16 := UInt8.lt_iff_toNat_lt.mp hHigh
  have hLowNat : low.toNat < 16 := UInt8.lt_iff_toNat_lt.mp hLow
  rw [UInt8.toNat_add, UInt8.toNat_mul]
  show (high.toNat * 16 % 256 + low.toNat) % 256 = _
  omega

theorem byte_of_nibbles (byte : UInt8) : (byte >>> 4) * 16 + (byte &&& 0x0f) = byte := by
  obtain ⟨hHigh, hLow⟩ := nibbles_lt byte
  rw [← UInt8.toNat_inj, toNat_nibbles hHigh hLow, toNat_high, toNat_low]
  omega

theorem nibbles_of_byte {high low : UInt8} (hHigh : high < 16) (hLow : low < 16) :
    (high * 16 + low) >>> 4 = high ∧ (high * 16 + low) &&& 0x0f = low := by
  have hLowNat : low.toNat < 16 := UInt8.lt_iff_toNat_lt.mp hLow
  rw [← UInt8.toNat_inj, ← UInt8.toNat_inj, toNat_high, toNat_low, toNat_nibbles hHigh hLow]
  omega

end Forward.Lib

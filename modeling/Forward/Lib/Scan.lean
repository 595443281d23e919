import Mathlib.Data.List.Basic
import Mathlib.Data.UInt

/-!
# Search without branching

A constant-time search walks the whole list. Every element contributes its index through a word
mask that is all ones at the first match and zero everywhere else. `scan` is that walk over 64-bit
words.
-/

namespace Forward.Lib

universe u

variable {α : Type u} {p : α → Bool}

/-- `(old & !mask) | (new & mask)` with `mask = 0.wrapping_sub(flag)`. -/
def select (flag : Bool) (old new : UInt64) : UInt64 :=
  let mask : UInt64 := 0 - (if flag then 1 else 0)
  (old &&& ~~~mask) ||| (new &&& mask)

/-- One walk from `index` on, carrying the position and the flag. -/
def scanFrom (p : α → Bool) : Nat → UInt64 × Bool → List α → UInt64 × Bool
  | _, acc, [] => acc
  | index, (position, found), x :: xs =>
    let hit := p x
    scanFrom p (index + 1) (select (hit && !found) position (UInt64.ofNat index), found || hit) xs

def scan (p : α → Bool) (l : List α) : UInt64 × Bool := scanFrom p 0 (0, false) l

theorem select_eq (flag : Bool) (old new : UInt64) :
    select flag old new = if flag then new else old := by
  cases flag with
  | true =>
    have hMask : (0 : UInt64) - 1 = -1 := by decide
    simp [select, hMask]
  | false => simp [select]

theorem scanFrom_found (l : List α) (index : Nat) (position : UInt64) (found : Bool) :
    (scanFrom p index (position, found) l).2 = (found || l.any p) := by
  induction l generalizing index position found with
  | nil => simp [scanFrom]
  | cons x xs ih => rw [scanFrom, ih, List.any_cons, Bool.or_assoc]

theorem scanFrom_after (l : List α) (index : Nat) (position : UInt64) :
    (scanFrom p index (position, true) l).1 = position := by
  induction l generalizing index with
  | nil => rfl
  | cons x xs ih =>
    rw [scanFrom, select_eq, Bool.not_true, Bool.and_false, if_neg Bool.false_ne_true]
    exact ih (index + 1)

theorem scanFrom_position {l : List α} (h : l.any p = true) (index : Nat) (position : UInt64) :
    (scanFrom p index (position, false) l).1 = UInt64.ofNat (index + l.findIdx p) := by
  induction l generalizing index position with
  | nil => simp at h
  | cons x xs ih =>
    rw [scanFrom, select_eq, List.findIdx_cons]
    cases hx : p x with
    | true =>
      -- the first match: its index is taken, and kept to the end
      simpa using scanFrom_after xs (index + 1) (UInt64.ofNat index)
    | false =>
      have hRest : xs.any p = true := by simpa [hx] using h
      have hNext := ih hRest (index + 1) position
      rw [show index + 1 + xs.findIdx p = index + (xs.findIdx p + 1) by omega] at hNext
      simpa using hNext

theorem scan_found (l : List α) : (scan p l).2 = l.any p := by
  rw [scan, scanFrom_found, Bool.false_or]

theorem scan_position {l : List α} (h : l.any p = true) (hLen : l.length ≤ 2 ^ 64) :
    (scan p l).1.toNat = l.findIdx p := by
  have hLt : l.findIdx p < l.length := by
    rw [List.findIdx_lt_length]
    simpa using h
  have hMod : l.findIdx p % 2 ^ 64 = l.findIdx p := Nat.mod_eq_of_lt (by omega)
  rw [scan, scanFrom_position h, Nat.zero_add, UInt64.toNat_ofNat', hMod]

end Forward.Lib

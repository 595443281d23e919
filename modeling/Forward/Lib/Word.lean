import Mathlib.Algebra.GroupWithZero.Nat
import Mathlib.Order.Basic

/-!
# 64-bit counters and monotonic time

Counters that saturate instead of wrapping, and the arithmetic of a monotonic clock. Instants and
durations (nanoseconds) are plain `Nat`s.
-/

namespace Forward.Lib

def wordMax : Nat := 2 ^ 64 - 1

/-- Addition on 64-bit words that stops at the largest word. -/
def satAdd (a b : Nat) : Nat := min (a + b) wordMax

theorem satAdd_le (a b : Nat) : satAdd a b ≤ wordMax := Nat.min_le_right _ _

theorem le_satAdd {a b : Nat} (ha : a ≤ wordMax) : a ≤ satAdd a b := by
  unfold satAdd
  omega

theorem satAdd_one_of_lt {a : Nat} (ha : a < wordMax) : satAdd a 1 = a + 1 := by
  unfold satAdd
  omega

def nanosPerSec : Nat := 1000000000

/-- The largest duration: a 64-bit count of seconds and the last nanosecond. -/
def durationMax : Nat := wordMax * nanosPerSec + 999999999

/-- The latest instant: a signed 64-bit count of seconds and the last
nanosecond. -/
def instantMax : Nat := (2 ^ 63 - 1) * nanosPerSec + 999999999

def fromSecs (secs : Nat) : Nat := secs * nanosPerSec

def asSecs (d : Nat) : Nat := d / nanosPerSec

/-- Time since `earlier`, or nothing when `earlier` is still to come. -/
def checkedDurationSince (now earlier : Nat) : Option Nat :=
  if earlier ≤ now then some (now - earlier) else none

/-- Time since `earlier`, zero when `earlier` is still to come. -/
def durationSince (now earlier : Nat) : Nat := now - earlier

def checkedAdd (t d : Nat) : Option Nat :=
  if t + d ≤ instantMax then some (t + d) else none

/-- Multiplication of a duration that stops at the largest duration. -/
def saturatingMul (d k : Nat) : Nat := min (d * k) durationMax

@[simp] theorem checkedDurationSince_of_le {now earlier : Nat} (h : earlier ≤ now) :
    checkedDurationSince now earlier = some (now - earlier) := if_pos h

theorem checkedAdd_eq_some {t u : Nat} {d : Nat} :
    checkedAdd t d = some u ↔ u = t + d ∧ t + d ≤ instantMax := by
  unfold checkedAdd
  split
  · simp_all [eq_comm]
  · simp only [reduceCtorEq, false_iff]
    omega

end Forward.Lib

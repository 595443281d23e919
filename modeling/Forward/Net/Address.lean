import Mathlib.Data.BitVec

/-!
# Network addresses

IPv4 and IPv6 addresses, and the canonical form that makes an IPv4 address and
its IPv4-mapped IPv6 form one peer.
-/

namespace Forward.Net

inductive IpAddr
  | v4 (bits : BitVec 32)
  | v6 (bits : BitVec 128)
  deriving DecidableEq

namespace IpAddr

/-- `::ffff:a.b.c.d` for the IPv4 address `a.b.c.d`. -/
def mapped (bits : BitVec 32) : IpAddr := v6 (0xffff#96 ++ bits)

def toCanonical : IpAddr → IpAddr
  | v4 bits => v4 bits
  | v6 bits =>
    if bits.extractLsb' 32 96 = 0xffff#96 then v4 (bits.extractLsb' 0 32) else v6 bits

def isUnspecified : IpAddr → Bool
  | v4 bits => bits = 0
  | v6 bits => bits = 0

/-- `224.0.0.0/4` and `ff00::/8`. -/
def isMulticast : IpAddr → Bool
  | v4 bits => bits.extractLsb' 28 4 = 0xe#4
  | v6 bits => bits.extractLsb' 120 8 = 0xff#8

/-- `127.0.0.0/8` and `::1`. -/
def isLoopback : IpAddr → Bool
  | v4 bits => bits.extractLsb' 24 8 = 127#8
  | v6 bits => bits = 1

def broadcast : IpAddr := v4 0xffffffff#32

theorem toCanonical_mapped (bits : BitVec 32) :
    (mapped bits).toCanonical = (v4 bits).toCanonical := by
  have hHigh : (0xffff#96 ++ bits).extractLsb' 32 96 = 0xffff#96 := by
    rw [BitVec.extractLsb'_append_eq_left]
  have hLow : (0xffff#96 ++ bits).extractLsb' 0 32 = bits := by
    rw [BitVec.extractLsb'_append_eq_right]
  simp only [mapped, toCanonical, hHigh, if_pos, hLow]

theorem toCanonical_toCanonical (ip : IpAddr) : ip.toCanonical.toCanonical = ip.toCanonical := by
  cases ip with
  | v4 => rfl
  | v6 bits =>
    by_cases hMapped : bits.extractLsb' 32 96 = 0xffff#96
    · simp only [toCanonical, if_pos hMapped]
    · simp only [toCanonical, if_neg hMapped]

end IpAddr

structure SocketAddr where
  ip : IpAddr
  port : Nat
  deriving DecidableEq

end Forward.Net

import Forward.Lib.AddressText
import Forward.Net.Address

/-!
# Addresses as texts

How a literal address is read from a configuration, and how a URL serialises it as its
host. Many texts are read as one IPv6 address; one of them is serialised.
-/

namespace Forward.Net

open Lib

def ipv6FromStr (text : String) : Option (BitVec 128) :=
  match readIpv6 text.toList with
  | some (groups, []) => some (BitVec.ofNat 128 (ofPieces 65536 groups))
  | _ => none

def IpAddr.fromStr (text : String) : Option IpAddr :=
  match readIpv4 text.toList with
  | some (octets, []) => some (.v4 (BitVec.ofNat 32 (ofPieces 256 octets)))
  | some (_, _ :: _) => none
  | none => (ipv6FromStr text).map .v6

def octets (bits : BitVec 32) : List Nat := pieces 256 4 bits.toNat

def segments (bits : BitVec 128) : List Nat := pieces 65536 8 bits.toNat

def IpAddr.hostText : IpAddr → List Char
  | v4 bits => ipv4Text (octets bits)
  | v6 bits => '[' :: (ipv6Text (segments bits) ++ [']'])

variable {text : String}

theorem fromStr_v4 {bits : BitVec 32} (h : IpAddr.fromStr text = some (.v4 bits)) :
    text.toList = ipv4Text (octets bits) ∧ ipv6FromStr text = none := by
  unfold IpAddr.fromStr at h
  split at h
  · rename_i read hRead
    obtain rfl := IpAddr.v4.inj (Option.some.inj h)
    obtain ⟨hLength, hSmall, hText⟩ := eq_of_readIpv4 hRead
    have hOctets := pieces_ofPieces hSmall
    rw [hLength] at hOctets
    have hBound : ofPieces 256 read < 2 ^ 32 := by
      have hPower := ofPieces_lt hSmall
      rwa [hLength] at hPower
    constructor
    · rw [octets, BitVec.toNat_ofNat, Nat.mod_eq_of_lt hBound, hOctets, hText, List.append_nil]
    · rw [ipv6FromStr, readIpv6_of_readIpv4 hRead]
  · cases h
  · obtain ⟨other, -, hOther⟩ := Option.map_eq_some_iff.mp h
    cases hOther

theorem eq_one_of_segments {bits : BitVec 128} (h : ipv6Text (segments bits) = "::1".toList) :
    bits = 1 := by
  have hBound : bits.toNat < 65536 ^ 8 := bits.isLt
  have hSegments := ofPieces_pieces 65536 8 bits.toNat
  have hOne : pieces 65536 8 bits.toNat = _ := eq_one_of_ipv6Text (length_pieces 65536 8 _) h
  rw [hOne, Nat.mod_eq_of_lt hBound] at hSegments
  exact BitVec.eq_of_toNat_eq hSegments.symm

end Forward.Net

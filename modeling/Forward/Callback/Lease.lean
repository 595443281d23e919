import Forward.Lib.Table
import Forward.Lib.Word
import Forward.Net.Address

/-!
# Callback leases

Which callback ports of the laptop are leased, by whom, until when, and how many listeners serve
each. A lease shares a stop flag with its listeners, named by the `serve_on` call that made it:
whoever compares flags has a reference to one, so no other is at its address.

`Instant + Duration` panics where the sum cannot be represented; `refresh` is `none` then.
-/

namespace Forward.Callback

open Lib Net

structure Lease where
  owner : SocketAddr
  deadline : Nat
  listeners : Nat
  stop : Nat
  deriving DecidableEq

structure Leases where
  entries : Table Nat Lease
  stopped : Nat → Bool

inductive Refresh
  | live
  | releasing
  | absent
  | owned (owner : SocketAddr)

namespace Leases

def empty : Leases := ⟨∅, fun _ => false⟩

def stopFlag (l : Leases) (stop : Nat) : Leases :=
  { l with stopped := Function.update l.stopped stop true }

def put (l : Leases) (port : Nat) (lease : Lease) : Leases :=
  { l with entries := l.entries.insert port lease }

def refresh (l : Leases) (port : Nat) (owner : SocketAddr) (ttl now : Nat) :
    Option (Refresh × Leases) :=
  match l.entries.lookup port with
  | none => some (.absent, l)
  | some lease =>
    if l.stopped lease.stop then some (.releasing, l)
    else if lease.owner ≠ owner then some (.owned lease.owner, l)
    else (checkedAdd now ttl).map fun deadline =>
      (.live, l.put port { lease with deadline := max lease.deadline deadline })

/-- The flag of an entry that is replaced is set first. -/
def displace (l : Leases) (port : Nat) : Leases :=
  match l.entries.lookup port with
  | none => l
  | some replaced => l.stopFlag replaced.stop

/-- `insert` after the deadline is known. -/
def insert (l : Leases) (port : Nat) (lease : Lease) : Leases := (l.displace port).put port lease

/-- The answer is whether the entry was removed. -/
def release (l : Leases) (port stop : Nat) : Bool × Leases :=
  match l.entries.lookup port with
  | none => (false, l)
  | some lease =>
    if lease.stop = stop then
      if lease.listeners - 1 = 0 then
        (true, { l with entries := l.entries.erase port }.stopFlag stop)
      else (false, l.put port { lease with listeners := lease.listeners - 1 })
    else (false, l)

def expire (l : Leases) (now : Nat) : Leases :=
  { l with stopped := fun stop =>
      l.stopped stop || l.entries.values.any fun lease => lease.deadline ≤ now && lease.stop = stop }

theorem refresh_eq_live {l l' : Leases} {port ttl now : Nat} {owner : SocketAddr}
    (h : l.refresh port owner ttl now = some (.live, l')) :
    ∃ lease, l.entries.lookup port = some lease ∧ l.stopped lease.stop = false ∧
      lease.owner = owner ∧
      l' = l.put port { lease with deadline := max lease.deadline (now + ttl) } := by
  unfold refresh at h
  cases hLease : l.entries.lookup port with
  | none =>
    rw [hLease] at h
    cases h
  | some lease =>
    rw [hLease] at h
    dsimp only at h
    split at h
    · cases h
    · rename_i hLive
      split at h
      · cases h
      · rename_i hOwner
        obtain ⟨deadline, hDeadline, hPut⟩ := Option.map_eq_some_iff.mp h
        obtain ⟨rfl, -⟩ := checkedAdd_eq_some.mp hDeadline
        obtain ⟨-, rfl⟩ := Prod.mk.inj hPut
        exact ⟨lease, rfl, Bool.not_eq_true _ ▸ hLive, not_not.mp hOwner, rfl⟩

variable (l : Leases) (port stop : Nat)

theorem displace_entries : (l.displace port).entries = l.entries := by
  unfold displace
  split <;> rfl

theorem insert_entries (lease : Lease) :
    (l.insert port lease).entries = l.entries.insert port lease := by
  show (l.displace port).entries.insert port lease = _
  rw [displace_entries]

theorem release_cases :
    (l.release port stop = (false, l) ∧
        ∀ lease, l.entries.lookup port = some lease → lease.stop ≠ stop) ∨
      ∃ lease, l.entries.lookup port = some lease ∧ lease.stop = stop ∧
        ((lease.listeners - 1 = 0 ∧ (l.release port stop).1 ∧
            (l.release port stop).2.entries = l.entries.erase port) ∨
          (lease.listeners - 1 ≠ 0 ∧ (l.release port stop).1 = false ∧
            (l.release port stop).2.entries =
              l.entries.insert port { lease with listeners := lease.listeners - 1 })) := by
  unfold release
  cases hLease : l.entries.lookup port with
  | none => exact .inl ⟨rfl, nofun⟩
  | some lease =>
    dsimp only
    by_cases hStop : lease.stop = stop
    · refine .inr ⟨lease, rfl, hStop, ?_⟩
      rw [if_pos hStop]
      by_cases hLast : lease.listeners - 1 = 0
      · rw [if_pos hLast]
        exact .inl ⟨hLast, rfl, rfl⟩
      · rw [if_neg hLast]
        exact .inr ⟨hLast, rfl, rfl⟩
    · rw [if_neg hStop]
      refine .inl ⟨rfl, fun found hEq => ?_⟩
      exact Option.some.inj hEq ▸ hStop

end Leases

end Forward.Callback

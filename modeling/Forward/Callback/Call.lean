import Forward.Callback.Serve
import Forward.Net.Config

/-!
# One call of `serve_on`

`serve_on` as one function of the table: what the system answers and the clock are its arguments,
and a port that is being released is gone when the wait is over. `none` is a panic, where a
deadline cannot be represented.
-/

namespace Forward.Callback

open Lib Net

inductive ServeError
  | noPeer (port : Nat)
  | owned (port : Nat) (owner : SocketAddr)
  | tooMany
  | reserved (port : Nat)
  | bind (port : Nat) (inUse : Bool)
  | unnamed
  | notStarted (port : Nat)
  deriving DecidableEq

/-- What a call meets: the clock in `refresh` and in `insert`, the answers to its
binds and to the start of its threads, the port that is bound where it asks for
any, and the address of its stop flag. -/
structure Outcomes where
  refreshed : Nat
  bind : Reply
  named : Bool
  chosen : Nat
  bind6 : Reply
  inserted : Nat
  spawn : Bool
  spawn6 : Bool
  stop : Nat

def Leases.holding (l : Leases) (port : Nat) : Option (SocketAddr × Nat) :=
  (l.entries.lookup port).map fun lease => (lease.owner, lease.deadline)

/-- `wait_until_released`: the listeners of the entry give their parts back. -/
def Leases.waitUntilReleased (l : Leases) (port : Nat) : Leases :=
  { l with entries := l.entries.erase port }

def start (l : Leases) (bridge : SocketAddr) (bound deadline : Nat) (v6 : Bool) (o : Outcomes) :
    Except ServeError Nat × Leases :=
  let entered := l.insert bound ⟨bridge, deadline, 1 + v6.toNat, o.stop⟩
  if o.spawn then
    -- a lease goes on with one listener when the thread of the other does not start
    (.ok bound, if v6 && !o.spawn6 then (entered.release bound o.stop).2 else entered)
  else
    let released := (entered.release bound o.stop).2
    (.error (.notStarted bound), if v6 then (released.release bound o.stop).2 else released)

/-- `serve_on` where no lease is in the way. -/
def establish (l : Leases) (bridge : SocketAddr) (port ttl : Nat) (o : Outcomes) :
    Option (Except ServeError Nat × Leases) :=
  match o.bind with
  | .inUse => some (.error (.bind port true), l)
  | .failed => some (.error (.bind port false), l)
  | .ok =>
    if o.named then
      let bound := if port = 0 then o.chosen else port
      if o.bind6 = .inUse then some (.error (.bind bound true), l)
      else (checkedAdd o.inserted ttl).map fun deadline =>
        start l bridge bound deadline (o.bind6 = .ok) o
    else some (.error .unnamed, l)

variable (parse : String → Option IpAddr)

def bridgeOf (cfg : Config) : Option SocketAddr :=
  match cfg.peerIp parse with
  | .ok (some peer) => some ⟨peer, cfg.bridgePort⟩
  | _ => none

def serveOn (cfg : Config) (l : Leases) (port ttl : Nat) (o : Outcomes) :
    Option (Except ServeError Nat × Leases) :=
  match bridgeOf parse cfg with
  | none => some (.error (.noPeer port), l)
  | some bridge =>
    if port = 0 then establish l bridge port ttl o
    else
      match l.refresh port bridge ttl o.refreshed with
      | none => none
      | some (.live, l) => some (.ok port, l)
      | some (.owned owner, l) => some (.error (.owned port owner), l)
      | some (.releasing, l) => establish (l.waitUntilReleased port) bridge port ttl o
      | some (.absent, l) => establish l bridge port ttl o

/-! ## What a call does to the table -/

section

variable {l l' : Leases} {port p : Nat} {lease : Lease}

theorem Leases.lookup_release_of_ne (l : Leases) (stop : Nat) (hNe : p ≠ port) :
    (l.release port stop).2.entries.lookup p = l.entries.lookup p := by
  rcases l.release_cases port stop with ⟨hSame, -⟩ | ⟨lease, -, -, ⟨-, -, hEntries⟩ | ⟨-, -, hEntries⟩⟩
  · rw [hSame]
  · rw [hEntries, AList.lookup_erase_ne hNe]
  · rw [hEntries, AList.lookup_insert_ne hNe]

theorem Leases.lookup_release_last (hLease : l.entries.lookup port = some lease)
    (hLast : lease.listeners - 1 = 0) :
    (l.release port lease.stop).2.entries.lookup port = none := by
  simp [release, hLease, hLast, stopFlag]

theorem Leases.lookup_release_more (hLease : l.entries.lookup port = some lease)
    (hMore : lease.listeners - 1 ≠ 0) :
    (l.release port lease.stop).2.entries.lookup port =
      some { lease with listeners := lease.listeners - 1 } := by
  simp [release, hLease, hMore, put]

end

section

variable {l l' : Leases} {bridge : SocketAddr} {port bound ttl deadline p : Nat} {v6 : Bool}
variable {o : Outcomes} {answer : Except ServeError Nat}

theorem start_lookup_of_ne (l : Leases) (bridge : SocketAddr) (deadline : Nat) (v6 : Bool)
    (o : Outcomes) (hNe : p ≠ bound) :
    (start l bridge bound deadline v6 o).2.entries.lookup p = l.entries.lookup p := by
  have hInsert : ∀ lease, (l.insert bound lease).entries.lookup p = l.entries.lookup p := by
    intro lease
    rw [Leases.insert_entries, AList.lookup_insert_ne hNe]
  unfold start
  dsimp only
  -- the table after the insertion changes by releases at `bound` only
  split
  · split
    · rw [Leases.lookup_release_of_ne _ _ hNe, hInsert]
    · exact hInsert _
  · split
    · rw [Leases.lookup_release_of_ne _ _ hNe, Leases.lookup_release_of_ne _ _ hNe, hInsert]
    · rw [Leases.lookup_release_of_ne _ _ hNe, hInsert]

theorem start_holding (l : Leases) (bridge : SocketAddr) (bound deadline : Nat) (v6 : Bool)
    (o : Outcomes) :
    ((start l bridge bound deadline v6 o).1 = .ok bound ∧
        (start l bridge bound deadline v6 o).2.holding bound = some (bridge, deadline)) ∨
      ((start l bridge bound deadline v6 o).1 = .error (.notStarted bound) ∧
        (start l bridge bound deadline v6 o).2.holding bound = none) := by
  have hEntered : (l.insert bound ⟨bridge, deadline, 1 + v6.toNat, o.stop⟩).entries.lookup bound =
      some ⟨bridge, deadline, 1 + v6.toNat, o.stop⟩ := by
    rw [Leases.insert_entries, AList.lookup_insert]
  unfold start
  dsimp only
  cases v6 with
  | false =>
    have hGone := Leases.lookup_release_last hEntered rfl
    split
    · exact .inl ⟨rfl, congrArg (Option.map _) hEntered⟩
    · exact .inr ⟨rfl, congrArg (Option.map _) hGone⟩
  | true =>
    -- two listeners: the first release leaves one
    have hOne := Leases.lookup_release_more hEntered (show (1 : Nat) ≠ 0 from Nat.one_ne_zero)
    have hGone := Leases.lookup_release_last hOne rfl
    split
    · refine .inl ⟨rfl, ?_⟩
      split
      · exact congrArg (Option.map _) hOne
      · exact congrArg (Option.map _) hEntered
    · exact .inr ⟨rfl, congrArg (Option.map _) hGone⟩

theorem establish_spec (h : establish l bridge port ttl o = some (answer, l')) (hPort : port ≠ 0)
    (hFree : l.entries.lookup port = none) :
    (∀ p, p ≠ port → l'.entries.lookup p = l.entries.lookup p) ∧
      ((answer = .ok port ∧ l'.holding port = some (bridge, o.inserted + ttl)) ∨
        ((∃ e, answer = .error e) ∧ l'.holding port = none)) := by
  have hFails : ∀ {e}, some (Except.error e, l) = some (answer, l') →
      (∀ p, p ≠ port → l'.entries.lookup p = l.entries.lookup p) ∧
        ((answer = .ok port ∧ l'.holding port = some (bridge, o.inserted + ttl)) ∨
          ((∃ e, answer = .error e) ∧ l'.holding port = none)) := by
    intro e hEq
    cases hEq
    exact ⟨fun p _ => rfl, .inr ⟨⟨e, rfl⟩, congrArg (Option.map _) hFree⟩⟩
  unfold establish at h
  split at h
  · exact hFails h
  · exact hFails h
  · split at h
    · dsimp only at h
      split at h
      · exact hFails h
      · obtain ⟨deadline, hDeadline, hStart⟩ := Option.map_eq_some_iff.mp h
        obtain ⟨rfl, -⟩ := checkedAdd_eq_some.mp hDeadline
        have hHolding := start_holding l bridge port (o.inserted + ttl) (o.bind6 = .ok) o
        have hOthers : ∀ p, p ≠ port → _ :=
          fun p hNe => start_lookup_of_ne l bridge (o.inserted + ttl) (o.bind6 = .ok) o hNe
        rw [hStart] at hHolding hOthers
        refine ⟨hOthers, ?_⟩
        rcases hHolding with hLeased | ⟨hError, hNone⟩
        · exact .inl hLeased
        · exact .inr ⟨⟨_, hError⟩, hNone⟩
    · exact hFails h

/-- The call leaves the lease of its port as it is. It has no peer to serve; the
port is free and stays free; the lease is another peer's, or lasts longer than
the call asks for; or the lease was on its way out and the new one is like it. -/
def Spares (bridge : Option SocketAddr) (l : Leases) (port ttl : Nat) (o : Outcomes)
    (answer : Except ServeError Nat) : Prop :=
  match bridge with
  | none => True
  | some bridge =>
    match l.entries.lookup port with
    | none => answer.isOk = false
    | some lease =>
      if l.stopped lease.stop then
        answer.isOk = true ∧ lease.owner = bridge ∧ lease.deadline = o.inserted + ttl
      else lease.owner = bridge → o.refreshed + ttl ≤ lease.deadline

theorem serveOn_spec {cfg : Config} (h : serveOn parse cfg l port ttl o = some (answer, l'))
    (hPort : port ≠ 0) :
    (∀ p, p ≠ port → l'.entries.lookup p = l.entries.lookup p) ∧
      (l'.holding port = l.holding port ↔
        Spares (bridgeOf parse cfg) l port ttl o answer) ∧
      (answer.isOk → answer = .ok port) := by
  unfold serveOn at h
  cases hBridge : bridgeOf parse cfg with
  | none =>
    rw [hBridge] at h
    cases h
    exact ⟨fun p _ => rfl, iff_of_true rfl trivial, fun hOk => by cases hOk⟩
  | some bridge =>
    rw [hBridge] at h
    simp only [if_neg hPort, Leases.refresh] at h
    cases hLease : l.entries.lookup port with
    | none =>
      rw [hLease] at h
      obtain ⟨hOthers, hOwn⟩ := establish_spec h hPort hLease
      have hHeld : l.holding port = none := congrArg (Option.map _) hLease
      simp only [Spares, hLease, hHeld]
      rcases hOwn with ⟨rfl, hHolding⟩ | ⟨⟨e, rfl⟩, hNone⟩
      · refine ⟨hOthers, iff_of_false ?_ (fun hOk => by cases hOk), fun _ => rfl⟩
        simp [hHolding]
      · exact ⟨hOthers, iff_of_true hNone rfl, fun hOk => by cases hOk⟩
    | some lease =>
      rw [hLease] at h
      have hHeld : l.holding port = some (lease.owner, lease.deadline) :=
        congrArg (Option.map _) hLease
      dsimp only at h
      by_cases hStop : l.stopped lease.stop
      · rw [if_pos hStop] at h
        have hGone : (l.waitUntilReleased port).entries.lookup port = none := AList.lookup_erase ..
        obtain ⟨hOthers, hOwn⟩ := establish_spec h hPort hGone
        have hErased : ∀ p, p ≠ port → l'.entries.lookup p = l.entries.lookup p :=
          fun p hNe => (hOthers p hNe).trans (AList.lookup_erase_ne hNe)
        simp only [Spares, hLease, hHeld, if_pos hStop]
        rcases hOwn with ⟨rfl, hHolding⟩ | ⟨⟨e, rfl⟩, hNone⟩
        · refine ⟨hErased, ?_, fun _ => rfl⟩
          rw [hHolding]
          simp [Except.isOk, Except.toBool, eq_comm]
        · refine ⟨hErased, iff_of_false ?_ (fun hOk => by cases hOk.1),
            fun hOk => by cases hOk⟩
          simp [hNone]
      · rw [if_neg hStop] at h
        by_cases hOwner : lease.owner = bridge
        · rw [if_neg (not_not.mpr hOwner)] at h
          cases hDeadline : checkedAdd o.refreshed ttl with
          | none =>
            rw [hDeadline] at h
            cases h
          | some =>
            rw [hDeadline] at h
            obtain ⟨rfl, -⟩ := checkedAdd_eq_some.mp hDeadline
            cases h
            refine ⟨fun p hNe => AList.lookup_insert_ne hNe, ?_, fun _ => rfl⟩
            simp only [Spares, hLease, hHeld, if_neg hStop, hOwner, true_implies]
            simp [Leases.holding, Leases.put]
        · rw [if_pos hOwner] at h
          cases h
          refine ⟨fun p _ => rfl, ?_, fun hOk => by cases hOk⟩
          simp only [Spares, hLease, if_neg hStop]
          exact iff_of_true trivial fun hEq => absurd hEq hOwner

end

end Forward.Callback

import Forward.Browser.Feed
import Forward.Lib.Table
import Forward.Net.Config

/-!
# The laptop's browser relay

With several peers, each devbox has its own mirror of relay tokens and its own flag for a connected
feed, under the canonical form of its address. Where a token is not accepted, a second look at the
peer's tokens tells which refusal the connection gets.

`outcomes` is not in the source: what the relay connections were told, newest first.
-/

namespace Forward.Browser

open Lib Net

/-- What a relay connection is told; `refusedToken` with the health of the
browser extension. -/
inductive Verdict
  | refusedPeer
  | refusedFeed
  | refusedToken (healthy : Bool)
  | accepted
  deriving DecidableEq

def Verdict.line : Verdict → Option String
  | .refusedPeer => some "REFUSED PEER\n"
  | .refusedFeed => some "REFUSED FEED\n"
  | .refusedToken true => some "REFUSED TOKEN UPSTREAM 200\n"
  | .refusedToken false => some "REFUSED TOKEN UPSTREAM 503\n"
  | .accepted => none

/-- The first look of a connection: is the token that it presents accepted? -/
def Inner.look (inner : Inner) (presented : Option (List UInt8)) (now : Nat) : Bool × Inner :=
  match presented with
  | none => (false, inner)
  | some bearer => inner.acceptsAt bearer now

def Inner.refusal (inner : Inner) (healthy : Bool) : Verdict :=
  if inner.connected then .refusedToken healthy else .refusedFeed

structure Outcome where
  conn : Nat
  peer : IpAddr
  verdict : Verdict
  deriving DecidableEq

/-- `waiting` are the connections between their two looks, each with the peer
whose tokens it looks at. -/
structure Laptop where
  shared : Inner
  peers : Table IpAddr Inner
  waiting : List (Nat × IpAddr)
  outcomes : List Outcome

inductive LaptopEvent
  | insert (peer : IpAddr) (token : List UInt8) (ttl now : Nat)
  | setConnected (peer : IpAddr) (connected : Bool)
  | reap (peer : IpAddr) (now : Nat)
  | present (conn : Nat) (remote localAddress : IpAddr) (presented : Option (List UInt8))
      (now : Nat)
  | judge (conn : Nat) (remote : IpAddr) (healthy : Bool)
  deriving DecidableEq

namespace LaptopEvent

def peer : LaptopEvent → IpAddr
  | insert peer _ _ _ | setConnected peer _ | reap peer _ => peer.toCanonical
  | present _ remote _ _ _ | judge _ remote _ => remote.toCanonical

def canonical : LaptopEvent → LaptopEvent
  | insert peer token ttl now => insert peer.toCanonical token ttl now
  | setConnected peer connected => setConnected peer.toCanonical connected
  | reap peer now => reap peer.toCanonical now
  | present conn remote localAddress presented now =>
    present conn remote.toCanonical localAddress presented now
  | judge conn remote healthy => judge conn remote.toCanonical healthy

def isFeed : LaptopEvent → Bool
  | insert .. | setConnected .. => true
  | _ => false

/-- The reading of the clock that the event acts on. -/
def reading : LaptopEvent → Option Nat
  | insert _ _ _ now | reap _ now | present _ _ _ _ now => some now
  | setConnected .. | judge .. => none

end LaptopEvent

def eventsOf (A : IpAddr) (events : List LaptopEvent) : List LaptopEvent :=
  (events.filter (·.peer = A)).map LaptopEvent.canonical

theorem eventsOf_cons (A : IpAddr) (e : LaptopEvent) (events : List LaptopEvent) :
    eventsOf A (e :: events) =
      if e.peer = A then e.canonical :: eventsOf A events else eventsOf A events := by
  split <;> rename_i hPeer <;> simp [eventsOf, hPeer]

namespace Laptop

def init : Laptop := ⟨.empty, ∅, [], []⟩

/-- The tokens of `for_peer` where there are several peers. -/
def tokens (l : Laptop) (cfg : Config) (peer : IpAddr) : Inner :=
  if cfg.isMultiPeer then (l.peers.lookup peer.toCanonical).getD .empty else l.shared

def setTokens (l : Laptop) (cfg : Config) (peer : IpAddr) (inner : Inner) : Laptop :=
  if cfg.isMultiPeer then { l with peers := l.peers.insert peer.toCanonical inner }
  else { l with shared := inner }

def tell (l : Laptop) (conn : Nat) (remote : IpAddr) (verdict : Verdict) : Laptop :=
  { l with outcomes := ⟨conn, remote.toCanonical, verdict⟩ :: l.outcomes }

def await (l : Laptop) (conn : Nat) (remote : IpAddr) : Laptop :=
  { l with waiting := (conn, remote.toCanonical) :: l.waiting }

def settle (l : Laptop) (conn : Nat) (remote : IpAddr) : Laptop :=
  { l with waiting := l.waiting.erase (conn, remote.toCanonical) }

variable (parse : String → Option IpAddr) (cfg : Config)

/-- `handle_from`, up to the answer of `accepts`. -/
def present (l : Laptop) (conn : Nat) (remote localAddress : IpAddr)
    (presented : Option (List UInt8)) (now : Nat) : Laptop :=
  if authorizedSensitive parse cfg remote localAddress then
    let (accepted, inner) := (l.tokens cfg remote).look presented now
    let l := l.setTokens cfg remote inner
    if accepted then l.tell conn remote .accepted else l.await conn remote
  else l.tell conn remote .refusedPeer

/-- `handle_from`, after a token that is not accepted. -/
def judge (l : Laptop) (conn : Nat) (remote : IpAddr) (healthy : Bool) : Laptop :=
  if (conn, remote.toCanonical) ∈ l.waiting then
    (l.settle conn remote).tell conn remote ((l.tokens cfg remote).refusal healthy)
  else l

def step (l : Laptop) : LaptopEvent → Laptop
  | .insert peer token ttl now =>
    l.setTokens cfg peer ((l.tokens cfg peer).insert token ttl now)
  | .setConnected peer connected =>
    l.setTokens cfg peer ((l.tokens cfg peer).setConnected connected)
  | .reap peer now => l.setTokens cfg peer ((l.tokens cfg peer).reapExpiredAt now)
  | .present conn remote localAddress presented now =>
    l.present parse cfg conn remote localAddress presented now
  | .judge conn remote healthy => l.judge cfg conn remote healthy

def run (l : Laptop) (events : List LaptopEvent) : Laptop := events.foldl (step parse cfg) l

end Laptop

/-! ## A relay for one peer alone -/

structure Part where
  inner : Inner
  waiting : List (Nat × IpAddr)
  outcomes : List Outcome

namespace Part

variable (parse : String → Option IpAddr) (cfg : Config)

def tell (p : Part) (conn : Nat) (remote : IpAddr) (verdict : Verdict) : Part :=
  { p with outcomes := ⟨conn, remote.toCanonical, verdict⟩ :: p.outcomes }

def await (p : Part) (conn : Nat) (remote : IpAddr) : Part :=
  { p with waiting := (conn, remote.toCanonical) :: p.waiting }

def settle (p : Part) (conn : Nat) (remote : IpAddr) : Part :=
  { p with waiting := p.waiting.erase (conn, remote.toCanonical) }

def step (p : Part) : LaptopEvent → Part
  | .insert _ token ttl now => { p with inner := p.inner.insert token ttl now }
  | .setConnected _ connected => { p with inner := p.inner.setConnected connected }
  | .reap _ now => { p with inner := p.inner.reapExpiredAt now }
  | .present conn remote localAddress presented now =>
    if authorizedSensitive parse cfg remote localAddress then
      let (accepted, inner) := p.inner.look presented now
      let p := { p with inner := inner }
      if accepted then p.tell conn remote .accepted else p.await conn remote
    else p.tell conn remote .refusedPeer
  | .judge conn remote healthy =>
    if (conn, remote.toCanonical) ∈ p.waiting then
      (p.settle conn remote).tell conn remote (p.inner.refusal healthy)
    else p

def run (p : Part) (events : List LaptopEvent) : Part := events.foldl (step parse cfg) p

theorem run_cons (p : Part) (e : LaptopEvent) (events : List LaptopEvent) :
    p.run parse cfg (e :: events) = (p.step parse cfg e).run parse cfg events := rfl

theorem step_canonical (p : Part) (e : LaptopEvent) :
    p.step parse cfg e.canonical = p.step parse cfg e := by
  cases e <;>
    simp only [LaptopEvent.canonical, step, tell, await, settle,
      authorizedSensitive_toCanonical, IpAddr.toCanonical_toCanonical]

end Part

def Laptop.part (l : Laptop) (A : IpAddr) : Part where
  inner := (l.peers.lookup A).getD .empty
  waiting := l.waiting.filter (·.2 = A)
  outcomes := l.outcomes.filter (·.peer = A)

namespace Laptop

variable {parse : String → Option IpAddr} {cfg : Config} {A peer remote : IpAddr} {l : Laptop}

theorem tokens_eq (hMulti : cfg.isMultiPeer) (hPeer : peer.toCanonical = A) :
    l.tokens cfg peer = (l.part A).inner := by
  rw [tokens, if_pos hMulti, hPeer]
  rfl

theorem part_setTokens (hMulti : cfg.isMultiPeer) (inner : Inner) :
    (l.setTokens cfg peer inner).part A =
      if peer.toCanonical = A then { l.part A with inner := inner } else l.part A := by
  rw [setTokens, if_pos hMulti]
  split
  · rename_i hPeer
    simp only [part, hPeer, AList.lookup_insert, Option.getD_some]
  · rename_i hPeer
    simp only [part, AList.lookup_insert_ne (Ne.symm hPeer)]

theorem part_tell (conn : Nat) (verdict : Verdict) :
    (l.tell conn remote verdict).part A =
      if remote.toCanonical = A then (l.part A).tell conn remote verdict else l.part A := by
  split <;> rename_i hRemote <;> simp [part, tell, Part.tell, hRemote]

theorem part_await (conn : Nat) :
    (l.await conn remote).part A =
      if remote.toCanonical = A then (l.part A).await conn remote else l.part A := by
  split <;> rename_i hRemote <;> simp [part, await, Part.await, hRemote]

theorem part_settle (conn : Nat) :
    (l.settle conn remote).part A =
      if remote.toCanonical = A then (l.part A).settle conn remote else l.part A := by
  have hErase := List.erase_filter (a := (conn, remote.toCanonical))
    (f := fun w : Nat × IpAddr => w.2 = A) (l := l.waiting)
  split
  · simp only [part, settle, Part.settle, hErase]
  · rename_i hRemote
    have hNot : (conn, remote.toCanonical) ∉ l.waiting.filter (·.2 = A) := by
      intro hIn
      exact hRemote (of_decide_eq_true (List.mem_filter.mp hIn).2)
    rw [List.erase_of_not_mem hNot] at hErase
    simp only [part, settle, ← hErase]

theorem part_update (hMulti : cfg.isMultiPeer) (f : Inner → Inner) :
    (l.setTokens cfg peer (f (l.tokens cfg peer))).part A =
      if peer.toCanonical = A then { l.part A with inner := f (l.part A).inner } else l.part A := by
  rw [part_setTokens hMulti]
  by_cases hPeer : peer.toCanonical = A
  · rw [if_pos hPeer, if_pos hPeer, tokens_eq hMulti hPeer]
  · rw [if_neg hPeer, if_neg hPeer]

theorem part_present (hMulti : cfg.isMultiPeer) (conn : Nat) (localAddress : IpAddr)
    (presented : Option (List UInt8)) (now : Nat) :
    (l.present parse cfg conn remote localAddress presented now).part A =
      if remote.toCanonical = A then
        (l.part A).step parse cfg (.present conn remote localAddress presented now)
      else l.part A := by
  by_cases hRemote : remote.toCanonical = A
  · simp only [present, Part.step, if_pos hRemote, tokens_eq hMulti hRemote]
    split
    · split <;> simp only [part_tell, part_await, part_setTokens hMulti, if_pos hRemote]
    · simp only [part_tell, if_pos hRemote]
  · simp only [present, if_neg hRemote]
    split
    · split <;> simp only [part_tell, part_await, part_setTokens hMulti, if_neg hRemote]
    · simp only [part_tell, if_neg hRemote]

theorem part_judge (hMulti : cfg.isMultiPeer) (conn : Nat) (healthy : Bool) :
    (l.judge cfg conn remote healthy).part A =
      if remote.toCanonical = A then (l.part A).step parse cfg (.judge conn remote healthy)
      else l.part A := by
  by_cases hRemote : remote.toCanonical = A
  · have hWaits : (conn, remote.toCanonical) ∈ (l.part A).waiting ↔
        (conn, remote.toCanonical) ∈ l.waiting := by
      rw [part, List.mem_filter]
      exact and_iff_left (decide_eq_true hRemote)
    simp only [judge, Part.step, if_pos hRemote, tokens_eq hMulti hRemote, hWaits]
    split
    · simp only [part_tell, part_settle, if_pos hRemote]
    · rfl
  · simp only [judge, if_neg hRemote]
    split
    · simp only [part_tell, part_settle, if_neg hRemote]
    · rfl

theorem part_step (hMulti : cfg.isMultiPeer) (e : LaptopEvent) :
    (l.step parse cfg e).part A =
      if e.peer = A then (l.part A).step parse cfg e else l.part A := by
  cases e with
  | insert peer token ttl now => exact part_update hMulti (·.insert token ttl now)
  | setConnected peer connected => exact part_update hMulti (·.setConnected connected)
  | reap peer now => exact part_update hMulti (·.reapExpiredAt now)
  | present => exact part_present hMulti ..
  | judge => exact part_judge hMulti ..

theorem part_run (hMulti : cfg.isMultiPeer) (events : List LaptopEvent) :
    (l.run parse cfg events).part A = (l.part A).run parse cfg (eventsOf A events) := by
  induction events generalizing l with
  | nil => rfl
  | cons e events ih =>
    show ((l.step parse cfg e).run parse cfg events).part A = _
    rw [ih, part_step hMulti]
    by_cases hPeer : e.peer = A
    · rw [if_pos hPeer, eventsOf_cons, if_pos hPeer, Part.run_cons, Part.step_canonical]
    · rw [if_neg hPeer, eventsOf_cons, if_neg hPeer]

end Laptop

/-! ## What a feed alone decides -/

theorem Inner.retainLive_retainLive {now later : Nat} (h : now ≤ later) (i : Inner) :
    (i.retainLive now).retainLive later = i.retainLive later := by
  simp only [retainLive, List.filter_filter, Inner.mk.injEq, and_true]
  refine List.filter_congr fun entry _ => ?_
  by_cases hLive : later < entry.deadline
  · simp only [hLive, Nat.lt_of_le_of_lt h hLive, decide_true, Bool.and_self]
  · simp only [hLive, decide_false, Bool.false_and]

/-- Two mirrors that cannot be told apart from `now` on. -/
structure Alike (now : Nat) (i j : Inner) : Prop where
  entries : (i.retainLive now).entries = (j.retainLive now).entries
  connected : i.connected = j.connected

namespace Alike

variable {now : Nat} {i j : Inner}

theorem later {later : Nat} (h : Alike now i j) (hLe : now ≤ later) : Alike later i j := by
  refine ⟨?_, h.connected⟩
  rw [← Inner.retainLive_retainLive hLe i, ← Inner.retainLive_retainLive hLe j]
  exact congrArg (List.filter fun entry => later < entry.deadline) h.entries

theorem retain (h : Alike now i j) : Alike now (i.retainLive now) j := by
  refine ⟨?_, h.connected⟩
  rw [Inner.retainLive_retainLive (Nat.le_refl now)]
  exact h.entries

theorem accepts (h : Alike now i j) (presented : Option (List UInt8)) :
    (i.look presented now).1 = (j.look presented now).1 := by
  cases presented with
  | none => rfl
  | some => simp only [Inner.look, Inner.acceptsAt, h.entries]

theorem insert (h : Alike now i j) (token : List UInt8) (ttl : Nat) :
    Alike now (i.insert token ttl now) (j.insert token ttl now) := by
  unfold Inner.insert
  split
  · exact h
  · rename_i deadline _
    have hEntries : (i.insertUntil token deadline now).entries =
        (j.insertUntil token deadline now).entries := by
      rw [Inner.insertUntil_entries, Inner.insertUntil_entries, h.entries]
    refine ⟨?_, h.connected⟩
    exact congrArg (List.filter fun entry : TokenEntry => now < entry.deadline) hEntries

theorem setConnected (h : Alike now i j) (connected : Bool) :
    Alike now (i.setConnected connected) (j.setConnected connected) := ⟨h.entries, rfl⟩

variable {parse : String → Option IpAddr} {cfg : Config} {p q : Part}

theorem present (h : Alike now p.inner j) (conn : Nat) (remote localAddress : IpAddr)
    (presented : Option (List UInt8)) :
    Alike now (p.step parse cfg (.present conn remote localAddress presented now)).inner j := by
  have hLook : Alike now (p.inner.look presented now).2 j := by
    cases presented with
    | none => exact h
    | some => exact h.retain
  simp only [Part.step]
  split
  · split <;> exact hLook
  · exact h

theorem step (h : Alike now p.inner q.inner) (e : LaptopEvent)
    (hTime : now ≤ e.reading.getD now) :
    Alike (e.reading.getD now) (p.step parse cfg e).inner
      (if e.isFeed then q.step parse cfg e else q).inner := by
  have hNow := h.later hTime
  cases e with
  | insert peer token ttl => exact hNow.insert token ttl
  | setConnected peer connected => exact hNow.setConnected connected
  | reap => exact hNow.retain
  | present => exact hNow.present ..
  | judge =>
    simp only [Part.step]
    split <;> exact hNow

theorem run {T : Nat} {events : List LaptopEvent} (h : Alike now p.inner q.inner)
    (hTimed : (now :: events.filterMap LaptopEvent.reading ++ [T]).Pairwise (· ≤ ·)) :
    Alike T (p.run parse cfg events).inner
      (q.run parse cfg (events.filter LaptopEvent.isFeed)).inner := by
  induction events generalizing now p q with
  | nil =>
    exact h.later (List.rel_of_pairwise_cons hTimed (List.mem_singleton_self T))
  | cons e events ih =>
    have hTime : now ≤ e.reading.getD now := by
      cases hReading : e.reading with
      | none => exact Nat.le_refl _
      | some =>
        rw [List.filterMap_cons_some hReading] at hTimed
        exact List.rel_of_pairwise_cons hTimed (List.mem_cons_self ..)
    have hRest : (e.reading.getD now :: events.filterMap LaptopEvent.reading ++ [T]).Pairwise
        (· ≤ ·) := by
      cases hReading : e.reading with
      | none =>
        rw [List.filterMap_cons_none hReading] at hTimed
        exact hTimed
      | some =>
        rw [List.filterMap_cons_some hReading] at hTimed
        exact hTimed.of_cons
    have hStep : Alike (e.reading.getD now) (p.step parse cfg e).inner
        (if e.isFeed then q.step parse cfg e else q).inner := h.step e hTime
    have hNext := ih hStep hRest
    cases hFeed : e.isFeed with
    | true =>
      rw [hFeed] at hNext
      rw [List.filter_cons_of_pos hFeed]
      exact hNext
    | false =>
      rw [hFeed] at hNext
      rw [List.filter_cons_of_neg (Bool.eq_false_iff.mp hFeed)]
      exact hNext

end Alike

/-! ## Isolation -/

/-- The readings that the peer's events act on do not run backwards, up to `T`. -/
def Timed (A : IpAddr) (events : List LaptopEvent) (T : Nat) : Prop :=
  ((eventsOf A events).filterMap LaptopEvent.reading ++ [T]).Pairwise (· ≤ ·)

instance (A : IpAddr) (events : List LaptopEvent) (T : Nat) : Decidable (Timed A events T) :=
  inferInstanceAs (Decidable (List.Pairwise _ _))

theorem alike_run (parse : String → Option IpAddr) {cfg : Config} {A : IpAddr} {T : Nat}
    {events : List LaptopEvent} (hMulti : cfg.isMultiPeer) (hTimed : Timed A events T) :
    Alike T ((Laptop.init.run parse cfg events).part A).inner
      ((Laptop.init.part A).run parse cfg ((eventsOf A events).filter LaptopEvent.isFeed)).inner := by
  rw [Laptop.part_run hMulti]
  have hStart : Alike 0 (Laptop.init.part A).inner (Laptop.init.part A).inner := ⟨rfl, rfl⟩
  refine hStart.run (List.pairwise_cons.mpr ⟨?_, hTimed⟩)
  intro time _
  exact Nat.zero_le time

end Forward.Browser

import Forward.Callback.Lease
import Forward.Lib.System
import Forward.Lib.Threads

/-!
# Serving callback ports

`serve_on` leases a port of the laptop's loopback for a peer: it binds an IPv4 and, if it can, an
IPv6 listener, enters the lease and starts an accept loop for each. A loop that sees its stop flag,
or whose accept fails, drops its listener and releases its part of the lease. A step is one critical
section or one exchange with the system.

The system refuses to bind an address while a listener on it is open: `sockets` has one call per
address. Port 0 is never asked for. Not in the source: `fates` and `trail`.
-/

namespace Forward.Callback

open Lib Net

inductive Family
  | v4
  | v6
  deriving DecidableEq

def Family.other : Family → Family
  | .v4 => .v6
  | .v6 => .v4

inductive Fate
  | unbound
  | listening
  | dropped
  | released
  deriving DecidableEq

def Fate.pending : Fate → Bool
  | .listening | .dropped => true
  | .unbound | .released => false

structure Job where
  owner : SocketAddr
  port : Nat
  ttl : Nat
  deriving DecidableEq

/-- The results of `serve_on`; a deadline that overflows panics. -/
inductive Answer
  | served
  | noPeer
  | owned (owner : SocketAddr)
  | bind (inUse : Bool)
  | unnamed
  | notStarted
  | panicked
  deriving DecidableEq

/-- Where a call stands. An `unspawned` call could not start a loop, and has
dropped the listener that the loop was for; an `abandoning` one drops what it has
bound and returns. -/
inductive Task
  | refreshing (job : Job)
  | waiting (job : Job)
  | binding (job : Job)
  | naming (job : Job)
  | binding6 (job : Job)
  | inserting (job : Job) (v6 : Bool)
  | spawning (job : Job) (v6 : Bool)
  | unspawned (job : Job) (v6 : Bool)
  | dropping6 (job : Job)
  | releasing6 (job : Job)
  | spawning6 (job : Job)
  | unspawned6 (job : Job)
  | abandoning (job : Job) (v6 : Bool) (answer : Answer)
  | returned (port : Nat) (answer : Answer)
  deriving DecidableEq

inductive Loop
  | accepting (port : Nat)
  | leaving (port : Nat)
  | releasing (port : Nat)
  | ended (port : Nat)

/-- How an entry leaves the table, named by its call, and `tolerated`: a call
goes on without an IPv6 listener. -/
inductive Event
  | removed (c port : Nat)
  | replaced (c port successor : Nat)
  | tolerated (c port : Nat)

inductive Reply
  | ok
  | inUse
  | failed
  deriving DecidableEq

structure Callbacks where
  leases : Leases
  sockets : Table (Family × Nat) Nat
  clock : Nat
  tasks : Nat → Option Task
  loops : Nat × Family → Option Loop
  fates : Nat × Family → Fate
  trail : List Event

/-- `bridge` is the peer's address, if the configuration has one. -/
inductive Action
  | call (c : Nat) (bridge : Option SocketAddr) (port ttl : Nat)
  | turn (c : Nat) (reply : Reply)
  | accept (c : Nat) (family : Family) (fails : Bool)
  | expire (now : Nat)
  | tick (elapsed : Nat)

namespace Callbacks

def setTask (s : Callbacks) (c : Nat) (task : Task) : Callbacks :=
  { s with tasks := Function.update s.tasks c (some task) }

def setLoop (s : Callbacks) (c : Nat) (f : Family) (loop : Loop) : Callbacks :=
  { s with loops := Function.update s.loops (c, f) (some loop) }

def emit (s : Callbacks) (e : Event) : Callbacks := { s with trail := e :: s.trail }

def listen (s : Callbacks) (c : Nat) (f : Family) (port : Nat) : Callbacks :=
  { s with
    sockets := s.sockets.insert (f, port) c
    fates := Function.update s.fates (c, f) .listening }

def close (s : Callbacks) (c : Nat) (f : Family) (port : Nat) : Callbacks :=
  { s with
    sockets := s.sockets.erase (f, port)
    fates := Function.update s.fates (c, f) .dropped }

def release (s : Callbacks) (c : Nat) (f : Family) (port : Nat) : Callbacks :=
  let (removed, leases) := s.leases.release port c
  { s with
    leases := leases
    fates := Function.update s.fates (c, f) .released
    trail := if removed then .removed c port :: s.trail else s.trail }

def enter (s : Callbacks) (c : Nat) (job : Job) (v6 : Bool) (deadline : Nat) : Callbacks :=
  { s with
    leases := s.leases.insert job.port ⟨job.owner, deadline, 1 + v6.toNat, c⟩
    trail :=
      match s.leases.entries.lookup job.port with
      | none => s.trail
      | some lease => .replaced lease.stop job.port c :: s.trail }

def turn (s : Callbacks) (c : Nat) (reply : Reply) : Task → Option Callbacks
  | .refreshing job =>
    match s.leases.refresh job.port job.owner job.ttl s.clock with
    | none => some (s.setTask c (.returned job.port .panicked))
    | some (.live, leases) =>
      some ({ s with leases := leases }.setTask c (.returned job.port .served))
    | some (.owned owner, _) => some (s.setTask c (.returned job.port (.owned owner)))
    | some (.releasing, _) => some (s.setTask c (.waiting job))
    | some (.absent, _) => some (s.setTask c (.binding job))
  | .waiting job =>
    -- `wait_until_released` goes on when the port has left the table
    if job.port ∈ s.leases.entries then none else some (s.setTask c (.binding job))
  | .binding job =>
    match reply with
    | .ok =>
      if (.v4, job.port) ∈ s.sockets then none
      else some ((s.listen c .v4 job.port).setTask c (.naming job))
    | .inUse => some (s.setTask c (.returned job.port (.bind true)))
    | .failed => some (s.setTask c (.returned job.port (.bind false)))
  | .naming job =>
    if reply = .ok then some (s.setTask c (.binding6 job))
    else some (s.setTask c (.abandoning job false .unnamed))
  | .binding6 job =>
    match reply with
    | .ok =>
      if (.v6, job.port) ∈ s.sockets then none
      else some ((s.listen c .v6 job.port).setTask c (.inserting job true))
    | .inUse => some (s.setTask c (.abandoning job false (.bind true)))
    | .failed => some ((s.emit (.tolerated c job.port)).setTask c (.inserting job false))
  | .inserting job v6 =>
    some ((checkedAdd s.clock job.ttl).elim
      ({ s with leases := s.leases.displace job.port }.setTask c (.abandoning job v6 .panicked))
      fun deadline => (s.enter c job v6 deadline).setTask c (.spawning job v6))
  | .spawning job v6 =>
    if reply = .ok then
      some ((s.setLoop c .v4 (.accepting job.port)).setTask c
        (if v6 then .spawning6 job else .returned job.port .served))
    -- the thread's closure is dropped with the listener in it
    else some ((s.close c .v4 job.port).setTask c (.unspawned job v6))
  | .unspawned job v6 =>
    some ((s.release c .v4 job.port).setTask c
      (if v6 then .dropping6 job else .returned job.port .notStarted))
  | .dropping6 job => some ((s.close c .v6 job.port).setTask c (.releasing6 job))
  | .releasing6 job =>
    some ((s.release c .v6 job.port).setTask c (.returned job.port .notStarted))
  | .spawning6 job =>
    if reply = .ok then
      some ((s.setLoop c .v6 (.accepting job.port)).setTask c (.returned job.port .served))
    else some ((s.close c .v6 job.port).setTask c (.unspawned6 job))
  | .unspawned6 job => some ((s.release c .v6 job.port).setTask c (.returned job.port .served))
  | .abandoning job true answer =>
    some ((s.close c .v6 job.port).setTask c (.abandoning job false answer))
  | .abandoning job false answer =>
    some ((s.close c .v4 job.port).setTask c (.returned job.port answer))
  | .returned _ _ => none

def accept (s : Callbacks) (c : Nat) (f : Family) (fails : Bool) : Loop → Option Callbacks
  | .accepting port =>
    if s.leases.stopped c then some (s.setLoop c f (.leaving port))
    else if fails then
      some ({ s with leases := s.leases.stopFlag c }.setLoop c f (.leaving port))
    -- a connection is relayed by a thread of its own
    else some s
  | .leaving port => some ((s.close c f port).setLoop c f (.releasing port))
  | .releasing port => some ((s.release c f port).setLoop c f (.ended port))
  | .ended _ => none

def step (s : Callbacks) : Action → Option Callbacks
  | .call c bridge port ttl =>
    if s.tasks c = none ∧ port ≠ 0 then
      some (s.setTask c (match bridge with
        | none => .returned port .noPeer
        | some owner => .refreshing ⟨owner, port, ttl⟩))
    else none
  | .turn c reply =>
    match s.tasks c with
    | none => none
    | some task => s.turn c reply task
  | .accept c f fails =>
    match s.loops (c, f) with
    | none => none
    | some loop => s.accept c f fails loop
  | .expire now =>
    -- the reaper reads the clock before it takes the mutex
    if now ≤ s.clock then some { s with leases := s.leases.expire now } else none
  | .tick elapsed => some { s with clock := s.clock + elapsed }

end Callbacks

def callbacks : System Callbacks Action where
  init := ⟨.empty, ∅, 0, fun _ => none, fun _ => none, fun _ => .unbound, []⟩
  step := Callbacks.step

/-! ## What a step does to a listener -/

namespace Task

def port : Task → Nat
  | refreshing job | waiting job | binding job | naming job | binding6 job | inserting job _
  | spawning job _ | unspawned job _ | dropping6 job | releasing6 job | spawning6 job
  | unspawned6 job | abandoning job _ _ => job.port
  | returned port _ => port

def entered : Task → Bool
  | spawning _ _ | unspawned _ _ | dropping6 _ | releasing6 _ | spawning6 _ | unspawned6 _
  | returned _ _ => true
  | _ => false

/-- The call is about to enter a lease for its IPv4 listener alone. -/
def alone : Task → Bool
  | inserting _ false => true
  | _ => false

def expects : Task → Family → Option Fate
  | refreshing _, _ | waiting _, _ | binding _, _ => some .unbound
  | naming _, .v4 | binding6 _, .v4 => some .listening
  | naming _, .v6 | binding6 _, .v6 => some .unbound
  | inserting _ _, .v4 | spawning _ _, .v4 => some .listening
  | unspawned _ _, .v4 => some .dropped
  | inserting _ v6, .v6 | spawning _ v6, .v6 | unspawned _ v6, .v6 =>
    some (if v6 then .listening else .unbound)
  | dropping6 _, .v6 | spawning6 _, .v6 => some .listening
  | releasing6 _, .v6 | unspawned6 _, .v6 => some .dropped
  | abandoning _ _ _, .v4 => some .listening
  | abandoning _ true _, .v6 => some .listening
  | _, _ => none

/-- The call goes on without touching a listener: what it still answers for is
as it was. -/
structure Follows (task next : Task) : Prop where
  port : next.port = task.port
  alone : next.alone = false
  entered : task.entered = true → next.entered = true
  expects : ∀ f fate, next.expects f = some fate → task.expects f = some fate

/-- The call goes on from work on its listener of family `f`, which is in `fate`
or out of its hands then. -/
structure Works (task next : Task) (f : Family) (fate : Fate) : Prop where
  port : next.port = task.port
  alone : next.alone = false
  entered : task.entered = true → next.entered = true
  own : ∀ fate', next.expects f = some fate' → fate' = fate
  other : ∀ f' fate', f' ≠ f → next.expects f' = some fate' → task.expects f' = some fate'

variable {task next : Task}

theorem Follows.of (hPort : next.port = task.port) (hAlone : next.alone = false)
    (hEntered : task.entered → next.entered)
    (hExpects : ∀ f, next.expects f = task.expects f ∨ next.expects f = none) :
    task.Follows next := by
  refine ⟨hPort, hAlone, hEntered, fun f fate hFate => ?_⟩
  rcases hExpects f with hSame | hNone
  · exact hSame ▸ hFate
  · rw [hNone] at hFate
    cases hFate

theorem Works.of {f : Family} {fate : Fate} (hPort : next.port = task.port)
    (hAlone : next.alone = false)
    (hEntered : task.entered → next.entered)
    (hOwn : next.expects f = some fate ∨ next.expects f = none)
    (hOther : next.expects f.other = task.expects f.other ∨ next.expects f.other = none) :
    task.Works next f fate := by
  refine ⟨hPort, hAlone, hEntered, fun fate' hFate => ?_, fun f' fate' hNe hFate => ?_⟩
  · rcases hOwn with hSame | hNone
    · exact Option.mem_unique hFate hSame
    · rw [hNone] at hFate
      cases hFate
  · obtain rfl : f' = f.other := by cases f <;> cases f' <;> first | rfl | exact absurd rfl hNe
    rcases hOther with hSame | hNone
    · exact hSame ▸ hFate
    · rw [hNone] at hFate
      cases hFate

end Task

def Loop.port : Loop → Nat
  | .accepting port | .leaving port | .releasing port | .ended port => port

def Loop.fate : Loop → Fate
  | .accepting _ | .leaving _ => .listening
  | .releasing _ => .dropped
  | .ended _ => .released

namespace Callbacks

/-- What an enabled action does, by its effect on leases and listeners. -/
inductive Move (s : Callbacks) : Action → Callbacks → Prop
  | called {c port ttl : Nat} {bridge : Option SocketAddr} {task : Task} (hNew : s.tasks c = none)
      (hAlone : task.alone = false)
      (hFresh : ∀ f fate, task.expects f = some fate → fate = .unbound) :
      Move s (.call c bridge port ttl) (s.setTask c task)
  | ticked {elapsed : Nat} : Move s (.tick elapsed) { s with clock := s.clock + elapsed }
  | expired {now : Nat} : Move s (.expire now) { s with leases := s.leases.expire now }
  | went {c : Nat} {reply : Reply} {task next : Task} (hTask : s.tasks c = some task)
      (hNext : task.Follows next) : Move s (.turn c reply) (s.setTask c next)
  | tolerated {c : Nat} {reply : Reply} {job : Job} (hTask : s.tasks c = some (.binding6 job)) :
      Move s (.turn c reply)
        ((s.emit (.tolerated c job.port)).setTask c (.inserting job false))
  | refreshed {c deadline : Nat} {reply : Reply} {job : Job} {lease : Lease}
      (hTask : s.tasks c = some (.refreshing job))
      (hLease : s.leases.entries.lookup job.port = some lease)
      (hOwner : lease.owner = job.owner) (hLater : lease.deadline ≤ deadline) :
      Move s (.turn c reply)
        ({ s with leases := s.leases.put job.port { lease with deadline := deadline } }.setTask c
          (.returned job.port .served))
  | listened {c : Nat} {f : Family} {reply : Reply} {task next : Task}
      (hTask : s.tasks c = some task) (hFree : (f, task.port) ∉ s.sockets)
      (hUnbound : task.expects f = some .unbound) (hOut : task.entered = false)
      (hNext : task.Works next f .listening) :
      Move s (.turn c reply) ((s.listen c f task.port).setTask c next)
  | entered {c deadline : Nat} {reply : Reply} {job : Job} {v6 : Bool}
      (hTask : s.tasks c = some (.inserting job v6)) :
      Move s (.turn c reply) ((s.enter c job v6 deadline).setTask c (.spawning job v6))
  | overflowed {c : Nat} {reply : Reply} {job : Job} {v6 : Bool}
      (hTask : s.tasks c = some (.inserting job v6)) :
      Move s (.turn c reply)
        ({ s with leases := s.leases.displace job.port }.setTask c (.abandoning job v6 .panicked))
  | spawned {c : Nat} {f : Family} {reply : Reply} {task next : Task}
      (hTask : s.tasks c = some task) (hListening : task.expects f = some .listening)
      (hNext : task.Works next f .listening) (hLoop : next.expects f = none) :
      Move s (.turn c reply) ((s.setLoop c f (.accepting task.port)).setTask c next)
  | closed {c : Nat} {f : Family} {reply : Reply} {task next : Task}
      (hTask : s.tasks c = some task) (hListening : task.expects f = some .listening)
      (hNext : task.Works next f .dropped) :
      Move s (.turn c reply) ((s.close c f task.port).setTask c next)
  | released {c : Nat} {f : Family} {reply : Reply} {task next : Task}
      (hTask : s.tasks c = some task) (hDropped : task.expects f = some .dropped)
      (hNext : task.Works next f .released) :
      Move s (.turn c reply) ((s.release c f task.port).setTask c next)
  | idle {c : Nat} {f : Family} {fails : Bool} : Move s (.accept c f fails) s
  | left {c port : Nat} {f : Family} {fails : Bool} {leases : Leases}
      (hLoop : s.loops (c, f) = some (.accepting port))
      (hEntries : leases.entries = s.leases.entries) :
      Move s (.accept c f fails) ({ s with leases := leases }.setLoop c f (.leaving port))
  | loopClosed {c port : Nat} {f : Family} {fails : Bool}
      (hLoop : s.loops (c, f) = some (.leaving port)) :
      Move s (.accept c f fails) ((s.close c f port).setLoop c f (.releasing port))
  | loopReleased {c port : Nat} {f : Family} {fails : Bool}
      (hLoop : s.loops (c, f) = some (.releasing port)) :
      Move s (.accept c f fails) ((s.release c f port).setLoop c f (.ended port))

section

variable {s s' : Callbacks} {c : Nat} {reply : Reply}

theorem refreshing_move {job : Job} (hTask : s.tasks c = some (.refreshing job))
    (h : s.turn c reply (.refreshing job) = some s') : Move s (.turn c reply) s' := by
  have hReturns : ∀ {answer : Answer},
      Move s (.turn c reply) (s.setTask c (.returned job.port answer)) :=
    .went hTask (.of rfl rfl (fun _ => rfl) fun f => Or.inr rfl)
  simp only [turn, Leases.refresh] at h
  cases hLease : s.leases.entries.lookup job.port with
  | none =>
    rw [hLease] at h
    exact Option.some.inj h ▸ .went hTask (.of rfl rfl id fun f => Or.inl rfl)
  | some lease =>
    rw [hLease] at h
    dsimp only at h
    by_cases hStop : s.leases.stopped lease.stop
    · rw [if_pos hStop] at h
      exact Option.some.inj h ▸ .went hTask (.of rfl rfl id fun f => Or.inl rfl)
    · rw [if_neg hStop] at h
      by_cases hOwner : lease.owner = job.owner
      · rw [if_neg (not_not.mpr hOwner)] at h
        cases hDeadline : checkedAdd s.clock job.ttl with
        | none =>
          rw [hDeadline] at h
          exact Option.some.inj h ▸ hReturns
        | some =>
          rw [hDeadline] at h
          exact Option.some.inj h ▸ .refreshed hTask hLease hOwner (Nat.le_max_left ..)
      · rw [if_pos hOwner] at h
        exact Option.some.inj h ▸ hReturns

theorem turn_move {task : Task} (hTask : s.tasks c = some task)
    (h : s.turn c reply task = some s') : Move s (.turn c reply) s' := by
  cases task with
  | refreshing => exact refreshing_move hTask h
  | waiting =>
    simp only [turn] at h
    split at h
    · cases h
    · exact Option.some.inj h ▸ .went hTask (.of rfl rfl id fun f => Or.inl rfl)
  | binding job =>
    have hReturns : ∀ {answer : Answer},
        Move s (.turn c reply) (s.setTask c (.returned job.port answer)) :=
      .went hTask (.of rfl rfl (fun _ => rfl) fun f => Or.inr rfl)
    cases reply with
    | ok =>
      simp only [turn] at h
      split at h
      · cases h
      · rename_i hFree
        have hNext : (Task.binding job).Works (.naming job) .v4 .listening :=
          .of rfl rfl id (.inl rfl) (.inl rfl)
        exact Option.some.inj h ▸ .listened hTask hFree rfl rfl hNext
    | inUse | failed => exact Option.some.inj h ▸ hReturns
  | naming =>
    simp only [turn] at h
    split at h
    · refine Option.some.inj h ▸ .went hTask (.of rfl rfl id fun f => Or.inl ?_)
      cases f <;> rfl
    · refine Option.some.inj h ▸ .went hTask (.of rfl rfl id fun f => ?_)
      cases f with
      | v4 => exact .inl rfl
      | v6 => exact .inr rfl
  | binding6 job =>
    cases reply with
    | ok =>
      simp only [turn] at h
      split at h
      · cases h
      · rename_i hFree
        have hNext : (Task.binding6 job).Works (.inserting job true) .v6 .listening :=
          .of rfl rfl id (.inl rfl) (.inl rfl)
        exact Option.some.inj h ▸ .listened hTask hFree rfl rfl hNext
    | inUse =>
      refine Option.some.inj h ▸ .went hTask (.of rfl rfl id fun f => ?_)
      cases f with
      | v4 => exact .inl rfl
      | v6 => exact .inr rfl
    | failed => exact Option.some.inj h ▸ .tolerated hTask
  | inserting job =>
    simp only [turn] at h
    cases hDeadline : checkedAdd s.clock job.ttl with
    | none =>
      rw [hDeadline] at h
      exact Option.some.inj h ▸ .overflowed hTask
    | some =>
      rw [hDeadline] at h
      exact Option.some.inj h ▸ .entered hTask
  | spawning job v6 =>
    simp only [turn] at h
    split at h
    · -- the IPv6 listener, if there is one, stays with the call
      cases v6 with
      | true =>
        have hNext : (Task.spawning job true).Works (.spawning6 job) .v4 .listening :=
          .of rfl rfl id (.inr rfl) (.inl rfl)
        exact Option.some.inj h ▸ .spawned hTask rfl hNext rfl
      | false =>
        have hNext : (Task.spawning job false).Works (.returned job.port .served) .v4 .listening :=
          .of rfl rfl id (.inr rfl) (.inr rfl)
        exact Option.some.inj h ▸ .spawned hTask rfl hNext rfl
    · have hNext : (Task.spawning job v6).Works (.unspawned job v6) .v4 .dropped :=
        .of rfl rfl id (.inl rfl) (.inl rfl)
      exact Option.some.inj h ▸ .closed hTask rfl hNext
  | unspawned job v6 =>
    cases v6 with
    | true =>
      have hNext : (Task.unspawned job true).Works (.dropping6 job) .v4 .released :=
        .of rfl rfl id (.inr rfl) (.inl rfl)
      exact Option.some.inj h ▸ .released hTask rfl hNext
    | false =>
      have hNext : (Task.unspawned job false).Works (.returned job.port .notStarted) .v4
          .released := .of rfl rfl id (.inr rfl) (.inr rfl)
      exact Option.some.inj h ▸ .released hTask rfl hNext
  | dropping6 job =>
    have hNext : (Task.dropping6 job).Works (.releasing6 job) .v6 .dropped :=
      .of rfl rfl id (.inl rfl) (.inr rfl)
    exact Option.some.inj h ▸ .closed hTask rfl hNext
  | releasing6 job =>
    have hNext : (Task.releasing6 job).Works (.returned job.port .notStarted) .v6 .released :=
      .of rfl rfl id (.inr rfl) (.inr rfl)
    exact Option.some.inj h ▸ .released hTask rfl hNext
  | spawning6 job =>
    simp only [turn] at h
    split at h
    · have hNext : (Task.spawning6 job).Works (.returned job.port .served) .v6 .listening :=
        .of rfl rfl id (.inr rfl) (.inr rfl)
      exact Option.some.inj h ▸ .spawned hTask rfl hNext rfl
    · have hNext : (Task.spawning6 job).Works (.unspawned6 job) .v6 .dropped :=
        .of rfl rfl id (.inl rfl) (.inr rfl)
      exact Option.some.inj h ▸ .closed hTask rfl hNext
  | unspawned6 job =>
    have hNext : (Task.unspawned6 job).Works (.returned job.port .served) .v6 .released :=
      .of rfl rfl id (.inr rfl) (.inr rfl)
    exact Option.some.inj h ▸ .released hTask rfl hNext
  | abandoning job v6 answer =>
    cases v6 with
    | true =>
      have hNext : (Task.abandoning job true answer).Works (.abandoning job false answer) .v6
          .dropped := .of rfl rfl id (.inr rfl) (.inl rfl)
      exact Option.some.inj h ▸ .closed hTask rfl hNext
    | false =>
      have hNext : (Task.abandoning job false answer).Works (.returned job.port answer) .v4
          .dropped := .of rfl rfl (fun _ => rfl) (.inr rfl) (.inr rfl)
      exact Option.some.inj h ▸ .closed hTask rfl hNext
  | returned => cases h

theorem accept_move {f : Family} {fails : Bool} {loop : Loop} (hLoop : s.loops (c, f) = some loop)
    (h : s.accept c f fails loop = some s') : Move s (.accept c f fails) s' := by
  cases loop with
  | accepting =>
    simp only [accept] at h
    split at h
    · exact Option.some.inj h ▸ .left hLoop rfl
    · split at h
      · exact Option.some.inj h ▸ .left hLoop rfl
      · exact Option.some.inj h ▸ .idle
  | leaving => exact Option.some.inj h ▸ .loopClosed hLoop
  | releasing => exact Option.some.inj h ▸ .loopReleased hLoop
  | ended => cases h

theorem step_move {a : Action} (h : s.step a = some s') : Move s a s' := by
  cases a with
  | call c bridge =>
    simp only [step] at h
    split at h
    · rename_i hNew
      cases bridge with
      | none => exact Option.some.inj h ▸ .called hNew.1 rfl nofun
      | some =>
        exact Option.some.inj h ▸ .called hNew.1 rfl fun f fate hFate => (Option.some.inj hFate).symm
    · cases h
  | turn =>
    rw [step] at h
    split at h
    · cases h
    · rename_i hTask
      exact turn_move hTask h
  | accept =>
    rw [step] at h
    split at h
    · cases h
    · rename_i hLoop
      exact accept_move hLoop h
  | expire =>
    rw [step] at h
    split at h
    · exact Option.some.inj h ▸ .expired
    · cases h
  | tick => exact Option.some.inj h ▸ .ticked

end

end Callbacks

theorem callbacks_move {s s' : Callbacks} {a : Action} (h : callbacks.step s a = some s') :
    s.Move a s' := Callbacks.step_move h

end Forward.Callback

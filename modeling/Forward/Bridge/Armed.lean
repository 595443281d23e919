import Forward.Lib.System
import Forward.Lib.Table
import Forward.Lib.Threads
import Forward.Lib.Word
import Forward.Net.Ports

/-!
# The ports of the callback bridge

`Armed` in `forward serve`: `arm` leases a port of this host, `hold` gives a port to a process that
dials it itself, and `connect` finds out where a bridge connection goes. A step is one access under
a lock or one exchange with a holder.

`release` compares the addresses of holders; the allocator hands out any address that no reference
points to (`Armed.unused`). Not in the source: a holder's `call`, `calls` and `trail`.
-/

namespace Forward.Bridge

open Lib Net

structure Holder where
  addr : Nat
  call : Nat
  deriving DecidableEq

inductive Dial
  | connected
  | unreachable
  | gone
  deriving DecidableEq

inductive Call
  | arm (port ttl : Nat)
  | hold (port : Nat)
  | connect (port : Nat)

inductive Answer
  | armed (armed : Bool)
  | held
  | unsafePort
  | busy
  | vanished
  | connected
  | failed
  | unarmed
  deriving DecidableEq

/-- The two calls that try again after they have released a dead holder. -/
inductive Retry
  | arm (deadline : Nat)
  | hold
  deriving DecidableEq

/-- Where a call stands. `seeking` and `looking` are about to look the holder up,
`entering` to look again under the lock that `recording` has; `greeting` and
`clearing` have it too, around the insertion of their holder. -/
inductive Task
  | arming (port ttl : Nat)
  | holding (port : Nat)
  | seeking (port : Nat) (retry : Retry)
  | peeking (port : Nat) (retry : Retry) (holder : Holder)
  | releasing (port : Nat) (retry : Retry) (holder : Holder)
  | entering (port deadline : Nat)
  | recording (port deadline : Nat)
  | greeting (port : Nat) (holder : Holder)
  | clearing (port : Nat)
  | looking (port : Nat)
  | dialing (port : Nat) (holder : Holder)
  | freeing (port : Nat) (holder : Holder)
  | checking (port : Nat)
  | reaching (port : Nat)
  | returned (port : Nat) (answer : Answer)
  deriving DecidableEq

def Task.locks : Task → Bool
  | .recording _ _ | .greeting _ _ | .clearing _ => true
  | _ => false

def Task.holder : Task → Option Holder
  | .peeking _ _ holder | .releasing _ _ holder | .greeting _ holder | .dialing _ holder
  | .freeing _ holder => some holder
  | _ => none

def Call.start : Call → Task
  | .arm port ttl => .arming port ttl
  | .hold port => .holding port
  | .connect port => .looking port

def Retry.alive : Retry → Answer
  | .arm _ => .armed true
  | .hold => .busy

def Retry.released (port : Nat) : Retry → Task
  | .arm deadline => .entering port deadline
  | .hold => .seeking port .hold

/-- A call that is about to release a holder of a port, and what it does then. -/
def Task.drops : Task → Option (Nat × Holder × Task)
  | .releasing port retry holder => some (port, holder, retry.released port)
  | .freeing port holder => some (port, holder, .returned port .failed)
  | _ => none

/-- What the calls do: `installed` with what the map had under the port;
`checked` where `is_armed` finds the port; `reached` is a connection to this
host's loopback. -/
inductive Event
  | installed (t port : Nat) (holder : Holder) (found : Option Holder)
  | removed (t port : Nat) (holder : Holder)
  | recorded (t port deadline : Nat)
  | peeked (t port : Nat) (holder : Holder) (alive : Bool)
  | dialed (t port : Nat) (holder : Holder) (dial : Dial)
  | checked (t port now : Nat)
  | reached (t port : Nat) (connected : Bool)
  deriving DecidableEq

structure Armed where
  ports : Table Nat Nat
  holders : Table Nat Holder
  lock : Option Nat
  clock : Nat
  calls : List Nat
  tasks : Nat → Option Task
  trail : List Event

/-- What a step is answered: `ok` by a peek, an acknowledgement or a connection,
`dial` by a holder, `addr` by the allocator. -/
structure Reply where
  ok : Bool
  dial : Dial
  addr : Nat

inductive Action
  | call (t : Nat) (call : Call)
  | tick (elapsed : Nat)
  | turn (t : Nat) (reply : Reply)

namespace Armed

def setTask (b : Armed) (t : Nat) (task : Task) : Armed :=
  { b with tasks := Function.update b.tasks t (some task) }

def emit (b : Armed) (e : Event) : Armed := { b with trail := e :: b.trail }

def take (b : Armed) (t : Nat) : Armed := { b with lock := some t }

def unlock (b : Armed) : Armed := { b with lock := none }

def unused (b : Armed) (addr : Nat) : Bool :=
  b.holders.values.all (·.addr ≠ addr) &&
    b.calls.all fun t => ((b.tasks t).bind Task.holder).all (·.addr ≠ addr)

def install (b : Armed) (t port : Nat) (holder : Holder) : Armed :=
  { b with holders := b.holders.insert port holder }.emit
    (.installed t port holder (b.holders.lookup port))

def release (b : Armed) (t port : Nat) (holder : Holder) : Armed :=
  match b.holders.lookup port with
  | none => b
  | some current =>
    if current.addr = holder.addr then
      { b with holders := b.holders.erase port }.emit (.removed t port current)
    else b

def record (b : Armed) (t port deadline : Nat) : Armed :=
  { b with ports := b.ports.insert port (max ((b.ports.lookup port).getD deadline) deadline) }.emit
    (.recorded t port deadline)

/-- `is_armed` drops what has expired. -/
def purge (b : Armed) : Armed :=
  { b with ports := b.ports.retain fun _ deadline => b.clock < deadline }

def turn (cfg : Config) (b : Armed) (t : Nat) (reply : Reply) : Task → Option Armed
  | .arming port ttl =>
    if canArm cfg port then
      some (b.setTask t ((checkedAdd b.clock ttl).elim (.returned port (.armed false))
        fun deadline => .seeking port (.arm deadline)))
    else some (b.setTask t (.returned port (.armed false)))
  | .holding port =>
    if canArm cfg port then some (b.setTask t (.seeking port .hold))
    else some (b.setTask t (.returned port .unsafePort))
  | .seeking port retry =>
    if b.lock ≠ none then none
    else
      match b.holders.lookup port, retry with
      | some holder, _ => some (b.setTask t (.peeking port retry holder))
      | none, .arm deadline => some (b.setTask t (.entering port deadline))
      | none, .hold =>
        if b.unused reply.addr then
          some ((b.take t).setTask t (.greeting port ⟨reply.addr, t⟩))
        else none
  | .peeking port retry holder =>
    let b := b.emit (.peeked t port holder reply.ok)
    if reply.ok then some (b.setTask t (.returned port retry.alive))
    else some (b.setTask t (.releasing port retry holder))
  | .releasing port retry holder =>
    if b.lock ≠ none then none
    else some ((b.release t port holder).setTask t (retry.released port))
  | .entering port deadline =>
    if b.lock ≠ none then none
    else if port ∈ b.holders then some (b.setTask t (.seeking port (.arm deadline)))
    else some ((b.take t).setTask t (.recording port deadline))
  | .recording port deadline =>
    some ((b.record t port deadline).unlock.setTask t (.returned port (.armed true)))
  | .greeting port holder =>
    if reply.ok then some ((b.install t port holder).setTask t (.clearing port))
    else some (b.unlock.setTask t (.returned port .vanished))
  | .clearing port =>
    some ({ b with ports := b.ports.erase port }.unlock.setTask t (.returned port .held))
  | .looking port =>
    if b.lock ≠ none then none
    else
      match b.holders.lookup port with
      | some holder => some (b.setTask t (.dialing port holder))
      | none => some (b.setTask t (.checking port))
  | .dialing port holder =>
    let b := b.emit (.dialed t port holder reply.dial)
    match reply.dial with
    | .connected => some (b.setTask t (.returned port .connected))
    | .unreachable => some (b.setTask t (.returned port .failed))
    | .gone => some (b.setTask t (.freeing port holder))
  | .freeing port holder =>
    if b.lock ≠ none then none
    else some ((b.release t port holder).setTask t (.returned port .failed))
  | .checking port =>
    if port ∈ b.purge.ports then
      some ((b.purge.emit (.checked t port b.clock)).setTask t (.reaching port))
    else some (b.purge.setTask t (.returned port .unarmed))
  | .reaching port =>
    some ((b.emit (.reached t port reply.ok)).setTask t
      (.returned port (if reply.ok then .connected else .failed)))
  | .returned _ _ => none

def step (cfg : Config) (b : Armed) : Action → Option Armed
  | .call t call =>
    match b.tasks t with
    | none => some ({ b with calls := t :: b.calls }.setTask t call.start)
    | some _ => none
  | .tick elapsed => some { b with clock := b.clock + elapsed }
  | .turn t reply =>
    match b.tasks t with
    | none => none
    | some task => b.turn cfg t reply task

inductive Move (cfg : Config) (b : Armed) : Action → Armed → Prop
  | call {t : Nat} {call : Call} (hNew : b.tasks t = none) :
      Move cfg b (.call t call) ({ b with calls := t :: b.calls }.setTask t call.start)
  | tick {elapsed : Nat} : Move cfg b (.tick elapsed) { b with clock := b.clock + elapsed }
  | armRefused {t port ttl : Nat} {reply : Reply} (hTask : b.tasks t = some (.arming port ttl)) :
      Move cfg b (.turn t reply) (b.setTask t (.returned port (.armed false)))
  | armStarted {t port ttl deadline : Nat} {reply : Reply}
      (hTask : b.tasks t = some (.arming port ttl)) (hSafe : canArm cfg port = true) :
      Move cfg b (.turn t reply) (b.setTask t (.seeking port (.arm deadline)))
  | holdRefused {t port : Nat} {reply : Reply} (hTask : b.tasks t = some (.holding port)) :
      Move cfg b (.turn t reply) (b.setTask t (.returned port .unsafePort))
  | holdStarted {t port : Nat} {reply : Reply} (hTask : b.tasks t = some (.holding port))
      (hSafe : canArm cfg port = true) :
      Move cfg b (.turn t reply) (b.setTask t (.seeking port .hold))
  | found {t port : Nat} {retry : Retry} {holder : Holder} {reply : Reply}
      (hTask : b.tasks t = some (.seeking port retry)) (hFree : b.lock = none)
      (hFound : b.holders.lookup port = some holder) :
      Move cfg b (.turn t reply) (b.setTask t (.peeking port retry holder))
  | armUnheld {t port deadline : Nat} {reply : Reply}
      (hTask : b.tasks t = some (.seeking port (.arm deadline))) (hFree : b.lock = none) :
      Move cfg b (.turn t reply) (b.setTask t (.entering port deadline))
  | holdUnheld {t port : Nat} {reply : Reply} (hTask : b.tasks t = some (.seeking port .hold))
      (hFree : b.lock = none) (hNone : b.holders.lookup port = none)
      (hUnused : b.unused reply.addr = true) :
      Move cfg b (.turn t reply) ((b.take t).setTask t (.greeting port ⟨reply.addr, t⟩))
  | alive {t port : Nat} {retry : Retry} {holder : Holder} {reply : Reply}
      (hTask : b.tasks t = some (.peeking port retry holder)) (hOk : reply.ok = true) :
      Move cfg b (.turn t reply)
        ((b.emit (.peeked t port holder true)).setTask t (.returned port retry.alive))
  | dead {t port : Nat} {retry : Retry} {holder : Holder} {reply : Reply}
      (hTask : b.tasks t = some (.peeking port retry holder)) (hOk : reply.ok = false) :
      Move cfg b (.turn t reply)
        ((b.emit (.peeked t port holder false)).setTask t (.releasing port retry holder))
  | kept {t port : Nat} {holder : Holder} {task next : Task} {reply : Reply}
      (hTask : b.tasks t = some task) (hDrops : task.drops = some (port, holder, next)) :
      Move cfg b (.turn t reply) (b.setTask t next)
  | removed {t port : Nat} {holder current : Holder} {task next : Task} {reply : Reply}
      (hTask : b.tasks t = some task) (hDrops : task.drops = some (port, holder, next))
      (hFree : b.lock = none) (hCurrent : b.holders.lookup port = some current)
      (hSame : current.addr = holder.addr) :
      Move cfg b (.turn t reply) (({ b with holders := b.holders.erase port }.emit
        (.removed t port current)).setTask t next)
  | armHeld {t port deadline : Nat} {reply : Reply}
      (hTask : b.tasks t = some (.entering port deadline)) (hFree : b.lock = none) :
      Move cfg b (.turn t reply) (b.setTask t (.seeking port (.arm deadline)))
  | armEntered {t port deadline : Nat} {reply : Reply}
      (hTask : b.tasks t = some (.entering port deadline)) (hFree : b.lock = none)
      (hNone : b.holders.lookup port = none) :
      Move cfg b (.turn t reply) ((b.take t).setTask t (.recording port deadline))
  | recorded {t port deadline : Nat} {reply : Reply}
      (hTask : b.tasks t = some (.recording port deadline)) :
      Move cfg b (.turn t reply)
        ((b.record t port deadline).unlock.setTask t (.returned port (.armed true)))
  | vanished {t port : Nat} {holder : Holder} {reply : Reply}
      (hTask : b.tasks t = some (.greeting port holder)) :
      Move cfg b (.turn t reply) (b.unlock.setTask t (.returned port .vanished))
  | installed {t port : Nat} {holder : Holder} {reply : Reply}
      (hTask : b.tasks t = some (.greeting port holder)) (hOk : reply.ok = true) :
      Move cfg b (.turn t reply) ((b.install t port holder).setTask t (.clearing port))
  | cleared {t port : Nat} {reply : Reply} (hTask : b.tasks t = some (.clearing port)) :
      Move cfg b (.turn t reply)
        ({ b with ports := b.ports.erase port }.unlock.setTask t (.returned port .held))
  | routed {t port : Nat} {holder : Holder} {reply : Reply}
      (hTask : b.tasks t = some (.looking port)) (hFree : b.lock = none)
      (hFound : b.holders.lookup port = some holder) :
      Move cfg b (.turn t reply) (b.setTask t (.dialing port holder))
  | unrouted {t port : Nat} {reply : Reply} (hTask : b.tasks t = some (.looking port))
      (hFree : b.lock = none) :
      Move cfg b (.turn t reply) (b.setTask t (.checking port))
  | dialed {t port : Nat} {holder : Holder} {answer : Answer} {reply : Reply}
      (hTask : b.tasks t = some (.dialing port holder))
      (hAnswer : answer = .connected ∨ answer = .failed) :
      Move cfg b (.turn t reply)
        ((b.emit (.dialed t port holder reply.dial)).setTask t (.returned port answer))
  | gone {t port : Nat} {holder : Holder} {reply : Reply}
      (hTask : b.tasks t = some (.dialing port holder)) :
      Move cfg b (.turn t reply)
        ((b.emit (.dialed t port holder .gone)).setTask t (.freeing port holder))
  | checked {t port deadline : Nat} {reply : Reply} (hTask : b.tasks t = some (.checking port))
      (hLease : b.ports.lookup port = some deadline) (hLive : b.clock < deadline) :
      Move cfg b (.turn t reply)
        ((b.purge.emit (.checked t port b.clock)).setTask t (.reaching port))
  | unarmed {t port : Nat} {reply : Reply} (hTask : b.tasks t = some (.checking port)) :
      Move cfg b (.turn t reply) (b.purge.setTask t (.returned port .unarmed))
  | reached {t port : Nat} {answer : Answer} {reply : Reply}
      (hTask : b.tasks t = some (.reaching port))
      (hAnswer : answer = .connected ∨ answer = .failed) :
      Move cfg b (.turn t reply)
        ((b.emit (.reached t port reply.ok)).setTask t (.returned port answer))

variable {cfg : Config} {b b' : Armed}

theorem purge_lookup {port deadline : Nat} :
    b.purge.ports.lookup port = some deadline ↔
      b.ports.lookup port = some deadline ∧ b.clock < deadline := by
  rw [purge, Table.lookup_retain, Option.filter_eq_some_iff, decide_eq_true_iff]

theorem release_move {t port : Nat} {holder : Holder} {task next : Task} {reply : Reply}
    (hTask : b.tasks t = some task) (hDrops : task.drops = some (port, holder, next))
    (hFree : b.lock = none) :
    Move cfg b (.turn t reply) ((b.release t port holder).setTask t next) := by
  unfold release
  split
  · exact .kept hTask hDrops
  · rename_i hCurrent
    split
    · rename_i hSame
      exact .removed hTask hDrops hFree hCurrent hSame
    · exact .kept hTask hDrops

theorem turn_move {t : Nat} {reply : Reply} {task : Task} (hTask : b.tasks t = some task)
    (h : b.turn cfg t reply task = some b') : Move cfg b (.turn t reply) b' := by
  cases task with
  | arming port ttl =>
    simp only [turn] at h
    split at h
    · rename_i hSafe
      cases hDeadline : checkedAdd b.clock ttl with
      | none =>
        rw [hDeadline] at h
        exact Option.some.inj h ▸ .armRefused hTask
      | some =>
        rw [hDeadline] at h
        exact Option.some.inj h ▸ .armStarted hTask hSafe
    · exact Option.some.inj h ▸ .armRefused hTask
  | holding =>
    simp only [turn] at h
    split at h
    · rename_i hSafe
      exact Option.some.inj h ▸ .holdStarted hTask hSafe
    · exact Option.some.inj h ▸ .holdRefused hTask
  | seeking port retry =>
    simp only [turn] at h
    split at h
    · cases h
    · rename_i hLock
      have hFree := not_not.mp hLock
      cases hFound : b.holders.lookup port with
      | some =>
        rw [hFound] at h
        exact Option.some.inj h ▸ .found hTask hFree hFound
      | none =>
        rw [hFound] at h
        cases retry with
        | arm => exact Option.some.inj h ▸ .armUnheld hTask hFree
        | hold =>
          dsimp only at h
          split at h
          · rename_i hUnused
            exact Option.some.inj h ▸ .holdUnheld hTask hFree hFound hUnused
          · cases h
  | peeking =>
    simp only [turn] at h
    split at h
    · rename_i hOk
      rw [hOk] at h
      exact Option.some.inj h ▸ .alive hTask hOk
    · rename_i hOk
      have hDead := Bool.eq_false_iff.mpr hOk
      rw [hDead] at h
      exact Option.some.inj h ▸ .dead hTask hDead
  | releasing | freeing =>
    simp only [turn] at h
    split at h
    · cases h
    · rename_i hLock
      exact Option.some.inj h ▸ release_move hTask rfl (not_not.mp hLock)
  | entering =>
    simp only [turn] at h
    split at h
    · cases h
    · rename_i hLock
      split at h
      · exact Option.some.inj h ▸ .armHeld hTask (not_not.mp hLock)
      · rename_i hNot
        have hNone := AList.lookup_eq_none.mpr hNot
        exact Option.some.inj h ▸ .armEntered hTask (not_not.mp hLock) hNone
  | recording => exact Option.some.inj h ▸ .recorded hTask
  | greeting =>
    simp only [turn] at h
    split at h
    · rename_i hOk
      exact Option.some.inj h ▸ .installed hTask hOk
    · exact Option.some.inj h ▸ .vanished hTask
  | clearing => exact Option.some.inj h ▸ .cleared hTask
  | looking =>
    simp only [turn] at h
    split at h
    · cases h
    · rename_i hLock
      split at h
      · rename_i hFound
        exact Option.some.inj h ▸ .routed hTask (not_not.mp hLock) hFound
      · exact Option.some.inj h ▸ .unrouted hTask (not_not.mp hLock)
  | dialing =>
    simp only [turn] at h
    split at h
    · exact Option.some.inj h ▸ .dialed hTask (.inl rfl)
    · exact Option.some.inj h ▸ .dialed hTask (.inr rfl)
    · rename_i hDial
      rw [hDial] at h
      exact Option.some.inj h ▸ .gone hTask
  | checking =>
    simp only [turn] at h
    split at h
    · rename_i hIn
      obtain ⟨deadline, hLease⟩ := Option.isSome_iff_exists.mp (AList.lookup_isSome.mpr hIn)
      obtain ⟨hLease, hLive⟩ := purge_lookup.mp hLease
      exact Option.some.inj h ▸ .checked hTask hLease hLive
    · exact Option.some.inj h ▸ .unarmed hTask
  | reaching =>
    refine Option.some.inj h ▸ .reached hTask ?_
    cases reply.ok with
    | true => exact .inl rfl
    | false => exact .inr rfl
  | returned => cases h

theorem step_move {a : Action} (h : b.step cfg a = some b') : Move cfg b a b' := by
  cases a with
  | call t call =>
    rw [step] at h
    split at h
    · rename_i hNew
      exact Option.some.inj h ▸ .call hNew
    · cases h
  | tick => exact Option.some.inj h ▸ .tick
  | turn =>
    rw [step] at h
    split at h
    · cases h
    · rename_i hTask
      exact turn_move hTask h

end Armed

def bridge (cfg : Config) : System Armed Action where
  init := ⟨∅, ∅, none, 0, [], fun _ => none, []⟩
  step := Armed.step cfg

theorem bridge_move {cfg : Config} {b b' : Armed} {a : Action}
    (h : (bridge cfg).step b a = some b') : b.Move cfg a b' := Armed.step_move h

end Forward.Bridge

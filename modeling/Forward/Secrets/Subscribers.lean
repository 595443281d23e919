import Forward.Lib.System
import Forward.Lib.Threads
import Forward.Lib.Word

/-!
# The subscriber hub

`SubscriberHub` under its own mutex: connections attach, LOCK and the worker's heartbeat publish,
subscribed processes exit and their sockets fill up. One step is one access to the hub, to the lock
epoch or to a subscriber (`Hub.step`, inverted by `Hub.Move`). `deliveries` is not in the source:
the writes to subscribers, newest first.
-/

namespace Forward.Secrets

open Lib

structure AuthorityEvent where
  instanceId : String
  epoch : Nat

def AuthorityEvent.line (event : AuthorityEvent) : String :=
  "EPOCH " ++ toString event.epoch ++ " instance=" ++ event.instanceId ++ "\n"

def subscriberCapacity : Nat := 8

/-- A process behind a pidfd: its pid, and a serial number that tells it from
the others that have had this pid. -/
structure Process where
  pid : Nat
  serial : Nat
  deriving DecidableEq

structure Subscriber where
  conn : Nat
  peer : Process
  deriving DecidableEq

/-- One nonblocking write of an event line: the bytes taken, or an error. -/
structure Delivery where
  conn : Nat
  event : AuthorityEvent
  written : Option Nat

/-- The whole line went out; anything less costs the subscriber its place. -/
def Delivery.full (d : Delivery) : Bool := d.written == some d.event.line.utf8ByteSize

/-- Who uses the hub: a connection that subscribes, a handler of LOCK, or a
heartbeat of the worker. -/
inductive HubThread
  | connection (n : Nat)
  | handler (n : Nat)
  | heartbeat (n : Nat)
  deriving DecidableEq

/-- What a walk over the subscribers is for: `attach` removes whoever has the
pid of the newcomer, `publish_current` whoever a line cannot be written to.
Either first removes those that have exited. -/
inductive Pass
  | retain (sub : Subscriber) (peerPid : Option Nat)
  | publish (epoch : Nat)
  deriving DecidableEq

/-- Where a thread stands. In `attaching` and `publishing` it waits for the
mutex, and holds it from there until it is `done`; in `scanning` it has come to
the entry `i`, and `alive` says that the entry's process was found running. -/
inductive HubTask
  | attaching (sub : Subscriber)
  | pinning (sub : Subscriber)
  | scanning (pass : Pass) (i : Nat) (alive : Bool)
  | admitting (sub : Subscriber)
  | greeting (sub : Subscriber) (epoch : Nat)
  | publishing
  | reading
  | done
  deriving DecidableEq

structure Hub where
  instanceId : String
  epoch : Nat
  subscribers : List Subscriber
  holder : Option HubThread
  tasks : HubThread → Option HubTask
  exited : List Process
  deliveries : List Delivery

inductive HubAction
  | subscribe (n : Nat) (peer : Process)
  | lock (n : Nat)
  | beat (n : Nat)
  | exit (peer : Process)
  | acquire (t : HubThread)
  | turn (t : HubThread) (written : Option Nat)

namespace Hub

/-- `PinnedPeer::pid`: nothing once the process is gone. -/
def pid (hub : Hub) (peer : Process) : Option Nat :=
  if peer ∈ hub.exited then none else some peer.pid

def isAlive (hub : Hub) (peer : Process) : Bool := (hub.pid peer).isSome

def setTask (hub : Hub) (t : HubThread) (task : HubTask) : Hub :=
  { hub with tasks := Function.update hub.tasks t (some task) }

-- the guard is dropped, and the thread returns
def finish (hub : Hub) (t : HubThread) : Hub := { hub.setTask t .done with holder := none }

def remove (hub : Hub) (i : Nat) : Hub := { hub with subscribers := hub.subscribers.eraseIdx i }

def deliver (hub : Hub) (d : Delivery) : Hub := { hub with deliveries := d :: hub.deliveries }

/-- The next access of a thread that holds the mutex; `written` is what its
write answers, where it writes. -/
def turn (hub : Hub) (t : HubThread) (written : Option Nat) : HubTask → Option Hub
  | .pinning sub => some (hub.setTask t (.scanning (.retain sub (hub.pid sub.peer)) 0 false))
  | .scanning pass i false =>
    match hub.subscribers[i]? with
    | none =>
      match pass with
      | .retain sub _ => some (hub.setTask t (.admitting sub))
      | .publish _ => some (hub.finish t)
    | some s =>
      if hub.isAlive s.peer then some (hub.setTask t (.scanning pass i true))
      else some (hub.remove i)
  | .scanning pass i true =>
    match hub.subscribers[i]? with
    | none => none
    | some s =>
      match pass with
      | .retain _ peerPid =>
        if hub.pid s.peer ≠ peerPid then some (hub.setTask t (.scanning pass (i + 1) false))
        else some ((hub.remove i).setTask t (.scanning pass i false))
      | .publish epoch =>
        let d : Delivery := ⟨s.conn, ⟨hub.instanceId, epoch⟩, written⟩
        if d.full then some ((hub.deliver d).setTask t (.scanning pass (i + 1) false))
        else some (((hub.deliver d).remove i).setTask t (.scanning pass i false))
  | .admitting sub =>
    if subscriberCapacity ≤ hub.subscribers.length then some (hub.finish t)
    else some (hub.setTask t (.greeting sub hub.epoch))
  | .greeting sub epoch =>
    let d : Delivery := ⟨sub.conn, ⟨hub.instanceId, epoch⟩, written⟩
    if d.full then
      some ({ hub.deliver d with subscribers := hub.subscribers ++ [sub] }.finish t)
    else some ((hub.deliver d).finish t)
  | .reading => some (hub.setTask t (.scanning (.publish hub.epoch) 0 false))
  | .attaching _ | .publishing | .done => none

def step (hub : Hub) : HubAction → Option Hub
  | .subscribe n peer =>
    match hub.tasks (.connection n) with
    | none => some (hub.setTask (.connection n) (.attaching ⟨n, peer⟩))
    | some _ => none
  | .lock n =>
    match hub.tasks (.handler n) with
    | none => some ({ hub with epoch := satAdd hub.epoch 1 }.setTask (.handler n) .publishing)
    | some _ => none
  | .beat n =>
    match hub.tasks (.heartbeat n) with
    | none => some (hub.setTask (.heartbeat n) .publishing)
    | some _ => none
  | .exit peer => some { hub with exited := peer :: hub.exited }
  | .acquire t =>
    match hub.holder, hub.tasks t with
    | none, some (.attaching sub) => some ({ hub with holder := some t }.setTask t (.pinning sub))
    | none, some .publishing => some ({ hub with holder := some t }.setTask t .reading)
    | _, _ => none
  | .turn t written =>
    match hub.tasks t with
    | none => none
    | some task => hub.turn t written task

inductive Move (hub : Hub) : HubAction → Hub → Prop
  | subscribe {n : Nat} {peer : Process} (hNew : hub.tasks (.connection n) = none) :
      Move hub (.subscribe n peer) (hub.setTask (.connection n) (.attaching ⟨n, peer⟩))
  | lock {n : Nat} (hNew : hub.tasks (.handler n) = none) :
      Move hub (.lock n)
        ({ hub with epoch := satAdd hub.epoch 1 }.setTask (.handler n) .publishing)
  | beat {n : Nat} (hNew : hub.tasks (.heartbeat n) = none) :
      Move hub (.beat n) (hub.setTask (.heartbeat n) .publishing)
  | exit {peer : Process} : Move hub (.exit peer) { hub with exited := peer :: hub.exited }
  | acquire {t : HubThread} {sub : Subscriber} (hFree : hub.holder = none)
      (hTask : hub.tasks t = some (.attaching sub)) :
      Move hub (.acquire t) ({ hub with holder := some t }.setTask t (.pinning sub))
  | acquirePublish {t : HubThread} (hFree : hub.holder = none)
      (hTask : hub.tasks t = some .publishing) :
      Move hub (.acquire t) ({ hub with holder := some t }.setTask t .reading)
  | pin {t : HubThread} {written : Option Nat} {sub : Subscriber}
      (hTask : hub.tasks t = some (.pinning sub)) :
      Move hub (.turn t written)
        (hub.setTask t (.scanning (.retain sub (hub.pid sub.peer)) 0 false))
  | retained {t : HubThread} {written peerPid : Option Nat} {sub : Subscriber} {i : Nat}
      (hTask : hub.tasks t = some (.scanning (.retain sub peerPid) i false))
      (hEnd : hub.subscribers[i]? = none) :
      Move hub (.turn t written) (hub.setTask t (.admitting sub))
  | published {t : HubThread} {written : Option Nat} {epoch i : Nat}
      (hTask : hub.tasks t = some (.scanning (.publish epoch) i false))
      (hEnd : hub.subscribers[i]? = none) :
      Move hub (.turn t written) (hub.finish t)
  | running {t : HubThread} {written : Option Nat} {pass : Pass} {i : Nat} {s : Subscriber}
      (hTask : hub.tasks t = some (.scanning pass i false))
      (hGet : hub.subscribers[i]? = some s) :
      Move hub (.turn t written) (hub.setTask t (.scanning pass i true))
  | gone {t : HubThread} {written : Option Nat} {pass : Pass} {i : Nat} {s : Subscriber}
      (hTask : hub.tasks t = some (.scanning pass i false))
      (hGet : hub.subscribers[i]? = some s) :
      Move hub (.turn t written) (hub.remove i)
  | kept {t : HubThread} {written peerPid : Option Nat} {sub s : Subscriber} {i : Nat}
      (hTask : hub.tasks t = some (.scanning (.retain sub peerPid) i true))
      (hGet : hub.subscribers[i]? = some s) (hPid : hub.pid s.peer ≠ peerPid) :
      Move hub (.turn t written) (hub.setTask t (.scanning (.retain sub peerPid) (i + 1) false))
  | replaced {t : HubThread} {written peerPid : Option Nat} {sub : Subscriber} {i : Nat}
      (hTask : hub.tasks t = some (.scanning (.retain sub peerPid) i true)) :
      Move hub (.turn t written)
        ((hub.remove i).setTask t (.scanning (.retain sub peerPid) i false))
  | wrote {t : HubThread} {written : Option Nat} {s : Subscriber} {epoch i : Nat}
      (hTask : hub.tasks t = some (.scanning (.publish epoch) i true))
      (hGet : hub.subscribers[i]? = some s)
      (hFull : (Delivery.mk s.conn ⟨hub.instanceId, epoch⟩ written).full = true) :
      Move hub (.turn t written)
        ((hub.deliver ⟨s.conn, ⟨hub.instanceId, epoch⟩, written⟩).setTask t
          (.scanning (.publish epoch) (i + 1) false))
  | dropped {t : HubThread} {written : Option Nat} {s : Subscriber} {epoch i : Nat}
      (hTask : hub.tasks t = some (.scanning (.publish epoch) i true)) :
      Move hub (.turn t written)
        (((hub.deliver ⟨s.conn, ⟨hub.instanceId, epoch⟩, written⟩).remove i).setTask t
          (.scanning (.publish epoch) i false))
  | refused {t : HubThread} {written : Option Nat} {sub : Subscriber}
      (hTask : hub.tasks t = some (.admitting sub)) : Move hub (.turn t written) (hub.finish t)
  | admitted {t : HubThread} {written : Option Nat} {sub : Subscriber}
      (hTask : hub.tasks t = some (.admitting sub))
      (hRoom : hub.subscribers.length < subscriberCapacity) :
      Move hub (.turn t written) (hub.setTask t (.greeting sub hub.epoch))
  | attached {t : HubThread} {written : Option Nat} {sub : Subscriber} {epoch : Nat}
      (hTask : hub.tasks t = some (.greeting sub epoch))
      (hFull : (Delivery.mk sub.conn ⟨hub.instanceId, epoch⟩ written).full = true) :
      Move hub (.turn t written)
        ({ hub.deliver ⟨sub.conn, ⟨hub.instanceId, epoch⟩, written⟩ with
          subscribers := hub.subscribers ++ [sub] }.finish t)
  | unwritten {t : HubThread} {written : Option Nat} {sub : Subscriber} {epoch : Nat}
      (hTask : hub.tasks t = some (.greeting sub epoch)) :
      Move hub (.turn t written)
        ((hub.deliver ⟨sub.conn, ⟨hub.instanceId, epoch⟩, written⟩).finish t)
  | read {t : HubThread} {written : Option Nat} (hTask : hub.tasks t = some .reading) :
      Move hub (.turn t written) (hub.setTask t (.scanning (.publish hub.epoch) 0 false))

theorem turn_move {hub hub' : Hub} {t : HubThread} {written : Option Nat} {task : HubTask}
    (hTask : hub.tasks t = some task) (h : hub.turn t written task = some hub') :
    Move hub (.turn t written) hub' := by
  cases task with
  | attaching | publishing | done => cases h
  | pinning => exact Option.some.inj h ▸ .pin hTask
  | reading => exact Option.some.inj h ▸ .read hTask
  | admitting =>
    simp only [turn] at h
    split at h
    · exact Option.some.inj h ▸ .refused hTask
    · rename_i hRoom
      exact Option.some.inj h ▸ .admitted hTask (Nat.lt_of_not_le hRoom)
  | greeting =>
    simp only [turn] at h
    split at h
    · rename_i hFull
      exact Option.some.inj h ▸ .attached hTask hFull
    · exact Option.some.inj h ▸ .unwritten hTask
  | scanning pass i alive =>
    cases alive with
    | false =>
      simp only [turn] at h
      split at h
      · rename_i hEnd
        cases pass with
        | retain => exact Option.some.inj h ▸ .retained hTask hEnd
        | publish => exact Option.some.inj h ▸ .published hTask hEnd
      · rename_i hGet
        split at h
        · exact Option.some.inj h ▸ .running hTask hGet
        · exact Option.some.inj h ▸ .gone hTask hGet
    | true =>
      simp only [turn] at h
      split at h
      · cases h
      · rename_i hGet
        cases pass with
        | retain =>
          dsimp only at h
          split at h
          · rename_i hPid
            exact Option.some.inj h ▸ .kept hTask hGet hPid
          · exact Option.some.inj h ▸ .replaced hTask
        | publish =>
          dsimp only at h
          split at h
          · rename_i hFull
            exact Option.some.inj h ▸ .wrote hTask hGet hFull
          · exact Option.some.inj h ▸ .dropped hTask

theorem step_move {hub hub' : Hub} {a : HubAction} (h : hub.step a = some hub') :
    Move hub a hub' := by
  cases a with
  | subscribe =>
    rw [step] at h
    split at h
    · rename_i hNew
      exact Option.some.inj h ▸ .subscribe hNew
    · cases h
  | lock =>
    rw [step] at h
    split at h
    · rename_i hNew
      exact Option.some.inj h ▸ .lock hNew
    · cases h
  | beat =>
    rw [step] at h
    split at h
    · rename_i hNew
      exact Option.some.inj h ▸ .beat hNew
    · cases h
  | exit => exact Option.some.inj h ▸ .exit
  | acquire =>
    rw [step] at h
    split at h
    · rename_i hFree hTask
      exact Option.some.inj h ▸ .acquire hFree hTask
    · rename_i hFree hTask
      exact Option.some.inj h ▸ .acquirePublish hFree hTask
    · cases h
  | turn =>
    rw [step] at h
    split at h
    · cases h
    · rename_i hTask
      exact turn_move hTask h

end Hub

def hubSystem (instanceId : String) : System Hub HubAction where
  init := ⟨instanceId, 0, [], none, fun _ => none, [], []⟩
  step := Hub.step

end Forward.Secrets

import Forward.Secrets.LockEvents
import Forward.Secrets.Places

/-!
# The broker and its subscribers

The broker beside its subscriber hub. A LOCK raises the lock epoch in its critical section under
the broker lock and publishes after it; the hub reads the epoch under its own mutex. A step of the
daemon is a step of either; LOCK's is one of both.
-/

namespace Forward.Secrets

open Lib

/-! ## The epoch of the broker -/

section

variable (st : State) {st' : State} {w : World} {h : Nat} {r : Readings}

@[simp] theorem killActive_lockEpoch (id : Nat) : (st.killActive id).lockEpoch = st.lockEpoch := by
  obtain ⟨_, _, hEq⟩ := killActive_frame st id
  rw [hEq]

theorem enqueue_lockEpoch (scope : Scope) (key : SecretName) (now : Nat) (ttl : Option Nat) :
    (st.enqueue h scope key now ttl).1.lockEpoch = st.lockEpoch := by
  obtain ⟨_, _, hEq⟩ := enqueue_frame st h scope key now ttl
  rw [hEq]

theorem awaitLoop_lockEpoch (source : String) (id deadline t t' : Nat) :
    (st.awaitLoop source id deadline t t').1.lockEpoch = st.lockEpoch := by
  rcases awaitLoop_cases st source id deadline t t' with hEq | ⟨_, hEq⟩ | ⟨st', _, hEq, rfl | rfl⟩
  · rw [hEq]
  · rw [hEq]
  · rw [hEq]
  · rw [hEq]
    exact killActive_lockEpoch _ id

theorem awaitApproval_lockEpoch (scope : Scope) (key : SecretName) (forceFresh : Bool)
    (ttl : Option Nat) :
    (st.awaitApproval w h scope key forceFresh ttl r).1.lockEpoch = st.lockEpoch := by
  have hCleared : ∀ base, Cleared st scope key r.t0 base → base.lockEpoch = st.lockEpoch := by
    rintro base (⟨rfl, -⟩ | rfl)
    · rfl
    · rfl
  generalize hAwait : st.awaitApproval w h scope key forceFresh ttl r = result
  have hCase := awaitApproval_case st w h scope key forceFresh ttl r
  rw [hAwait] at hCase
  cases hCase with
  | cached => rfl
  | refused hBase => exact hCleared _ hBase
  | @queued base st' source id deadline hBase hEnqueue =>
    rw [awaitLoop_lockEpoch, ← hCleared base hBase]
    have hQueue := enqueue_lockEpoch base (h := h) scope key r.t1 ttl
    rw [hEnqueue] at hQueue
    exact hQueue

theorem resolveAccess_lockEpoch (access : Access) (caller : Peer) :
    (st.resolveAccess w h access caller).1.lockEpoch = st.lockEpoch := by
  unfold State.resolveAccess
  split
  · rfl
  · split
    · rfl
    · dsimp only
      split <;> rfl

theorem finishAuthorization_lockEpoch (cap : Capability) (epochBefore : Nat) (decision : Decision)
    (now : Nat) (reads : List ReceiptId) :
    (st.finishAuthorization h cap epochBefore decision now reads).1.lockEpoch = st.lockEpoch := by
  unfold State.finishAuthorization
  split
  · split
    · dsimp only
      split <;> rfl
    · rfl
  · rfl

theorem redeem_lockEpoch (receiptHex expectedCap : String) (now : Nat) :
    (st.redeem h receiptHex expectedCap now).1.lockEpoch = st.lockEpoch := by
  unfold State.redeem
  split
  · rfl
  · split
    · rfl
    · split
      · rfl
      · dsimp only
        split <;> rfl

theorem lock_lockEpoch (now : Nat) : (st.lock now).1.lockEpoch = satAdd st.lockEpoch 1 := by
  unfold State.lock
  dsimp only
  split <;> rfl

def Task.isLock : Task → Bool
  | .received .lock _ => true
  | _ => false

theorem dispatch_lockEpoch (caller : Peer) (now : Nat) (request : Request) :
    (st.dispatch h caller now request).1.lockEpoch =
      if (Task.received request caller).isLock then satAdd st.lockEpoch 1 else st.lockEpoch := by
  cases request with
  | hello | get | requestGrant | authorize =>
    simp only [State.dispatch]
    split <;> rfl
  | register =>
    simp only [State.dispatch, State.register]
    split
    · rfl
    · split <;> rfl
  | unregister | grants | subscribe => rfl
  | redeem receiptHex cap => exact redeem_lockEpoch st receiptHex cap now
  | deny id =>
    simp only [State.dispatch, State.deny]
    split
    · exact killActive_lockEpoch _ id
    · rfl
  | lock => exact lock_lockEpoch st now

variable {st} in
theorem handle_lockEpoch {task task' : Task} {reads : List ReceiptId}
    (hHandle : st.handle w h r reads task = some (st', task')) :
    st'.lockEpoch = if task.isLock then satAdd st.lockEpoch 1 else st.lockEpoch := by
  cases task with
  | received request caller =>
    have hEpoch := dispatch_lockEpoch st (h := h) caller r.t0 request
    rw [Option.some.inj hHandle] at hEpoch
    exact hEpoch
  | resolving flow =>
    have hEpoch := resolveAccess_lockEpoch st (w := w) (h := h) flow.access flow.caller
    simp only [State.handle] at hHandle
    split at hHandle
    · rename_i hEq
      rw [hEq] at hEpoch
      cases hHandle
      exact hEpoch
    · rename_i hEq
      rw [hEq] at hEpoch
      cases hHandle
      exact hEpoch
  | awaiting =>
    rw [handle_awaiting] at hHandle
    cases hHandle
    exact awaitApproval_lockEpoch ..
  | waiting =>
    rw [handle_waiting] at hHandle
    cases hHandle
    exact awaitLoop_lockEpoch ..
  | approved =>
    cases hHandle
    rfl
  | minting =>
    cases hHandle
    exact finishAuthorization_lockEpoch ..
  | done => cases hHandle

theorem killAll_lockEpoch (ids : List Nat) (st : State) :
    (ids.foldl State.killActive st).lockEpoch = st.lockEpoch := by
  induction ids generalizing st with
  | nil => rfl
  | cons id rest ih => exact (ih _).trans (killActive_lockEpoch st id)

theorem tick_lockEpoch (now : Nat) : (st.tick w now).1.lockEpoch = st.lockEpoch := by
  have hKilled := killAll_lockEpoch (st.queue.sweepTimeouts now).2
    { st with queue := (st.queue.sweepTimeouts now).1 }
  unfold State.tick
  dsimp only
  split
  · exact hKilled
  · split
    · exact hKilled
    · split <;> exact hKilled

theorem report_lockEpoch (job : Job) (result : Except ErrCode DecryptedHumanFile) :
    (st.report w job result r).lockEpoch = st.lockEpoch := by
  have hKilled := killActive_lockEpoch st job.id
  unfold State.report
  cases result with
  | error => exact hKilled
  | ok =>
    have hDenied : ((st.killActive job.id).denyStale w job r.t0).lockEpoch = st.lockEpoch := by
      unfold State.denyStale
      split <;> exact hKilled
    dsimp only
    unfold State.install
    split <;> exact hDenied

end

namespace Sys

def locks (s : Sys) : Action → Option Nat
  | .handle h _ _ =>
    match s.tasks h with
    | some task => if task.isLock then some h else none
    | none => none
  | _ => none

end Sys

/-- **Only LOCK changes the epoch**, by one until it stops at the largest word. -/
theorem lockEpoch_step {s t : Sys} {a : Action} (hStep : s.step a = some t) :
    t.st.lockEpoch = match s.locks a with
      | some _ => satAdd s.st.lockEpoch 1
      | none => s.st.lockEpoch := by
  cases Sys.step_move hStep with
  | @handle h r reads task task' st' hTask hClock hHandle =>
    have hConclude : (st'.conclude h r.t0 task').lockEpoch = st'.lockEpoch := by
      cases task' <;> rfl
    rw [show s.locks (.handle h r reads) = if task.isLock then some h else none by
      simp only [Sys.locks, hTask]]
    refine hConclude.trans ((handle_lockEpoch hHandle).trans ?_)
    split <;> rfl
  | @tick now st' hWorker hClock hTick | @begin now st' job hWorker hClock hTick =>
    have hEpoch := tick_lockEpoch s.st (w := s.world) now
    rw [hTick] at hEpoch
    exact hEpoch
  | @start job file pg child =>
    change (s.st.onStarted job pg child).lockEpoch = s.st.lockEpoch
    unfold State.onStarted
    split <;> rfl
  | report => exact report_lockEpoch ..
  | os hOs => cases hOs <;> rfl
  | _ => rfl

/-! ## The daemon -/

structure Daemon where
  sys : Sys
  hub : Hub

inductive DaemonAction
  | broker (a : Action)
  | hub (a : HubAction)

/-- A step of the broker or of the hub. The handler that runs the critical
section of LOCK goes on to publish. -/
def Daemon.step (d : Daemon) : DaemonAction → Option Daemon
  | .broker a =>
    match d.sys.step a with
    | none => none
    | some sys =>
      match d.sys.locks a with
      | none => some ⟨sys, d.hub⟩
      | some h => (d.hub.step (.lock h)).map fun hub => ⟨sys, hub⟩
  | .hub (.lock _) => none
  | .hub a => (d.hub.step a).map fun hub => ⟨d.sys, hub⟩

def daemon (cfg : Config) (bootId instanceId : String) (w : World) : System Daemon DaemonAction where
  init := ⟨(broker cfg bootId instanceId w).init, (hubSystem instanceId).init⟩
  step := Daemon.step

theorem Hub.step_epoch {hub hub' : Hub} {a : HubAction} (hStep : hub.step a = some hub') :
    hub'.instanceId = hub.instanceId ∧
    ((∀ n, a ≠ .lock n) → hub'.epoch = hub.epoch) ∧
    ((∃ n, a = .lock n) → hub'.epoch = satAdd hub.epoch 1) := by
  cases Hub.step_move hStep with
  | @lock n => exact ⟨rfl, fun hNot => absurd rfl (hNot n), fun _ => rfl⟩
  | _ => exact ⟨rfl, fun _ => rfl, fun hLock => by obtain ⟨n, hEq⟩ := hLock; cases hEq⟩

structure Daemon.Joined (cfg : Config) (bootId instanceId : String) (w : World) (d : Daemon) :
    Prop where
  broker : Reachable (broker cfg bootId instanceId w) d.sys
  hub : Reachable (hubSystem instanceId) d.hub
  epoch : d.hub.epoch = d.sys.st.lockEpoch
  instanceId : d.hub.instanceId = instanceId

theorem Daemon.joined_step {cfg : Config} {bootId instanceId : String} {w : World} {d d' : Daemon}
    {a : DaemonAction} (h : d.Joined cfg bootId instanceId w) (hStep : d.step a = some d') :
    d'.Joined cfg bootId instanceId w := by
  cases a with
  | broker a =>
    unfold Daemon.step at hStep
    dsimp only at hStep
    split at hStep
    · cases hStep
    · rename_i sys hSys
      have hEpoch := lockEpoch_step hSys
      split at hStep
      · rename_i hNone
        cases hStep
        rw [hNone] at hEpoch
        exact ⟨h.broker.step hSys, h.hub, h.epoch.trans hEpoch.symm, h.instanceId⟩
      · rename_i n hLock
        rw [hLock] at hEpoch
        obtain ⟨hub, hHub, rfl⟩ := Option.map_eq_some_iff.mp hStep
        obtain ⟨hInstance, -, hBumped⟩ := Hub.step_epoch hHub
        refine ⟨h.broker.step hSys, h.hub.step (a := .lock n) hHub, ?_,
          hInstance.trans h.instanceId⟩
        show hub.epoch = sys.st.lockEpoch
        rw [hBumped ⟨n, rfl⟩, hEpoch, h.epoch]
  | hub a =>
    have hOwn : (∀ n, a ≠ .lock n) ∧ ∃ hub, d.hub.step a = some hub ∧ d' = ⟨d.sys, hub⟩ := by
      cases a with
      | lock => cases hStep
      | _ =>
        simp only [Daemon.step, Option.map_eq_some_iff] at hStep
        obtain ⟨hub, hHub, rfl⟩ := hStep
        exact ⟨by simp, hub, hHub, rfl⟩
    obtain ⟨hNot, hub, hHub, rfl⟩ := hOwn
    obtain ⟨hInstance, hSame, -⟩ := Hub.step_epoch hHub
    exact ⟨h.broker, h.hub.step hHub, (hSame hNot).trans h.epoch, hInstance.trans h.instanceId⟩

/-- **Each half of a daemon's run is a run of that half**, and they agree on the
epoch. -/
theorem Daemon.joined_reachable {cfg : Config} {bootId instanceId : String} {w : World} {d : Daemon}
    (h : Reachable (daemon cfg bootId instanceId w) d) : d.Joined cfg bootId instanceId w :=
  h.invariant (I := Daemon.Joined cfg bootId instanceId w)
    (fun _ _ _ hd _ hStep => joined_step hd hStep) ⟨.init, .init, rfl, rfl⟩

/-! ## No missed lock event -/

/-- A LOCK is between its epoch bump and the end of its publish. -/
def Hub.Locking (hub : Hub) : Prop :=
  ∃ n task, hub.tasks (.handler n) = some task ∧ task ≠ .done

/-- **No subscriber misses a lock event.** In every state the daemon can reach:
the epochs written to one subscriber never fall; outside of a LOCK every
subscriber the hub holds was sent the current epoch in full; and the hub holds
no more subscribers than it may, and no two running ones with one pid. -/
theorem no_missed_lock_event {cfg : Config} {bootId instanceId : String} {w : World} {d : Daemon}
    (h : Reachable (daemon cfg bootId instanceId w) d) :
    (∀ conn, ((d.hub.deliveries.filter fun x => x.conn = conn).map fun x => x.event.epoch).Pairwise
      fun later earlier => earlier ≤ later) ∧
    (¬ d.hub.Locking → ∀ s ∈ d.hub.subscribers, ∃ x ∈ d.hub.deliveries,
      x.conn = s.conn ∧ x.event = ⟨instanceId, d.sys.st.lockEpoch⟩ ∧ x.full = true) ∧
    d.hub.subscribers.length ≤ subscriberCapacity ∧
    d.hub.subscribers.Pairwise fun s s' =>
      d.hub.isAlive s.peer = true → d.hub.isAlive s'.peer = true → s.peer.pid ≠ s'.peer.pid := by
  have hJoined := Daemon.joined_reachable h
  have hInv := hubInv_reachable hJoined.hub
  refine ⟨?_, ?_, hInv.roster.room, hInv.roster.distinct⟩
  · intro conn
    exact List.pairwise_map.mpr (hInv.ordered.order.sublist List.filter_sublist)
  · intro hQuiet s hs
    obtain ⟨j, hj, hGet⟩ := List.mem_iff_getElem.mp hs
    rcases hInv.covered.told j s (by rw [List.getElem?_eq_getElem hj, hGet]) with
      ⟨x, hx, hConn, hEvent, hFull⟩ | ⟨n, task, hTask, hWill⟩
    · refine ⟨x, hx, hConn, ?_, hFull⟩
      rw [hEvent, hJoined.instanceId, hJoined.epoch]
    · refine absurd ⟨n, task, hTask, ?_⟩ hQuiet
      rintro rfl
      exact hWill

theorem Hub.step_absent {hub hub' : Hub} {a : HubAction} {n : Nat}
    (hStep : hub.step a = some hub') (hLock : a ≠ .lock n)
    (hAbsent : hub.tasks (.handler n) = none) : hub'.tasks (.handler n) = none := by
  have hOther : ∀ {t : HubThread} {new : HubTask}, HubThread.handler n ≠ t →
      Function.update hub.tasks t (some new) (.handler n) = none :=
    fun hNe => (Function.update_of_ne hNe ..).trans hAbsent
  have hRuns : ∀ {t : HubThread} {task : HubTask}, hub.tasks t = some task →
      HubThread.handler n ≠ t := by
    rintro t task hTask rfl
    rw [hAbsent] at hTask
    cases hTask
  cases Hub.step_move hStep with
  | @subscribe n' peer =>
    have hNe : HubThread.handler n ≠ .connection n' := nofun
    exact (Function.update_of_ne hNe (some (.attaching ⟨n', peer⟩)) hub.tasks).trans hAbsent
  | @beat n' =>
    have hNe : HubThread.handler n ≠ .heartbeat n' := nofun
    exact (Function.update_of_ne hNe (some .publishing) hub.tasks).trans hAbsent
  | @lock =>
    refine hOther ?_
    rintro hEq
    exact hLock (by rw [HubThread.handler.inj hEq])
  | exit | gone => exact hAbsent
  | acquire _ hTask | acquirePublish _ hTask | pin hTask | read hTask | retained hTask _
    | published hTask _ | running hTask _ | kept hTask _ _ | replaced hTask | wrote hTask _ _
    | dropped hTask | refused hTask | admitted hTask _ | attached hTask _ | unwritten hTask =>
    exact hOther (hRuns hTask)

theorem Daemon.step_absent {d d' : Daemon} {a : DaemonAction} {n : Nat}
    (hStep : d.step a = some d') (hLock : ∀ r reads, a ≠ .broker (.handle n r reads))
    (hAbsent : d.hub.tasks (.handler n) = none) : d'.hub.tasks (.handler n) = none := by
  cases a with
  | broker a =>
    unfold Daemon.step at hStep
    dsimp only at hStep
    split at hStep
    · cases hStep
    · split at hStep
      · cases hStep
        exact hAbsent
      · rename_i hHandler
        obtain ⟨hub, hHub, rfl⟩ := Option.map_eq_some_iff.mp hStep
        refine Hub.step_absent hHub ?_ hAbsent
        intro hEq
        cases HubAction.lock.inj hEq
        cases a with
        | handle n r reads =>
          simp only [Sys.locks] at hHandler
          split at hHandler
          · split at hHandler
            · cases hHandler
              exact hLock r reads rfl
            · cases hHandler
          · cases hHandler
        | _ => cases hHandler
  | hub a =>
    cases a with
    | lock => cases hStep
    | _ =>
      simp only [Daemon.step, Option.map_eq_some_iff] at hStep
      obtain ⟨hub, hHub, rfl⟩ := hStep
      exact Hub.step_absent hHub (by simp) hAbsent

def firstHandles : DaemonAction → Bool
  | .broker (.handle h _ _) => h == 0
  | _ => true

theorem no_missed_lock_event_publish :
    ∃ (d : Daemon) (s : Subscriber),
      Reachable (daemon (Config.default [⟨"host", "/d"⟩]) "boot" "id" quietWorld) d ∧
      ¬ d.hub.Locking ∧ d.sys.st.lockEpoch = 1 ∧ d.hub.subscribers = [s] ∧
      (∃ x ∈ d.hub.deliveries, x.conn = s.conn ∧ x.event = ⟨"id", 1⟩ ∧ x.full = true) ∧
      ((d.hub.deliveries.filter fun x => x.conn = s.conn).map fun x => x.event.epoch).Pairwise
        fun later earlier => earlier ≤ later := by
  let sys := daemon (Config.default [⟨"host", "/d"⟩]) "boot" "id" quietWorld
  let turn (t : HubThread) : DaemonAction := .hub (.turn t (some 20))
  let lock : DaemonAction := .broker (.handle 0 (.at 0) [])
  let actions : List DaemonAction :=
    [.hub (.subscribe 0 ⟨5, 0⟩), .hub (.acquire (.connection 0)), turn (.connection 0),
     turn (.connection 0), turn (.connection 0), turn (.connection 0),
     .broker (.receive 0 .lock ⟨1⟩), lock, .hub (.acquire (.handler 0)), turn (.handler 0),
     turn (.handler 0), turn (.handler 0), turn (.handler 0)]
  have hReplay : ((sys.guard fun _ => firstHandles).run sys.init actions).map (fun d =>
      decide (d.sys.st.lockEpoch = 1 ∧ d.hub.subscribers = [⟨0, ⟨5, 0⟩⟩] ∧
        d.hub.tasks (.handler 0) = some .done)) = some true := by
    decide +kernel
  obtain ⟨d, hPath, hSeen⟩ := Path.of_replay hReplay
  obtain ⟨hEpoch, hSubs, hDone⟩ := of_decide_eq_true hSeen
  -- no other handler is a LOCK's
  have hOthers : ∀ n, n ≠ 0 → d.hub.tasks (.handler n) = none := by
    intro n hn
    refine hPath.invariant (I := fun d => d.hub.tasks (.handler n) = none) ?_ rfl
    intro x a y hAbsent hCheck hStep
    refine Daemon.step_absent hStep ?_ hAbsent
    rintro r reads rfl
    exact hn (eq_of_beq hCheck)
  have hQuiet : ¬ d.hub.Locking := by
    rintro ⟨n, task, hTask, hNot⟩
    by_cases hn : n = 0
    · subst hn
      exact hNot (Option.mem_unique hTask hDone)
    · cases (hOthers n hn).symm.trans hTask
  obtain ⟨hOrder, hTold, -⟩ := no_missed_lock_event hPath.forget
  have hSent := hTold hQuiet ⟨0, ⟨5, 0⟩⟩ (by rw [hSubs]; simp)
  rw [hEpoch] at hSent
  exact ⟨d, _, hPath.forget, hQuiet, hEpoch, hSubs, hSent, hOrder 0⟩

end Forward.Secrets

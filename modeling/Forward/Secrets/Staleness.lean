import Forward.Secrets.Rotation

/-!
# Rotated secrets are not served stale

The cached grant is compared with the file that is there now, and a decrypt that has not begun will
open the file that is there then. What is not compared is a decrypt that is already running: a GET
joins it, and the file it opened may have been replaced before the GET was received. `JoinsCurrent`
rules that out, and then no answer is stale.
-/

namespace Forward.Secrets

open Lib

/-! ## What may still be served to a waiting GET -/

def Worker.file : Worker → Option (Job × FileIdentity)
  | .spawning job file => some (job, file.identity)
  | .starting job file _ _ => some (job, file.identity)
  | .polling job file _ _ => some (job, file.identity)
  | .reporting job (.ok file) => some (job, file.identity)
  | _ => none

/-- When the handler's request came, this file of the key had not been replaced. -/
def UnreplacedFor (h : Nat) (key : SecretName) (identity : FileIdentity) (trail : List Event) :
    Prop :=
  Once (fun e before => (∃ request caller, e = .received h request caller) ∧
    ∀ new, .replaced key identity new ∉ before) trail

/-- The grant the handler can find, and the one a running decrypt can still
install, are not from a file replaced before its request came. -/
structure UpToDate (h : Nat) (scope : Scope) (key : SecretName) (s : Sys) : Prop where
  grants : ∀ g ∈ s.st.grants.grants, g.scope = scope → g.key = key → g.live s.clock = true →
    UnreplacedFor h key g.origin.identity s.st.trail
  running : ∀ job identity, s.worker.file = some (job, identity) → job.scope = scope →
    job.key = key → s.st.queue.stillCurrent job.id job.generation = true →
    UnreplacedFor h key identity s.st.trail

def Flow.target (flow : Flow) (scope : Scope) (key : SecretName) : Option (Scope × SecretName) :=
  if flow.returnValue then some (scope, key) else none

def Task.waitsFor : Task → Option (Scope × SecretName)
  | .waiting flow scope key _ _ _ => flow.target scope key
  | .approved flow scope key _ _ => flow.target scope key
  | _ => none

/-- The condition: a GET that comes to `await_approval` while a decrypt for its
scope and key is running, one the queue would still complete, finds the file
that decrypt opened in place. -/
def JoinsCurrent (s : Sys) : Action → Prop
  | .handle h _ _ => ∀ flow scope key job identity,
    s.tasks h = some (.awaiting flow scope key) → flow.returnValue = true →
    s.worker.file = some (job, identity) → job.scope = scope → job.key = key →
    s.st.queue.stillCurrent job.id job.generation = true →
    s.st.store.identity s.world key = .ok identity
  | _ => True

section

variable {w : World} {role : Role} {c d : Core} {st st' : State} {h : Nat} {r : Readings}
  {reads : List ReceiptId} {task task' : Task} {flow : Flow} {scope : Scope} {key : SecretName}

theorem Micro.grants_subset (hMicro : Micro w role c d) (hRole : role ≠ .report) :
    ∀ g ∈ d.st.grants.grants, g ∈ c.st.grants.grants := by
  intro g hg
  cases hMicro with
  | enqueue n scope key ttl =>
    obtain ⟨_, _, hEq⟩ := enqueue_frame c.st n scope key c.clock ttl
    rw [hEq] at hg
    exact hg
  | kill id =>
    obtain ⟨_, _, hEq⟩ := killActive_frame c.st id
    rw [hEq] at hg
    exact hg
  | register _ _ | unregister _ _ | revoke _ _ | expire _ => exact List.mem_of_mem_filter hg
  | insert hReport => exact absurd hReport hRole
  | lock => cases hg
  | _ => exact hg

theorem Micro.decrypting_subset (hMicro : Micro w role c d) (hRole : role ≠ .worker) :
    ∀ r ∈ d.st.queue.requests, r.state = .decrypting → r ∈ c.st.queue.requests := by
  intro r hr hState
  cases hMicro with
  | enqueue n scope key ttl =>
    rcases enqueue_spec c.st n scope key c.clock ttl with
      ⟨_, hEq⟩ | ⟨_, _, _, _, _, hEq⟩ | ⟨r', hNew, hEq⟩
    · rw [hEq] at hr
      exact hr
    · rw [hEq] at hr
      exact hr
    · rw [hEq] at hr
      rcases List.mem_append.mp hr with hOld | hAdded
      · exact hOld
      · rw [List.mem_singleton] at hAdded
        rw [hAdded, hNew] at hState
        cases hState
  | expel id hExpel =>
    refine Queue.mem_of_expel ?_ hr hState
    rcases hExpel with rfl | rfl <;> decide
  | sweepTimeouts => exact Queue.mem_of_sweepTimeouts (by decide) hr hState
  | prune hWorker | start hWorker => exact absurd hWorker hRole
  | kill =>
    rw [killActive_queue] at hr
    exact hr
  | complete _ _ _ | insert _ _ _ _ _ _ _ => exact Queue.mem_of_complete (by decide) hr hState
  | fail => exact Queue.mem_of_update (by simp) hr hState
  | _ => exact hr

theorem handle_subset (hPlace : task.Place h st.trail)
    (hHandle : st.handle w h r reads task = some (st', task')) :
    (∀ g ∈ st'.grants.grants, g ∈ st.grants.grants) ∧
      ∀ q ∈ st'.queue.requests, q.state = .decrypting → q ∈ st.queue.requests := by
  have hChain : Chain w task.role ⟨st, none, r.t0⟩ ⟨st', none, r.t3⟩ :=
    handle_chain hPlace (Nat.le_refl _) hHandle
  refine hChain.invariant (I := fun c => (∀ g ∈ c.st.grants.grants, g ∈ st.grants.grants) ∧
    ∀ q ∈ c.st.queue.requests, q.state = .decrypting → q ∈ st.queue.requests) ?_
    ⟨fun _ hg => hg, fun _ hq _ => hq⟩
  rintro c d ⟨hGrants, hQueue⟩ hMicro
  refine ⟨fun g hg => hGrants g (hMicro.grants_subset task.role_ne.2.1 g hg), ?_⟩
  exact fun q hq hState => hQueue q (hMicro.decrypting_subset task.role_ne.1 q hq hState) hState

variable {p : Scope × SecretName}

theorem target_some (h : flow.target scope key = some p) :
    flow.returnValue ∧ p = (scope, key) := by
  unfold Flow.target at h
  split at h
  · rename_i hReturn
    exact ⟨hReturn, (Option.some.inj h).symm⟩
  · cases h

theorem finish_waitsFor (flow : Flow) (decision : Decision) :
    (flow.finish decision).waitsFor = none := by
  unfold Flow.finish
  split <;> rfl

theorem afterAwait_waitsFor {await : Await}
    (h : (flow.afterAwait scope key await).waitsFor = some p) :
    flow.returnValue ∧ p = (scope, key) := by
  cases await with
  | wait => exact target_some h
  | settled approval =>
    cases approval with
    | granted => exact target_some h
    | refused | incomplete =>
      rw [Flow.afterAwait, finish_waitsFor] at h
      cases h

theorem handle_waitsFor
    (hHandle : st.handle w h r reads task = some (st', task')) (hWaits : task'.waitsFor = some p) :
    task.waitsFor = some p ∨
      ∃ flow, task = .awaiting flow p.1 p.2 ∧ flow.returnValue := by
  cases task with
  | received request caller =>
    simp only [State.handle, Option.some.injEq] at hHandle
    have hNone : (st.dispatch h caller r.t0 request).2.waitsFor = none := by
      cases request with
      | hello version | get key tokenHex tty ttl | requestGrant key tokenHex tty ttl
        | authorize =>
        simp only [State.dispatch]
        split <;> rfl
      | _ => rfl
    rw [hHandle, hWaits] at hNone
    cases hNone
  | resolving =>
    simp only [State.handle] at hHandle
    split at hHandle
    · obtain ⟨-, rfl⟩ := Prod.mk.inj (Option.some.inj hHandle)
      cases hWaits
    · obtain ⟨-, rfl⟩ := Prod.mk.inj (Option.some.inj hHandle)
      rw [finish_waitsFor] at hWaits
      cases hWaits
  | awaiting flow =>
    rw [handle_awaiting] at hHandle
    obtain ⟨-, rfl⟩ := Prod.mk.inj (Option.some.inj hHandle)
    obtain ⟨hReturn, rfl⟩ := afterAwait_waitsFor hWaits
    exact .inr ⟨flow, rfl, hReturn⟩
  | waiting =>
    rw [handle_waiting] at hHandle
    obtain ⟨-, rfl⟩ := Prod.mk.inj (Option.some.inj hHandle)
    obtain ⟨hReturn, rfl⟩ := afterAwait_waitsFor hWaits
    exact .inl (if_pos hReturn)
  | approved =>
    obtain ⟨-, rfl⟩ := Prod.mk.inj (Option.some.inj hHandle)
    rw [finish_waitsFor] at hWaits
    cases hWaits
  | minting =>
    obtain ⟨-, rfl⟩ := Prod.mk.inj (Option.some.inj hHandle)
    cases hWaits
  | done => cases hHandle

end

/-! ## Whole runs -/

section

variable {cfg : Config} {bootId instanceId : String} {w : World} {s t : Sys} {a : Action}
  {h : Nat} {scope : Scope} {key : SecretName}

theorem unique_reachable (hReach : Reachable (broker cfg bootId instanceId w) s) :
    s.st.grants.Unique := by
  refine core_invariant (I := fun c => c.st.grants.Unique) .nil ?_ hReach
  intro w role c d _ hU hMicro
  cases hMicro with
  | enqueue n scope key ttl =>
    obtain ⟨_, _, hEq⟩ := enqueue_frame c.st n scope key c.clock ttl
    rw [hEq]
    exact hU
  | kill id =>
    obtain ⟨_, _, hEq⟩ := killActive_frame c.st id
    rw [hEq]
    exact hU
  | register _ _ | unregister _ _ | revoke _ _ | expire _ => exact GrantTable.filter_unique hU _
  | insert _ _ _ _ _ _ _ => exact GrantTable.insert_unique hU _
  | lock => exact .nil
  | _ => exact hU

theorem live_earlier {g : Grant} {now later : Nat} (hLe : now ≤ later)
    (hLive : g.live later) : g.live now := by
  unfold Grant.live durationSince at *
  rw [decide_eq_true_iff] at *
  omega

theorem Rotating.unreplaced (hR : Rotating cfg w s) {request : Request} {caller : Peer}
    {identity : FileIdentity} (hReceived : .received h request caller ∈ s.st.trail)
    (hNow : HumanStore.backing ⟨cfg.humanSources⟩ s.world key = some identity) :
    UnreplacedFor h key identity s.st.trail := by
  obtain ⟨newer, older, hTrail⟩ := List.mem_iff_append.mp hReceived
  refine ⟨newer, _, older, hTrail, ⟨⟨request, caller, rfl⟩, fun new hIn => ?_⟩, fun _ _ => id⟩
  refine hR.current hNow new ?_
  rw [hTrail]
  exact List.mem_append_right _ (List.mem_cons_of_mem _ hIn)

theorem Flow.From.received {flow : Flow} {trail : List Event} (hFrom : flow.From h trail)
    (hReturn : flow.returnValue) : ∃ request caller, .received h request caller ∈ trail := by
  cases hFrom with
  | get hReceived _ => exact ⟨_, _, hReceived⟩
  | request | authorize => cases hReturn

namespace UpToDate

theorem keep (hU : UpToDate h scope key s)
    (hGrants : ∀ g ∈ t.st.grants.grants, g ∈ s.st.grants.grants) (hClock : s.clock ≤ t.clock)
    (hFile : ∀ p, t.worker.file = some p → s.worker.file = some p ∧
      ∀ r ∈ t.st.queue.requests, r.state = .decrypting → r ∈ s.st.queue.requests)
    {new : List Event} (hTrail : t.st.trail = new ++ s.st.trail) : UpToDate h scope key t := by
  refine ⟨?_, ?_⟩
  · intro g hg hScope hKey hLive
    rw [hTrail]
    exact Once.append (hU.grants g (hGrants g hg) hScope hKey (live_earlier hClock hLive)) new
  · intro job identity hJob hScope hKey hCurrent
    rw [hTrail]
    obtain ⟨hSame, hQueue⟩ := hFile _ hJob
    have hBefore := Queue.stillCurrent_mono hQueue hCurrent
    exact Once.append (hU.running job identity hSame hScope hKey hBefore) new

theorem cleared {st base : State} {now later : Nat} (hUnique : st.grants.Unique)
    (hBase : Cleared st scope key now base) (hLater : now ≤ later) {g : Grant}
    (hg : g ∈ base.grants.grants) (hScope : g.scope = scope) (hKey : g.key = key) :
    ¬ g.live later := by
  intro hLive
  subst hScope hKey
  rcases hBase with ⟨rfl, hNone⟩ | rfl
  · have hNow : durationSince now g.created < g.ttl := of_decide_eq_true (live_earlier hLater hLive)
    rw [GrantTable.lookupGrant_of_mem hUnique hg hNow] at hNone
    cases hNone
  · have hNot := (List.mem_filter.mp hg).2
    simp [Grant.belongs] at hNot

theorem awaitLoop_grants (st : State) (source : String) (id deadline t t' : Nat) :
    (st.awaitLoop source id deadline t t').1.grants = st.grants := by
  rcases awaitLoop_cases st source id deadline t t' with hEq | ⟨_, hEq⟩ | ⟨_, _, hEq, rfl | rfl⟩
  · rw [hEq]
  · rw [hEq]
  · rw [hEq]
  · rw [hEq]
    obtain ⟨_, _, hFrame⟩ :=
      killActive_frame { st with queue := (st.queue.timeout id t').1 } id
    rw [hFrame]

/-- **A GET leaves `await_approval` with nothing stale in reach.** -/
theorem await {flow : Flow} {r : Readings} {reads : List ReceiptId} {st' : State} {task' : Task}
    (hInv : BrokerInv cfg s) (hUnique : s.st.grants.Unique) (hR : Rotating cfg w s)
    (hTask : s.tasks h = some (.awaiting flow scope key)) (hReturn : flow.returnValue)
    (hClock : s.clock ≤ r.t0) (hJoin : JoinsCurrent s (.handle h r reads))
    (hHandle : s.st.handle s.world h r reads (.awaiting flow scope key) = some (st', task')) :
    UpToDate h scope key { s.setTask h task' with st := st', clock := r.t3 } := by
  have hPlace := hInv.tasks h _ hTask
  have hLater : r.t0 ≤ r.t3 := (r.le01.trans r.le12).trans r.le23
  obtain ⟨request, caller, hReceived⟩ := hPlace.origin.received hReturn
  have hNow : ∀ {identity : FileIdentity}, s.st.store.identity s.world key = .ok identity →
      UnreplacedFor h key identity s.st.trail := by
    intro identity hIdentity
    rw [hInv.store] at hIdentity
    exact hR.unreplaced hReceived (HumanStore.backing_of_identity hIdentity)
  have hSection : Chain s.world .handler s.core ⟨st', s.worker.job, r.t3⟩ :=
    handle_chain hPlace hClock hHandle
  obtain ⟨new, hNew, -⟩ := hSection.trail_grows
  change st'.trail = new ++ s.st.trail at hNew
  refine ⟨?_, ?_⟩
  · intro g hg hScope hKey hLive
    change g ∈ st'.grants.grants at hg
    change g.live r.t3 = true at hLive
    rw [handle_awaiting] at hHandle
    obtain ⟨rfl, -⟩ := Prod.mk.inj (Option.some.inj hHandle)
    change UnreplacedFor h key g.origin.identity
      (s.st.awaitApproval s.world h scope key flow.forceFresh flow.access.requestedTtl r).1.trail
    rw [hNew]
    have hCase := awaitApproval_case s.st s.world h scope key flow.forceFresh
      flow.access.requestedTtl r
    generalize s.st.awaitApproval s.world h scope key flow.forceFresh flow.access.requestedTtl r =
      result at hCase hg
    cases hCase with
    | cached hFound hSame =>
      -- the grant it found is the only one
      have hAge : durationSince r.t0 g.created < g.ttl :=
        of_decide_eq_true (live_earlier hLater hLive)
      have hThis := GrantTable.lookupGrant_of_mem hUnique hg hAge
      rw [hScope, hKey, hFound] at hThis
      cases hThis
      exact Once.append (hNow hSame) new
    | refused hBase => exact absurd hLive (cleared hUnique hBase hLater hg hScope hKey)
    | queued hBase hEnqueue =>
      rename_i base stQ source id deadline
      rw [awaitLoop_grants] at hg
      obtain ⟨_, _, hFrame⟩ := enqueue_frame base h scope key r.t1 flow.access.requestedTtl
      rw [hEnqueue] at hFrame
      dsimp only at hFrame
      rw [hFrame] at hg
      exact absurd hLive (cleared hUnique hBase hLater hg hScope hKey)
  · intro job identity hFile hScope hKey hCurrent
    change UnreplacedFor h key identity st'.trail
    rw [hNew]
    have hSubset := (handle_subset hPlace hHandle).2
    have hBefore := Queue.stillCurrent_mono hSubset hCurrent
    exact Once.append (hNow (hJoin flow scope key job identity hTask hReturn hFile hScope hKey
      hBefore)) new

end UpToDate

theorem Task.Place.received {task : Task} {trail : List Event} {p : Scope × SecretName}
    (hPlace : task.Place h trail) (hWaits : task.waitsFor = some p) :
    ∃ request caller, .received h request caller ∈ trail := by
  cases task with
  | waiting | approved =>
    exact hPlace.1.origin.received (target_some hWaits).1
  | _ => cases hWaits

theorem tick_grants {now : Nat} (hWorker : s.worker = .idle) (hClock : s.clock ≤ now) :
    ∀ g ∈ (s.st.tick s.world now).1.grants.grants, g ∈ s.st.grants.grants := by
  have hChain := tick_steps hWorker hClock
  exact hChain.invariant (I := fun c => ∀ g ∈ c.st.grants.grants, g ∈ s.st.grants.grants)
    (fun c d hc hMicro g hg => hc g (hMicro.grants_subset (by decide) g hg)) fun _ hg => hg

theorem report_grants (st : State) (w : World) (job : Job)
    (result : Except ErrCode DecryptedHumanFile) (r : Readings) :
    ∀ g ∈ (st.report w job result r).grants.grants, g ∈ st.grants.grants ∨
      ∃ file, result = .ok file ∧ st.queue.stillCurrent job.id job.generation ∧
        g.scope = job.scope ∧ g.key = job.key ∧ g.origin.identity = file.identity := by
  intro g hg
  obtain ⟨_, _, hKill⟩ := killActive_frame st job.id
  cases result with
  | error =>
    unfold State.report at hg
    rw [hKill] at hg
    exact .inl hg
  | ok file =>
    have hStale : ((st.killActive job.id).denyStale w job r.t0).grants = st.grants ∧
        ∀ q ∈ ((st.killActive job.id).denyStale w job r.t0).queue.requests,
          q.state = .decrypting → q ∈ st.queue.requests := by
      rw [hKill]
      unfold State.denyStale
      split
      · exact ⟨rfl, fun q hq hState => Queue.mem_of_expel (by decide) hq hState⟩
      · exact ⟨rfl, fun q hq _ => hq⟩
    change g ∈ (((st.killActive job.id).denyStale w job r.t0).install job file r.t1 r.t2).grants.grants
      at hg
    generalize (st.killActive job.id).denyStale w job r.t0 = stale at hg hStale
    unfold State.install at hg
    split at hg
    · rename_i queue hDone
      rcases List.mem_append.mp hg with hKept | hNew
      · rw [← hStale.1]
        exact .inl (List.mem_of_mem_filter hKept)
      · rw [List.mem_singleton] at hNew
        have hCurrent : stale.queue.stillCurrent job.id job.generation := by
          unfold Queue.complete at hDone
          split at hDone
          · rename_i hCurrent
            exact hCurrent
          · cases (Prod.mk.inj hDone).2
        refine .inr ⟨file, rfl, Queue.stillCurrent_mono hStale.2 hCurrent, ?_⟩
        rw [hNew]
        exact ⟨rfl, rfl, rfl⟩
    · rw [← hStale.1]
      exact .inl hg

theorem upToDate_step (hInv : BrokerInv cfg s) (hUnique : s.st.grants.Unique)
    (hR : Rotating cfg w s) (hJoin : JoinsCurrent s a)
    (hAll : ∀ h task scope key, s.tasks h = some task → task.waitsFor = some (scope, key) →
      UpToDate h scope key s) (hMove : Sys.Move s a t) :
    ∀ h task scope key, t.tasks h = some task → task.waitsFor = some (scope, key) →
      UpToDate h scope key t := by
  obtain ⟨new, hNew⟩ := (move_steps hInv hMove).trail_grows
  change t.st.trail = new ++ s.st.trail at hNew
  have hKeep : (∀ g ∈ t.st.grants.grants, g ∈ s.st.grants.grants) → s.clock ≤ t.clock →
      (∀ p, t.worker.file = some p → s.worker.file = some p ∧
        ∀ r ∈ t.st.queue.requests, r.state = .decrypting → r ∈ s.st.queue.requests) →
      ∀ h task scope key, s.tasks h = some task → task.waitsFor = some (scope, key) →
        UpToDate h scope key t :=
    fun hGrants hClock hFile h task scope key hTask hWaits =>
      (hAll h task scope key hTask hWaits).keep hGrants hClock hFile hNew
  have hSameFile : t.worker.file = s.worker.file → t.st.queue = s.st.queue →
      ∀ p, t.worker.file = some p → s.worker.file = some p ∧
        ∀ r ∈ t.st.queue.requests, r.state = .decrypting → r ∈ s.st.queue.requests := by
    intro hFile hQueue p hp
    rw [hFile] at hp
    rw [hQueue]
    exact ⟨hp, fun r hr _ => hr⟩
  have hNoFile : t.worker.file = none → ∀ p, t.worker.file = some p → s.worker.file = some p ∧
      ∀ r ∈ t.st.queue.requests, r.state = .decrypting → r ∈ s.st.queue.requests := by
    intro hNone p hp
    rw [hNone] at hp
    cases hp
  have hAlways : ∀ g ∈ s.st.grants.grants, g ∈ s.st.grants.grants := fun _ hg => hg
  cases hMove with
  | receive hFree =>
    rename_i n request caller
    intro h task scope key hTask hWaits
    by_cases hEq : h = n
    · subst hEq
      obtain rfl : Task.received request caller = task := by simpa [Sys.setTask] using hTask
      cases hWaits
    · refine hKeep hAlways (Nat.le_refl _) (hSameFile rfl rfl) h task scope key ?_ hWaits
      simpa [Sys.setTask, Function.update_of_ne hEq] using hTask
  | handle hTask hClock hHandle =>
    rename_i n r reads task task' st'
    have hLater : s.clock ≤ r.t3 := hClock.trans ((r.le01.trans r.le12).trans r.le23)
    obtain ⟨hGrants, hQueue⟩ := handle_subset (hInv.tasks n task hTask) hHandle
    obtain ⟨ans, hAns, -⟩ := conclude_trail st' n r.t0 task'
    obtain ⟨hSameGrants, hSameQueue⟩ : (st'.conclude n r.t0 task').grants = st'.grants ∧
        (st'.conclude n r.t0 task').queue = st'.queue := by
      cases task' <;> exact ⟨rfl, rfl⟩
    have hOther := hKeep (by rw [hSameGrants]; exact hGrants) hLater
      (fun p hp => ⟨hp, by rw [hSameQueue]; exact hQueue⟩)
    intro h task'' scope key hTask'' hWaits
    by_cases hEq : h = n
    · subst hEq
      obtain rfl : task' = task'' := by simpa [Sys.setTask] using hTask''
      rcases handle_waitsFor hHandle hWaits with hWaited | ⟨flow, rfl, hReturn⟩
      · exact hOther h task scope key hTask hWaited
      · have hFresh := UpToDate.await hInv hUnique hR hTask hReturn hClock hJoin hHandle
        refine hFresh.keep ?_ (Nat.le_refl _) ?_ hAns
        · rw [hSameGrants]
          exact fun g hg => hg
        · exact fun p hp => ⟨hp, by rw [hSameQueue]; exact fun q hq _ => hq⟩
    · refine hOther h task'' scope key ?_ hWaits
      simpa [Sys.setTask, Function.update_of_ne hEq] using hTask''
  | tick hWorker hClock hTick =>
    have hGrants := tick_grants hWorker hClock
    rw [hTick] at hGrants
    exact hKeep hGrants hClock (hNoFile (congrArg Worker.file hWorker))
  | begin hWorker hClock hTick =>
    have hGrants := tick_grants hWorker hClock
    rw [hTick] at hGrants
    exact hKeep hGrants hClock (hNoFile rfl)
  | openFile hWorker hOpen =>
    rename_i file
    intro h task scope key hTask hWaits
    have hOld := hAll h task scope key hTask hWaits
    refine ⟨fun g hg hScope hKey hLive => ?_, fun job' identity hFile hScope hKey hCurrent => ?_⟩
    · exact (hOld.grants g hg hScope hKey hLive).cons id
    · -- the file that was opened is the one that is there
      cases hFile
      obtain ⟨request, caller, hReceived⟩ := (hInv.tasks h task hTask).received hWaits
      rw [hInv.store] at hOpen
      have hNow := HumanStore.backing_of_open hOpen
      rw [hKey] at hNow
      exact (hR.unreplaced hReceived hNow).cons id
  | openFailed hWorker | spawnFailed hWorker | spawnLost hWorker _ | exitedBadly hWorker
  | deadline hWorker | abandoned hWorker => exact hKeep hAlways (Nat.le_refl _) (hNoFile rfl)
  | spawn hWorker =>
    refine hKeep hAlways (Nat.le_refl _) (hSameFile ?_ rfl)
    rw [hWorker]
    rfl
  | start hWorker =>
    rename_i job file pg child
    have hSame : (s.st.onStarted job pg child).grants = s.st.grants ∧
        (s.st.onStarted job pg child).queue = s.st.queue := by
      unfold State.onStarted
      split <;> exact ⟨rfl, rfl⟩
    refine hKeep ?_ (Nat.le_refl _) (hSameFile ?_ hSame.2)
    · rw [hSame.1]
      exact hAlways
    · rw [hWorker]
      rfl
  | exited hWorker hResult =>
    refine hKeep hAlways (Nat.le_refl _) (hSameFile ?_ rfl)
    rw [hWorker]
    exact congrArg some (Prod.ext rfl (Exit.result_ok hResult).2)
  | report hWorker hClock =>
    rename_i job result r
    intro h task scope key hTask hWaits
    have hOld := hAll h task scope key hTask hWaits
    have hLater : s.clock ≤ r.t3 := hClock.trans ((r.le01.trans r.le12).trans r.le23)
    refine ⟨fun g hg hScope hKey hLive => ?_, fun _ _ hFile => by cases hFile⟩
    rw [hNew]
    rcases report_grants s.st s.world job result r g hg with
      hIn | ⟨file, rfl, hCurrent, hJobScope, hJobKey, hIdentity⟩
    · exact Once.append (hOld.grants g hIn hScope hKey (live_earlier hLater hLive)) new
    · rw [hIdentity]
      have hFile : s.worker.file = some (job, file.identity) := by
        rw [hWorker]
        rfl
      exact Once.append (hOld.running job file.identity hFile (hJobScope.symm.trans hScope)
        (hJobKey.symm.trans hKey) hCurrent) new
  | world | replace | os => exact hKeep hAlways (Nat.le_refl _) (hSameFile rfl rfl)

theorem upToDate_path
    (hPath : Path (broker cfg bootId instanceId w) (fun s a => Rotation s a ∧ JoinsCurrent s a)
      (broker cfg bootId instanceId w).init s) :
    ∀ h task scope key, s.tasks h = some task → task.waitsFor = some (scope, key) →
      UpToDate h scope key s := by
  refine Path.strengthen (I := fun s => ∀ h task scope key, s.tasks h = some task →
    task.waitsFor = some (scope, key) → UpToDate h scope key s) ?_ hPath (fun _ _ _ _ h => by cases h)
  intro x a y hx hOk hAll hStep
  exact upToDate_step (brokerInv_reachable hx.forget) (unique_reachable hx.forget)
    (rotating_path (fun _ _ h => h.1) hx) hOk.2 hAll (Sys.step_move hStep)

end

/-! ## Answers -/

/-- The bytes are the value of the grant in force for this scope and key, and
were decrypted from this file. -/
def ServedFrom (scope : Scope) (key : SecretName) (value : List UInt8) (identity : FileIdentity)
    (before : List Event) : Prop :=
  ∃ job file g, job.scope = scope ∧ job.key = key ∧ file.value = value ∧
    file.identity = identity ∧
    Since (Event.Drops scope key)
      (fun e earlier => e = .inserted job g ∧ Decrypted job file earlier) before

/-- The file had not been replaced when the handler's request came; and where
the key's file had been replaced by then, it is that replacement or a later one. -/
def NotStale (h : Nat) (key : SecretName) (identity : FileIdentity) (before : List Event) : Prop :=
  ∀ newer request caller older, before = newer ++ .received h request caller :: older →
    (∀ new, .replaced key identity new ∉ older) ∧
    ∀ mid old new oldest, older = mid ++ .replaced key old new :: oldest →
      identity = new ∨ ∃ old', .replaced key old' identity ∈ newer ++ mid

section

variable {cfg : Config} {bootId instanceId : String} {w : World} {s : Sys} {h : Nat}
  {scope : Scope} {key : SecretName}

theorem rotation_some {e : Event} {old new : FileIdentity} (he : e.rotation key = some (old, new)) :
    e = .replaced key old new := by
  cases e with
  | replaced key' old' new' =>
    change (if key' = key then some (old', new') else none) = some (old, new) at he
    split at he
    · rename_i hKey
      cases he
      rw [hKey]
    · cases he
  | _ => cases he

theorem Decrypted.opened {job : Job} {file : DecryptedHumanFile} {trail : List Event}
    (hFile : Decrypted job file trail) :
    ∃ mid source before, trail = mid ++ .opened job ⟨source, file.identity⟩ :: before := by
  obtain ⟨mid, e, before, rfl, ⟨rfl, mid', e', before', rfl, ⟨rfl, -⟩, -⟩, -⟩ := hFile
  exact ⟨mid ++ .decrypted job file :: mid', file.source, before', by simp⟩

theorem Rotating.notStale (hR : Rotating cfg w s) (hStaged : StagedTrail s.stage s.st.trail)
    {job : Job} {file : DecryptedHumanFile} {top earlier : List Event}
    (hTrail : s.st.trail = top ++ earlier) (hFile : Decrypted job file earlier)
    (hKey : job.key = key) (hUnreplaced : UnreplacedFor h key file.identity s.st.trail) :
    NotStale h key file.identity s.st.trail := by
  intro newer request caller older hSplit
  -- the request the handler received is the one
  obtain ⟨mid, e, before, hOnce, ⟨⟨request', caller', rfl⟩, hKept⟩, -⟩ := hUnreplaced
  obtain ⟨-, -, rfl⟩ := hStaged.unique (k := h) hSplit hOnce rfl rfl rfl
  refine ⟨hKept, ?_⟩
  intro mid' old new oldest hOlder
  obtain ⟨pre, source, rest, hOpened⟩ := hFile.opened
  have hThen : s.st.trail = (top ++ pre) ++ .opened job ⟨source, file.identity⟩ :: rest := by
    rw [hTrail, hOpened]
    simp
  have hRead : fileOf cfg w key rest = some file.identity := by
    rw [← hKey]
    exact hR.opened _ _ _ hThen
  have hRest : s.st.trail = (top ++ pre ++ [.opened job ⟨source, file.identity⟩]) ++ rest := by
    rw [hThen]
    simp
  have hWrite : s.st.trail =
      (newer ++ .received h request caller :: mid') ++ .replaced key old new :: oldest := by
    rw [hSplit, hOlder]
    simp
  obtain ⟨e, he, old', hBy⟩ := read_not_older (hR.fresh key) hRead hRest hWrite (if_pos rfl) (by
    intro x hx next hBad
    refine hKept next ?_
    rw [hOlder, ← rotation_some hBad]
    exact List.mem_append_right _ hx)
  obtain rfl := rotation_some hBy
  simp only [List.mem_append, List.mem_cons, reduceCtorEq, false_or, List.not_mem_nil,
    or_false] at he
  rcases he with he | he
  · exact .inr ⟨old', List.mem_append.mpr he⟩
  · exact .inl (Event.replaced.inj he).2.2

/-- **Rotated secrets are never served stale**, along every run in which files
change by rotation and no GET joins a decrypt of a file that was replaced. -/
theorem rotated_never_stale
    (hPath : Path (broker cfg bootId instanceId w) (fun s a => Rotation s a ∧ JoinsCurrent s a)
      (broker cfg bootId instanceId w).init s)
    {newer older : List Event} {time : Nat} {decision : Decision} {value : List UInt8}
    (hAnswer : s.st.trail = newer ++ .answered h decision time :: older)
    (hBytes : decision.outcome = .bytes value) :
    ∃ text tokenHex tty ttl caller scope key identity,
      .received h (.get text tokenHex tty ttl) caller ∈ older ∧ key.name = text ∧
      .resolved h scope key ∈ older ∧ ServedFrom scope key value identity older ∧
      NotStale h key identity older := by
  have hAll : Historically (fun e before => ∀ h decision time value,
      e = .answered h decision time → decision.outcome = .bytes value →
      ∃ text tokenHex tty ttl caller scope key identity,
        .received h (.get text tokenHex tty ttl) caller ∈ before ∧ key.name = text ∧
        .resolved h scope key ∈ before ∧ ServedFrom scope key value identity before ∧
        NotStale h key identity before) s.st.trail := by
    refine handler_invariant ?_ ?_ ?_ hPath
    · rintro e before - hNot n d t v rfl
      cases hNot
    · intro x n now reads cap epoch d id _ _ _ _ _ n' d' t v hEq
      cases hEq
    · intro x n r reads task st' d hx hTask hClock hHandle n' d' t v hEq hV
      obtain ⟨rfl, rfl, rfl⟩ := Event.answered.inj hEq
      have hReach : Reachable (broker cfg bootId instanceId w) x := hx.forget
      have hPlace := (brokerInv_reachable hReach).tasks n task hTask
      obtain ⟨rfl, flow, scope, key, source, rid, g, rfl, hReturn, hLookup, rfl⟩ :=
        handle_bytes hPlace hHandle hV
      obtain ⟨hMem, hScope, hKey, hAge⟩ := GrantTable.lookupGrant_some hLookup
      -- the grant it finds is one it may find
      have hUp := upToDate_path hx n _ scope key hTask (if_pos hReturn)
      have hUnreplaced := hUp.grants g hMem hScope hKey
        (live_earlier hClock (decide_eq_true hAge))
      -- and comes from a file the worker opened
      have hP := provenance_reachable hReach
      obtain ⟨mid, e, before, hTrail, ⟨job, rfl⟩, hMid⟩ := hP.held g hMem
      obtain ⟨file, hGrant, hFile, -⟩ := hP.vouched mid _ before hTrail
      have hJobScope : g.scope = job.scope := by rw [hGrant]; rfl
      have hJobKey : g.key = job.key := by rw [hGrant]; rfl
      have hValue : g.value = file.value := by rw [hGrant]; rfl
      have hIdentity : g.origin.identity = file.identity := by rw [hGrant]; rfl
      rw [hIdentity] at hUnreplaced
      obtain ⟨⟨hFrom, hResolved, hName⟩, -⟩ := hPlace
      cases hFrom with
      | get hReceived _ =>
        refine ⟨_, _, _, _, _, scope, key, file.identity, hReceived, hName, hResolved, ?_, ?_⟩
        · refine ⟨job, file, g, hJobScope.symm.trans hScope, hJobKey.symm.trans hKey,
            hValue.symm, rfl, mid, _, before, hTrail, ⟨rfl, hFile⟩, ?_⟩
          rw [← hScope, ← hKey]
          exact hMid
        · have hTop : x.st.trail = (mid ++ [.inserted job g]) ++ before := by
            rw [show x.st.trail = x.core.st.trail from rfl, hTrail]
            simp
          exact (rotating_path (fun _ _ h => h.1) hx).notStale (staged_reachable hReach) hTop hFile
            (hJobKey.symm.trans hKey) hUnreplaced
      | request | authorize => cases hReturn
  exact hAll newer _ older hAnswer h decision time value rfl hBytes

end

/-! ## The condition is needed -/

section

variable {cfg : Config} {bootId instanceId : String} {w : World} {s t : Sys} {a : Action}

def keepsFiles : Action → Bool
  | .world _ | .replace _ _ _ => false
  | _ => true

theorem keepsFiles_rotation (ha : keepsFiles a) : Rotation s a := by
  cases a with
  | world | replace => cases ha
  | _ => trivial

theorem keepsFiles_world
    (hPath : Path (broker cfg bootId instanceId w) (fun _ a => keepsFiles a = true) s t) :
    t.world = s.world := by
  refine Path.invariant (I := fun x => x.world = s.world) ?_ hPath rfl
  intro x a y hx ha hStep
  rw [← hx]
  cases Sys.step_move hStep with
  | world | replace => cases ha
  | _ => rfl

theorem fileWorld_rotation {inode inode' : Nat} (hStore : s.st.store = ⟨[⟨"host", "/d"⟩]⟩)
    (hWorld : s.world = fileWorld "A.env" inode) (hNe : inode ≠ inode')
    (hNone : ∀ key old new, .replaced key old new ∉ s.st.trail) :
    Rotation s (.replace "/d" "A.env" ⟨0, inode', 0, ⟨0, 0⟩, ⟨0, 0⟩⟩) := by
  refine ⟨⟨?_, fun key old new hIn => absurd hIn (hNone key old new)⟩, ?_⟩
  · intro dir fileName
    rw [hWorld]
    by_cases hName : fileName = "A.env"
    · simp [HumanStore.nodeAt, fileWorld, hName, hNe]
    · have hOther : ¬ "A.env" = fileName := fun h => hName h.symm
      simp [HumanStore.nodeAt, fileWorld, hOther]
  · intro key isLocal hParse
    have hA : parseHumanFileName "A.env" = .key ⟨"A", by decide +kernel⟩ false := by decide +kernel
    rw [hA] at hParse
    obtain ⟨rfl, -⟩ := HumanFileName.key.inj hParse
    refine ⟨"host", ?_⟩
    rw [hStore, hWorld]
    simp only [HumanStore.candidates, HumanStore.sourceCandidates, fileWorld,
      HumanStore.entryCandidates, hA]
    rfl

theorem split_of_sublist {e e' : Event} {trail : List Event} (h : [e, e'].Sublist trail) :
    ∃ newer older, trail = newer ++ e :: older ∧ e' ∈ older := by
  obtain ⟨front, back, rfl, hFront, hBack⟩ := List.cons_sublist_iff.mp h
  obtain ⟨newer, mid, rfl⟩ := List.mem_iff_append.mp hFront
  refine ⟨newer, mid ++ back, by simp, List.mem_append_right _ ?_⟩
  exact List.singleton_sublist.mp hBack

end

/-- Files stay, and no handler takes a turn while the worker has one open. -/
def handlesIdle (s : Sys) (a : Action) : Bool :=
  keepsFiles a && match a with
    | .handle _ _ _ => s.worker.file.isNone
    | _ => true

theorem rotated_never_stale_after_rotation :
    ∃ (s : Sys) (decision : Decision) (request : Request) (caller : Peer) (scope : Scope)
      (key : SecretName) (old new identity : FileIdentity) (older : List Event),
      Path (broker (Config.default [⟨"host", "/d"⟩]) "boot" "id" (fileWorld "A.env" 1))
        (fun s a => Rotation s a ∧ JoinsCurrent s a)
        (broker (Config.default [⟨"host", "/d"⟩]) "boot" "id" (fileWorld "A.env" 1)).init s ∧
      s.st.trail = .answered 0 decision 0 :: older ∧ decision.outcome = .bytes [115] ∧
      [.received 0 request caller, .replaced key old new].Sublist older ∧
      ServedFrom scope key [115] identity older ∧ NotStale 0 key identity older := by
  let sys := broker (Config.default [⟨"host", "/d"⟩]) "boot" "id" (fileWorld "A.env" 1)
  let keyA : SecretName := ⟨"A", by decide +kernel⟩
  let file (inode : Nat) : FileIdentity := ⟨0, inode, 0, ⟨0, 0⟩, ⟨0, 0⟩⟩
  let get : Request := .get "A" none (some "/dev/pts/1") none
  let turn : Action := .handle 0 (.at 0) []
  let actions : List Action :=
    [.receive 0 get ⟨1⟩, turn, turn, turn, .tick 0, .openFile true, .spawn (some 7), .start,
     .poll (.exited ⟨true, some [], some [65, 61, 115, 10]⟩), .report (.at 0), turn, turn]
  have hReplay : ((sys.init.step (.replace "/d" "A.env" (file 2))).bind fun s' =>
      ((sys.guard handlesIdle).run s' actions).map fun s =>
        lastAnswer 0 (fun decision older => decide (decision.outcome = .bytes [115]) &&
          [.received 0 get ⟨1⟩, .replaced keyA (file 1) (file 2)].isSublist older) s.st.trail) =
      some true := by
    decide +kernel
  simp only [Option.bind_eq_some_iff, Option.map_eq_some_iff] at hReplay
  obtain ⟨s', hStep, s, hRun, hSeen⟩ := hReplay
  have hCheck : ∀ s a, handlesIdle s a → Rotation s a ∧ JoinsCurrent s a := by
    intro x a ha
    unfold handlesIdle at ha
    rw [Bool.and_eq_true] at ha
    refine ⟨keepsFiles_rotation ha.1, ?_⟩
    cases a with
    | handle =>
      intro flow scope key job identity _ _ hFile
      have hNone := ha.2
      rw [hFile] at hNone
      cases hNone
    | _ => trivial
  have hFirst : Path sys (fun s a => Rotation s a ∧ JoinsCurrent s a) sys.init s' :=
    .single ⟨fileWorld_rotation rfl rfl (by decide) (fun _ _ _ hIn => by cases hIn), trivial⟩ hStep
  have hPath := hFirst.trans ((Path.of_run hRun).unguard hCheck)
  obtain ⟨decision, older, hTrail, hSeen⟩ := of_lastAnswer hSeen
  rw [Bool.and_eq_true, decide_eq_true_eq, List.isSublist_iff_sublist] at hSeen
  obtain ⟨hBytes, hOrder⟩ := hSeen
  have hNewest : s.st.trail = [] ++ .answered 0 decision 0 :: older := hTrail
  obtain ⟨text, _, _, _, _, scope, key, identity, hReceived, hName, -, hServed, hNot⟩ :=
    rotated_never_stale hPath hNewest hBytes
  -- the one request the handler received names the key
  have hStaged : StagedTrail s.stage s.st.trail := staged_reachable hPath.forget
  have hGet : .received 0 get ⟨1⟩ ∈ older := hOrder.subset (by simp)
  rw [hTrail] at hStaged
  have hEq := hStaged.unique_mem (k := 0) (List.mem_cons_of_mem _ hReceived)
    (List.mem_cons_of_mem _ hGet) rfl rfl rfl
  obtain ⟨rfl, -⟩ := Request.get.inj (Event.received.inj hEq).2.1
  obtain rfl : key = keyA := by
    cases key
    cases hName
    rfl
  exact ⟨s, decision, get, ⟨1⟩, scope, keyA, file 1, file 2, identity, older, hPath, hTrail,
    hBytes, hOrder, hServed, hNot⟩

def Event.replacesNothing : Event → Bool
  | .replaced _ _ _ => false
  | _ => true

def Event.decryptsOnly (key : SecretName) (file : FileIdentity) : Event → Bool
  | .decrypted job source => decide (source.identity = file ∧ job.key = key)
  | _ => true

/-- A decrypt has opened the file when the file is replaced. A GET that is
received after that joins the request and is answered with the old bytes. -/
theorem joined_decrypt_stale :
    ∃ (s : Sys) (decision : Decision) (request : Request) (caller : Peer) (key : SecretName)
      (old new : FileIdentity) (older : List Event),
      Path (broker (Config.default [⟨"host", "/d"⟩]) "boot" "id" (fileWorld "A.env" 1)) Rotation
        (broker (Config.default [⟨"host", "/d"⟩]) "boot" "id" (fileWorld "A.env" 1)).init s ∧
      s.st.trail = .answered 1 decision 0 :: older ∧ decision.outcome = .bytes [115] ∧
      [.received 1 request caller, .replaced key old new].Sublist older ∧
      ¬ ∃ scope key identity, ServedFrom scope key [115] identity older ∧
        NotStale 1 key identity older := by
  let sys := broker (Config.default [⟨"host", "/d"⟩]) "boot" "id" (fileWorld "A.env" 1)
  let keyA : SecretName := ⟨"A", by decide +kernel⟩
  let file (inode : Nat) : FileIdentity := ⟨0, inode, 0, ⟨0, 0⟩, ⟨0, 0⟩⟩
  let get : Request := .get "A" none (some "/dev/pts/1") none
  let turn (h : Nat) : Action := .handle h (.at 0) []
  let before : List Action :=
    [.receive 0 get ⟨1⟩, turn 0, turn 0, turn 0, .tick 0, .openFile true]
  let after : List Action :=
    [.receive 1 get ⟨1⟩, turn 1, turn 1, turn 1, .spawn (some 7), .start,
     .poll (.exited ⟨true, some [], some [65, 61, 115, 10]⟩), .report (.at 0), turn 1, turn 1]
  let replay := (sys.guard fun _ a => keepsFiles a).run
  have hReplay : ((replay sys.init before).bind fun s =>
      (s.step (.replace "/d" "A.env" (file 2))).bind fun s' => (replay s' after).map fun t =>
        s.st.trail.all Event.replacesNothing && lastAnswer 1 (fun decision older =>
          decide (decision.outcome = .bytes [115]) &&
            [.received 1 get ⟨1⟩, .replaced keyA (file 1) (file 2)].isSublist older &&
            older.all (Event.decryptsOnly keyA (file 1))) t.st.trail) = some true := by
    decide +kernel
  simp only [Option.bind_eq_some_iff, Option.map_eq_some_iff] at hReplay
  obtain ⟨s, hBefore, s', hStep, t, hAfter, hSeen⟩ := hReplay
  rw [Bool.and_eq_true, List.all_eq_true] at hSeen
  obtain ⟨hNone, hSeen⟩ := hSeen
  have hQuiet : Path sys (fun _ a => keepsFiles a = true) sys.init s :=
    (Path.of_run hBefore).unguard fun _ _ h => h
  have hRotation : Rotation s (.replace "/d" "A.env" (file 2)) := by
    refine fileWorld_rotation (brokerInv_reachable hQuiet.forget).store (keepsFiles_world hQuiet)
      (by decide) ?_
    intro key old new hIn
    cases hNone _ hIn
  have hFirst : Path sys Rotation sys.init s := hQuiet.mono fun _ _ => keepsFiles_rotation
  have hLast : Path sys Rotation s' t := (Path.of_run hAfter).unguard fun _ _ => keepsFiles_rotation
  have hPath := (hFirst.trans (.single hRotation hStep)).trans hLast
  obtain ⟨decision, older, hTrail, hSeen⟩ := of_lastAnswer hSeen
  rw [Bool.and_eq_true, Bool.and_eq_true, decide_eq_true_eq, List.isSublist_iff_sublist,
    List.all_eq_true] at hSeen
  obtain ⟨⟨hBytes, hOrder⟩, hOnly⟩ := hSeen
  refine ⟨t, decision, get, ⟨1⟩, keyA, file 1, file 2, older, hPath, hTrail, hBytes, hOrder, ?_⟩
  rintro ⟨scope, key, identity, ⟨job, opened, g, -, hKey, -, hIdentity, hServed⟩, hNot⟩
  -- everything that was decrypted was decrypted from the first file
  obtain ⟨mid, e, earlier, hOlder, ⟨rfl, hDecrypted⟩, -⟩ := hServed
  have hIn : .decrypted job opened ∈ older := by
    rw [hOlder]
    exact List.mem_append_right _ (List.mem_cons_of_mem _ hDecrypted.decrypted)
  obtain ⟨hFile, hJobKey⟩ := of_decide_eq_true (hOnly _ hIn)
  obtain ⟨newer, past, hSplit, hReplaced⟩ := split_of_sublist hOrder
  refine (hNot newer _ _ past hSplit).1 (file 2) ?_
  rw [← hIdentity, hFile, ← hKey, hJobKey]
  exact hReplaced

end Forward.Secrets

import Forward.Secrets.Sections

/-!
# Every run of the broker is a run of its primitive operations

The places where a handler or the worker waits without the lock remember what they did before.
`Place` says what each may rely on; all of it is about the history, so nothing another thread does
can make it false.
-/

namespace Forward.Secrets

open Lib

abbrev Steps (w : World) : Core → Core → Prop :=
  Relation.ReflTransGen fun c d => ∃ role, Micro w role c d

variable {w : World} {c d : Core}

theorem Chain.steps {role : Role} (h : Chain w role c d) :
    Steps w c d :=
  Relation.ReflTransGen.mono (fun _ _ hMicro => ⟨role, hMicro⟩) _ _ h

theorem Steps.invariant {I : Core → Prop}
    (hMicro : ∀ role c d, I c → Micro w role c d → I d) (h : Steps w c d) (hc : I c) : I d := by
  induction h with
  | refl => exact hc
  | tail _ hLast ih =>
    obtain ⟨role, hLast⟩ := hLast
    exact hMicro role _ _ ih hLast

/-! ## The queue of the broker is a run of the queue -/

def Job.ticket (job : Job) : Nat × Nat := (job.id, job.generation)

/-- The queue was reached by its own operations, with this job in hand. -/
def QueueRun (limits : QueueLimits) (c : Core) : Prop :=
  ∃ time ≤ c.clock,
    Reachable (queueSystem limits) ⟨c.st.queue, time, c.job.map Job.ticket⟩

namespace QueueRun

variable {limits : QueueLimits} {w : World} {role : Role} {c d : Core}

theorem inv (h : QueueRun limits c) :
    Flight c.st.queue (c.job.map Job.ticket) ∧ WellTimed c.st.queue c.clock ∧
      c.st.queue.limits = limits := by
  obtain ⟨time, hTime, hReach⟩ := h
  have hInv := queueInv_reachable hReach
  exact ⟨hInv.flight, hInv.timed.of_column hTime rfl (.inl rfl), hInv.limits_eq⟩

-- an operation of the queue at the current reading
theorem op (h : QueueRun limits c) (op : QueueOp) {queue : Queue} {job : Option (Nat × Nat)}
    (hOp : ∀ time ≤ c.clock,
      QueueSys.step ⟨c.st.queue, time, c.job.map Job.ticket⟩ (c.clock, op) =
        some ⟨queue, c.clock, job⟩)
    (hQueue : d.st.queue = queue) (hJob : d.job.map Job.ticket = job) (hClock : c.clock ≤ d.clock) :
    QueueRun limits d := by
  obtain ⟨time, hTime, hReach⟩ := h
  refine ⟨c.clock, hClock, ?_⟩
  rw [hQueue, hJob]
  exact hReach.step (hOp time hTime)

theorem same (h : QueueRun limits c) (hQueue : d.st.queue = c.st.queue) (hJob : d.job = c.job)
    (hClock : c.clock ≤ d.clock) : QueueRun limits d := by
  obtain ⟨time, hTime, hReach⟩ := h
  refine ⟨time, by omega, ?_⟩
  rw [hQueue, hJob]
  exact hReach

/-- **Every primitive operation of the broker is at most one of the queue.** -/
theorem micro (h : QueueRun limits c) (hMicro : Micro w role c d) : QueueRun limits d := by
  have hReady : ∀ time ≤ c.clock, ¬ c.clock < time := fun time hTime => by omega
  cases hMicro with
  | wait hNow => exact h.same rfl rfl hNow
  | enqueue n scope key ttl =>
    refine h.op (.enqueue scope key ttl) ?_ (enqueue_queue ..) rfl (Nat.le_refl _)
    intro time hTime
    simp [QueueSys.step, hReady time hTime]
  | expel id hState =>
    rcases hState with rfl | rfl
    · refine h.op (.timeout id) ?_ rfl rfl (Nat.le_refl _)
      intro time hTime
      simp [QueueSys.step, hReady time hTime, Queue.timeout]
    · refine h.op (.deny id) ?_ rfl rfl (Nat.le_refl _)
      intro time hTime
      simp [QueueSys.step, hReady time hTime, Queue.deny]
  | sweepTimeouts =>
    refine h.op .sweepTimeouts ?_ rfl rfl (Nat.le_refl _)
    intro time hTime
    simp [QueueSys.step, hReady time hTime]
  | prune =>
    refine h.op .prune ?_ rfl rfl (Nat.le_refl _)
    intro time hTime
    simp [QueueSys.step, hReady time hTime]
  | kill id => exact h.same (killActive_queue id) rfl (Nat.le_refl _)
  | start _ hJob hNext hMark _ =>
    refine h.op .start ?_ rfl rfl (Nat.le_refl _)
    intro time hTime
    simp [QueueSys.step, hReady time hTime, hJob, QueueSys.start, hNext, hMark, Job.ticket,
      State.emit]
  | complete _ hJob _ =>
    refine h.op .complete ?_ rfl rfl (Nat.le_refl _)
    intro time hTime
    simp [QueueSys.step, hReady time hTime, hJob, Job.ticket]
  | insert _ hJob _ _ _ hNow _ =>
    refine h.op .complete ?_ rfl rfl hNow
    intro time hTime
    simp [QueueSys.step, hReady time hTime, hJob, Job.ticket, State.emit]
  | fail _ hJob _ =>
    refine h.op .fail ?_ rfl rfl (Nat.le_refl _)
    intro time hTime
    simp [QueueSys.step, hReady time hTime, hJob, Job.ticket, State.emit]
  | _ => exact h.same rfl rfl (Nat.le_refl _)

end QueueRun

/-! ## What the approval sections do -/

/-- The table as `await_approval` leaves it before it enqueues: no live grant
was there, or what was there is revoked. -/
def Cleared (st : State) (scope : Scope) (key : SecretName) (now : Nat) (base : State) : Prop :=
  (base = st ∧ st.grants.lookupGrant scope key now = none) ∨ base = st.revoke scope key

/-- The ways through `await_approval` up to its first sleep. -/
inductive AwaitCase (st : State) (w : World) (h : Nat) (scope : Scope) (key : SecretName)
    (forceFresh : Bool) (ttl : Option Nat) (r : Readings) : State × Await → Prop
  | cached {g : Grant} (hLive : st.grants.lookupGrant scope key r.t0 = some g)
      (hSame : st.store.identity w key = .ok g.origin.identity) (hFresh : forceFresh = false) :
      AwaitCase st w h scope key forceFresh ttl r
        (st, .settled (.granted (some g.origin.source) none))
  | refused {base : State} {e : ErrCode} (hBase : Cleared st scope key r.t0 base) :
      AwaitCase st w h scope key forceFresh ttl r (base, .settled (.refused e))
  | queued {base st' : State} {source : String} {id deadline : Nat}
      (hBase : Cleared st scope key r.t0 base)
      (hEnqueue : base.enqueue h scope key r.t1 ttl = (st', .ok id)) :
      AwaitCase st w h scope key forceFresh ttl r (st'.awaitLoop source id deadline r.t2 r.t3)

variable {st : State} {scope : Scope} {key : SecretName}

theorem awaitRequest_case {base : State} {h : Nat}
    {forceFresh : Bool} {ttl : Option Nat} {r : Readings}
    (hBase : Cleared st scope key r.t0 base) :
    AwaitCase st w h scope key forceFresh ttl r (base.awaitRequest w h scope key ttl r) := by
  unfold State.awaitRequest
  split
  · exact .refused hBase
  · split
    · exact .refused hBase
    · split
      · rename_i st' e hEq
        -- a refused enqueue changes nothing
        have hSame : st' = base := by
          rcases enqueue_spec base h scope key r.t1 ttl with ⟨_, hSpec⟩ | ⟨_, _, _, _, _, hSpec⟩ | ⟨_, _, hSpec⟩
          · rw [hSpec] at hEq
            exact (Prod.mk.inj hEq).1.symm
          · rw [hSpec] at hEq
            cases (Prod.mk.inj hEq).2
          · rw [hSpec] at hEq
            cases (Prod.mk.inj hEq).2
        rw [hSame]
        exact .refused hBase
      · rename_i hEq
        exact .queued hBase hEq

theorem awaitApproval_case (st : State) (w : World) (h : Nat) (scope : Scope) (key : SecretName)
    (forceFresh : Bool) (ttl : Option Nat) (r : Readings) :
    AwaitCase st w h scope key forceFresh ttl r
      (st.awaitApproval w h scope key forceFresh ttl r) := by
  unfold State.awaitApproval GrantTable.lookup
  cases hLookup : st.grants.lookupGrant scope key r.t0 with
  | none => exact awaitRequest_case (.inl ⟨rfl, hLookup⟩)
  | some =>
    dsimp only [Option.map_some]
    split
    · rename_i hSame
      split
      · exact awaitRequest_case (.inr rfl)
      · rename_i hFresh
        exact .cached hLookup hSame (by simpa using hFresh)
    · exact awaitRequest_case (.inr rfl)

variable {st' : State}

theorem resolveAccess_ok {h : Nat} {access : Access} {caller : Peer}
    (hEq : st.resolveAccess w h access caller = (st', .ok (scope, key))) :
    st'.trail = .resolved h scope key :: st.trail ∧ key.name = access.key := by
  unfold State.resolveAccess at hEq
  split at hEq
  · cases (Prod.mk.inj hEq).2
  · rename_i hKey
    split at hEq
    · cases (Prod.mk.inj hEq).2
    · dsimp only at hEq
      split at hEq
      · cases (Prod.mk.inj hEq).2
      · obtain ⟨rfl, hOk⟩ := Prod.mk.inj hEq
        obtain ⟨rfl, rfl⟩ := Prod.mk.inj (Except.ok.inj hOk)
        exact ⟨rfl, SecretName.parse_ok hKey⟩

theorem resolveAccess_error {h : Nat} {access : Access}
    {caller : Peer} {e : ErrCode}
    (hEq : st.resolveAccess w h access caller = (st', .error e)) : st'.trail = st.trail := by
  unfold State.resolveAccess at hEq
  split at hEq
  · rw [← (Prod.mk.inj hEq).1]
  · split at hEq
    · rw [← (Prod.mk.inj hEq).1]
    · dsimp only at hEq
      split at hEq
      · rw [← (Prod.mk.inj hEq).1]
      · cases (Prod.mk.inj hEq).2

theorem awaitLoop_cases (st : State) (source : String) (id deadline t t' : Nat) :
    st.awaitLoop source id deadline t t' = (st, .wait source id deadline) ∨
    (st.queue.stateOf id = some .granted ∧
      st.awaitLoop source id deadline t t' =
        (st, .settled (.granted (some source) (some id)))) ∨
    ∃ st' e, st.awaitLoop source id deadline t t' = (st', .settled (.incomplete e id)) ∧
      (st' = st ∨ st' = { st with queue := (st.queue.timeout id t').1 }.killActive id) := by
  unfold State.awaitLoop
  split
  case h_1 hState => exact .inr (.inl ⟨hState, rfl⟩)
  case h_5 | h_6 =>
    split
    · exact .inr (.inr ⟨_, _, rfl, .inr rfl⟩)
    · exact .inl rfl
  all_goals exact .inr (.inr ⟨_, _, rfl, .inl rfl⟩)

/-! ## What a place remembers -/

/-- A flow belongs to the request its handler received; AUTHORIZE has read the
epoch before it. -/
inductive Flow.From (h : Nat) (trail : List Event) : Flow → Prop
  | get {key : String} {tokenHex tty : Option String} {ttl : Option Nat} {caller : Peer}
      (hReceived : .received h (.get key tokenHex tty ttl) caller ∈ trail)
      (hKey : startsWith key capabilityKeyPrefix = false) :
      Flow.From h trail ⟨⟨key, tokenHex, tty, ttl⟩, true, false, caller, none⟩
  | request {key : String} {tokenHex tty : Option String} {ttl : Option Nat} {caller : Peer}
      (hReceived : .received h (.requestGrant key tokenHex tty ttl) caller ∈ trail)
      (hKey : startsWith key capabilityKeyPrefix = false) :
      Flow.From h trail ⟨⟨key, tokenHex, tty, ttl⟩, false, false, caller, none⟩
  | authorize {cap : Capability} {epoch : Nat} {tokenHex tty : Option String} {caller : Peer}
      (hBegan : .began h cap epoch ∈ trail) :
      Flow.From h trail
        ⟨⟨cap.keyName, tokenHex, tty, none⟩, false, true, caller, some (cap, epoch)⟩

structure Resolved (h : Nat) (flow : Flow) (scope : Scope) (key : SecretName)
    (trail : List Event) : Prop where
  origin : flow.From h trail
  resolved : .resolved h scope key ∈ trail
  name : key.name = flow.access.key

/-- A resolved flow that added the request `id`, or joined an active one. -/
def Queued (h id : Nat) (flow : Flow) (scope : Scope) (key : SecretName) (trail : List Event) :
    Prop :=
  Once
    (fun e before => Resolved h flow scope key before ∧
      ((∃ r : PendingRequest, e = .enqueued h r ∧ r.id = id ∧ r.scope = scope ∧ r.key = key) ∨
        (e = .joined h id ∧ key.isCapability = false)))
    trail

def Task.Place (h : Nat) (trail : List Event) : Task → Prop
  | .received request caller => .received h request caller ∈ trail
  | .resolving flow => flow.From h trail
  | .awaiting flow scope key => Resolved h flow scope key trail
  | .waiting flow scope key _ id _ =>
    Resolved h flow scope key trail ∧ Queued h id flow scope key trail
  | .approved flow scope key _ requestId =>
    Resolved h flow scope key trail ∧ ∀ id ∈ requestId, Queued h id flow scope key trail
  | .minting cap epochBefore decision =>
    .began h cap epochBefore ∈ trail ∧ (∀ value, decision.outcome ≠ .bytes value) ∧
      ∀ id ∈ decision.requestId, ∃ flow scope key,
        flow.authorizing = some (cap, epochBefore) ∧ Queued h id flow scope key trail
  | .done _ => True

def Worker.Place (trail : List Event) : Worker → Prop
  | .idle => True
  | .opening job => InHand job trail
  | .spawning job file => Opened job file trail
  | .starting job file _ _ => Opened job file trail
  | .polling job file _ _ => Opened job file trail
  | .reporting job (.ok file) => Decrypted job file trail
  | .reporting _ (.error _) => True

section

variable {h id : Nat} {flow : Flow} {scope : Scope} {key : SecretName} {trail trail' : List Event}

theorem Flow.From.mono (hFrom : flow.From h trail) (hSub : trail ⊆ trail') :
    flow.From h trail' := by
  cases hFrom with
  | get hReceived hKey => exact .get (hSub hReceived) hKey
  | request hReceived hKey => exact .request (hSub hReceived) hKey
  | authorize hBegan => exact .authorize (hSub hBegan)

theorem Resolved.mono (hRes : Resolved h flow scope key trail) (hSub : trail ⊆ trail') :
    Resolved h flow scope key trail' :=
  ⟨hRes.origin.mono hSub, hSub hRes.resolved, hRes.name⟩

theorem Task.Place.grow {task : Task} (hPlace : task.Place h trail) (new : List Event) :
    task.Place h (new ++ trail) := by
  have hSub : trail ⊆ new ++ trail := List.subset_append_right _ _
  cases task with
  | received => exact hSub hPlace
  | resolving => exact Flow.From.mono hPlace hSub
  | awaiting => exact Resolved.mono hPlace hSub
  | waiting =>
    exact ⟨hPlace.1.mono hSub, Once.append hPlace.2 new⟩
  | approved =>
    exact ⟨hPlace.1.mono hSub, fun id hid => Once.append (hPlace.2 id hid) new⟩
  | minting =>
    refine ⟨hSub hPlace.1, hPlace.2.1, fun id hid => ?_⟩
    obtain ⟨flow, scope, key, hAuth, hQueued⟩ := hPlace.2.2 id hid
    exact ⟨flow, scope, key, hAuth, Once.append hQueued new⟩
  | done => trivial

theorem Worker.Place.grow {worker : Worker} (hPlace : worker.Place trail) {new : List Event}
    (hNew : ∀ e ∈ new, ¬ e.IsStart) : worker.Place (new ++ trail) := by
  cases worker with
  | idle => trivial
  | opening | spawning | starting | polling => exact Since.append hPlace hNew
  | reporting job result =>
    cases result with
    | ok => exact Since.append hPlace hNew
    | error => trivial

end

/-! ## A handler's section -/

section

variable {w : World} {st st' : State} {h clock : Nat} {job : Option Job} {r : Readings}
  {reads : List ReceiptId} {task task' : Task}

theorem handle_awaiting (flow : Flow) (scope : Scope) (key : SecretName) :
    st.handle w h r reads (.awaiting flow scope key) =
      some ((st.awaitApproval w h scope key flow.forceFresh flow.access.requestedTtl r).1,
        flow.afterAwait scope key
          (st.awaitApproval w h scope key flow.forceFresh flow.access.requestedTtl r).2) := rfl

theorem handle_waiting (flow : Flow) (scope : Scope) (key : SecretName) (source : String)
    (id deadline : Nat) :
    st.handle w h r reads (.waiting flow scope key source id deadline) =
      some ((st.awaitLoop source id deadline r.t0 r.t1).1,
        flow.afterAwait scope key (st.awaitLoop source id deadline r.t0 r.t1).2) := rfl

/-- Only REGISTER and UNREGISTER change who is registered. -/
def Request.role : Request → Role
  | .register _ _ | .unregister _ => .control
  | _ => .handler

def Task.role : Task → Role
  | .received request _ => request.role
  | .minting .. => .mint
  | _ => .handler

theorem Task.role_ne (task : Task) :
    task.role ≠ .worker ∧ task.role ≠ .report ∧ task.role ≠ .reply ∧ task.role ≠ .outside := by
  cases task with
  | received request => cases request <;> simp [Task.role, Request.role]
  | _ => simp [Task.role]

theorem dispatch_chain (caller : Peer) {now : Nat} (hNow : clock ≤ now) (request : Request) :
    Chain w request.role ⟨st, job, clock⟩ ⟨(st.dispatch h caller now request).1, job, now⟩ := by
  have hWait : ∀ {role : Role} (st : State), Chain w role ⟨st, job, clock⟩ ⟨st, job, now⟩ :=
    fun st => .single (.wait hNow)
  cases request with
  | hello | get | requestGrant =>
    simp only [State.dispatch]
    split <;> exact hWait st
  | register tokenHex session => exact (register_chain tokenHex session caller).trans (hWait _)
  | unregister session => exact (Relation.ReflTransGen.single (.unregister rfl session)).trans (hWait _)
  | authorize cap =>
    simp only [State.dispatch]
    split
    · exact hWait st
    · rename_i cap _
      exact (Relation.ReflTransGen.single (.began h cap)).trans (hWait _)
  | redeem receiptHex cap => exact redeem_chain h receiptHex cap hNow
  | grants | subscribe => exact hWait st
  | deny id => exact deny_chain id hNow
  | lock => exact lock_chain hNow

theorem handle_chain (hPlace : task.Place h st.trail) (hr : clock ≤ r.t0)
    (hHandle : st.handle w h r reads task = some (st', task')) :
    Chain w task.role ⟨st, job, clock⟩ ⟨st', job, r.t3⟩ := by
  have h03 : r.t0 ≤ r.t3 := by
    have := r.le01
    have := r.le12
    have := r.le23
    omega
  have hEnd : ∀ {role : Role} (st : State), Chain w role ⟨st, job, r.t0⟩ ⟨st, job, r.t3⟩ :=
    fun st => .single (.wait h03)
  cases task with
  | received request caller =>
    simp only [State.handle, Option.some.injEq] at hHandle
    have hDispatch : Chain w request.role ⟨st, job, clock⟩
        ⟨(st.dispatch h caller r.t0 request).1, job, r.t0⟩ := dispatch_chain caller hr request
    rw [hHandle] at hDispatch
    exact hDispatch.trans (hEnd st')
  | resolving flow =>
    have hResolve : Chain w .handler ⟨st, job, clock⟩
        ⟨(st.resolveAccess w h flow.access flow.caller).1, job, clock⟩ :=
      resolveAccess_chain h flow.access flow.caller
    simp only [State.handle] at hHandle
    split at hHandle
    · rename_i hEq
      obtain ⟨rfl, -⟩ := Prod.mk.inj (Option.some.inj hHandle)
      rw [hEq] at hResolve
      exact (hResolve.tail (.wait hr)).trans (hEnd _)
    · rename_i hEq
      obtain ⟨rfl, -⟩ := Prod.mk.inj (Option.some.inj hHandle)
      rw [hEq] at hResolve
      exact (hResolve.tail (.wait hr)).trans (hEnd _)
  | awaiting flow scope key =>
    rw [handle_awaiting] at hHandle
    obtain ⟨rfl, -⟩ := Prod.mk.inj (Option.some.inj hHandle)
    exact awaitApproval_chain h scope key _ _ r hr
  | waiting flow scope key source id deadline =>
    rw [handle_waiting] at hHandle
    obtain ⟨rfl, -⟩ := Prod.mk.inj (Option.some.inj hHandle)
    have h13 : r.t1 ≤ r.t3 := by
      have := r.le12
      have := r.le23
      omega
    exact (awaitLoop_chain source id deadline hr r.le01).tail (.wait h13)
  | approved =>
    obtain ⟨rfl, -⟩ := Prod.mk.inj (Option.some.inj hHandle)
    exact (Relation.ReflTransGen.single (.wait hr)).trans (hEnd _)
  | minting cap epochBefore decision =>
    obtain ⟨rfl, -⟩ := Prod.mk.inj (Option.some.inj hHandle)
    exact (finishAuthorization_chain hPlace.1 decision hr reads).trans (hEnd _)
  | done => cases hHandle

variable {flow : Flow}

theorem finish_place {decision : Decision} {trail : List Event}
    (hFrom : flow.From h trail)
    (hValue : flow.returnValue = false → ∀ value, decision.outcome ≠ .bytes value)
    (hQueued : ∀ id ∈ decision.requestId, ∃ scope key, Queued h id flow scope key trail) :
    (flow.finish decision).Place h trail := by
  cases hFrom with
  | get | request => trivial
  | authorize hBegan =>
    refine ⟨hBegan, hValue rfl, fun id hid => ?_⟩
    obtain ⟨scope, key, hQ⟩ := hQueued id hid
    exact ⟨_, scope, key, rfl, hQ⟩

theorem afterAwait_place {trail : List Event}
    {await : Await} (hRes : Resolved h flow scope key trail)
    (hQueued : ∀ id, (∃ source deadline, await = .wait source id deadline) ∨
      (∃ source, await = .settled (.granted source (some id))) ∨
      (∃ e, await = .settled (.incomplete e id)) → Queued h id flow scope key trail) :
    (flow.afterAwait scope key await).Place h trail := by
  cases await with
  | wait source id => exact ⟨hRes, hQueued id (.inl ⟨_, _, rfl⟩)⟩
  | settled approval =>
    cases approval with
    | granted =>
      refine ⟨hRes, fun id hid => ?_⟩
      rw [Option.mem_def] at hid
      subst hid
      exact hQueued id (.inr (.inl ⟨_, rfl⟩))
    | refused => exact finish_place hRes.origin (fun _ _ => nofun) nofun
    | incomplete e id =>
      refine finish_place hRes.origin (fun _ _ => nofun) fun id' hid => ?_
      obtain rfl : id = id' := by simpa using hid
      exact ⟨scope, key, hQueued id (.inr (.inr ⟨e, rfl⟩))⟩

theorem awaitLoop_id {source : String} {id id' deadline t t' : Nat}
    (hId : (∃ source' deadline', (st.awaitLoop source id deadline t t').2 =
        .wait source' id' deadline') ∨
      (∃ source', (st.awaitLoop source id deadline t t').2 =
        .settled (.granted source' (some id'))) ∨
      (∃ e, (st.awaitLoop source id deadline t t').2 = .settled (.incomplete e id'))) :
    id' = id := by
  rcases awaitLoop_cases st source id deadline t t' with hEq | ⟨_, hEq⟩ | ⟨_, _, hEq, _⟩ <;>
    rw [hEq] at hId <;> simpa [eq_comm] using hId

theorem awaitLoop_trail (st : State) (source : String) (id deadline t t' : Nat) :
    ∃ new, (st.awaitLoop source id deadline t t').1.trail = new ++ st.trail ∧
      ∀ e ∈ new, ∃ pg child, e = .killed pg child := by
  rcases awaitLoop_cases st source id deadline t t' with hEq | ⟨_, hEq⟩ | ⟨st', _, hEq, hSt⟩
  · exact ⟨[], by rw [hEq]; rfl, by simp⟩
  · exact ⟨[], by rw [hEq]; rfl, by simp⟩
  · rw [hEq]
    rcases hSt with rfl | rfl
    · exact ⟨[], rfl, by simp⟩
    · rcases killActive_trail { st with queue := (st.queue.timeout id t').1 } id with
        hSame | ⟨active, _, hNew⟩
      · exact ⟨[], hSame, by simp⟩
      · exact ⟨[_], hNew, by simp⟩

theorem enqueue_queued {base : State} {now id : Nat}
    {ttl : Option Nat} (hRes : Resolved h flow scope key base.trail)
    (hEnqueue : base.enqueue h scope key now ttl = (st', .ok id)) :
    Queued h id flow scope key st'.trail ∧ base.trail ⊆ st'.trail := by
  rcases enqueue_spec base h scope key now ttl with
    ⟨_, hSpec⟩ | ⟨req, _, hCap, _, _, hSpec⟩ | ⟨req, hReq, hSpec⟩
  · rw [hSpec] at hEnqueue
    cases (Prod.mk.inj hEnqueue).2
  · rw [hSpec] at hEnqueue
    obtain ⟨rfl, hId⟩ := Prod.mk.inj hEnqueue
    cases hId
    exact ⟨.now ⟨hRes, .inr ⟨rfl, hCap⟩⟩, List.subset_cons_self _ _⟩
  · rw [hSpec] at hEnqueue
    obtain ⟨rfl, hId⟩ := Prod.mk.inj hEnqueue
    cases hId
    refine ⟨.now ⟨hRes, .inl ⟨req, rfl, rfl, ?_, ?_⟩⟩, List.subset_cons_self _ _⟩
    · rw [hReq]
    · rw [hReq]

theorem awaitApproval_place (hRes : Resolved h flow scope key st.trail) :
    (flow.afterAwait scope key
      (st.awaitApproval w h scope key flow.forceFresh flow.access.requestedTtl r).2).Place h
      (st.awaitApproval w h scope key flow.forceFresh flow.access.requestedTtl r).1.trail := by
  have hCleared : ∀ base, Cleared st scope key r.t0 base → Resolved h flow scope key base.trail := by
    rintro base (⟨rfl, -⟩ | rfl)
    · exact hRes
    · exact hRes.mono (List.subset_cons_self _ _)
  generalize hEq : st.awaitApproval w h scope key flow.forceFresh flow.access.requestedTtl r = result
  have hCase := awaitApproval_case st w h scope key flow.forceFresh flow.access.requestedTtl r
  rw [hEq] at hCase
  cases hCase with
  | cached => exact ⟨hRes, nofun⟩
  | refused hBase => exact finish_place (hCleared _ hBase).origin (fun _ _ => nofun) nofun
  | queued hBase hEnqueue =>
    rename_i stQ source id deadline
    obtain ⟨hQueued, hSub⟩ := enqueue_queued (hCleared _ hBase) hEnqueue
    obtain ⟨new, hNew, -⟩ := awaitLoop_trail stQ source id deadline r.t2 r.t3
    rw [hNew]
    refine afterAwait_place ?_ ?_
    · exact ((hCleared _ hBase).mono hSub).mono (List.subset_append_right _ _)
    · intro id' hId
      rw [awaitLoop_id hId]
      exact Once.append hQueued new

/-- **A handler's section keeps what its place remembers.** -/
theorem handle_place (hPlace : task.Place h st.trail)
    (hHandle : st.handle w h r reads task = some (st', task')) : task'.Place h st'.trail := by
  cases task with
  | received request =>
    simp only [State.handle, Option.some.injEq] at hHandle
    cases request with
    | get =>
      simp only [State.dispatch] at hHandle
      split at hHandle
      · cases hHandle
        trivial
      · rename_i hKey
        cases hHandle
        exact .get hPlace (by simpa using hKey)
    | requestGrant =>
      simp only [State.dispatch] at hHandle
      split at hHandle
      · cases hHandle
        trivial
      · rename_i hKey
        cases hHandle
        exact .request hPlace (by simpa using hKey)
    | authorize =>
      simp only [State.dispatch] at hHandle
      split at hHandle
      · cases hHandle
        trivial
      · cases hHandle
        exact .authorize (List.mem_cons_self ..)
    | hello =>
      simp only [State.dispatch] at hHandle
      split at hHandle <;> obtain ⟨-, rfl⟩ := Prod.mk.inj hHandle <;> trivial
    | _ =>
      obtain ⟨-, rfl⟩ := Prod.mk.inj hHandle
      trivial
  | resolving =>
    simp only [State.handle] at hHandle
    split at hHandle
    · rename_i hEq
      cases hHandle
      obtain ⟨hTrail, hName⟩ := resolveAccess_ok hEq
      refine ⟨Flow.From.mono hPlace ?_, ?_, hName⟩
      · rw [hTrail]
        exact List.subset_cons_self _ _
      · rw [hTrail]
        exact List.mem_cons_self ..
    · rename_i hEq
      cases hHandle
      refine finish_place ?_ (fun _ _ => nofun) nofun
      rw [resolveAccess_error hEq]
      exact hPlace
  | awaiting =>
    rw [handle_awaiting] at hHandle
    cases hHandle
    exact awaitApproval_place hPlace
  | waiting flow scope key source id deadline =>
    rw [handle_waiting] at hHandle
    cases hHandle
    obtain ⟨new, hNew, -⟩ := awaitLoop_trail st source id deadline r.t0 r.t1
    rw [hNew]
    refine afterAwait_place (hPlace.1.mono (List.subset_append_right _ _)) ?_
    intro id' hId
    rw [awaitLoop_id hId]
    exact Once.append hPlace.2 new
  | approved flow scope key =>
    cases hHandle
    refine finish_place hPlace.1.origin ?_ fun id hid => ⟨scope, key, hPlace.2 id hid⟩
    intro hFields value
    simp only [hFields, Bool.false_eq_true, if_false, State.grantedFields]
    split <;> simp
  | minting =>
    obtain ⟨-, rfl⟩ := Prod.mk.inj (Option.some.inj hHandle)
    trivial
  | done => cases hHandle

end

/-! ## Whole runs -/

def Sys.core (s : Sys) : Core := ⟨s.st, s.worker.job, s.clock⟩

structure BrokerInv (cfg : Config) (s : Sys) : Prop where
  queue : QueueRun cfg.queueLimits s.core
  tasks : ∀ h task, s.tasks h = some task → task.Place h s.st.trail
  worker : s.worker.Place s.st.trail
  config : s.st.config = cfg
  store : s.st.store = ⟨cfg.humanSources⟩

theorem Micro.config {role : Role} (h : Micro w role c d) :
    d.st.config = c.st.config ∧ d.st.store = c.st.store := by
  cases h
  case enqueue h scope key ttl =>
    obtain ⟨_, _, hEq⟩ := enqueue_frame c.st h scope key c.clock ttl
    rw [hEq]
    exact ⟨rfl, rfl⟩
  case kill id =>
    obtain ⟨_, _, hEq⟩ := killActive_frame c.st id
    rw [hEq]
    exact ⟨rfl, rfl⟩
  all_goals exact ⟨rfl, rfl⟩

theorem Steps.trail_grows (h : Steps w c d) : ∃ new, d.st.trail = new ++ c.st.trail := by
  induction h with
  | refl => exact ⟨[], rfl⟩
  | tail _ hLast ih =>
    obtain ⟨new, hNew⟩ := ih
    obtain ⟨role, hLast⟩ := hLast
    rcases hLast.trail_cases with hSame | ⟨e, _, hEq⟩
    · exact ⟨new, hSame.trans hNew⟩
    · exact ⟨e :: new, by rw [hEq, hNew]; rfl⟩

section

variable {cfg : Config} {s t : Sys} {a : Action}

theorem conclude_steps {job : Option Job} {clock : Nat} (h now : Nat)
    (task : Task) : Steps w ⟨st, job, clock⟩ ⟨st.conclude h now task, job, clock⟩ := by
  cases task with
  | done decision => exact .single ⟨.reply, .answer rfl h decision now⟩
  | _ => exact .refl

theorem tick_steps {now : Nat} (hWorker : s.worker = .idle) (hClock : s.clock ≤ now) :
    Chain s.world .worker s.core
      ⟨(s.st.tick s.world now).1, (s.st.tick s.world now).2, now⟩ := by
  unfold Sys.core
  rw [hWorker]
  exact tick_chain hClock

theorem report_steps (hInv : BrokerInv cfg s) {job : Job}
    {result : Except ErrCode DecryptedHumanFile} {r : Readings}
    (hWorker : s.worker = .reporting job result) (hClock : s.clock ≤ r.t0) :
    Chain s.world .report s.core ⟨s.st.report s.world job result r, none, r.t3⟩ := by
  have hFlight := hInv.queue.inv.1
  have hPlace := hInv.worker
  rw [hWorker] at hPlace
  unfold Sys.core at hFlight ⊢
  rw [hWorker] at hFlight ⊢
  refine report_chain r hClock hFlight ?_
  rintro file rfl
  exact hPlace

/-- **Every step of the broker is a sequence of primitive operations.** -/
theorem move_steps (hInv : BrokerInv cfg s) (hMove : Sys.Move s a t) :
    Steps s.world s.core t.core := by
  have hNote : ∀ (e : Event) (job : Option Job), e.isNote →
      Steps s.world ⟨s.st, job, s.clock⟩ ⟨s.st.emit e, job, s.clock⟩ :=
    fun e job hNote => .single ⟨.outside, .note (fun _ => rfl) hNote⟩
  cases hMove with
  | world => exact .refl
  | replace => exact hNote _ _ rfl
  | receive => exact hNote _ _ rfl
  | handle hTask hClock hHandle =>
    rename_i r reads task task' st'
    have hSection : Chain s.world task.role s.core ⟨st', s.worker.job, r.t3⟩ :=
      handle_chain (hInv.tasks _ _ hTask) hClock hHandle
    exact hSection.steps.trans (conclude_steps _ _ _)
  | tick hWorker hClock hTick =>
    rename_i now st'
    have hChain := tick_steps hWorker hClock
    rw [hTick] at hChain
    have hJob : s.worker.job = none := by rw [hWorker]; rfl
    show Steps s.world s.core ⟨st', s.worker.job, now⟩
    rw [hJob]
    exact hChain.steps
  | begin hWorker hClock hTick =>
    have hChain := tick_steps hWorker hClock
    rw [hTick] at hChain
    exact hChain.steps
  | openFile hWorker =>
    unfold Sys.core
    rw [hWorker]
    exact hNote _ _ rfl
  | openFailed hWorker | spawnFailed hWorker | spawn hWorker _ | spawnLost hWorker _
  | exitedBadly hWorker | abandoned hWorker =>
    unfold Sys.core
    rw [hWorker]
    exact .refl
  | start hWorker =>
    rename_i job file pg child
    unfold Sys.core State.onStarted
    rw [hWorker]
    dsimp only
    split
    · exact .single ⟨.callback, .activate rfl ⟨job.id, pg, child⟩⟩
    · exact .single ⟨.callback, .signal rfl pg child⟩
  | exited hWorker =>
    unfold Sys.core
    rw [hWorker]
    exact hNote _ _ rfl
  | deadline hWorker =>
    rename_i pg child
    unfold Sys.core
    rw [hWorker]
    exact .single ⟨.callback, .signal rfl pg child⟩
  | report hWorker hClock => exact (report_steps hInv hWorker hClock).steps
  | os => exact .refl

theorem conclude_trail (st : State) (h now : Nat) (task : Task) :
    ∃ new, (st.conclude h now task).trail = new ++ st.trail ∧ ∀ e ∈ new, e.MayCome .reply := by
  cases task with
  | done decision =>
    refine ⟨[.answered h decision now], rfl, ?_⟩
    intro e he
    rw [List.mem_singleton] at he
    subst he
    exact ⟨nofun, nofun, fun _ => rfl, nofun⟩
  | _ => exact ⟨[], rfl, by simp⟩

theorem tick_started {now : Nat} {job : Job}
    (hTick : st.tick w now = (st', some job)) : InHand job st'.trail := by
  unfold State.tick at hTick
  dsimp only at hTick
  split at hTick
  · cases (Prod.mk.inj hTick).2
  · split at hTick
    · cases (Prod.mk.inj hTick).2
    · split at hTick
      · cases (Prod.mk.inj hTick).2
      · obtain ⟨rfl, hJob⟩ := Prod.mk.inj hTick
        cases hJob
        exact .now rfl

theorem tasks_move {P : Nat → Task → List Event → Prop}
    (hGrow : ∀ {h task trail} new, P h task trail → P h task (new ++ trail))
    (hReceived : ∀ h request caller,
      P h (.received request caller) (.received h request caller :: s.st.trail))
    (hHandled : ∀ {h r reads task st' task'}, s.tasks h = some task → s.clock ≤ r.t0 →
      s.st.handle s.world h r reads task = some (st', task') → P h task' st'.trail)
    (hInv : BrokerInv cfg s) (hAll : ∀ h task, s.tasks h = some task → P h task s.st.trail)
    (hMove : Sys.Move s a t) : ∀ h task, t.tasks h = some task → P h task t.st.trail := by
  obtain ⟨new, hNew⟩ := (move_steps hInv hMove).trail_grows
  change t.st.trail = new ++ s.st.trail at hNew
  have hOld : ∀ h task, s.tasks h = some task → P h task t.st.trail := by
    intro h task hTask
    rw [hNew]
    exact hGrow new (hAll h task hTask)
  cases hMove with
  | receive hFree =>
    rename_i n request caller
    intro h task hTask
    by_cases hEq : h = n
    · subst hEq
      obtain rfl : Task.received request caller = task := by simpa [Sys.setTask] using hTask
      exact hReceived h request caller
    · exact hOld h task (by simpa [Sys.setTask, Function.update_of_ne hEq] using hTask)
  | handle hTask hClock hHandle =>
    rename_i n r reads task task' st'
    intro h task'' hTask''
    by_cases hEq : h = n
    · subst hEq
      obtain rfl : task' = task'' := by simpa [Sys.setTask] using hTask''
      obtain ⟨ans, hAns, -⟩ := conclude_trail st' h r.t0 task'
      change P h task' (st'.conclude h r.t0 task').trail
      rw [hAns]
      exact hGrow ans (hHandled hTask hClock hHandle)
    · exact hOld h task'' (by simpa [Sys.setTask, Function.update_of_ne hEq] using hTask'')
  | _ => exact hOld

theorem tasks_step (hInv : BrokerInv cfg s) (hMove : Sys.Move s a t) :
    ∀ h task, t.tasks h = some task → task.Place h t.st.trail :=
  tasks_move (P := fun h task trail => task.Place h trail) (fun new hPlace => hPlace.grow new)
    (fun _ _ _ => List.mem_cons_self ..)
    (fun hTask _ hHandle => handle_place (hInv.tasks _ _ hTask) hHandle) hInv hInv.tasks hMove

theorem worker_step (hInv : BrokerInv cfg s) (hMove : Sys.Move s a t) :
    t.worker.Place t.st.trail := by
  have hPlace := hInv.worker
  have hNote : ∀ {e : Event}, e.isWork = false → s.worker.Place (e :: s.st.trail) := by
    intro e he
    have hGrow : s.worker.Place ([e] ++ s.st.trail) := hPlace.grow fun x hx => by
      rw [List.mem_singleton] at hx
      exact Event.not_isStart (hx ▸ he)
    exact hGrow
  cases hMove with
  | world | os => exact hPlace
  | replace | receive => exact hNote rfl
  | handle hTask hClock hHandle =>
    rename_i h r reads task task' st'
    have hSection : Chain s.world task.role s.core ⟨st', s.worker.job, r.t3⟩ :=
      handle_chain (hInv.tasks _ _ hTask) hClock hHandle
    obtain ⟨new, hNew, hRole⟩ := hSection.trail_grows
    obtain ⟨ans, hAns, hReply⟩ := conclude_trail st' h r.t0 task'
    change s.worker.Place (st'.conclude h r.t0 task').trail
    rw [hAns, hNew]
    refine Worker.Place.grow (Worker.Place.grow hPlace ?_) ?_
    · exact fun e he => (hRole e he).not_isStart task.role_ne.1 task.role_ne.2.1
    · exact fun e he => (hReply e he).not_isStart (by decide) (by decide)
  | tick hWorker =>
    change s.worker.Place _
    rw [hWorker]
    trivial
  | begin hWorker hClock hTick => exact tick_started hTick
  | openFile hWorker =>
    rw [hWorker] at hPlace
    exact .now ⟨rfl, hPlace⟩
  | spawn hWorker =>
    rw [hWorker] at hPlace
    exact hPlace
  | start hWorker =>
    rename_i job file pg child
    rw [hWorker] at hPlace
    have hKept : (Worker.polling job file pg child).Place (s.st.onStarted job pg child).trail := by
      unfold State.onStarted
      split
      · exact hPlace
      · exact Since.cons hPlace (Event.not_isStart rfl)
    exact hKept
  | exited hWorker hResult =>
    rename_i job file pg child exit decrypted
    rw [hWorker] at hPlace
    obtain ⟨hSource, hIdentity⟩ := Exit.result_ok hResult
    refine .now ⟨rfl, ?_⟩
    rw [hSource, hIdentity]
    exact hPlace
  | _ => trivial

theorem brokerInv_step (hInv : BrokerInv cfg s) (hStep : s.step a = some t) : BrokerInv cfg t := by
  have hMove := Sys.step_move hStep
  have hSteps := move_steps hInv hMove
  have hConfig : t.core.st.config = cfg ∧ t.core.st.store = ⟨cfg.humanSources⟩ := by
    refine hSteps.invariant (I := fun c => c.st.config = cfg ∧ c.st.store = ⟨cfg.humanSources⟩)
      ?_ ⟨hInv.config, hInv.store⟩
    rintro role c d ⟨hc, hs⟩ hMicro
    exact ⟨hMicro.config.1.trans hc, hMicro.config.2.trans hs⟩
  exact
    { queue := hSteps.invariant (fun _ _ _ hRun hMicro => hRun.micro hMicro) hInv.queue
      tasks := tasks_step hInv hMove
      worker := worker_step hInv hMove
      config := hConfig.1
      store := hConfig.2 }

end

theorem brokerInv_reachable {cfg : Config} {bootId instanceId : String} {s : Sys}
    (h : Reachable (broker cfg bootId instanceId w) s) : BrokerInv cfg s := by
  refine Path.invariant (fun _ _ _ hInv _ hStep => brokerInv_step hInv hStep) h ?_
  exact
    { queue := ⟨0, Nat.le_refl _, .refl _⟩
      tasks := fun _ _ hTask => by cases hTask
      worker := trivial
      config := rfl
      store := rfl }

theorem core_invariant {cfg : Config} {bootId instanceId : String} {I : Core → Prop}
    (hInit : I (broker cfg bootId instanceId w).init.core)
    (hMicro : ∀ w role c d, QueueRun cfg.queueLimits c → I c → Micro w role c d → I d) {s : Sys}
    (h : Reachable (broker cfg bootId instanceId w) s) : I s.core := by
  refine h.strengthen (I := fun s => I s.core) hInit ?_
  intro x a y hx hI hStep
  have hInv := brokerInv_reachable hx
  have hSteps := move_steps hInv (Sys.step_move hStep)
  have hBoth := hSteps.invariant (I := fun c => QueueRun cfg.queueLimits c ∧ I c)
    (fun role c d hc hStep => ⟨hc.1.micro hStep, hMicro _ role c d hc.1 hc.2 hStep⟩)
    ⟨hInv.queue, hI⟩
  exact hBoth.2

end Forward.Secrets

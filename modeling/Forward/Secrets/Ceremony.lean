import Forward.Secrets.LockFence

/-!
# One ceremony per receipt

A receipt stands for one touch of the hardware key, and a REDEEM spends it. AUTHORIZE forces a
fresh request, a capability request never coalesces, and the receipt is minted only when the request
of that number was granted. Numbers tell requests apart up to `2^64 - 1`.
-/

namespace Forward.Secrets

open Lib

/-! ## Numbers and decrypts -/

def Event.isAsk : Event → Bool
  | enqueued .. => true
  | _ => false

def Event.isStart : Event → Bool
  | started .. => true
  | _ => false

def asks (trail : List Event) : Nat := trail.countP Event.isAsk

def starts (trail : List Event) : Nat := trail.countP Event.isStart

-- requests are numbered in the order they are enqueued
def NumberedAt : Event → List Event → Prop
  | .enqueued _ r, before => r.id = min (asks before + 1) wordMax
  | _, _ => True

def Served (id : Nat) (trail : List Event) : Prop :=
  ∃ job g, job.id = id ∧ .inserted job g ∈ trail

variable {trail : List Event}

theorem Served.mono {id : Nat} {trail' : List Event} (h : Served id trail)
    (hSub : trail ⊆ trail') : Served id trail' := by
  obtain ⟨job, g, hId, hMem⟩ := h
  exact ⟨job, g, hId, hSub hMem⟩

/-- The queue's numbers and its granted requests, against the history. -/
structure Ceremonies (c : Core) : Prop where
  next : c.st.queue.nextId = min (asks c.st.trail + 1) wordMax
  numbered : Historically NumberedAt c.st.trail
  generation : c.st.queue.generation = min (starts c.st.trail) wordMax
  granted : ∀ r ∈ c.st.queue.requests, r.state = .granted → Served r.id c.st.trail

namespace Queue

variable {q : Queue} {id now generation : Nat} {state : RequestState} {r : PendingRequest}

theorem complete_granted (h : r ∈ (q.complete id generation now).1.requests)
    (hGranted : r.state = .granted) :
    r ∈ q.requests ∨ ((q.complete id generation now).2 ∧ r.id = id) := by
  unfold complete at h ⊢
  split at h
  · rename_i hCurrent
    rw [if_pos hCurrent]
    rcases mem_updateFirst h with hOld | ⟨r', _, hFind, rfl⟩
    · exact .inl hOld
    · have hId : r'.id = id := byId_iff.mp (List.find?_some hFind)
      exact .inr ⟨rfl, hId⟩
  · exact .inl h

theorem expel_counters : (q.expel id state now).1.nextId = q.nextId ∧
    (q.expel id state now).1.generation = q.generation := by
  unfold expel
  split <;> exact ⟨rfl, rfl⟩

theorem complete_counters : (q.complete id generation now).1.nextId = q.nextId ∧
    (q.complete id generation now).1.generation = q.generation := by
  unfold complete
  split <;> exact ⟨rfl, rfl⟩

end Queue

namespace Ceremonies

variable {w : World} {role : Role} {c d : Core}

theorem keep (h : Ceremonies c)
    (hTrail : d.st.trail = c.st.trail ∨
      ∃ e : Event, e.isAsk = false ∧ e.isStart = false ∧ d.st.trail = e :: c.st.trail)
    (hCounters : d.st.queue.nextId = c.st.queue.nextId ∧
      d.st.queue.generation = c.st.queue.generation)
    (hGranted : ∀ r ∈ d.st.queue.requests, r.state = .granted →
      r ∈ c.st.queue.requests ∨ Served r.id d.st.trail) : Ceremonies d := by
  have hSub : c.st.trail ⊆ d.st.trail := by
    rcases hTrail with hSame | ⟨e, _, _, hNew⟩
    · rw [hSame]
      exact List.Subset.refl _
    · rw [hNew]
      exact List.subset_cons_self _ _
  have hCount : asks d.st.trail = asks c.st.trail ∧ starts d.st.trail = starts c.st.trail := by
    rcases hTrail with hSame | ⟨e, hAsk, hStart, hNew⟩
    · rw [hSame]
      exact ⟨rfl, rfl⟩
    · rw [hNew]
      simp [asks, starts, hAsk, hStart]
  refine ⟨?_, ?_, ?_, ?_⟩
  · rw [hCounters.1, hCount.1]
    exact h.next
  · rcases hTrail with hSame | ⟨e, hAsk, _, hNew⟩
    · rw [hSame]
      exact h.numbered
    · rw [hNew]
      refine h.numbered.cons ?_
      cases e <;> trivial
  · rw [hCounters.2, hCount.2]
    exact h.generation
  · intro r hr hState
    rcases hGranted r hr hState with hOld | hServed
    · exact (h.granted r hOld hState).mono hSub
    · exact hServed

theorem enqueue (h : Ceremonies c) (n : Nat) (scope : Scope) (key : SecretName)
    (ttl : Option Nat) :
    Ceremonies { c with st := (c.st.enqueue n scope key c.clock ttl).1 } := by
  rcases enqueue_spec c.st n scope key c.clock ttl with
    ⟨_, hEq⟩ | ⟨_, _, _, _, _, hEq⟩ | ⟨r, hr, hEq⟩
  · rw [hEq]
    exact h
  · rw [hEq]
    exact h.keep (.inr ⟨_, rfl, rfl, rfl⟩) ⟨rfl, rfl⟩ fun r hr _ => Or.inl hr
  · rw [hEq]
    have hId : r.id = c.st.queue.nextId := by rw [hr]
    have hAsks : asks (.enqueued n r :: c.st.trail) = asks c.st.trail + 1 := by
      unfold asks
      rw [List.countP_cons_of_pos rfl]
    refine ⟨?_, h.numbered.cons (hId.trans h.next), h.generation, ?_⟩
    · show satAdd c.st.queue.nextId 1 = min (asks (.enqueued n r :: c.st.trail) + 1) wordMax
      rw [hAsks, h.next]
      unfold satAdd
      omega
    · intro r' hr' hState
      rcases List.mem_append.mp hr' with hIn | hNew
      · exact (h.granted r' hIn hState).mono (List.subset_cons_self _ _)
      · rw [List.mem_singleton] at hNew
        rw [hNew, hr] at hState
        cases hState

theorem start (h : Ceremonies c) {queue : Queue} {id generation : Nat} {job : Job}
    (hMark : c.st.queue.markDecrypting id c.clock = (queue, some generation))
    (hQueue : d.st.queue = queue) (hTrail : d.st.trail = .started job :: c.st.trail) :
    Ceremonies d := by
  obtain ⟨-, -, hNext, -, rfl⟩ := Queue.markDecrypting_some hMark
  have hStarts : starts (.started job :: c.st.trail) = starts c.st.trail + 1 := by
    unfold starts
    rw [List.countP_cons_of_pos rfl]
  refine ⟨?_, ?_, ?_, ?_⟩
  · rw [hQueue, hTrail]
    exact h.next
  · rw [hTrail]
    exact h.numbered.cons trivial
  · rw [hQueue, hTrail, hStarts]
    show generation = _
    rw [hNext, h.generation]
    unfold satAdd
    omega
  · intro r hr hGranted
    rw [hQueue] at hr
    rw [hTrail]
    have hOld := Queue.mem_of_update (by simp) hr hGranted
    exact (h.granted r hOld hGranted).mono (List.subset_cons_self _ _)

theorem micro (h : Ceremonies c) (hMicro : Micro w role c d) : Ceremonies d := by
  have hOld : ∀ r ∈ c.st.queue.requests, r.state = .granted →
      r ∈ c.st.queue.requests ∨ Served r.id d.st.trail := fun r hr _ => Or.inl hr
  cases hMicro with
  | note hOut hNote =>
    rename_i e
    refine h.keep (.inr ⟨e, ?_, ?_, rfl⟩) ⟨rfl, rfl⟩ hOld <;>
      cases e <;> first | rfl | cases hNote
  | enqueue n scope key ttl => exact h.enqueue n scope key ttl
  | expel id hState =>
    refine h.keep (.inl rfl) Queue.expel_counters fun r hr hGranted => Or.inl ?_
    refine Queue.mem_of_expel ?_ hr hGranted
    rcases hState with rfl | rfl <;> decide
  | sweepTimeouts =>
    exact h.keep (.inl rfl) ⟨Queue.foldl_finish_nextId _ _, Queue.foldl_finish_generation _ _⟩
      fun r hr hGranted => Or.inl (Queue.mem_of_sweepTimeouts (by decide) hr hGranted)
  | prune _ =>
    exact h.keep (.inl rfl) ⟨rfl, rfl⟩ fun r hr _ => Or.inl (List.mem_of_mem_filter hr)
  | kill id =>
    have hTrail := killActive_trail c.st id
    obtain ⟨active, trail, hEq⟩ := killActive_frame c.st id
    rw [hEq] at hTrail hOld ⊢
    rcases hTrail with hSame | ⟨_, _, hNew⟩
    · exact h.keep (.inl hSame) ⟨rfl, rfl⟩ hOld
    · exact h.keep (.inr ⟨_, rfl, rfl, hNew⟩) ⟨rfl, rfl⟩ hOld
  | start hRole hJob hReady hMark => exact h.start hMark rfl rfl
  | complete hRole hJob hLate =>
    refine h.keep (.inl rfl) Queue.complete_counters fun r hr hGranted => Or.inl ?_
    rcases Queue.complete_granted hr hGranted with hIn | ⟨hTaken, _⟩
    · exact hIn
    · rw [hLate] at hTaken
      cases hTaken
  | insert hRole hJob hDone hEpoch hActive hNow hFile =>
    rename_i job file now
    refine h.keep (.inr ⟨_, rfl, rfl, rfl⟩) Queue.complete_counters fun r hr hGranted => ?_
    rcases Queue.complete_granted hr hGranted with hIn | ⟨_, hId⟩
    · exact .inl hIn
    · exact .inr ⟨job, _, hId.symm, List.mem_cons_self ..⟩
  | fail =>
    refine h.keep (.inr ⟨_, rfl, rfl, rfl⟩) ⟨rfl, rfl⟩ fun r hr hGranted => Or.inl ?_
    exact Queue.mem_of_update (by simp) hr hGranted
  | began | register | unregister | revoke | signal | mint | redeem | lock | answer =>
    exact h.keep (.inr ⟨_, rfl, rfl, rfl⟩) ⟨rfl, rfl⟩ hOld
  | _ => exact h.keep (.inl rfl) ⟨rfl, rfl⟩ hOld

end Ceremonies

/-! ## Handlers -/

/-- A handler that was approved by a request has that request's decrypt. -/
def Task.Owed (trail : List Event) : Task → Prop
  | .approved _ _ _ _ requestId => ∀ id ∈ requestId, Served id trail
  | .minting _ _ decision =>
    (∃ text, decision.outcome = .fields text) →
      ∀ id ∈ decision.requestId, Served id trail
  | _ => True

section

variable {w : World} {st st' : State} {h clock : Nat} {job : Option Job} {r : Readings}
  {reads : List ReceiptId} {task task' : Task}

theorem Task.Owed.mono {trail' : List Event} (hServed : task.Owed trail)
    (hSub : trail ⊆ trail') : task.Owed trail' := by
  cases task with
  | approved =>
    exact fun id hid => (hServed id hid).mono hSub
  | minting =>
    exact fun hFields id hid => (hServed hFields id hid).mono hSub
  | _ => trivial

theorem finish_served {flow : Flow} {e : ErrCode} {message : String} {kind : Option ScopeKind}
    {source : Option String} {requestId : Option Nat} :
    (flow.finish ⟨.failed e message, kind, source, requestId⟩).Owed trail := by
  unfold Flow.finish
  split
  · rintro ⟨text, hText⟩
    cases hText
  · trivial

theorem awaitLoop_served (hC : Ceremonies ⟨st, job, clock⟩) (flow : Flow) (scope : Scope)
    (key : SecretName) (source : String) (id deadline t t' : Nat) :
    (flow.afterAwait scope key (st.awaitLoop source id deadline t t').2).Owed
      (st.awaitLoop source id deadline t t').1.trail := by
  rcases awaitLoop_cases st source id deadline t t' with hEq | ⟨hState, hEq⟩ | ⟨st', e, hEq, _⟩
  · rw [hEq]
    trivial
  · rw [hEq]
    intro id' hid
    obtain rfl : id = id' := by simpa using hid
    obtain ⟨request, hFind, hGranted⟩ := Queue.stateOf_eq_some.mp hState
    rw [← Queue.byId_iff.mp (List.find?_some hFind)]
    exact hC.granted request (List.mem_of_find?_eq_some hFind) hGranted
  · rw [hEq]
    exact finish_served

theorem dispatch_served (st : State) (h : Nat) (caller : Peer) (now : Nat) (request : Request)
    (trail : List Event) :
    (st.dispatch h caller now request).2.Owed trail := by
  cases request with
  | hello version | get key tokenHex tty ttl | requestGrant key tokenHex tty ttl | authorize =>
    simp only [State.dispatch]
    split <;> trivial
  | _ => trivial

theorem handle_served (hC : Ceremonies ⟨st, job, clock⟩) (hr : clock ≤ r.t0)
    (hServed : task.Owed st.trail)
    (hHandle : st.handle w h r reads task = some (st', task')) : task'.Owed st'.trail := by
  cases task with
  | received request caller =>
    simp only [State.handle, Option.some.injEq] at hHandle
    have hDispatch := dispatch_served st h caller r.t0 request st'.trail
    rw [hHandle] at hDispatch
    exact hDispatch
  | resolving =>
    simp only [State.handle] at hHandle
    split at hHandle
    · obtain ⟨-, rfl⟩ := Prod.mk.inj (Option.some.inj hHandle)
      trivial
    · obtain ⟨-, rfl⟩ := Prod.mk.inj (Option.some.inj hHandle)
      exact finish_served
  | awaiting flow scope key =>
    rw [handle_awaiting] at hHandle
    cases hHandle
    have hCase := awaitApproval_case st w h scope key flow.forceFresh flow.access.requestedTtl r
    generalize st.awaitApproval w h scope key flow.forceFresh flow.access.requestedTtl r = result
      at hCase ⊢
    cases hCase with
    | cached => exact fun _ hId => by cases hId
    | refused => exact finish_served
    | queued hBase hEnqueue =>
      rename_i base stQ source id deadline
      -- the table is cleared and the request enqueued before the loop looks
      have hWait : Micro w .handler ⟨st, job, clock⟩ ⟨st, job, r.t1⟩ := .wait (hr.trans r.le01)
      have hRevoke : Micro w .handler ⟨st, job, r.t1⟩ ⟨st.revoke scope key, job, r.t1⟩ :=
        .revoke scope key
      have hBegun : Ceremonies ⟨base, job, r.t1⟩ := by
        rcases hBase with ⟨rfl, -⟩ | rfl
        · exact hC.micro hWait
        · exact (hC.micro hWait).micro hRevoke
      have hEnqueued : Micro w .handler ⟨base, job, r.t1⟩
          ⟨(base.enqueue h scope key r.t1 flow.access.requestedTtl).1, job, r.t1⟩ :=
        .enqueue h scope key flow.access.requestedTtl
      rw [hEnqueue] at hEnqueued
      exact awaitLoop_served (hBegun.micro hEnqueued) flow scope key source id deadline r.t2 r.t3
  | waiting flow scope key source id deadline =>
    rw [handle_waiting] at hHandle
    cases hHandle
    exact awaitLoop_served hC flow scope key source id deadline r.t0 r.t1
  | approved =>
    cases hHandle
    unfold Flow.finish
    split
    · exact fun _ => hServed
    · trivial
  | minting =>
    obtain ⟨-, rfl⟩ := Prod.mk.inj (Option.some.inj hHandle)
    trivial
  | done => cases hHandle

end

/-! ## Whole runs -/

section

variable {cfg : Config} {bootId instanceId : String} {w : World} {s t : Sys} {a : Action}

theorem ceremonies_reachable (hReach : Reachable (broker cfg bootId instanceId w) s) :
    Ceremonies s.core := by
  refine core_invariant ?_ (fun _ _ _ _ _ hC hMicro => hC.micro hMicro) hReach
  exact ⟨rfl, .nil, rfl, fun _ hr => by cases hr⟩

theorem owed_step (hReach : Reachable (broker cfg bootId instanceId w) s)
    (hOwed : ∀ h task, s.tasks h = some task → task.Owed s.st.trail) (hMove : Sys.Move s a t) :
    ∀ h task, t.tasks h = some task → task.Owed t.st.trail := by
  have hC : Ceremonies ⟨s.st, s.worker.job, s.clock⟩ := ceremonies_reachable hReach
  exact tasks_move (P := fun _ task trail => task.Owed trail)
    (fun _ hOwes => hOwes.mono (List.subset_append_right _ _)) (fun _ _ _ => trivial)
    (fun hTask hClock hHandle => handle_served hC hClock (hOwed _ _ hTask) hHandle)
    (brokerInv_reachable hReach) hOwed hMove

theorem owed_reachable (hReach : Reachable (broker cfg bootId instanceId w) s) :
    ∀ h task, s.tasks h = some task → task.Owed s.st.trail := by
  refine hReach.strengthen (I := fun s => ∀ h task, s.tasks h = some task → task.Owed s.st.trail)
    (fun _ _ hTask => by cases hTask) ?_
  intro x a y hx hOwed hStep
  exact owed_step hx hOwed (Sys.step_move hStep)

end

/-! ## Telling requests apart -/

section

variable {e e' : Event} {trail newer newer' older older' : List Event}

theorem ask_unique (he : e.isAsk) (he' : e'.isAsk)
    (hTrail : trail = newer ++ e :: older) (hTrail' : trail = newer' ++ e' :: older')
    (hAsks : asks older = asks older') : newer = newer' ∧ e = e' ∧ older = older' := by
  have hPast : ∀ {xs older older' : List Event} {e : Event}, e.isAsk →
      older = xs ++ e :: older' → asks older' < asks older := by
    rintro xs _ older' e he rfl
    unfold asks
    rw [List.countP_append, List.countP_cons_of_pos he]
    omega
  rcases split_cases (hTrail.symm.trans hTrail') with hSame | ⟨xs, hOlder⟩ | ⟨xs, hOlder⟩
  · exact hSame
  · have := hPast he' hOlder
    omega
  · have := hPast he hOlder
    omega

theorem number_unique {h h' : Nat} {r r' : PendingRequest} (hN : Historically NumberedAt trail)
    (hBound : asks trail ≤ wordMax) (hTrail : trail = newer ++ .enqueued h r :: older)
    (hTrail' : trail = newer' ++ .enqueued h' r' :: older') (hId : r.id = r'.id) :
    h = h' ∧ r = r' ∧ older = older' := by
  have hNumber : r.id = min (asks older + 1) wordMax := hN newer _ older hTrail
  have hNumber' : r'.id = min (asks older' + 1) wordMax := hN newer' _ older' hTrail'
  have hCount : ∀ {newer older : List Event} {e : Event}, e.isAsk →
      trail = newer ++ e :: older → asks older + 1 ≤ asks trail := by
    rintro newer older e he rfl
    unfold asks
    rw [List.countP_append, List.countP_cons_of_pos he]
    omega
  have hLe := hCount rfl hTrail
  have hLe' := hCount rfl hTrail'
  obtain ⟨-, hEq, hOlder⟩ := ask_unique rfl rfl hTrail hTrail' (by omega)
  obtain ⟨rfl, rfl⟩ := Event.enqueued.inj hEq
  exact ⟨rfl, rfl, hOlder⟩

end

/-! ## Receipts -/

/-- The whole of a ceremony, newest first: AUTHORIZE begins, its caller is
resolved, it enqueues its own request, and `job` decrypts the capability's key
for that request and completes it. -/
def Ceremony (h : Nat) (cap : Capability) (job : Job) (before : List Event) : Prop :=
  ∃ epoch r file g, job.key.name = cap.keyName ∧ r.id = job.id ∧
    [.inserted job g, .decrypted job file, .started job, .enqueued h r,
      .resolved h job.scope job.key, .began h cap epoch].Sublist before

/-- Receipts map injectively to decrypted jobs: the job of a receipt is the
ceremony of the AUTHORIZE that minted it, in the scope it resolved to, and that
AUTHORIZE joined nobody else's request. -/
def OneCeremonyPerReceipt (trail : List Event) : Prop :=
  ∃ ceremony : Nat → Option Job,
    (∀ newer h cap id time older, trail = newer ++ .minted h cap id time :: older →
      ∃ job, ceremony h = some job ∧ Ceremony h cap job older ∧
        (∀ scope key, .resolved h scope key ∈ trail → scope = job.scope ∧ key = job.key) ∧
        ∀ id', .joined h id' ∉ trail) ∧
    ∀ newer h cap id time older newer' h' cap' id' time' older',
      trail = newer ++ .minted h cap id time :: older →
      trail = newer' ++ .minted h' cap' id' time' :: older' →
      ceremony h = ceremony h' → newer = newer'

section

variable {cfg : Config} {bootId instanceId : String} {w : World} {s : Sys}

theorem Queued.own {h id epoch : Nat} {flow : Flow} {scope : Scope} {key : SecretName}
    {cap : Capability} (hQueued : Queued h id flow scope key trail)
    (hAuth : flow.authorizing = some (cap, epoch)) :
    ∃ mid r before, trail = mid ++ .enqueued h r :: before ∧ r.id = id ∧ r.scope = scope ∧
      r.key = key ∧ key.name = cap.keyName ∧ .resolved h scope key ∈ before ∧
      .began h cap epoch ∈ before := by
  obtain ⟨mid, e, before, hTrail, ⟨hRes, hEvent⟩, -⟩ := hQueued
  obtain ⟨hFrom, hResolved, hName⟩ := hRes
  cases hFrom with
  | get | request => cases hAuth
  | authorize hBegan =>
    cases hAuth
    rcases hEvent with ⟨r, rfl, hId, hScope, hKey⟩ | ⟨-, hPlain⟩
    · exact ⟨mid, r, before, hTrail, hId, hScope, hKey, hName, hResolved, hBegan⟩
    · -- a capability request never joins another
      rw [SecretName.isCapability, hName] at hPlain
      cases hPlain.symm.trans (Capability.keyName_startsWith _)

/-- **An AUTHORIZE about to mint has its own ceremony behind it.** -/
theorem ceremony_of_minting (hReach : Reachable (broker cfg bootId instanceId w) s)
    (hBound : asks s.st.trail ≤ wordMax) {h epoch : Nat} {cap : Capability} {decision : Decision}
    (hTask : s.tasks h = some (.minting cap epoch decision))
    (hFields : ∃ text, decision.outcome = .fields text)
    (hId : decision.requestId.isSome) : ∃ job, Ceremony h cap job s.st.trail := by
  obtain ⟨id, hId⟩ := Option.isSome_iff_exists.mp hId
  have hP := provenance_reachable hReach
  have hC := ceremonies_reachable hReach
  have hStaged := staged_reachable hReach
  -- the request it waited on, and the decrypt that granted it
  obtain ⟨flow, scope, key, hAuth, hQueued⟩ :=
    ((brokerInv_reachable hReach).tasks h _ hTask).2.2 id hId
  obtain ⟨mid, r, before, hAsk, hRid, hScope, hKey, hName, hResolved, hBegan⟩ := hQueued.own hAuth
  obtain ⟨job, g, hJob, hInserted⟩ := owed_reachable hReach h _ hTask hFields id hId
  obtain ⟨newer, later, hInsert, file, -, hDecrypted, -⟩ := hP.vouched.of_mem hInserted
  obtain ⟨mid', e, earlier, hLater, ⟨rfl, hOpened⟩, -⟩ := hDecrypted
  obtain ⟨mid'', earliest, hEarlier⟩ := List.mem_iff_append.mp hOpened.inHand.started
  have hStart : s.st.trail =
      (newer ++ .inserted job g :: mid' ++ .decrypted job file :: mid'') ++
        .started job :: earliest := by
    rw [show s.st.trail = s.core.st.trail from rfl, hInsert, hLater, hEarlier]
    simp
  -- the request that decrypt was started for has the same number, so it is the same
  obtain ⟨n, r', hAsked, hSameId, hJobScope, hJobKey, -⟩ := hP.vouched _ _ _ hStart
  obtain ⟨pre, post, rfl⟩ := List.mem_iff_append.mp hAsked
  have hAsk' : s.st.trail =
      ((newer ++ .inserted job g :: mid' ++ .decrypted job file :: mid'') ++
        .started job :: pre) ++ .enqueued n r' :: post := by
    rw [hStart]
    simp
  obtain ⟨rfl, rfl, rfl⟩ := number_unique hC.numbered hBound hAsk hAsk'
    (hRid.trans (hJob.symm.trans hSameId.symm))
  obtain rfl : job.scope = scope := hJobScope.symm.trans hScope
  obtain rfl : job.key = key := hJobKey.symm.trans hKey
  -- and what this handler did before it stands in the order of its stages
  have hBefore : StagedTrail s.stage before := by
    rw [hAsk] at hStaged
    have hSplit : StagedTrail s.stage ((mid ++ [.enqueued h r]) ++ before) := by simpa using hStaged
    exact hSplit.past
  have hOwn : [.resolved h job.scope job.key, .began h cap epoch].Sublist before :=
    hBefore.ordered hResolved hBegan rfl rfl (by simp)
  refine ⟨job, epoch, r, file, g, hName, hRid.trans hJob.symm, ?_⟩
  rw [show s.st.trail = s.core.st.trail from rfl, hInsert, hLater, hEarlier]
  have hAsks := (hOwn.cons_cons (.enqueued h r)).trans (List.sublist_append_right pre _)
  have hStarts := (hAsks.cons_cons (.started job)).trans (List.sublist_append_right mid'' _)
  have hDecrypts := (hStarts.cons_cons (.decrypted job file)).trans
    (List.sublist_append_right mid' _)
  exact (hDecrypts.cons_cons (.inserted job g)).trans (List.sublist_append_right newer _)

theorem ceremony_of_minted (hReach : Reachable (broker cfg bootId instanceId w) s) :
    Historically (fun e before => ∀ h cap id time, e = .minted h cap id time →
      asks before ≤ wordMax → ∃ job, Ceremony h cap job before) s.st.trail := by
  refine handler_invariant ?_ ?_ ?_ hReach
  · rintro e before hNot - h cap id time rfl
    cases hNot
  · intro x n now reads cap epoch decision id hx hTask hFields hId _ n' cap' id' time hEq hBound
    obtain ⟨rfl, rfl, -, -⟩ := Event.minted.inj hEq
    exact ceremony_of_minting hx hBound hTask hFields hId
  · intro x n r reads task st' decision _ _ _ _ h cap id time hEq
    cases hEq

/-- **One fresh ceremony per receipt.** As long as no more requests have been
enqueued than there are numbers for, every receipt has a decrypt of its own: of
the capability's key, in the scope its AUTHORIZE resolved to, for a request
that AUTHORIZE enqueued after it began, and completed before the mint. -/
theorem one_ceremony_per_receipt (hReach : Reachable (broker cfg bootId instanceId w) s)
    (hBound : asks s.st.trail ≤ wordMax) : OneCeremonyPerReceipt s.st.trail := by
  have hStaged := staged_reachable hReach
  have hNumbered := (ceremonies_reachable hReach).numbered
  -- a handler mints once, so a job can be chosen for it
  have hChoice : ∀ h, ∃ job : Option Job, ∀ newer cap id time older,
      s.st.trail = newer ++ .minted h cap id time :: older →
      ∃ j, job = some j ∧ Ceremony h cap j older := by
    intro h
    by_cases hMinted : ∃ newer cap id time older, s.st.trail = newer ++ .minted h cap id time :: older
    · obtain ⟨newer, cap, id, time, older, hTrail⟩ := hMinted
      have hLess : asks older ≤ asks s.st.trail := by
        rw [hTrail]
        exact ((List.sublist_cons_self ..).trans (List.sublist_append_right ..)).countP_le
      obtain ⟨job, hJob⟩ := ceremony_of_minted hReach newer _ older hTrail h cap id time rfl
        (hLess.trans hBound)
      refine ⟨some job, fun newer' cap' id' time' older' hTrail' => ⟨job, rfl, ?_⟩⟩
      obtain ⟨-, hEq, rfl⟩ := hStaged.unique (k := h) hTrail hTrail' rfl rfl rfl
      obtain ⟨-, rfl, -, -⟩ := Event.minted.inj hEq
      exact hJob
    · exact ⟨none, fun newer cap id time older hTrail =>
        absurd ⟨newer, cap, id, time, older, hTrail⟩ hMinted⟩
  choose ceremony hCeremony using hChoice
  have hIn : ∀ {newer older : List Event} {e x : Event}, s.st.trail = newer ++ e :: older →
      x ∈ older → x ∈ s.st.trail := by
    intro newer older e x hTrail hx
    rw [hTrail]
    exact List.mem_append_right _ (List.mem_cons_of_mem _ hx)
  refine ⟨ceremony, ?_, ?_⟩
  · intro newer h cap id time older hTrail
    obtain ⟨job, hJob, hOrder⟩ := hCeremony h newer cap id time older hTrail
    refine ⟨job, hJob, hOrder, ?_, ?_⟩
    · intro scope key hResolved
      obtain ⟨epoch, r, file, g, -, -, hSub⟩ := hOrder
      have hOwn : .resolved h job.scope job.key ∈ s.st.trail := hIn hTrail (hSub.subset (by simp))
      have hEq := hStaged.unique_mem (k := h) hResolved hOwn rfl rfl rfl
      obtain ⟨-, rfl, rfl⟩ := Event.resolved.inj hEq
      exact ⟨rfl, rfl⟩
    · intro id' hJoined
      obtain ⟨epoch, r, file, g, -, -, hSub⟩ := hOrder
      have hOwn : .enqueued h r ∈ s.st.trail := hIn hTrail (hSub.subset (by simp))
      have hEq := hStaged.unique_mem (k := h) hJoined hOwn rfl rfl rfl
      cases hEq
  · intro newer h cap id time older newer' h' cap' id' time' older' hTrail hTrail' hSame
    obtain ⟨job, hJob, epoch, r, file, g, -, hId, hSub⟩ := hCeremony h newer cap id time older hTrail
    obtain ⟨job', hJob', epoch', r', file', g', -, hId', hSub'⟩ :=
      hCeremony h' newer' cap' id' time' older' hTrail'
    obtain rfl : job = job' := Option.some.inj (hJob.symm.trans (hSame.trans hJob'))
    -- one job has one number, and one number one asker
    have hAsked : .enqueued h r ∈ s.st.trail := hIn hTrail (hSub.subset (by simp))
    have hAsked' : .enqueued h' r' ∈ s.st.trail := hIn hTrail' (hSub'.subset (by simp))
    obtain ⟨pre, post, hSplit⟩ := List.mem_iff_append.mp hAsked
    obtain ⟨pre', post', hSplit'⟩ := List.mem_iff_append.mp hAsked'
    obtain ⟨rfl, -, -⟩ := number_unique hNumbered hBound hSplit hSplit' (hId.trans hId'.symm)
    exact (hStaged.unique (k := h) hTrail hTrail' rfl rfl rfl).1

end

/-- The event before the newest is this handler's mint, and it passes a check. -/
def mintsLast (h : Nat) (check : Capability → List Event → Bool) : List Event → Bool
  | _ :: .minted n cap _ _ :: older => decide (n = h) && check cap older
  | _ => false

theorem of_mintsLast {h : Nat} {check : Capability → List Event → Bool} {trail : List Event}
    (hSeen : mintsLast h check trail = true) : ∃ answer cap id time older,
      trail = answer :: .minted h cap id time :: older ∧ check cap older = true := by
  unfold mintsLast at hSeen
  split at hSeen
  · rename_i answer n cap id time older
    rw [Bool.and_eq_true, decide_eq_true_eq] at hSeen
    obtain ⟨rfl, hCheck⟩ := hSeen
    exact ⟨answer, cap, id, time, older, rfl, hCheck⟩
  · cases hSeen

theorem one_ceremony_per_receipt_authorize :
    ∃ (s : Sys) (answer : Event) (cap : Capability) (id : ReceiptId) (time : Nat)
      (older : List Event) (job : Job),
      Reachable (broker (Config.default [⟨"host", "/d"⟩]) "boot" "id" (fileWorld "CAP_X.env" 1)) s ∧
      asks s.st.trail = 1 ∧ s.st.trail = answer :: .minted 0 cap id time :: older ∧
      job.key.name = "CAP_X" ∧ Ceremony 0 cap job older := by
  let sys := broker (Config.default [⟨"host", "/d"⟩]) "boot" "id" (fileWorld "CAP_X.env" 1)
  let turn : Action := .handle 0 (.at 0) [⟨List.replicate 32 7, rfl⟩]
  let actions : List Action :=
    [.receive 0 (.authorize "x" none (some "/dev/pts/1")) ⟨1⟩, turn, turn, turn, .tick 0,
     .openFile true, .spawn (some 7), .start,
     .poll (.exited ⟨true, some [], some [67, 65, 80, 95, 88, 61, 115, 10]⟩), .report (.at 0),
     turn, turn, turn]
  have hReplay : ((sys.run sys.init actions).map fun s =>
      decide (asks s.st.trail = 1) &&
        mintsLast 0 (fun cap _ => decide (cap.keyName = "CAP_X")) s.st.trail) = some true := by
    decide +kernel
  obtain ⟨s, hReach, hSeen⟩ := Reachable.of_replay hReplay
  rw [Bool.and_eq_true, decide_eq_true_eq] at hSeen
  obtain ⟨hAsks, hSeen⟩ := hSeen
  obtain ⟨answer, cap, id, time, older, hTrail, hSeen⟩ := of_mintsLast hSeen
  have hNewest : s.st.trail = [answer] ++ .minted 0 cap id time :: older := hTrail
  obtain ⟨ceremony, hEach, -⟩ := one_ceremony_per_receipt hReach (by rw [hAsks]; decide)
  obtain ⟨job, -, hCeremony, -, -⟩ := hEach _ _ _ _ _ _ hNewest
  have hName : job.key.name = cap.keyName := by
    obtain ⟨_, _, _, _, hName, -, -⟩ := hCeremony
    exact hName
  exact ⟨s, answer, cap, id, time, older, job, hReach, hAsks, hTrail,
    hName.trans (of_decide_eq_true hSeen), hCeremony⟩

/-! ## The receipts of the broker are a run of the receipt table -/

/-- What the receipt table does at an event of the broker. -/
def Event.receipt : Event → Option ReceiptEvent
  | minted _ cap id time => some (.minted id.bytes cap time)
  | redeemed _ presented cap time _ => some (.redeemed presented cap time)
  | locked => some .cleared
  | _ => none

/-- The receipt table was reached by its own operations. -/
def ReceiptRun (c : Core) : Prop :=
  ∃ time ≤ c.clock,
    Reachable receiptSystem ⟨c.st.receipts, time, c.st.trail.filterMap Event.receipt⟩

namespace ReceiptRun

variable {w : World} {role : Role} {c d : Core}

theorem same (h : ReceiptRun c) (hReceipts : d.st.receipts = c.st.receipts)
    (hTrail : d.st.trail.filterMap Event.receipt = c.st.trail.filterMap Event.receipt)
    (hClock : c.clock ≤ d.clock) : ReceiptRun d := by
  obtain ⟨time, hTime, hReach⟩ := h
  refine ⟨time, hTime.trans hClock, ?_⟩
  rw [hReceipts, hTrail]
  exact hReach

/-- **Every primitive operation of the broker is at most one of the receipt table.** -/
theorem micro (h : ReceiptRun c) (hMicro : Micro w role c d) : ReceiptRun d := by
  obtain ⟨time, hTime, hReach⟩ := id h
  cases hMicro with
  | @mint n cap reads id hRole hBegan hMint =>
    refine ⟨c.clock, Nat.le_refl _, hReach.step (a := .mint cap reads c.clock) ?_⟩
    simp [receiptSystem, ReceiptSys.step, hTime, hMint, State.emit, Event.receipt]
  | @redeem cap presented n receiptHex deadline hDecode hRedeem =>
    refine ⟨c.clock, Nat.le_refl _, hReach.step (a := .redeem receiptHex cap c.clock) ?_⟩
    simp [receiptSystem, ReceiptSys.step, hTime, hDecode, hRedeem, State.emit, Event.receipt]
  | sweepReceipts =>
    exact ⟨c.clock, Nat.le_refl _, hReach.step (a := .sweep c.clock) (if_pos hTime)⟩
  | lock => exact ⟨time, hTime, hReach.step (a := .clear) rfl⟩
  | wait hNow => exact h.same rfl rfl hNow
  | insert hRole hJob hDone hEpoch hActive hNow => exact h.same rfl rfl hNow
  | @note e hOut hNote =>
    refine h.same rfl (List.filterMap_cons_none ?_) (Nat.le_refl _)
    cases e <;> first | rfl | cases hNote
  | enqueue n scope key ttl =>
    rcases enqueue_spec c.st n scope key c.clock ttl with
      ⟨_, hEq⟩ | ⟨_, _, _, _, _, hEq⟩ | ⟨_, _, hEq⟩ <;> rw [hEq]
    · exact h
    · exact h.same rfl rfl (Nat.le_refl _)
    · exact h.same rfl rfl (Nat.le_refl _)
  | kill id =>
    have hTrail := killActive_trail c.st id
    obtain ⟨active, trail, hEq⟩ := killActive_frame c.st id
    rw [hEq] at hTrail ⊢
    rcases hTrail with hSame | ⟨_, _, hNew⟩
    · exact h.same rfl (congrArg _ hSame) (Nat.le_refl _)
    · exact h.same rfl (by rw [hNew]; rfl) (Nat.le_refl _)
  | _ => exact h.same rfl rfl (Nat.le_refl _)

end ReceiptRun

section

variable {cfg : Config} {bootId instanceId : String} {w : World} {s : Sys}

theorem receiptRun_reachable (hReach : Reachable (broker cfg bootId instanceId w) s) :
    ReceiptRun s.core :=
  core_invariant ⟨0, Nat.le_refl _, .init⟩ (fun _ _ _ _ _ h hMicro => h.micro hMicro) hReach

/-- **A REDEEM spends a touch of its own.** A successful REDEEM honours a receipt that an AUTHORIZE
for the same capability minted within `receiptTtl`; no LOCK and no other REDEEM has ended it since,
and the key was decrypted for a request of that AUTHORIZE. -/
theorem redeem_spends_touch (hReach : Reachable (broker cfg bootId instanceId w) s)
    (hBound : asks s.st.trail ≤ wordMax) {newer older : List Event} {n now deadline : Nat}
    {id : List UInt8} {cap : Capability}
    (hRedeem : s.st.trail = newer ++ .redeemed n id cap now deadline :: older) :
    ∃ mid h receipt minted before job, older = mid ++ .minted h cap receipt minted :: before ∧
      receipt.bytes = id ∧ minted ≤ now ∧ now - minted < receiptTtl ∧
      (∀ e ∈ mid, ∀ r ∈ e.receipt, ¬ r.Ends id) ∧ Ceremony h cap job before := by
  obtain ⟨time, -, hTable⟩ := receiptRun_reachable hReach
  have hLog : s.core.st.trail.filterMap Event.receipt = newer.filterMap Event.receipt ++
      .redeemed id cap now :: older.filterMap Event.receipt := by
    rw [show s.core.st.trail = _ from hRedeem, List.filterMap_append]
    rfl
  obtain ⟨_, _, _, hSplit, ⟨minted, rfl, hAfter, hLive⟩, hKept⟩ :=
    (receiptInv_reachable hTable).honoured _ _ _ hLog id cap now rfl
  -- the table's log is the history without the other events, so the history splits there, too
  obtain ⟨mid, rest, hOlder, rfl, hRest⟩ := List.filterMap_eq_append_iff.mp hSplit
  obtain ⟨quiet, e, before, rfl, hQuiet, hMint, -⟩ := List.filterMap_eq_cons_iff.mp hRest
  cases e with
  | minted h _ receipt _ =>
    cases hMint
    rw [← List.append_assoc] at hOlder
    have hTrail : s.st.trail = (newer ++ .redeemed n receipt.bytes cap now deadline ::
        (mid ++ quiet)) ++ .minted h cap receipt minted :: before := by
      rw [hRedeem, hOlder]
      simp
    have hFewer : asks before ≤ asks s.st.trail := by
      rw [hTrail]
      exact ((List.sublist_cons_self ..).trans (List.sublist_append_right ..)).countP_le
    obtain ⟨job, hJob⟩ :=
      ceremony_of_minted hReach _ _ _ hTrail h cap receipt minted rfl (hFewer.trans hBound)
    refine ⟨mid ++ quiet, h, receipt, minted, before, job, hOlder, rfl, hAfter, hLive, ?_, hJob⟩
    intro x hx r hr
    rcases List.mem_append.mp hx with hMid | hOther
    · exact hKept r (List.mem_filterMap.mpr ⟨x, hMid, hr⟩)
    · cases (hQuiet x hOther).symm.trans hr
  | _ => cases hMint

end

/-- An AUTHORIZE, its touch and the REDEEM. -/
theorem redeem_after_touch :
    ∃ (s : Sys) (h : Nat) (cap : Capability) (job : Job) (before : List Event),
      Reachable (broker (Config.default [⟨"host", "/d"⟩]) "boot" "id" (fileWorld "CAP_X.env" 1)) s ∧
      (∃ n id now deadline, .redeemed n id cap now deadline ∈ s.st.trail) ∧
      Ceremony h cap job before := by
  let sys := broker (Config.default [⟨"host", "/d"⟩]) "boot" "id" (fileWorld "CAP_X.env" 1)
  let turn : Action := .handle 0 (.at 0) [⟨List.replicate 32 7, rfl⟩]
  let actions : List Action :=
    [.receive 0 (.authorize "x" none (some "/dev/pts/1")) ⟨1⟩, turn, turn, turn, .tick 0,
     .openFile true, .spawn (some 7), .start,
     .poll (.exited ⟨true, some [], some [67, 65, 80, 95, 88, 61, 115, 10]⟩), .report (.at 0),
     turn, turn, turn, .receive 1 (.redeem (Hygiene.encode (List.replicate 32 7)) "x") ⟨1⟩,
     .handle 1 (.at 0) []]
  have hReplay : ((sys.run sys.init actions).map fun s =>
      decide (asks s.st.trail = 1) && s.st.trail.any fun e => e.deadline.isSome) = some true := by
    decide +kernel
  obtain ⟨s, hReach, hSeen⟩ := Reachable.of_replay hReplay
  rw [Bool.and_eq_true, decide_eq_true_eq, List.any_eq_true] at hSeen
  obtain ⟨hAsks, e, he, hRedeemed⟩ := hSeen
  obtain ⟨newer, older, hTrail⟩ := List.mem_iff_append.mp he
  cases e with
  | redeemed n id cap now deadline =>
    obtain ⟨_, h, _, _, before, job, -, -, -, -, -, hJob⟩ :=
      redeem_spends_touch hReach (by rw [hAsks]; decide) hTrail
    exact ⟨s, h, cap, job, before, hReach, ⟨n, id, now, deadline, he⟩, hJob⟩
  | _ => cases hRedeemed

end Forward.Secrets

import Forward.Lib.Carry
import Forward.Secrets.Provenance

/-!
# Which operations leave final states alone

A request ends as `Granted`, `Denied`, `TimedOut` or `Failed`. Every operation of the queue but one
looks at the state before it writes; `fail` writes `Failed` over whatever is there. A DENY, a LOCK
or a timeout during a decrypt kills the sops child, and the worker's report of that overwrites the
state.
-/

namespace Forward.Secrets

open Lib

/-! ## Operations of the queue -/

def PendingRequest.Keeps (r r' : PendingRequest) : Prop :=
  r'.asked = r.asked ∧ (r.state.isActive = false → r'.state = r.state)

theorem PendingRequest.Keeps.refl (r : PendingRequest) : r.Keeps r := ⟨rfl, fun _ => rfl⟩

theorem PendingRequest.Keeps.trans {r r' r'' : PendingRequest} (h : r.Keeps r')
    (h' : r'.Keeps r'') : r.Keeps r'' := by
  refine ⟨h'.1.trans h.1, fun hFinal => ?_⟩
  have hSame := h.2 hFinal
  rw [← hSame] at hFinal
  exact (h'.2 hFinal).trans hSame

namespace Queue

variable {q : Queue} {id now generation : Nat} {state : RequestState}
  {fresh : PendingRequest → Prop}

theorem update_carried {f : PendingRequest → PendingRequest} (hf : ∀ r, (f r).asked = r.asked)
    (h : ∀ r, q.requests.find? (byId id) = some r →
      r.state.isActive ∨ (f r).state = r.state) :
    Carried PendingRequest.Keeps fresh q.requests (updateFirst (byId id) f q.requests) := by
  refine .updateFirst PendingRequest.Keeps.refl fun r hr => ⟨hf r, fun hFinal => ?_⟩
  rcases h r hr with hActive | hSame
  · rw [hActive] at hFinal
    cases hFinal
  · exact hSame

theorem expel_carried :
    Carried PendingRequest.Keeps fresh q.requests (q.expel id state now).1.requests := by
  rcases q.expel_cases id state now with ⟨r, hFind, hActive, hEq⟩ | ⟨_, hEq⟩
  · rw [hEq]
    refine update_carried ?_ ?_
    · exact fun _ => rfl
    · intro r' hr'
      rw [hFind] at hr'
      cases hr'
      exact .inl hActive
  · rw [hEq]
    exact .refl PendingRequest.Keeps.refl _

theorem sweepTimeouts_carried :
    Carried PendingRequest.Keeps fresh q.requests (q.sweepTimeouts now).1.requests := by
  rw [sweepTimeouts_requests]
  refine .map (fun r => ?_) _
  by_cases hExpired : q.expired now r
  · rw [swept_of_expired hExpired]
    refine ⟨rfl, fun hFinal => ?_⟩
    rw [(expired_iff.mp hExpired).1] at hFinal
    cases hFinal
  · rw [swept_of_not_expired hExpired]
    exact PendingRequest.Keeps.refl r

theorem markDecrypting_carried :
    Carried PendingRequest.Keeps fresh q.requests (q.markDecrypting id now).1.requests := by
  rcases hMark : q.markDecrypting id now with ⟨q', _ | g⟩
  · rw [markDecrypting_none hMark]
    exact .refl PendingRequest.Keeps.refl _
  · obtain ⟨-, -, -, ⟨r, hFind, hPending⟩, rfl⟩ := markDecrypting_some hMark
    refine update_carried ?_ ?_
    · exact fun _ => rfl
    · intro r' hr'
      rw [hFind] at hr'
      cases hr'
      rw [hPending]
      exact .inl rfl

theorem stateOf_of_stillCurrent (hFlight : Flight q (some (id, generation)))
    (hCurrent : q.stillCurrent id generation) : q.stateOf id = some .decrypting := by
  refine (hFlight.slot_iff id).mp ?_
  rcases hFlight.slot_of_job with hFree | hSlot
  · -- with a free slot nothing decrypts
    cases hFlight with
    | idle _ hNone =>
      obtain ⟨r, hr, hMatch⟩ := List.any_eq_true.mp hCurrent
      simp only [Bool.and_eq_true, beq_iff_eq] at hMatch
      exact absurd hMatch.2 (hNone r hr)
    | busy r pre post _ _ hSlot =>
      rw [hFree] at hSlot
      cases hSlot
  · exact hSlot

theorem complete_carried (hFlight : Flight q (some (id, generation))) :
    Carried PendingRequest.Keeps fresh q.requests (q.complete id generation now).1.requests := by
  unfold complete
  split
  · rename_i hCurrent
    obtain ⟨r, hFind, hState⟩ := stateOf_eq_some.mp (stateOf_of_stillCurrent hFlight hCurrent)
    refine update_carried ?_ ?_
    · exact fun _ => rfl
    · intro r' hr'
      rw [hFind] at hr'
      cases hr'
      rw [hState]
      exact .inl rfl
  · exact .refl PendingRequest.Keeps.refl _

theorem fail_carried
    (h : ∀ state, q.stateOf id = some state → state.isActive ∨ state = .failed) :
    Carried PendingRequest.Keeps fresh q.requests (q.fail id now).requests := by
  refine update_carried ?_ ?_
  · exact fun _ => rfl
  · intro r hr
    rcases h r.state (stateOf_eq_some.mpr ⟨r, hr, rfl⟩) with hActive | hFailed
    · exact .inl hActive
    · exact .inr hFailed.symm

theorem fail_not_carried (h : q.stateOf id = some state) (hFinal : state.isActive = false)
    (hOther : state ≠ .failed) :
    ¬ Carried PendingRequest.Keeps (fun _ => False) q.requests (q.fail id now).requests := by
  intro hCarried
  obtain ⟨r, hFind, rfl⟩ := stateOf_eq_some.mp h
  obtain ⟨hId, pre, post, hSplit, hPre⟩ := find?_split hFind
  have hFailed : (q.fail id now).requests = pre ++ { r with state := .failed } :: post := by
    show updateFirst (byId id) _ q.requests = _
    rw [hSplit]
    exact updateFirst_append hPre hId
  rw [hFailed, hSplit] at hCarried
  -- nothing came or went, so the overwritten request stands against itself
  have hPairs := hCarried.forall₂ (by simp)
  have hTail := List.forall₂_drop_append _ pre (r :: post) hPairs.flip
  rw [List.drop_left] at hTail
  cases hTail with
  | cons hHead => exact hOther (hHead.2 hFinal).symm

end Queue

/-! ## Steps of the broker -/

/-- Every request that was in the queue is still there with its final state, if
it had one, or has been pruned; the others were enqueued meanwhile. -/
def FinalKept (st st' : State) : Prop :=
  ∃ new, st'.trail = new ++ st.trail ∧
    Carried PendingRequest.Keeps (fun r => ∃ h, .enqueued h r.asked ∈ new) st.queue.requests
      st'.queue.requests

namespace FinalKept

variable {st st' st'' : State}

theorem trans (h : FinalKept st st') (h' : FinalKept st' st'') : FinalKept st st'' := by
  obtain ⟨new, hTrail, hQueue⟩ := h
  obtain ⟨new', hTrail', hQueue'⟩ := h'
  refine ⟨new' ++ new, by rw [hTrail', hTrail, List.append_assoc], ?_⟩
  refine Carried.trans (fun _ _ _ => PendingRequest.Keeps.trans) ?_ hQueue (hQueue'.mono ?_)
  · rintro r r' ⟨h, hIn⟩ hKeeps
    exact ⟨h, by rw [hKeeps.1]; exact List.mem_append_right _ hIn⟩
  · rintro r ⟨h, hIn⟩
    exact ⟨h, List.mem_append_left _ hIn⟩

theorem of_queue (hTrail : ∃ new, st'.trail = new ++ st.trail)
    (hQueue : Carried PendingRequest.Keeps (fun _ => False) st.queue.requests
      st'.queue.requests) : FinalKept st st' := by
  obtain ⟨new, hNew⟩ := hTrail
  exact ⟨new, hNew, hQueue.mono fun _ hFalse => hFalse.elim⟩

theorem of_same (hTrail : ∃ new, st'.trail = new ++ st.trail) (hQueue : st'.queue = st.queue) :
    FinalKept st st' := by
  refine of_queue hTrail ?_
  rw [hQueue]
  exact .refl PendingRequest.Keeps.refl _

theorem refl (st : State) : FinalKept st st := of_same ⟨[], rfl⟩ rfl

end FinalKept

variable {w : World}

/-- **Outside the worker's report no operation touches a final state.** -/
theorem Micro.finalKept {role : Role} {c d : Core} (hRole : role ≠ .report)
    (h : Micro w role c d) : FinalKept c.st d.st := by
  have hTrail : ∃ new, d.st.trail = new ++ c.st.trail := by
    rcases h.trail_cases with hSame | ⟨e, _, hNew⟩
    · exact ⟨[], hSame⟩
    · exact ⟨[e], hNew⟩
  cases h with
  | enqueue n scope key ttl =>
    rcases enqueue_spec c.st n scope key c.clock ttl with
      ⟨_, hEq⟩ | ⟨_, _, _, _, _, hEq⟩ | ⟨r, hr, hEq⟩
    · rw [hEq]
      exact .refl _
    · rw [hEq]
      exact .of_same ⟨[_], rfl⟩ rfl
    · rw [hEq]
      refine ⟨[.enqueued n r], rfl, .append PendingRequest.Keeps.refl ⟨n, ?_⟩ _⟩
      rw [hr]
      exact List.mem_singleton_self _
  | expel => exact .of_queue hTrail Queue.expel_carried
  | sweepTimeouts => exact .of_queue hTrail Queue.sweepTimeouts_carried
  | prune _ => exact .of_queue hTrail (.filter PendingRequest.Keeps.refl _ _)
  | kill id => exact .of_same hTrail (killActive_queue id)
  | start hWorker hJob hReady hMark hDescribe =>
    rename_i queue id generation scope key ttl
    have hCarried : Carried PendingRequest.Keeps (fun _ => False) c.st.queue.requests
        (c.st.queue.markDecrypting id c.clock).1.requests := Queue.markDecrypting_carried
    rw [hMark] at hCarried
    exact .of_queue hTrail hCarried
  | complete hReport | insert hReport | fail hReport => exact absurd hReport hRole
  | _ => exact .of_same hTrail rfl

theorem Chain.finalKept {role : Role} {c d : Core} (hRole : role ≠ .report)
    (h : Chain w role c d) : FinalKept c.st d.st :=
  h.invariant (I := fun x => FinalKept c.st x.st)
    (fun _ _ hx hMicro => hx.trans (hMicro.finalKept hRole)) (.refl _)

/-- A failing report finds its request active, failed or gone. -/
def FailsActive (s : Sys) (a : Action) : Prop :=
  ∀ r job e, a = .report r → s.worker = .reporting job (.error e) →
    ∀ state, s.st.queue.stateOf job.id = some state → state.isActive = true ∨ state = .failed

section

variable {cfg : Config} {s t : Sys} {a : Action} {job : Job} {r : Readings}

theorem report_ok_carried {st : State} {file : DecryptedHumanFile}
    (hFlight : Flight st.queue (some (job.id, job.generation))) :
    Carried PendingRequest.Keeps (fun _ => False) st.queue.requests
      (st.report w job (.ok file) r).queue.requests := by
  have hDenied : Flight ((st.killActive job.id).denyStale w job r.t0).queue
        (some (job.id, job.generation)) ∧
      Carried PendingRequest.Keeps (fun _ => False) st.queue.requests
        ((st.killActive job.id).denyStale w job r.t0).queue.requests := by
    unfold State.denyStale
    split
    · rw [killActive_queue]
      exact ⟨hFlight.expel (by simp), Queue.expel_carried⟩
    · rw [killActive_queue]
      exact ⟨hFlight, .refl PendingRequest.Keeps.refl _⟩
  have hInstalled : ∀ st' : State, (st'.install job file r.t1 r.t2).queue =
      (st'.queue.complete job.id job.generation r.t1).1 := by
    intro st'
    unfold State.install
    split
    · rename_i hEq
      rw [hEq]
      rfl
    · rename_i hEq
      rw [hEq]
  show Carried _ _ st.queue.requests
    (((st.killActive job.id).denyStale w job r.t0).install job file r.t1 r.t2).queue.requests
  rw [hInstalled]
  exact Carried.trans (fun _ _ _ => PendingRequest.Keeps.trans) (fun _ _ hFalse _ => hFalse)
    hDenied.2 (Queue.complete_carried hDenied.1)

theorem report_error_effect (st : State) (w : World) (job : Job) (e : ErrCode) (r : Readings) :
    (st.report w job (.error e) r).queue = st.queue.fail job.id r.t0 ∧
    ∃ new, (st.report w job (.error e) r).trail = new ++ st.trail ∧
      ∀ h request, .enqueued h request ∉ new := by
  refine ⟨?_, ?_⟩
  · show (st.killActive job.id).queue.fail job.id r.t0 = _
    rw [killActive_queue]
  · rcases killActive_trail st job.id with hSame | ⟨active, _, hNew⟩
    · refine ⟨[.failed job e], ?_, by simp⟩
      show _ :: (st.killActive job.id).trail = _
      rw [hSame]
      rfl
    · refine ⟨[.failed job e, .killed active.processGroup active.child], ?_, by simp⟩
      show _ :: (st.killActive job.id).trail = _
      rw [hNew]
      rfl

/-- **A failing report keeps final states exactly when there is none to
overwrite.** -/
theorem report_finalKept_iff (st : State) (w : World) (job : Job) (e : ErrCode) (r : Readings) :
    FinalKept st (st.report w job (.error e) r) ↔
      ∀ state, st.queue.stateOf job.id = some state → state.isActive ∨ state = .failed := by
  obtain ⟨hQueue, new, hNew, hNone⟩ := report_error_effect st w job e r
  constructor
  · rintro ⟨new', hNew', hCarried⟩ state hState
    by_contra hBad
    rw [not_or, Bool.not_eq_true] at hBad
    rw [hQueue] at hCarried
    refine Queue.fail_not_carried hState hBad.1 hBad.2 (hCarried.mono ?_)
    rintro request ⟨h, hIn⟩
    rw [hNew, List.append_cancel_right_eq] at hNew'
    rw [← hNew'] at hIn
    exact hNone h _ hIn
  · intro hOk
    refine .of_queue ⟨new, hNew⟩ ?_
    rw [hQueue]
    exact Queue.fail_carried hOk

theorem step_finalKept (hInv : BrokerInv cfg s) (hMove : Sys.Move s a t) (hOk : FailsActive s a) :
    FinalKept s.st t.st := by
  cases hMove with
  | handle hTask hClock hHandle =>
    rename_i h r reads task task' st'
    have hSection : Chain s.world task.role s.core ⟨st', s.worker.job, r.t3⟩ :=
      handle_chain (hInv.tasks _ _ hTask) hClock hHandle
    have hKept : FinalKept s.st st' := hSection.finalKept task.role_ne.2.1
    obtain ⟨ans, hAns, -⟩ := conclude_trail st' h r.t0 task'
    refine hKept.trans (.of_same ⟨ans, hAns⟩ ?_)
    cases task' <;> rfl
  | tick hWorker hClock hTick | begin hWorker hClock hTick =>
    have hKept := (tick_steps hWorker hClock).finalKept (by decide)
    rw [hTick] at hKept
    exact hKept
  | start hWorker =>
    rename_i job file pg child
    show FinalKept s.st (s.st.onStarted job pg child)
    unfold State.onStarted
    split
    · exact .of_same ⟨[], rfl⟩ rfl
    · exact .of_same ⟨[_], rfl⟩ rfl
  | report hWorker hClock =>
    rename_i job result r
    show FinalKept s.st (s.st.report s.world job result r)
    cases result with
    | error e => exact (report_finalKept_iff _ _ _ _ _).mpr (hOk r job e rfl hWorker)
    | ok =>
      obtain ⟨new, hNew, -⟩ := (report_steps hInv hWorker hClock).trail_grows
      refine .of_queue ⟨new, hNew⟩ (report_ok_carried ?_)
      have hFlight := hInv.queue.inv.1
      unfold Sys.core at hFlight
      rw [hWorker] at hFlight
      exact hFlight
  | replace _ _ | receive _ | openFile _ _ | exited _ _ | deadline _ =>
    exact .of_same ⟨[_], rfl⟩ rfl
  | _ => exact .refl _

theorem step_finalKept_iff (hInv : BrokerInv cfg s) (hStep : s.step a = some t) :
    FinalKept s.st t.st ↔ FailsActive s a := by
  have hMove := Sys.step_move hStep
  refine ⟨?_, step_finalKept hInv hMove⟩
  rintro hKept r job e rfl hWorker
  cases hMove with
  | report hReporting =>
    rw [hWorker] at hReporting
    obtain ⟨rfl, rfl⟩ := Worker.reporting.inj hReporting
    exact (report_finalKept_iff s.st s.world job e r).mp hKept
  | os hOs => cases hOs

end

/-! ## What a waiter sees -/

namespace Queue

variable {q : Queue} {id id' now generation : Nat} {state state' : RequestState}

theorem stateOf_update {f : PendingRequest → PendingRequest} (hId : ∀ r, (f r).id = r.id)
    (h : q.stateOf id = some state)
    (hSelf : id' = id → ∀ r, q.requests.find? (byId id) = some r → (f r).state = r.state) :
    { q with requests := updateFirst (byId id') f q.requests }.stateOf id = some state := by
  obtain ⟨r, hFind, rfl⟩ := stateOf_eq_some.mp h
  refine stateOf_eq_some.mpr ?_
  by_cases hEq : id' = id
  · subst hEq
    refine ⟨f r, ?_, hSelf rfl r hFind⟩
    show (updateFirst (byId id') f q.requests).find? (byId id') = some (f r)
    rw [find?_updateFirst_self, hFind, Option.map_some]
    intro x hx
    rw [byId_iff, hId x]
    exact byId_iff.mp hx
  · refine ⟨r, ?_, rfl⟩
    show (updateFirst (byId id') f q.requests).find? (byId id) = some r
    rw [find?_updateFirst_of_disjoint, hFind]
    intro x hx
    have hx' : x.id ≠ id := by rw [byId_iff.mp hx]; exact hEq
    exact ⟨byId_false_iff.mpr hx', byId_false_iff.mpr (by rw [hId x]; exact hx')⟩

theorem stateOf_expel (h : q.stateOf id = some state) (hFinal : state.isActive = false) :
    (q.expel id' state' now).1.stateOf id = some state := by
  rcases q.expel_cases id' state' now with ⟨r, hFind, hActive, hEq⟩ | ⟨_, hEq⟩
  · rw [hEq]
    refine stateOf_update (fun _ => rfl) h ?_
    rintro rfl r' hr'
    -- the request under this id is active, but its state is final
    obtain ⟨r'', hr'', rfl⟩ := stateOf_eq_some.mp h
    rw [hFind] at hr''
    obtain rfl := Option.some.inj hr''
    rw [hActive] at hFinal
    cases hFinal
  · rw [hEq]
    exact h

theorem stateOf_enqueue {scope : Scope} {key : SecretName} {ttl : Option Nat}
    (h : q.stateOf id = some state) : (q.enqueue scope key now ttl).1.stateOf id = some state := by
  rcases q.enqueue_queue scope key now ttl with hEq | hEq
  · rw [hEq]
    exact h
  · rw [hEq]
    obtain ⟨r, hFind, rfl⟩ := stateOf_eq_some.mp h
    refine stateOf_eq_some.mpr ⟨r, ?_, rfl⟩
    show (q.requests ++ [_]).find? (byId id) = some r
    rw [List.find?_append, hFind]
    rfl

theorem find?_sweepTimeouts {r : PendingRequest} (h : q.requests.find? (byId id) = some r)
    (hFinal : r.state.isActive = false) (now : Nat) :
    (q.sweepTimeouts now).1.requests.find? (byId id) = some r := by
  have hSame : q.swept now r = r := by
    refine swept_of_not_expired fun hExpired => ?_
    rw [(expired_iff.mp hExpired).1] at hFinal
    cases hFinal
  have hCol : (byId id) ∘ (q.swept now) = byId id := by
    funext x
    simp [byId]
  rw [sweepTimeouts_requests, List.find?_map, hCol, h, Option.map_some, hSame]

theorem stateOf_sweepTimeouts (h : q.stateOf id = some state) (hFinal : state.isActive = false) :
    (q.sweepTimeouts now).1.stateOf id = some state := by
  obtain ⟨r, hFind, rfl⟩ := stateOf_eq_some.mp h
  exact stateOf_eq_some.mpr ⟨r, find?_sweepTimeouts hFind hFinal now, rfl⟩

theorem find?_prune {r : PendingRequest} (h : q.requests.find? (byId id) = some r)
    (hKeep : q.retained now r) : (q.prune now).requests.find? (byId id) = some r := by
  obtain ⟨hId, pre, post, hSplit, hPre⟩ := find?_split h
  refine List.find?_eq_some_iff_append.mpr ⟨hId, pre.filter (q.retained now),
    post.filter (q.retained now), ?_, ?_⟩
  · show q.requests.filter (q.retained now) = _
    rw [hSplit, List.filter_append, List.filter_cons_of_pos hKeep]
  · intro x hx
    rw [hPre x (List.mem_of_mem_filter hx)]
    rfl

theorem stateOf_markDecrypting (h : q.stateOf id = some state) (hFinal : state.isActive = false) :
    (q.markDecrypting id' now).1.stateOf id = some state := by
  rcases hMark : q.markDecrypting id' now with ⟨q', _ | g⟩
  · rw [markDecrypting_none hMark]
    exact h
  · obtain ⟨-, -, -, ⟨r, hFind, hPending⟩, rfl⟩ := markDecrypting_some hMark
    refine stateOf_update (q := q) (fun _ => rfl) h ?_
    rintro rfl r' hr'
    obtain ⟨r'', hr'', rfl⟩ := stateOf_eq_some.mp h
    rw [hFind] at hr''
    obtain rfl := Option.some.inj hr''
    rw [hPending] at hFinal
    cases hFinal

theorem stateOf_complete (hFlight : Flight q (some (id', generation)))
    (h : q.stateOf id = some state) (hFinal : state.isActive = false) (now : Nat) :
    (q.complete id' generation now).1.stateOf id = some state := by
  unfold complete
  split
  · rename_i hCurrent
    refine stateOf_update (fun _ => rfl) h ?_
    rintro rfl r hr
    rw [stateOf_of_stillCurrent hFlight hCurrent] at h
    cases h
    cases hFinal
  · exact h

theorem stateOf_fail (h : q.stateOf id = some state)
    (hOk : id' = id → state.isActive ∨ state = .failed) (hFinal : state.isActive = false) :
    (q.fail id' now).stateOf id = some state := by
  refine stateOf_update (fun _ => rfl) h ?_
  rintro rfl r hr
  rcases hOk rfl with hActive | rfl
  · rw [hActive] at hFinal
    cases hFinal
  · obtain ⟨r', hr', hFailed⟩ := stateOf_eq_some.mp h
    rw [hr] at hr'
    cases hr'
    exact hFailed.symm

end Queue

section

variable {w : World} {role : Role} {c d : Core} {id : Nat} {state : RequestState}

theorem Micro.stateOf_final (hWorker : role ≠ .worker) (hReport : role ≠ .report)
    (h : Micro w role c d) (hState : c.st.queue.stateOf id = some state)
    (hFinal : state.isActive = false) : d.st.queue.stateOf id = some state := by
  cases h with
  | enqueue =>
    rw [enqueue_queue]
    exact Queue.stateOf_enqueue hState
  | expel => exact Queue.stateOf_expel hState hFinal
  | sweepTimeouts => exact Queue.stateOf_sweepTimeouts hState hFinal
  | prune hRole | start hRole => exact absurd hRole hWorker
  | kill =>
    rw [killActive_queue]
    exact hState
  | complete hRole | insert hRole | fail hRole => exact absurd hRole hReport
  | _ => exact hState

theorem killAll_queue (ids : List Nat) (st : State) :
    (ids.foldl State.killActive st).queue = st.queue := by
  induction ids generalizing st with
  | nil => rfl
  | cons id rest ih => rw [List.foldl_cons, ih, killActive_queue]

theorem tick_queue (st : State) (w : World) (now : Nat) :
    (st.tick w now).1.queue = (st.queue.sweepTimeouts now).1.prune now ∨
    ∃ id, (st.tick w now).1.queue =
      (((st.queue.sweepTimeouts now).1.prune now).markDecrypting id now).1 := by
  unfold State.tick
  dsimp only
  rw [killAll_queue]
  split
  · exact .inl rfl
  · rename_i id _
    split
    · rename_i hMark
      exact .inr ⟨id, by rw [hMark]⟩
    · rename_i hMark
      split
      · rename_i hNone
        obtain ⟨_, _, hSome⟩ := Queue.describe_of_mark hMark
        rw [hNone] at hSome
        cases hSome
      · exact .inr ⟨id, by rw [hMark]; rfl⟩

theorem tick_stateOf {st : State} {now : Nat}
    (hTimed : ∀ r ∈ st.queue.requests, r.created ≤ now)
    (hYoung : ∀ r ∈ st.queue.requests, r.id = id →
      durationSince now r.created < saturatingMul st.queue.limits.ttl 2)
    (hState : st.queue.stateOf id = some state) (hFinal : state.isActive = false) :
    (st.tick w now).1.queue.stateOf id = some state := by
  obtain ⟨r, hFind, rfl⟩ := Queue.stateOf_eq_some.mp hState
  have hMem := List.mem_of_find?_eq_some hFind
  have hId := Queue.byId_iff.mp (List.find?_some hFind)
  have hLimits : (st.queue.sweepTimeouts now).1.limits = st.queue.limits :=
    Queue.foldl_finish_limits _ _
  have hSwept := Queue.find?_sweepTimeouts hFind hFinal now
  have hRetained : (st.queue.sweepTimeouts now).1.retained now r := by
    unfold Queue.retained
    rw [hLimits, checkedDurationSince_of_le (hTimed r hMem), Option.any_some]
    have := hYoung r hMem hId
    simp only [durationSince] at this
    simp [this]
  have hPruned : ((st.queue.sweepTimeouts now).1.prune now).stateOf id = some r.state :=
    Queue.stateOf_eq_some.mpr ⟨r, Queue.find?_prune hSwept hRetained, rfl⟩
  rcases tick_queue st w now with hEq | ⟨_, hEq⟩
  · rw [hEq]
    exact hPruned
  · rw [hEq]
    exact Queue.stateOf_markDecrypting hPruned hFinal

/-- No tick comes so late that it prunes a request somebody waits on. -/
def KeepsWaited (s : Sys) (a : Action) : Prop :=
  ∀ now h flow scope key source id deadline, a = .tick now →
    s.tasks h = some (.waiting flow scope key source id deadline) →
    ∀ r ∈ s.st.queue.requests, r.id = id →
      durationSince now r.created < saturatingMul s.st.queue.limits.ttl 2

variable {cfg : Config} {s t : Sys} {a : Action}

theorem report_stateOf {st : State} {job : Job} {result : Except ErrCode DecryptedHumanFile}
    {r : Readings} (hFlight : Flight st.queue (some (job.id, job.generation)))
    (hOk : ∀ e, result = .error e → job.id = id → state.isActive ∨ state = .failed)
    (hState : st.queue.stateOf id = some state) (hFinal : state.isActive = false) :
    (st.report w job result r).queue.stateOf id = some state := by
  rw [← killActive_queue job.id] at hState hFlight
  cases result with
  | error e => exact Queue.stateOf_fail hState (hOk e rfl) hFinal
  | ok file =>
    have hDenied : Flight ((st.killActive job.id).denyStale w job r.t0).queue
          (some (job.id, job.generation)) ∧
        ((st.killActive job.id).denyStale w job r.t0).queue.stateOf id = some state := by
      unfold State.denyStale
      split
      · exact ⟨hFlight.expel (by simp), Queue.stateOf_expel hState hFinal⟩
      · exact ⟨hFlight, hState⟩
    have hDone := Queue.stateOf_complete hDenied.1 hDenied.2 hFinal r.t1
    show (((st.killActive job.id).denyStale w job r.t0).install job file r.t1 r.t2).queue.stateOf
      id = some state
    unfold State.install
    split
    · rename_i hEq
      rw [hEq] at hDone
      exact hDone
    · rename_i hEq
      rw [hEq] at hDone
      exact hDone

theorem waited_step {h : Nat} {flow : Flow} {scope : Scope} {key : SecretName} {source : String}
    {deadline : Nat} (hInv : BrokerInv cfg s) (hFails : FailsActive s a) (hKeeps : KeepsWaited s a)
    (hOther : ∀ r reads, a ≠ .handle h r reads) (hStep : s.step a = some t)
    (hTask : s.tasks h = some (.waiting flow scope key source id deadline))
    (hState : s.st.queue.stateOf id = some state) (hFinal : state.isActive = false) :
    t.tasks h = some (.waiting flow scope key source id deadline) ∧
      t.st.queue.stateOf id = some state := by
  have hTimed : ∀ now, s.clock ≤ now → ∀ r ∈ s.st.queue.requests, r.created ≤ now :=
    fun now hNow r hr => Nat.le_trans (hInv.queue.inv.2.1.past r hr) hNow
  cases Sys.step_move hStep with
  | receive hFree =>
    rename_i n request caller
    refine ⟨?_, hState⟩
    have hNe : h ≠ n := by
      rintro rfl
      rw [hTask] at hFree
      cases hFree
    simpa [Sys.setTask, Function.update_of_ne hNe] using hTask
  | handle hTask' hClock hHandle =>
    rename_i n r reads task task' st'
    have hNe : h ≠ n := by
      rintro rfl
      exact hOther r reads rfl
    refine ⟨by simpa [Sys.setTask, Function.update_of_ne hNe] using hTask, ?_⟩
    have hSection : Chain s.world task.role s.core ⟨st', s.worker.job, r.t3⟩ :=
      handle_chain (hInv.tasks _ _ hTask') hClock hHandle
    have hSeen : st'.queue.stateOf id = some state := by
      refine hSection.invariant (I := fun x => x.st.queue.stateOf id = some state) ?_ hState
      intro x y hx hMicro
      exact hMicro.stateOf_final task.role_ne.1 task.role_ne.2.1 hx hFinal
    cases task' <;> exact hSeen
  | tick hWorker hClock hTick =>
    rename_i now st'
    have hSeen := tick_stateOf (w := s.world) (hTimed now hClock)
      (hKeeps now h flow scope key source id deadline rfl hTask) hState hFinal
    rw [hTick] at hSeen
    exact ⟨hTask, hSeen⟩
  | begin hWorker hClock hTick =>
    rename_i now st' job
    have hSeen := tick_stateOf (w := s.world) (hTimed now hClock)
      (hKeeps now h flow scope key source id deadline rfl hTask) hState hFinal
    rw [hTick] at hSeen
    exact ⟨hTask, hSeen⟩
  | start hWorker =>
    rename_i job file pg child
    refine ⟨hTask, ?_⟩
    show (s.st.onStarted job pg child).queue.stateOf id = some state
    unfold State.onStarted
    split <;> exact hState
  | report hWorker hClock =>
    rename_i job result r
    have hFlight := hInv.queue.inv.1
    unfold Sys.core at hFlight
    rw [hWorker] at hFlight
    refine ⟨hTask, report_stateOf hFlight ?_ hState hFinal⟩
    rintro e rfl rfl
    exact hFails r job e rfl hWorker state hState
  | _ => exact ⟨hTask, hState⟩

end

section

variable {cfg : Config} {bootId instanceId : String} {w : World} {s : Sys}

/-- What a waiter is told about a request that was denied or timed out. -/
def RequestState.toldAs : RequestState → Option ErrCode
  | .denied => some .denied
  | .timedOut => some .timeout
  | _ => none

/-- **When final states are final.** A step moves no request out of a final state exactly when it is
not a failing report on a request that is granted, denied or timed out. While that holds, and no
request is pruned that a handler waits on, a handler whose request was denied or timed out is told
so at its next turn. -/
theorem final_states_final (hReach : Reachable (broker cfg bootId instanceId w) s) :
    (∀ a t, s.step a = some t → (FinalKept s.st t.st ↔ FailsActive s a)) ∧
    (∀ h flow scope key source id deadline state error t,
      s.tasks h = some (.waiting flow scope key source id deadline) →
      s.st.queue.stateOf id = some state → state.toldAs = some error →
      Path (broker cfg bootId instanceId w)
        (fun x a => FailsActive x a ∧ KeepsWaited x a ∧ ∀ r reads, a ≠ .handle h r reads) s t →
      t.tasks h = some (.waiting flow scope key source id deadline) ∧
      ∀ r reads, t.st.handle t.world h r reads (.waiting flow scope key source id deadline) =
        some (t.st, flow.finish
          ⟨.failed error "approval did not complete", some scope.kind, none, some id⟩)) := by
  refine ⟨fun a t hStep => step_finalKept_iff (brokerInv_reachable hReach) hStep, ?_⟩
  intro h flow scope key source id deadline state error t hTask hState hTold hPath
  have hFinal : state.isActive = false := by
    cases state <;> first | rfl | cases hTold
  have hKept : t.tasks h = some (.waiting flow scope key source id deadline) ∧
      t.st.queue.stateOf id = some state := by
    induction hPath with
    | refl => exact ⟨hTask, hState⟩
    | step a hBefore hOk hStep ih =>
      have hInv := brokerInv_reachable (hReach.path hBefore)
      exact waited_step hInv hOk.1 hOk.2.1 hOk.2.2 hStep ih.1 ih.2 hFinal
  refine ⟨hKept.1, fun r reads => ?_⟩
  rw [handle_waiting]
  unfold State.awaitLoop
  rw [hKept.2]
  cases state with
  | denied | timedOut =>
    cases hTold
    rfl
  | _ => cases hTold

end

def waitsOn (id : Nat) : Option Task → Bool
  | some (.waiting _ _ _ _ n _) => decide (n = id)
  | _ => false

/-- A pending request is denied; the worker's next tick leaves it so, and its
waiter is told. -/
theorem final_states_final_denied :
    ∃ (s t : Sys) (flow : Flow) (scope : Scope) (key : SecretName) (source : String)
      (deadline : Nat),
      Reachable (broker (Config.default [⟨"host", "/d"⟩]) "boot" "id" (fileWorld "A.env" 1)) s ∧
      s.step (.tick 0) = some t ∧ FinalKept s.st t.st ∧
      t.tasks 0 = some (.waiting flow scope key source 1 deadline) ∧
      ∀ r reads, t.st.handle t.world 0 r reads (.waiting flow scope key source 1 deadline) =
        some (t.st, flow.finish
          ⟨.failed .denied "approval did not complete", some scope.kind, none, some 1⟩) := by
  let sys := broker (Config.default [⟨"host", "/d"⟩]) "boot" "id" (fileWorld "A.env" 1)
  let turn : Action := .handle 0 (.at 0) []
  let actions : List Action :=
    [.receive 0 (.get "A" none (some "/dev/pts/1") none) ⟨1⟩, turn, turn, turn,
     .receive 1 (.deny 1) ⟨1⟩, .handle 1 (.at 0) []]
  have hReplay : ((sys.run sys.init actions).bind fun s => (s.step (.tick 0)).map fun _ =>
      waitsOn 1 (s.tasks 0) && decide (s.st.queue.stateOf 1 = some .denied)) = some true := by
    decide +kernel
  simp only [Option.bind_eq_some_iff, Option.map_eq_some_iff] at hReplay
  obtain ⟨s, hRun, t, hStep, hSeen⟩ := hReplay
  rw [Bool.and_eq_true, decide_eq_true_eq] at hSeen
  obtain ⟨hWaits, hDenied⟩ := hSeen
  have hReach : Reachable sys s := Path.of_run hRun
  have hFails : FailsActive s (.tick 0) := by
    intro _ _ _ hReport
    cases hReport
  have hKeeps : KeepsWaited s (.tick 0) := by
    intro now _ _ _ _ _ _ _ hNow _ r _ _
    obtain rfl := Action.tick.inj hNow
    have hLimits : s.st.queue.limits = (Config.default [⟨"host", "/d"⟩]).queueLimits :=
      (brokerInv_reachable hReach).queue.inv.2.2
    rw [hLimits]
    have hZero : durationSince 0 r.created = 0 := Nat.zero_sub _
    rw [hZero]
    decide
  unfold waitsOn at hWaits
  split at hWaits
  · rename_i flow scope key source id deadline hTask
    obtain rfl := of_decide_eq_true hWaits
    have hPath : Path sys
        (fun x a => FailsActive x a ∧ KeepsWaited x a ∧ ∀ r reads, a ≠ .handle 0 r reads) s t :=
      .single ⟨hFails, hKeeps, fun _ _ hEq => by cases hEq⟩ hStep
    obtain ⟨hIff, hWaiter⟩ := final_states_final hReach
    obtain ⟨hStays, hTold⟩ := hWaiter 0 flow scope key source 1 deadline .denied .denied t hTask
      hDenied rfl hPath
    exact ⟨s, t, flow, scope, key, source, deadline, hReach, hStep,
      (hIff _ t hStep).mpr hFails, hStays, hTold⟩
  · cases hWaits

/-- The worker is about to report that the job with this id failed. -/
def Worker.reportsFailed (id : Nat) : Worker → Bool
  | .reporting job (.error _) => decide (job.id = id)
  | _ => false

def toldOutcome (outcome : Outcome) : Option Task → Bool
  | some (.done decision) => decide (decision.outcome = outcome)
  | _ => false

/-- A request is denied while it decrypts, which kills the sops child. The worker
reports the child's failure before the waiter takes its turn: the denied
request becomes a failed one, and the waiter is told of an internal error. -/
theorem final_state_overwritten :
    ∃ (s t u : Sys) (decision : Decision),
      Reachable (broker (Config.default [⟨"host", "/d"⟩]) "boot" "id" (fileWorld "A.env" 1)) s ∧
      s.step (.report (.at 0)) = some t ∧ t.step (.handle 0 (.at 0) []) = some u ∧
      s.st.queue.stateOf 1 = some .denied ∧ t.st.queue.stateOf 1 = some .failed ∧
      ¬ FinalKept s.st t.st ∧ u.tasks 0 = some (.done decision) ∧
      decision.outcome = .failed .internal "approval did not complete" := by
  let sys := broker (Config.default [⟨"host", "/d"⟩]) "boot" "id" (fileWorld "A.env" 1)
  let turn : Action := .handle 0 (.at 0) []
  let actions : List Action :=
    [.receive 0 (.get "A" none (some "/dev/pts/1") none) ⟨1⟩, turn, turn, turn, .tick 0,
     .openFile true, .spawn (some 7), .start, .receive 1 (.deny 1) ⟨1⟩, .handle 1 (.at 0) [],
     .poll (.exited ⟨false, some [], some []⟩)]
  have hReplay : ((sys.run sys.init actions).bind fun s => (s.step (.report (.at 0))).bind fun t =>
      (t.step turn).map fun u =>
        decide (s.st.queue.stateOf 1 = some .denied ∧ t.st.queue.stateOf 1 = some .failed) &&
        s.worker.reportsFailed 1 &&
        toldOutcome (.failed .internal "approval did not complete") (u.tasks 0)) = some true := by
    decide +kernel
  simp only [Option.bind_eq_some_iff, Option.map_eq_some_iff] at hReplay
  obtain ⟨s, hRun, t, hStep, u, hTurn, hSeen⟩ := hReplay
  simp only [Bool.and_eq_true, decide_eq_true_eq] at hSeen
  obtain ⟨⟨⟨hDenied, hFailed⟩, hJob⟩, hTold⟩ := hSeen
  have hReach : Reachable sys s := Path.of_run hRun
  have hBroken : ¬ FinalKept s.st t.st := by
    rw [step_finalKept_iff (brokerInv_reachable hReach) hStep]
    intro hFails
    unfold Worker.reportsFailed at hJob
    split at hJob
    · rename_i job e hWorker
      rw [decide_eq_true_eq] at hJob
      have hBad := hFails (.at 0) job e rfl hWorker .denied (by rw [hJob]; exact hDenied)
      simp [RequestState.isActive] at hBad
    · cases hJob
  unfold toldOutcome at hTold
  split at hTold
  · rename_i decision hDone
    exact ⟨s, t, u, decision, hReach, hStep, hTurn, hDenied, hFailed, hBroken, hDone,
      of_decide_eq_true hTold⟩
  · cases hTold

end Forward.Secrets

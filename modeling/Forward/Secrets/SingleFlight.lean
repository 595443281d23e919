import Forward.Secrets.Approvals

/-!
# Single flight and the touch cooldown

The approval queue as its callers drive it: handlers enqueue, deny and time out requests, while the
one worker sweeps, prunes, starts a decrypt and later reports `complete` or `fail` for its job, at
times that never go back.

`Flight` names the one decrypting request by its place in the list: it is the *first* request with
its id. So the argument does not depend on how many requests were ever enqueued, although ids
saturate.
-/

namespace Forward.Secrets

open Lib

/-! ## The queue and its callers -/

/-- One operation on the queue. `start` is the worker's `next_ready` followed by
`mark_decrypting`; `complete` and `fail` report the worker's own job. -/
inductive QueueOp
  | enqueue (scope : Scope) (key : SecretName) (ttl : Option Nat)
  | start
  | complete
  | fail
  | deny (id : Nat)
  | timeout (id : Nat)
  | sweepTimeouts
  | prune

/-- The queue, the latest clock reading, and the job the worker is busy with:
its request id and the generation `mark_decrypting` returned. -/
structure QueueSys where
  queue : Queue
  clock : Nat
  job : Option (Nat × Nat)

namespace QueueSys

-- `next_ready(now)` and then `mark_decrypting(id, now)`, in one critical section
def start (q : Queue) (now : Nat) : Queue × Option (Nat × Nat) :=
  match q.nextReady now with
  | none => (q, none)
  | some id => ((q.markDecrypting id now).1, (q.markDecrypting id now).2.map fun g => (id, g))

/-- One operation at one clock reading; a reading before the last one, a start
while a job is out, or a report without a job is not enabled. -/
def step (s : QueueSys) (a : Nat × QueueOp) : Option QueueSys :=
  if a.1 < s.clock then none
  else
    match a.2, s.job with
    | .enqueue scope key ttl, job =>
      some ⟨(s.queue.enqueue scope key a.1 ttl).1, a.1, job⟩
    | .start, none => some ⟨(start s.queue a.1).1, a.1, (start s.queue a.1).2⟩
    | .start, some _ => none
    | .complete, some (id, g) => some ⟨(s.queue.complete id g a.1).1, a.1, none⟩
    | .complete, none => none
    | .fail, some (id, _) => some ⟨s.queue.fail id a.1, a.1, none⟩
    | .fail, none => none
    | .deny id, job => some ⟨(s.queue.deny id a.1).1, a.1, job⟩
    | .timeout id, job => some ⟨(s.queue.timeout id a.1).1, a.1, job⟩
    | .sweepTimeouts, job => some ⟨(s.queue.sweepTimeouts a.1).1, a.1, job⟩
    | .prune, job => some ⟨s.queue.prune a.1, a.1, job⟩

inductive Move (s : QueueSys) (now : Nat) : QueueOp → QueueSys → Prop
  | enqueue (scope : Scope) (key : SecretName) (ttl : Option Nat) :
      Move s now (.enqueue scope key ttl) ⟨(s.queue.enqueue scope key now ttl).1, now, s.job⟩
  | start (hJob : s.job = none) :
      Move s now .start ⟨(start s.queue now).1, now, (start s.queue now).2⟩
  | complete {id g : Nat} (hJob : s.job = some (id, g)) :
      Move s now .complete ⟨(s.queue.complete id g now).1, now, none⟩
  | fail {id g : Nat} (hJob : s.job = some (id, g)) :
      Move s now .fail ⟨s.queue.fail id now, now, none⟩
  | deny (id : Nat) : Move s now (.deny id) ⟨(s.queue.deny id now).1, now, s.job⟩
  | timeout (id : Nat) : Move s now (.timeout id) ⟨(s.queue.timeout id now).1, now, s.job⟩
  | sweepTimeouts : Move s now .sweepTimeouts ⟨(s.queue.sweepTimeouts now).1, now, s.job⟩
  | prune : Move s now .prune ⟨s.queue.prune now, now, s.job⟩

theorem step_move {s t : QueueSys} {now : Nat} {op : QueueOp} (h : s.step (now, op) = some t) :
    s.clock ≤ now ∧ Move s now op t := by
  unfold step at h
  split at h
  · cases h
  · rename_i hTime
    refine ⟨by simpa using hTime, ?_⟩
    dsimp only at h
    split at h
    case h_1 => injection h with h; exact h ▸ .enqueue _ _ _
    case h_2 hJob => injection h with h; exact h ▸ .start hJob
    case h_4 hJob => injection h with h; exact h ▸ .complete hJob
    case h_6 hJob => injection h with h; exact h ▸ .fail hJob
    case h_8 => injection h with h; exact h ▸ .deny _
    case h_9 => injection h with h; exact h ▸ .timeout _
    case h_10 => injection h with h; exact h ▸ .sweepTimeouts
    case h_11 => injection h with h; exact h ▸ .prune
    all_goals cases h

end QueueSys

def queueSystem (limits : QueueLimits) : System QueueSys (Nat × QueueOp) where
  init := ⟨Queue.new limits, 0, none⟩
  step := QueueSys.step

/-! ## The invariant -/

/-- Single flight, with the worker's job: either the slot is free and nothing
decrypts, or the slot holds the id of the one decrypting request, which is
the first with that id and runs the worker's generation. -/
inductive Flight : Queue → Option (Nat × Nat) → Prop
  | idle {q : Queue} {job : Option (Nat × Nat)} (hSlot : q.inflight = none)
      (hNone : ∀ r ∈ q.requests, r.state ≠ .decrypting) : Flight q job
  | busy {q : Queue} (r : PendingRequest) (pre post : List PendingRequest)
      (hSplit : q.requests = pre ++ r :: post) (hState : r.state = .decrypting)
      (hSlot : q.inflight = some r.id) (hFirst : ∀ x ∈ pre, x.id ≠ r.id)
      (hPre : ∀ x ∈ pre, x.state ≠ .decrypting) (hPost : ∀ x ∈ post, x.state ≠ .decrypting) :
      Flight q (some (r.id, r.generation))

/-- Requests stand in the order they were created, and nothing recorded lies
in the future. -/
structure WellTimed (q : Queue) (clock : Nat) : Prop where
  sorted : q.requests.Pairwise fun a b => a.created ≤ b.created
  past : ∀ r ∈ q.requests, r.created ≤ clock
  finished : ∀ last, q.lastFinished = some last → last ≤ clock

namespace Flight

variable {q q' : Queue} {job : Option (Nat × Nat)} {id g now : Nat}

theorem of_free (h : Flight q job) (hFree : q.inflight = none) (job' : Option (Nat × Nat)) :
    Flight q job' := by
  cases h with
  | idle hSlot hNone => exact .idle hSlot hNone
  | busy r pre post _ _ hSlot =>
    rw [hFree] at hSlot
    cases hSlot

theorem free_of_no_job (h : Flight q none) : q.inflight = none := by
  cases h with
  | idle hSlot => exact hSlot

theorem slot_of_job (h : Flight q (some (id, g))) :
    q.inflight = none ∨ q.inflight = some id := by
  cases h with
  | idle hSlot => exact .inl hSlot
  | busy r pre post _ _ hSlot => exact .inr hSlot

theorem update_finish (h : Flight q job) (id now : Nat) {f : PendingRequest → PendingRequest}
    (hId : ∀ r, (f r).id = r.id) (hState : ∀ r, (f r).state ≠ .decrypting) :
    Flight ({ q with requests := updateFirst (Queue.byId id) f q.requests }.finish id now) job ∧
    (q.inflight = none ∨ q.inflight = some id →
      ({ q with requests := updateFirst (Queue.byId id) f q.requests }.finish id now).inflight
        = none) := by
  cases h with
  | idle hSlot hNone =>
    have hFree : ({ q with requests := updateFirst (Queue.byId id) f q.requests }.finish id
        now).inflight = none := by
      simp [Queue.finish_inflight, hSlot]
    refine ⟨.idle hFree ?_, fun _ => hFree⟩
    intro x hx
    rcases mem_updateFirst hx with hx | ⟨y, _, _, rfl⟩
    · exact hNone x hx
    · exact hState y
  | busy r pre post hSplit hDec hSlot hFirst hPre hPost =>
    by_cases hr : r.id = id
    · -- the decrypting request itself: it is the first match, so it is updated
      have hUpd : updateFirst (Queue.byId id) f q.requests = pre ++ f r :: post := by
        rw [hSplit]
        refine updateFirst_append (fun y hy => ?_) (Queue.byId_iff.mpr hr)
        rw [Queue.byId_false_iff, ← hr]
        exact hFirst y hy
      have hFree : ({ q with requests := updateFirst (Queue.byId id) f q.requests }.finish id
          now).inflight = none := by
        simp [Queue.finish_inflight, hSlot, hr]
      refine ⟨.idle hFree ?_, fun _ => hFree⟩
      intro x hx
      rw [Queue.finish_requests] at hx
      change x ∈ updateFirst (Queue.byId id) f q.requests at hx
      rw [hUpd, List.mem_append, List.mem_cons] at hx
      rcases hx with hx | rfl | hx
      · exact hPre x hx
      · exact hState r
      · exact hPost x hx
    · -- another request: the decrypting one is no match and stays in place
      have hSlot' : ({ q with requests := updateFirst (Queue.byId id) f q.requests }.finish id
          now).inflight = some r.id := by
        simp [Queue.finish_inflight, hSlot, hr]
      refine ⟨?_, ?_⟩
      · obtain ⟨pre', post', hUpd, hPre', hPost'⟩ :=
          updateFirst_around (f := f) (Queue.byId_false_iff.mpr hr) pre post
        refine .busy r pre' post' (by rw [← hUpd, ← hSplit]; rfl) hDec hSlot' ?_ ?_ ?_
        · intro x hx
          rcases hPre' with rfl | rfl
          · exact hFirst x hx
          · rcases mem_updateFirst hx with hx | ⟨y, hy, _, rfl⟩
            · exact hFirst x hx
            · rw [hId y]
              exact hFirst y hy
        · intro x hx
          rcases hPre' with rfl | rfl
          · exact hPre x hx
          · rcases mem_updateFirst hx with hx | ⟨y, _, _, rfl⟩
            · exact hPre x hx
            · exact hState y
        · intro x hx
          rcases hPost' with rfl | rfl
          · exact hPost x hx
          · rcases mem_updateFirst hx with hx | ⟨y, _, _, rfl⟩
            · exact hPost x hx
            · exact hState y
      · rintro (hNone | hSome)
        · rw [hSlot] at hNone
          cases hNone
        · rw [hSlot, Option.some.injEq] at hSome
          exact absurd hSome hr

theorem enqueue (h : Flight q job) (scope : Scope) (key : SecretName) (ttl : Option Nat) :
    Flight (q.enqueue scope key now ttl).1 job := by
  rcases q.enqueue_queue scope key now ttl with hEq | hEq
  · rw [hEq]
    exact h
  · -- one pending request at the end of the list
    rw [hEq, Queue.push]
    cases h with
    | idle hSlot hNone =>
      refine .idle hSlot ?_
      intro x hx
      rcases List.mem_append.mp hx with hx | hx
      · exact hNone x hx
      · rw [List.mem_singleton] at hx
        rw [hx]
        simp
    | busy r pre post hSplit hDec hSlot hFirst hPre hPost =>
      refine .busy r pre _ (by rw [hSplit, List.append_assoc, List.cons_append]) hDec hSlot
        hFirst hPre ?_
      intro x hx
      rcases List.mem_append.mp hx with hx | hx
      · exact hPost x hx
      · rw [List.mem_singleton] at hx
        rw [hx]
        simp

theorem expel (h : Flight q job) {state : RequestState} (hState : state ≠ .decrypting) :
    Flight (q.expel id state now).1 job := by
  rcases q.expel_cases id state now with ⟨r, _, _, hEq⟩ | ⟨_, hEq⟩
  · rw [hEq]
    exact (h.update_finish id now (f := fun r =>
      { r with state := state, generation := satAdd r.generation 1 })
      (fun _ => rfl) fun _ => hState).1
  · rw [hEq]
    exact h

theorem fail (h : Flight q (some (id, g))) : Flight (q.fail id now) none := by
  have hUpd := h.update_finish id now
    (f := fun r => { r with state := .failed }) (fun _ => rfl) fun _ => by simp
  exact hUpd.1.of_free (hUpd.2 h.slot_of_job) none

theorem stillCurrent_of_slot (h : Flight q (some (id, g))) (hSlot : q.inflight = some id) :
    q.stillCurrent id g := by
  cases h with
  | idle hFree =>
    rw [hSlot] at hFree
    cases hFree
  | busy r pre post hSplit hDec =>
    unfold Queue.stillCurrent
    rw [hSplit, List.any_append, List.any_cons]
    simp [hDec]

theorem complete (h : Flight q (some (id, g))) : Flight (q.complete id g now).1 none := by
  unfold Queue.complete
  split
  · have hUpd := h.update_finish id now
      (f := fun r => { r with state := .granted }) (fun _ => rfl) fun _ => by simp
    exact hUpd.1.of_free (hUpd.2 h.slot_of_job) none
  · -- not current: some handler has already taken the slot
    rename_i hNot
    rcases h.slot_of_job with hFree | hSlot
    · cases h with
      | idle _ hNone => exact .idle (by simp [Queue.finish_inflight, hFree]) hNone
      | busy _ _ _ _ _ hSlot =>
        rw [hFree] at hSlot
        cases hSlot
    · exact absurd (h.stillCurrent_of_slot hSlot) hNot

/-- A decrypting request does not outlive a later one of its id: requests stand in order. -/
theorem sweepTimeouts {clock : Nat} (h : Flight q job) (hTimed : WellTimed q clock) :
    Flight (q.sweepTimeouts now).1 job := by
  have hSwept : ∀ x : PendingRequest, x.state ≠ .decrypting →
      (q.swept now x).state ≠ .decrypting := by
    intro x hx
    unfold Queue.swept
    split
    · simp
    · exact hx
  cases h with
  | idle hSlot hNone =>
    refine .idle (Queue.foldl_finish_inflight_none _ _ hSlot) ?_
    intro x hx
    rw [Queue.sweepTimeouts_requests, List.mem_map] at hx
    obtain ⟨y, hy, rfl⟩ := hx
    exact hSwept y (hNone y hy)
  | busy r pre post hSplit hDec hSlot hFirst hPre hPost =>
    have hMem : r ∈ q.requests := by simp [hSplit]
    by_cases hExp : q.expired now r
    · -- the decrypting request times out: its id is swept and frees the slot
      have hIn : r.id ∈ (q.requests.filter (q.expired now)).map (·.id) :=
        List.mem_map.mpr ⟨r, List.mem_filter.mpr ⟨hMem, hExp⟩, rfl⟩
      refine .idle (Queue.foldl_finish_inflight_mem hIn _ hSlot) ?_
      intro x hx
      rw [Queue.sweepTimeouts_requests, hSplit, List.map_append, List.map_cons,
        List.mem_append, List.mem_cons] at hx
      rcases hx with hx | rfl | hx
      · obtain ⟨y, hy, rfl⟩ := List.mem_map.mp hx
        exact hSwept y (hPre y hy)
      · rw [Queue.swept_of_expired hExp]
        simp
      · obtain ⟨y, hy, rfl⟩ := List.mem_map.mp hx
        exact hSwept y (hPost y hy)
    · have hNotIn : r.id ∉ (q.requests.filter (q.expired now)).map (·.id) := by
        intro hIn
        obtain ⟨x, hx, hxId⟩ := List.mem_map.mp hIn
        obtain ⟨hxMem, hxExp⟩ := List.mem_filter.mp hx
        rw [hSplit, List.mem_append, List.mem_cons] at hxMem
        rcases hxMem with hxPre | rfl | hxPost
        · exact hFirst x hxPre hxId
        · exact hExp hxExp
        · -- a later request is younger, so it cannot expire first
          have hOrder : r.created ≤ x.created := by
            have hSorted := hTimed.sorted
            rw [hSplit, List.pairwise_append] at hSorted
            exact (List.pairwise_cons.mp hSorted.2.1).1 x hxPost
          rw [Queue.expired_iff] at hxExp
          refine hExp (Queue.expired_iff.mpr ⟨by rw [hDec]; rfl, ?_, ?_⟩)
          · omega
          · omega
      refine .busy r (pre.map (q.swept now)) (post.map (q.swept now)) ?_ hDec
        (Queue.foldl_finish_inflight_not_mem hNotIn _ hSlot) ?_ ?_ ?_
      · rw [Queue.sweepTimeouts_requests, hSplit, List.map_append, List.map_cons,
          Queue.swept_of_not_expired hExp]
      · intro x hx
        obtain ⟨y, hy, rfl⟩ := List.mem_map.mp hx
        rw [Queue.swept_id]
        exact hFirst y hy
      · intro x hx
        obtain ⟨y, hy, rfl⟩ := List.mem_map.mp hx
        exact hSwept y (hPre y hy)
      · intro x hx
        obtain ⟨y, hy, rfl⟩ := List.mem_map.mp hx
        exact hSwept y (hPost y hy)

theorem prune (h : Flight q job) : Flight (q.prune now) job := by
  cases h with
  | idle hSlot hNone =>
    exact .idle hSlot fun x hx => hNone x (List.mem_of_mem_filter hx)
  | busy r pre post hSplit hDec hSlot hFirst hPre hPost =>
    have hKeep : q.retained now r := by
      unfold Queue.retained
      rw [hDec]
      rfl
    refine .busy r (pre.filter (q.retained now)) (post.filter (q.retained now)) ?_ hDec hSlot
      (fun x hx => hFirst x (List.mem_of_mem_filter hx))
      (fun x hx => hPre x (List.mem_of_mem_filter hx))
      (fun x hx => hPost x (List.mem_of_mem_filter hx))
    unfold Queue.prune
    rw [hSplit, List.filter_append, List.filter_cons_of_pos hKeep]

theorem markDecrypting (h : Flight q none) :
    Flight (q.markDecrypting id now).1 ((q.markDecrypting id now).2.map fun g => (id, g)) := by
  cases hMark : q.markDecrypting id now with
  | mk q' answer =>
    cases answer with
    | none =>
      rw [Queue.markDecrypting_none hMark]
      exact h
    | some g =>
      obtain ⟨hFree, _, _, ⟨r, hFind, hPending⟩, rfl⟩ := Queue.markDecrypting_some hMark
      obtain ⟨hr, pre, post, hSplit, hFirst⟩ := find?_split hFind
      have hNone : ∀ x ∈ q.requests, x.state ≠ .decrypting := by
        cases h with
        | idle _ hNone => exact hNone
      rw [Queue.byId_iff] at hr
      -- the first request with this id becomes the decrypting one
      have hUpd : updateFirst (Queue.byId id)
          (fun r => { r with state := .decrypting, generation := g }) q.requests =
          pre ++ { r with state := .decrypting, generation := g } :: post := by
        rw [hSplit]
        exact updateFirst_append hFirst (Queue.byId_iff.mpr hr)
      rw [show Option.map (fun g => (id, g)) (some g) = some (r.id, g) by rw [hr]; rfl]
      refine .busy { r with state := .decrypting, generation := g } pre post hUpd rfl
        (by rw [hr]) ?_ ?_ ?_
      · intro x hx
        rw [hr]
        exact Queue.byId_false_iff.mp (hFirst x hx)
      · exact fun x hx => hNone x (by simp [hSplit, hx])
      · exact fun x hx => hNone x (by simp [hSplit, hx])

theorem start (h : Flight q none) :
    Flight (QueueSys.start q now).1 (QueueSys.start q now).2 := by
  unfold QueueSys.start
  split
  · exact h
  · exact h.markDecrypting

theorem countP_le_one (h : Flight q job) :
    q.requests.countP (fun r => r.state == .decrypting) ≤ 1 := by
  have hZero : ∀ l : List PendingRequest, (∀ x ∈ l, x.state ≠ .decrypting) →
      l.countP (fun r => r.state == .decrypting) = 0 := by
    intro l hl
    rw [List.countP_eq_zero]
    intro x hx
    simpa using hl x hx
  cases h with
  | idle _ hNone =>
    rw [hZero _ hNone]
    omega
  | busy r pre post hSplit _ _ _ hPre hPost =>
    have hSelf : [r].countP (fun r => r.state == .decrypting) ≤ 1 := List.countP_le_length
    rw [hSplit, List.countP_append, show r :: post = [r] ++ post from rfl, List.countP_append,
      hZero _ hPre, hZero _ hPost]
    omega

theorem slot_iff (h : Flight q job) (i : Nat) :
    q.inflight = some i ↔ q.stateOf i = some .decrypting := by
  rw [Queue.stateOf_eq_some]
  cases h with
  | idle hSlot hNone =>
    constructor
    · intro hi
      rw [hSlot] at hi
      cases hi
    · rintro ⟨r, hFind, hDec⟩
      exact absurd hDec (hNone r (List.mem_of_find?_eq_some hFind))
  | busy r pre post hSplit hDec hSlot hFirst hPre hPost =>
    constructor
    · intro hi
      rw [hSlot, Option.some.injEq] at hi
      refine ⟨r, ?_, hDec⟩
      rw [hSplit, List.find?_eq_some_iff_append]
      refine ⟨Queue.byId_iff.mpr hi, pre, post, rfl, ?_⟩
      intro x hx
      have := Queue.byId_false_iff.mpr (hi ▸ hFirst x hx)
      simp [this]
    · rintro ⟨r', hFind, hDec'⟩
      have hMem := List.mem_of_find?_eq_some hFind
      have hId := Queue.byId_iff.mp (List.find?_some hFind)
      rw [hSplit, List.mem_append, List.mem_cons] at hMem
      rcases hMem with hx | rfl | hx
      · exact absurd hDec' (hPre r' hx)
      · rw [hSlot, hId]
      · exact absurd hDec' (hPost r' hx)

end Flight

/-! ## Time -/

namespace WellTimed

variable {q q' : Queue} {clock now : Nat}

theorem of_column (h : WellTimed q clock) (hNow : clock ≤ now)
    (hCol : q'.requests.map (·.created) = q.requests.map (·.created))
    (hLast : q'.lastFinished = q.lastFinished ∨ q'.lastFinished = some now) :
    WellTimed q' now := by
  refine ⟨?_, ?_, ?_⟩
  · have hSorted : (q'.requests.map (·.created)).Pairwise (· ≤ ·) := by
      rw [hCol]
      exact List.pairwise_map.mpr h.sorted
    exact List.pairwise_map.mp hSorted
  · intro r hr
    have hMem : r.created ∈ q.requests.map (·.created) := by
      rw [← hCol]
      exact List.mem_map_of_mem hr
    obtain ⟨r', hr', hEq⟩ := List.mem_map.mp hMem
    have := h.past r' hr'
    omega
  · intro last hl
    rcases hLast with hSame | hSome
    · have := h.finished last (hSame ▸ hl)
      omega
    · rw [hSome, Option.some.injEq] at hl
      omega

theorem update {f : PendingRequest → PendingRequest} (h : WellTimed q clock) (id : Nat)
    (hNow : clock ≤ now) (hf : ∀ r, (f r).created = r.created)
    (hReq : q'.requests = updateFirst (Queue.byId id) f q.requests)
    (hLast : q'.lastFinished = q.lastFinished ∨ q'.lastFinished = some now) :
    WellTimed q' now :=
  h.of_column hNow (by rw [hReq]; exact map_updateFirst (fun r _ => hf r) _) hLast

theorem enqueue (h : WellTimed q clock) (hNow : clock ≤ now) (scope : Scope) (key : SecretName)
    (ttl : Option Nat) : WellTimed (q.enqueue scope key now ttl).1 now := by
  have hSame : WellTimed q now := h.of_column hNow rfl (.inl rfl)
  rcases q.enqueue_queue scope key now ttl with hEq | hEq
  · rw [hEq]
    exact hSame
  · rw [hEq, Queue.push]
    refine ⟨?_, ?_, hSame.finished⟩
    · rw [List.pairwise_append]
      refine ⟨h.sorted, List.pairwise_singleton _ _, ?_⟩
      intro a ha b hb
      rw [List.mem_singleton] at hb
      rw [hb]
      exact hSame.past a ha
    · intro r hr
      rcases List.mem_append.mp hr with hr | hr
      · exact hSame.past r hr
      · rw [List.mem_singleton] at hr
        exact Nat.le_of_eq (by rw [hr])

theorem prune (h : WellTimed q clock) (hNow : clock ≤ now) : WellTimed (q.prune now) now := by
  have hSame : WellTimed q now := h.of_column hNow rfl (.inl rfl)
  exact ⟨hSame.sorted.filter _, fun r hr => hSame.past r (List.mem_of_mem_filter hr),
    hSame.finished⟩

variable {id : Nat}

theorem expel {state : RequestState} (h : WellTimed q clock) (hNow : clock ≤ now) :
    WellTimed (q.expel id state now).1 now := by
  rcases q.expel_cases id state now with ⟨r, _, _, hEq⟩ | ⟨_, hEq⟩
  · rw [hEq]
    exact h.update id (f := fun r =>
      { r with state := state, generation := satAdd r.generation 1 }) hNow (fun _ => rfl) rfl
      (.inr rfl)
  · rw [hEq]
    exact h.of_column hNow rfl (.inl rfl)

theorem sweepTimeouts (h : WellTimed q clock) (hNow : clock ≤ now) :
    WellTimed (q.sweepTimeouts now).1 now := by
  refine h.of_column hNow ?_ ?_
  · rw [Queue.sweepTimeouts_requests, List.map_map]
    exact List.map_congr_left fun r _ => Queue.swept_created r
  · unfold Queue.sweepTimeouts
    rw [Queue.foldl_finish_lastFinished]
    split
    · exact .inl rfl
    · exact .inr rfl

theorem start (h : WellTimed q clock) (hNow : clock ≤ now) :
    WellTimed (QueueSys.start q now).1 now := by
  unfold QueueSys.start
  split
  · exact h.of_column hNow rfl (.inl rfl)
  · rename_i id _
    cases hMark : q.markDecrypting id now with
    | mk q' answer =>
      cases answer with
      | none =>
        rw [Queue.markDecrypting_none hMark]
        exact h.of_column hNow rfl (.inl rfl)
      | some g =>
        obtain ⟨_, _, _, _, rfl⟩ := Queue.markDecrypting_some hMark
        exact h.update id (f := fun r =>
          { r with state := .decrypting, generation := g }) hNow (fun _ => rfl) rfl (.inl rfl)

theorem complete {g : Nat} (h : WellTimed q clock) (hNow : clock ≤ now) :
    WellTimed (q.complete id g now).1 now := by
  unfold Queue.complete
  split
  · exact h.update id (f := fun r => { r with state := .granted }) hNow (fun _ => rfl)
      rfl (.inr rfl)
  · exact h.of_column hNow rfl (.inr rfl)

theorem fail (h : WellTimed q clock) (hNow : clock ≤ now) :
    WellTimed (q.fail id now) now :=
  h.update id (f := fun r => { r with state := .failed }) hNow (fun _ => rfl) rfl
    (.inr rfl)

end WellTimed

/-! ## Whole runs -/

structure QueueInv (limits : QueueLimits) (s : QueueSys) : Prop where
  flight : Flight s.queue s.job
  timed : WellTimed s.queue s.clock
  limits_eq : s.queue.limits = limits

variable {s t : QueueSys} {a : Nat × QueueOp}

theorem QueueSys.step_clock (h : s.step a = some t) : s.clock ≤ a.1 ∧ t.clock = a.1 := by
  obtain ⟨now, op⟩ := a
  obtain ⟨hTime, hMove⟩ := QueueSys.step_move h
  exact ⟨hTime, by cases hMove <;> rfl⟩

variable {q : Queue} {now : Nat}

theorem start_limits : (QueueSys.start q now).1.limits = q.limits := by
  unfold QueueSys.start
  split
  · rfl
  · rename_i id _
    cases hMark : q.markDecrypting id now with
    | mk q' answer =>
      cases answer with
      | none => rw [Queue.markDecrypting_none hMark]
      | some =>
        obtain ⟨_, _, _, _, rfl⟩ := Queue.markDecrypting_some hMark
        rfl

theorem expel_limits {id : Nat} {state : RequestState} :
    (q.expel id state now).1.limits = q.limits := by
  unfold Queue.expel
  split <;> rfl

theorem enqueue_limits {scope : Scope} {key : SecretName}
    {ttl : Option Nat} : (q.enqueue scope key now ttl).1.limits = q.limits := by
  rcases q.enqueue_queue scope key now ttl with hEq | hEq
  · rw [hEq]
  · rw [hEq]
    rfl

variable {limits : QueueLimits}

theorem queueInv_step (hInv : QueueInv limits s) (h : s.step a = some t) : QueueInv limits t := by
  obtain ⟨now, op⟩ := a
  obtain ⟨hFlight, hTimed, hLimits⟩ := hInv
  obtain ⟨hNow, hMove⟩ := QueueSys.step_move h
  cases hMove with
  | enqueue =>
    exact ⟨hFlight.enqueue _ _ _, hTimed.enqueue hNow _ _ _, enqueue_limits.trans hLimits⟩
  | start hJob =>
    rw [hJob] at hFlight
    exact ⟨hFlight.start, hTimed.start hNow, start_limits.trans hLimits⟩
  | complete hJob =>
    rw [hJob] at hFlight
    refine ⟨hFlight.complete, hTimed.complete hNow, ?_⟩
    unfold Queue.complete
    split <;> exact hLimits
  | fail hJob =>
    rw [hJob] at hFlight
    exact ⟨hFlight.fail, hTimed.fail hNow, hLimits⟩
  | deny | timeout =>
    exact ⟨hFlight.expel (by simp), hTimed.expel hNow, expel_limits.trans hLimits⟩
  | sweepTimeouts =>
    refine ⟨hFlight.sweepTimeouts hTimed, hTimed.sweepTimeouts hNow, ?_⟩
    unfold Queue.sweepTimeouts
    rw [Queue.foldl_finish_limits]
    exact hLimits
  | prune => exact ⟨hFlight.prune, hTimed.prune hNow, hLimits⟩

theorem queueInv_reachable (h : Reachable (queueSystem limits) s) : QueueInv limits s := by
  refine h.strengthen ?_ fun _ _ _ _ hInv hStep => queueInv_step hInv hStep
  refine ⟨.idle rfl (by simp [queueSystem, Queue.new]), ⟨?_, ?_, ?_⟩, rfl⟩ <;>
    simp [queueSystem, Queue.new]

/-- A decrypt ends: a request leaves `Decrypting`, or the worker reports. -/
def EndsDecrypt (s : QueueSys) (a : Nat × QueueOp) (t : QueueSys) : Prop :=
  s.step a = some t ∧
    (a.2 = .complete ∨ a.2 = .fail ∨
      ∃ i, s.queue.stateOf i = some .decrypting ∧ t.queue.stateOf i ≠ some .decrypting)

def StartsDecrypt (s : QueueSys) (a : Nat × QueueOp) (t : QueueSys) : Prop :=
  s.step a = some t ∧ a.2 = .start ∧ t.job.isSome = true

theorem expel_finish (q : Queue) (id : Nat) (state : RequestState) (now : Nat) :
    (q.expel id state now).1.lastFinished = some now ∨ (q.expel id state now).1 = q := by
  rcases q.expel_cases id state now with ⟨r, _, _, hEq⟩ | ⟨_, hEq⟩
  · exact .inl (by rw [hEq]; rfl)
  · exact .inr (by rw [hEq])

theorem start_lastFinished : (QueueSys.start q now).1.lastFinished = q.lastFinished := by
  unfold QueueSys.start
  split
  · rfl
  · rename_i id _
    cases hMark : q.markDecrypting id now with
    | mk q' answer =>
      cases answer with
      | none => rw [Queue.markDecrypting_none hMark]
      | some =>
        obtain ⟨_, _, _, _, rfl⟩ := Queue.markDecrypting_some hMark
        rfl

theorem step_finish (h : s.step a = some t) :
    t.queue.lastFinished = some a.1 ∨
    (t.queue.lastFinished = s.queue.lastFinished ∧ a.2 ≠ .complete ∧ a.2 ≠ .fail ∧
      (t.queue.inflight = s.queue.inflight ∨ s.job = none)) := by
  obtain ⟨now, op⟩ := a
  obtain ⟨-, hMove⟩ := QueueSys.step_move h
  have hSame : ∀ q : Queue, q = s.queue → op ≠ .complete → op ≠ .fail →
      q.lastFinished = s.queue.lastFinished ∧ op ≠ .complete ∧ op ≠ .fail ∧
        (q.inflight = s.queue.inflight ∨ s.job = none) := by
    rintro q rfl hc hf
    exact ⟨rfl, hc, hf, .inl rfl⟩
  cases hMove with
  | enqueue scope key ttl =>
    right
    rcases s.queue.enqueue_queue scope key now ttl with hEq | hEq
    · exact hSame _ hEq (by simp) (by simp)
    · exact ⟨by rw [hEq]; rfl, by simp, by simp, .inl (by rw [hEq]; rfl)⟩
  | start hJob => exact .inr ⟨start_lastFinished, by simp, by simp, .inr hJob⟩
  | complete =>
    left
    dsimp only
    unfold Queue.complete
    split <;> rfl
  | fail => exact .inl rfl
  | deny id =>
    rcases expel_finish s.queue id .denied now with hSome | hEq
    · exact .inl hSome
    · exact .inr (hSame _ hEq (by simp) (by simp))
  | timeout id =>
    rcases expel_finish s.queue id .timedOut now with hSome | hEq
    · exact .inl hSome
    · exact .inr (hSame _ hEq (by simp) (by simp))
  | sweepTimeouts =>
    dsimp only
    unfold Queue.sweepTimeouts
    by_cases hIds : (s.queue.requests.filter (s.queue.expired now)).map (·.id) = []
    · right
      rw [hIds]
      exact ⟨rfl, by simp, by simp, .inl rfl⟩
    · left
      rw [Queue.foldl_finish_lastFinished, if_neg hIds]
  | prune => exact .inr ⟨rfl, by simp, by simp, .inl rfl⟩

theorem ends_lastFinished (hs : Reachable (queueSystem limits) s) (h : EndsDecrypt s a t) :
    t.queue.lastFinished = some a.1 := by
  obtain ⟨hStep, hEnd⟩ := h
  have ht : Reachable (queueSystem limits) t := hs.step hStep
  rcases step_finish hStep with hSome | ⟨-, hComplete, hFail, hSlot⟩
  · exact hSome
  · rcases hEnd with hOp | hOp | ⟨i, hBefore, hAfter⟩
    · exact absurd hOp hComplete
    · exact absurd hOp hFail
    · -- a request that left `Decrypting` gave up the slot it held
      exfalso
      have hInv := queueInv_reachable hs
      rw [← hInv.flight.slot_iff] at hBefore
      rw [ne_eq, ← (queueInv_reachable ht).flight.slot_iff] at hAfter
      rcases hSlot with hSlot | hJob
      · exact hAfter (hSlot.trans hBefore)
      · -- a start needs a worker without a job, hence a free slot
        have hFlight := hInv.flight
        rw [hJob] at hFlight
        rw [hFlight.free_of_no_job] at hBefore
        cases hBefore

theorem lastFinished_mono {last : Nat}
    (hs : Reachable (queueSystem limits) s) (hPath : Path (queueSystem limits) anyStep s t)
    (h : s.queue.lastFinished = some last) :
    ∃ last', t.queue.lastFinished = some last' ∧ last ≤ last' := by
  have key := hPath.invariant
    (I := fun x => Reachable (queueSystem limits) x ∧
      ∃ last', x.queue.lastFinished = some last' ∧ last ≤ last') ?_ ⟨hs, last, h, Nat.le_refl _⟩
  · exact key.2
  · rintro x a y ⟨hx, last', hLast, hle⟩ - hStep
    refine ⟨hx.step hStep, ?_⟩
    have hPast := (queueInv_reachable hx).timed.finished last' hLast
    have hNow := (QueueSys.step_clock hStep).1
    rcases step_finish hStep with hSome | ⟨hSame, -⟩
    · exact ⟨a.1, hSome, by omega⟩
    · exact ⟨last', hSame.trans hLast, hle⟩

theorem starts_not_cooling (h : StartsDecrypt s a t) : s.queue.cooling a.1 = false := by
  obtain ⟨now, op⟩ := a
  obtain ⟨hStep, hOp, hGot⟩ := h
  obtain ⟨-, hMove⟩ := QueueSys.step_move hStep
  dsimp only at hOp
  subst hOp
  cases hMove with
  | start =>
    dsimp only at hGot
    unfold QueueSys.start at hGot
    split at hGot
    · cases hGot
    · rename_i hReady
      exact (Queue.nextReady_some hReady).2.1

/-- **Single flight and touch cooldown.** At most one request decrypts and the in-flight slot holds
exactly its id; a start comes at least the cooldown after the end of the decrypt before, and more
than the touch cache after it where `validate` accepted a cached-touch configuration. -/
theorem single_flight_touch_cooldown (limits : QueueLimits) {s : QueueSys}
    (hs : Reachable (queueSystem limits) s) :
    s.queue.requests.countP (fun r => r.state == .decrypting) ≤ 1 ∧
    (∀ i, s.queue.inflight = some i ↔ s.queue.stateOf i = some .decrypting) ∧
    (∀ a t u b v, EndsDecrypt s a t → Path (queueSystem limits) anyStep t u →
      StartsDecrypt u b v → a.1 + limits.cooldown ≤ b.1) ∧
    (∀ cfg : Config, cfg.validate = .ok () → cfg.touchPolicy = .cached →
      limits = cfg.queueLimits →
      ∀ a t u b v, EndsDecrypt s a t → Path (queueSystem limits) anyStep t u →
        StartsDecrypt u b v → a.1 + touchCache < b.1) := by
  have hInv := queueInv_reachable hs
  have hCooldown : ∀ a t u b v, EndsDecrypt s a t → Path (queueSystem limits) anyStep t u →
      StartsDecrypt u b v → a.1 + limits.cooldown ≤ b.1 := by
    intro a t u b v hEnd hPath hStart
    have ht : Reachable (queueSystem limits) t := hs.step hEnd.1
    obtain ⟨last, hLast, hle⟩ := lastFinished_mono ht hPath (ends_lastFinished hs hEnd)
    have hu := queueInv_reachable (ht.path hPath)
    have hPast := hu.timed.finished last hLast
    have hNow := (QueueSys.step_clock hStart.1).1
    have := Queue.cooling_false (starts_not_cooling hStart) hLast (by omega)
    rw [hu.limits_eq] at this
    omega
  refine ⟨hInv.flight.countP_le_one, hInv.flight.slot_iff, hCooldown, ?_⟩
  intro cfg hValid hPolicy hLimits a t u b v hEnd hPath hStart
  have hWindow := cfg.validate_cached hValid hPolicy
  have hWait := hCooldown a t u b v hEnd hPath hStart
  rw [hLimits] at hWait
  change a.1 + cfg.cooldown ≤ b.1 at hWait
  omega

/-- Two requests under the default configuration: the second decrypt starts
seventeen seconds in, more than the touch cache after the first ended. -/
theorem single_flight_touch_cooldown_default :
    ∃ s t u v : QueueSys,
      Reachable (queueSystem (Config.default []).queueLimits) s ∧
      EndsDecrypt s (fromSecs 1, .complete) t ∧
      Path (queueSystem (Config.default []).queueLimits) anyStep t u ∧
      StartsDecrypt u (fromSecs 17, .start) v ∧
      fromSecs 1 + touchCache < fromSecs 17 := by
  let sys := queueSystem (Config.default []).queueLimits
  let first : List (Nat × QueueOp) :=
    [(0, .enqueue (.tty "/dev/pts/1" "boot") ⟨"A", by decide⟩ none),
     (0, .enqueue (.tty "/dev/pts/1" "boot") ⟨"B", by decide⟩ none), (0, .start)]
  have hReplay : ((sys.run sys.init first).bind fun s =>
      (sys.step s (fromSecs 1, .complete)).bind fun t =>
        (sys.step t (fromSecs 17, .start)).map fun v => v.job.isSome) = some true := by
    decide +kernel
  simp only [Option.bind_eq_some_iff, Option.map_eq_some_iff] at hReplay
  obtain ⟨s, hRun, t, hStep, v, hStart, hJob⟩ := hReplay
  have hs : Reachable sys s := Path.of_run hRun
  have hEnd : EndsDecrypt s (fromSecs 1, .complete) t := ⟨hStep, .inl rfl⟩
  have hPath : Path sys anyStep t t := .refl t
  have hNext : StartsDecrypt t (fromSecs 17, .start) v := ⟨hStart, rfl, hJob⟩
  exact ⟨s, t, t, v, hs, hEnd, hPath, hNext,
    (single_flight_touch_cooldown _ hs).2.2.2 (Config.default []) rfl rfl rfl _ _ _ _ _ hEnd
      hPath hNext⟩

end Forward.Secrets

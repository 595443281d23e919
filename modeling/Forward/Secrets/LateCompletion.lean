import Forward.Secrets.Approvals

/-!
# Late completions

A decrypt is started under a generation, and `complete` installs the grant if the request is still
being decrypted under it. Whatever takes a request out of the active states bumps its generation.
-/

namespace Forward.Secrets

open Lib

namespace Queue

variable {q : Queue} {id g now : Nat}

theorem stillCurrent_iff :
    q.stillCurrent id g ↔
      ∃ r ∈ q.requests, r.id = id ∧ r.generation = g ∧ r.state = .decrypting := by
  simp [stillCurrent, and_assoc]

theorem Shape.byId_pairwise (h : Shape q) (id : Nat) :
    q.requests.Pairwise fun r r' => ¬ (byId id r = true ∧ byId id r' = true) := by
  refine h.ordered.imp fun hLt hBoth => ?_
  rw [byId_iff, byId_iff] at hBoth
  omega

theorem Shape.current_of_update (h : Shape q) {f : PendingRequest → PendingRequest}
    (hState : ∀ r, (f r).state.isActive = false) {q' : Queue}
    (hRequests : q'.requests = updateFirst (byId id) f q.requests) :
    (∀ id' g, q'.stillCurrent id' g ↔ q.stillCurrent id' g ∧ id ≠ id') ∧
      ∀ r ∈ q'.requests, r.id = id → r.state.isActive = false := by
  have hMem : ∀ r, r ∈ q'.requests ↔
      (r ∈ q.requests ∧ byId id r = false) ∨ ∃ x ∈ q.requests, byId id x ∧ r = f x := by
    intro r
    rw [hRequests]
    exact mem_updateFirst_iff (h.byId_pairwise id)
  refine ⟨fun id' g => ?_, fun r hr hEq => ?_⟩
  · rw [stillCurrent_iff, stillCurrent_iff]
    constructor
    · rintro ⟨r, hr, rfl, rfl, hDecrypting⟩
      rcases (hMem r).mp hr with ⟨hOld, hNot⟩ | ⟨x, -, -, rfl⟩
      · exact ⟨⟨r, hOld, rfl, rfl, hDecrypting⟩, (byId_false_iff.mp hNot).symm⟩
      · have hInactive := hState x
        rw [hDecrypting] at hInactive
        cases hInactive
    · rintro ⟨⟨r, hr, rfl, rfl, hDecrypting⟩, hNe⟩
      exact ⟨r, (hMem r).mpr (.inl ⟨hr, byId_false_iff.mpr hNe.symm⟩), rfl, rfl, hDecrypting⟩
  · rcases (hMem r).mp hr with ⟨-, hNot⟩ | ⟨x, -, -, rfl⟩
    · exact absurd hEq (byId_false_iff.mp hNot)
    · exact hState x

theorem Shape.current_of_mark (h : Shape q) {q' : Queue}
    (hMark : q.markDecrypting id now = (q', some g)) :
    ∀ id' g', q'.stillCurrent id' g' ↔
      if id' = id then g' = g else q.stillCurrent id' g' = true := by
  obtain ⟨-, -, -, ⟨r, hFind, -⟩, rfl⟩ := markDecrypting_some hMark
  have hr := List.mem_of_find?_eq_some hFind
  have hId : r.id = id := byId_iff.mp (List.find?_some hFind)
  intro id' g'
  rw [stillCurrent_iff]
  have hMem : ∀ x, x ∈ updateFirst (byId id)
      (fun r => { r with state := .decrypting, generation := g }) q.requests ↔ _ :=
    fun x => mem_updateFirst_iff (h.byId_pairwise id)
  split
  · rename_i hEq
    subst hEq
    constructor
    · rintro ⟨x, hx, hxId, rfl, -⟩
      rcases (hMem x).mp hx with ⟨-, hNot⟩ | ⟨y, -, -, rfl⟩
      · exact absurd hxId (byId_false_iff.mp hNot)
      · rfl
    · rintro rfl
      exact ⟨_, (hMem _).mpr (.inr ⟨r, hr, byId_iff.mpr hId, rfl⟩), hId, rfl, rfl⟩
  · rename_i hNe
    rw [stillCurrent_iff]
    constructor
    · rintro ⟨x, hx, rfl, rfl, hDecrypting⟩
      rcases (hMem x).mp hx with ⟨hOld, -⟩ | ⟨y, -, hy, rfl⟩
      · exact ⟨x, hOld, rfl, rfl, hDecrypting⟩
      · exact absurd (byId_iff.mp hy) hNe
    · rintro ⟨x, hx, rfl, rfl, hDecrypting⟩
      exact ⟨x, (hMem x).mpr (.inl ⟨hx, byId_false_iff.mpr hNe⟩), rfl, rfl, hDecrypting⟩

theorem Shape.current_of_sweep (h : Shape q) (now : Nat) :
    (∀ id g, (q.sweepTimeouts now).1.stillCurrent id g ↔
      q.stillCurrent id g ∧ id ∉ (q.sweepTimeouts now).2) ∧
    ∀ id ∈ (q.sweepTimeouts now).2, ∀ r ∈ (q.sweepTimeouts now).1.requests, r.id = id →
      r.state.isActive = false := by
  have hIds : (q.sweepTimeouts now).2 = (q.requests.filter (q.expired now)).map (·.id) := rfl
  -- an id that is swept is that of the one request that has it
  have hSwept : ∀ r ∈ q.requests, r.id ∈ (q.sweepTimeouts now).2 ↔ q.expired now r := by
    intro r hr
    rw [hIds, List.mem_map]
    constructor
    · rintro ⟨x, hx, hEq⟩
      obtain ⟨hIn, hExpired⟩ := List.mem_filter.mp hx
      rw [h.eq_of_id hr hIn hEq]
      exact hExpired
    · exact fun hExpired => ⟨r, List.mem_filter.mpr ⟨hr, hExpired⟩, rfl⟩
  refine ⟨fun id g => ?_, fun id hId r hr hEq => ?_⟩
  · rw [stillCurrent_iff, stillCurrent_iff, sweepTimeouts_requests]
    constructor
    · rintro ⟨r, hr, rfl, rfl, hDecrypting⟩
      obtain ⟨x, hx, rfl⟩ := List.mem_map.mp hr
      by_cases hExpired : q.expired now x
      · rw [swept_of_expired hExpired] at hDecrypting
        cases hDecrypting
      · rw [swept_of_not_expired hExpired] at hDecrypting ⊢
        exact ⟨⟨x, hx, rfl, rfl, hDecrypting⟩, fun hIn => hExpired ((hSwept x hx).mp hIn)⟩
    · rintro ⟨⟨r, hr, rfl, rfl, hDecrypting⟩, hNot⟩
      have hFresh : ¬ q.expired now r = true := fun hExpired => hNot ((hSwept r hr).mpr hExpired)
      exact ⟨r, List.mem_map.mpr ⟨r, hr, swept_of_not_expired hFresh⟩, rfl, rfl, hDecrypting⟩
  · rw [sweepTimeouts_requests] at hr
    obtain ⟨x, hx, rfl⟩ := List.mem_map.mp hr
    rw [swept_id] at hEq
    rw [swept_of_expired ((hSwept x hx).mp (hEq ▸ hId))]
    rfl

theorem stillCurrent_prune : (q.prune now).stillCurrent id g = q.stillCurrent id g := by
  rw [Bool.eq_iff_iff, stillCurrent_iff, stillCurrent_iff]
  constructor
  · rintro ⟨r, hr, hRest⟩
    exact ⟨r, (List.mem_filter.mp hr).1, hRest⟩
  · rintro ⟨r, hr, hId, hGen, hDecrypting⟩
    exact ⟨r, List.mem_filter.mpr ⟨hr, by simp [retained, hDecrypting, RequestState.isActive]⟩, hId,
      hGen, hDecrypting⟩

theorem stillCurrent_push {scope : Scope} {key : SecretName} {ttl : Option Nat} :
    (q.push scope key now ttl).stillCurrent id g = q.stillCurrent id g := by
  unfold stillCurrent push
  rw [List.any_append]
  simp

end Queue

namespace Approvals

variable {s s' : Approvals} {op : ApprovalOp}

/-- A step starts one decrypt, or settles the requests that it notes. -/
inductive Effect (s s' : Approvals) : Prop
  | started {id g : Nat} (hTrail : s'.trail = .started id g :: s.trail)
      (hCurrent : ∀ id' g', s'.queue.stillCurrent id' g' = true ↔
        if id' = id then g' = g else s.queue.stillCurrent id' g' = true)
  | settled (events : List ApprovalEvent) (hTrail : s'.trail = events ++ s.trail)
      (hSettles : ∀ e ∈ events, e.settles = true ∧ e.id < s.queue.nextId ∧
        ∀ r ∈ s'.queue.requests, r.id = e.id → r.state.isActive = false)
      (hCurrent : ∀ id g, s'.queue.stillCurrent id g = true ↔
        s.queue.stillCurrent id g = true ∧ ∀ e ∈ events, e.id ≠ id)
      (hCompleted : ∀ id, .completed id ∈ events →
        events = [.completed id] ∧ ∃ g, s.queue.stillCurrent id g = true)

theorem Effect.quiet (hTrail : s'.trail = s.trail)
    (hCurrent : ∀ id g, s'.queue.stillCurrent id g = s.queue.stillCurrent id g) : Effect s s' := by
  refine .settled [] hTrail nofun (fun id g => ?_) nofun
  rw [hCurrent]
  simp

theorem Effect.end (hShape : s.queue.Shape) (e : ApprovalEvent)
    (f : PendingRequest → PendingRequest) {r : PendingRequest} (hState : ∀ r, (f r).state.isActive = false)
    (hRequests : s'.queue.requests = updateFirst (Queue.byId e.id) f s.queue.requests)
    (hTrail : s'.trail = e :: s.trail) (hSettles : e.settles) (hr : r ∈ s.queue.requests)
    (hId : r.id = e.id)
    (hCompleted : ∀ id, e = .completed id → ∃ g, s.queue.stillCurrent id g) :
    Effect s s' := by
  obtain ⟨hCurrent, hInactive⟩ := hShape.current_of_update hState hRequests
  refine .settled [e] hTrail ?_ ?_ ?_
  · intro e' he'
    obtain rfl := List.mem_singleton.mp he'
    exact ⟨hSettles, hId ▸ hShape.below r hr, hInactive⟩
  · intro id g
    rw [hCurrent, List.forall_mem_singleton]
  · intro id hIn
    obtain rfl := List.mem_singleton.mp hIn
    exact ⟨rfl, hCompleted id rfl⟩

theorem effect_of_expel {id now : Nat} {state : RequestState} (hShape : s.queue.Shape)
    (hState : state.isActive = false)
    (hStep : s' = s.note (s.queue.expel id state now).1
      (if (s.queue.expel id state now).2 then [.ended id] else [])) : Effect s s' := by
  subst hStep
  rcases s.queue.expel_cases id state now with ⟨r, hFind, -, hEq⟩ | ⟨-, hEq⟩
  · rw [hEq]
    exact .end hShape (.ended id) (fun r => { r with state, generation := satAdd r.generation 1 })
      (fun _ => hState) rfl rfl rfl (List.mem_of_find?_eq_some hFind)
      (Queue.byId_iff.mp (List.find?_some hFind)) nofun
  · rw [hEq]
    exact .quiet rfl fun _ _ => rfl

theorem effect_step (hShape : s.queue.Shape) (h : s.step op = some s') : Effect s s' := by
  cases op with
  | enqueue scope key now ttl =>
    cases h
    refine .quiet rfl fun id g => ?_
    dsimp only
    rcases s.queue.enqueue_queue scope key now ttl with hSame | hPush
    · rw [hSame]
    · rw [hPush, Queue.stillCurrent_push]
  | markDecrypting id now =>
    simp only [step] at h
    rcases hMark : s.queue.markDecrypting id now with ⟨q', _ | g⟩
    · rw [hMark] at h
      cases h
      obtain rfl := Queue.markDecrypting_none hMark
      exact .quiet rfl fun _ _ => rfl
    · rw [hMark] at h
      cases h
      exact .started rfl (hShape.current_of_mark hMark)
  | complete id generation now =>
    simp only [step] at h
    by_cases hCurrent : s.queue.stillCurrent id generation
    · have hComplete : s.queue.complete id generation now =
        ((s.queue.setState id .granted).finish id now, true) := if_pos hCurrent
      rw [hComplete] at h
      cases h
      obtain ⟨r, hr, hId, -⟩ := Queue.stillCurrent_iff.mp hCurrent
      refine .end hShape (.completed id) (fun r => { r with state := .granted }) (fun _ => rfl) rfl
        rfl rfl hr hId ?_
      intro id' hIs
      exact ⟨generation, ApprovalEvent.completed.inj hIs ▸ hCurrent⟩
    · have hComplete : s.queue.complete id generation now = (s.queue.finish id now, false) :=
        if_neg hCurrent
      rw [hComplete] at h
      cases h
      exact .quiet rfl fun _ _ => rfl
  | finish =>
    cases h
    exact .quiet rfl fun _ _ => rfl
  | fail id now =>
    simp only [step] at h
    cases hFind : s.queue.requests.find? (Queue.byId id) with
    | none =>
      have hState : s.queue.stateOf id = none := congrArg (Option.map _) hFind
      rw [hState] at h
      cases h
      -- there is nothing to update
      have hSame : (s.queue.fail id now).requests = s.queue.requests :=
        updateFirst_of_find?_none hFind
      refine .quiet rfl fun id' g => ?_
      show (s.queue.fail id now).requests.any _ = _
      rw [hSame]
      rfl
    | some r =>
      have hState : s.queue.stateOf id = some r.state := congrArg (Option.map _) hFind
      rw [hState] at h
      cases h
      exact .end hShape (.ended id) (fun r => { r with state := .failed }) (fun _ => rfl) rfl rfl rfl
        (List.mem_of_find?_eq_some hFind) (Queue.byId_iff.mp (List.find?_some hFind)) nofun
  | timeout id now | deny id now => exact effect_of_expel hShape rfl (Option.some.inj h).symm
  | sweepTimeouts now =>
    have hNext : s' = s.note (s.queue.sweepTimeouts now).1
        ((s.queue.sweepTimeouts now).2.map fun id => .ended id) := (Option.some.inj h).symm
    subst hNext
    obtain ⟨hCurrent, hInactive⟩ := hShape.current_of_sweep now
    refine .settled ((s.queue.sweepTimeouts now).2.map fun id => .ended id) rfl ?_ ?_ ?_
    · intro e he
      obtain ⟨id, hId, rfl⟩ := List.mem_map.mp he
      refine ⟨rfl, ?_, hInactive id hId⟩
      obtain ⟨r, hr, rfl⟩ := List.mem_map.mp hId
      exact hShape.below r (List.mem_filter.mp hr).1
    · intro id g
      refine (hCurrent id g).trans (and_congr_right fun _ => ?_)
      rw [List.forall_mem_map]
      exact ⟨fun hNot i hi hEq => hNot (hEq ▸ hi), fun hAll hIn => hAll id hIn rfl⟩
    · intro id hIn
      obtain ⟨_, _, hEq⟩ := List.mem_map.mp hIn
      cases hEq
  | prune =>
    cases h
    exact .quiet rfl fun id g => Queue.stillCurrent_prune

/-- The trail says which decrypt is current, which requests are settled, and that
none was completed twice. -/
structure Tracked (s : Approvals) : Prop where
  current : ∀ id g, s.queue.stillCurrent id g = true ↔
    s.trail.find? (fun e => e.id == id) = some (.started id g)
  settled : ∀ e ∈ s.trail, e.settles = true → e.id < s.queue.nextId ∧
    ∀ r ∈ s.queue.requests, r.id = e.id → r.state.isActive = false
  once : ∀ id, s.trail.countP (· = .completed id) ≤ 1

theorem Tracked.not_settled (h : Tracked s) {id g : Nat} (hCurrent : s.queue.stillCurrent id g) :
    s.trail.countP (· = .completed id) = 0 := by
  obtain ⟨r, hr, hId, -, hDecrypting⟩ := Queue.stillCurrent_iff.mp hCurrent
  refine List.countP_eq_zero.mpr fun e he hEq => ?_
  obtain rfl := of_decide_eq_true hEq
  have hInactive := (h.settled _ he rfl).2 r hr hId
  rw [hDecrypting] at hInactive
  cases hInactive

theorem nextId_step (hWord : s.queue.nextId ≤ wordMax) (hStep : s.step op = some s') :
    s.queue.nextId ≤ s'.queue.nextId := by
  rcases fades_step hStep with ⟨scope, key, now, ttl, -, rfl⟩ | ⟨hFades, -⟩
  · dsimp only
    rcases s.queue.enqueue_queue scope key now ttl with hSame | hPush
    · exact Nat.le_of_eq (by rw [hSame])
    · rw [hPush]
      exact le_satAdd hWord
  · exact Nat.le_of_eq hFades.nextId.symm

theorem settled_step (h : Tracked s) (hWord : s.queue.nextId ≤ wordMax)
    (hStep : s.step op = some s') {e : ApprovalEvent}
    (he : e ∈ s.trail) (hSettles : e.settles) :
    e.id < s'.queue.nextId ∧ ∀ r ∈ s'.queue.requests, r.id = e.id → r.state.isActive = false := by
  obtain ⟨hBelow, hInactive⟩ := h.settled e he hSettles
  rcases fades_step hStep with ⟨scope, key, now, ttl, -, rfl⟩ | ⟨hFades, -⟩
  · dsimp only
    rcases s.queue.enqueue_queue scope key now ttl with hSame | hPush
    · rw [hSame]
      exact ⟨hBelow, hInactive⟩
    · -- the new request has an id that none had
      rw [hPush]
      have hGrows : s.queue.nextId ≤ (s.queue.push scope key now ttl).nextId := by
        show _ ≤ satAdd s.queue.nextId 1
        exact le_satAdd hWord
      refine ⟨Nat.lt_of_lt_of_le hBelow hGrows, fun r hr hId => ?_⟩
      rcases List.mem_append.mp hr with hOld | hNew
      · exact hInactive r hOld hId
      · obtain rfl := List.mem_singleton.mp hNew
        exact absurd hId (Nat.ne_of_gt hBelow)
  · rw [hFades.nextId]
    refine ⟨hBelow, fun r hr hId => ?_⟩
    obtain ⟨old, hOld, hFade⟩ := mem_of_fade hFades.requests hr
    have hOldInactive := hInactive old hOld (hFade.id.symm.trans hId)
    by_contra hActive
    rw [hFade.active (Bool.not_eq_false _ ▸ hActive)] at hOldInactive
    cases hOldInactive

theorem tracked_step (h : Tracked s) (hShape : s.queue.Shape) (hWord : s.queue.nextId ≤ wordMax)
    (hStep : s.step op = some s') : Tracked s' := by
  have hOld : ∀ {e}, e ∈ s.trail → e.settles → e.id < s'.queue.nextId ∧
      ∀ r ∈ s'.queue.requests, r.id = e.id → r.state.isActive = false :=
    fun he hSettles => settled_step h hWord hStep he hSettles
  have hNext : s.queue.nextId ≤ s'.queue.nextId := nextId_step hWord hStep
  cases effect_step hShape hStep with
  | @started id g hTrail hCurrent =>
    refine ⟨fun id' g' => ?_, fun e he hSettles => ?_, fun id' => ?_⟩
    · rw [hCurrent, hTrail, List.find?_cons]
      by_cases hEq : id' = id
      · subst hEq
        simp [ApprovalEvent.id, eq_comm]
      · have hOther : ((ApprovalEvent.started id g).id == id') = false := by
          simpa [ApprovalEvent.id] using Ne.symm hEq
        rw [if_neg hEq, hOther]
        exact h.current id' g'
    · rw [hTrail] at he
      rcases List.mem_cons.mp he with rfl | he
      · cases hSettles
      · exact hOld he hSettles
    · rw [hTrail, List.countP_cons_of_neg (by simp)]
      exact h.once id'
  | settled events hTrail hSettles hCurrent hCompleted =>
    refine ⟨fun id g => ?_, fun e he hIs => ?_, fun id => ?_⟩
    · rw [hCurrent, hTrail, List.find?_append]
      cases hFind : events.find? fun e => e.id == id with
      | some e =>
        -- a settled request is not current, and its last event is no start
        have hIn := List.mem_of_find?_eq_some hFind
        have hId : e.id = id := by simpa using List.find?_some hFind
        refine iff_of_false (fun hBoth => hBoth.2 e hIn hId) fun hStarted => ?_
        rw [Option.some_or] at hStarted
        have hNot := (hSettles e hIn).1
        rw [Option.some.inj hStarted] at hNot
        cases hNot
      | none =>
        rw [Option.none_or, ← h.current id g]
        have hNone : ∀ e ∈ events, e.id ≠ id := fun e he => by
          simpa using List.find?_eq_none.mp hFind e he
        exact and_iff_left hNone
    · rw [hTrail] at he
      rcases List.mem_append.mp he with hNew | hPast
      · obtain ⟨-, hBelow, hInactive⟩ := hSettles e hNew
        exact ⟨Nat.lt_of_lt_of_le hBelow hNext, hInactive⟩
      · exact hOld hPast hIs
    · rw [hTrail, List.countP_append]
      by_cases hIn : .completed id ∈ events
      · obtain ⟨rfl, g, hWas⟩ := hCompleted id hIn
        rw [h.not_settled hWas]
        simp
      · have hZero : events.countP (· = .completed id) = 0 := by
          refine List.countP_eq_zero.mpr fun e he hEq => hIn ?_
          exact of_decide_eq_true hEq ▸ he
        rw [hZero, Nat.zero_add]
        exact h.once id

end Approvals

theorem tracked_reachable {limits : QueueLimits} {s : Approvals} (h : Reachable (approvals limits) s)
    (hFew : s.enqueues < wordMax) : s.Tracked := by
  have hInv := h.strengthen (I := fun s : Approvals => s.enqueues < wordMax → s.Tracked) ?_ ?_
  · exact hInv hFew
  · intro _
    refine ⟨fun id g => ?_, nofun, fun id => Nat.zero_le _⟩
    exact iff_of_false (by simp [approvals, Queue.new, Queue.stillCurrent]) (by simp [approvals])
  · intro s op s' hReach hInv hStep hFew
    have hBefore : s.enqueues < wordMax := by
      have hCount := Approvals.enqueues_step hStep
      omega
    obtain ⟨hShape, hNext⟩ := shape_reachable hReach hBefore
    exact Approvals.tracked_step (hInv hBefore) hShape (by omega) hStep

/-- **Late completions install nothing.** A decrypt that completes installs its
grant just if the last thing that happened to its request was the start of that
very decrypt, and no request is completed twice. -/
theorem late_completions {limits : QueueLimits} {s : Approvals} (h : Reachable (approvals limits) s)
    (hFew : s.enqueues < wordMax) :
    (∀ id g now, (s.queue.complete id g now).2 = true ↔
      s.trail.find? (fun e => e.id == id) = some (.started id g)) ∧
    ∀ id, s.trail.countP (· = .completed id) ≤ 1 := by
  have hTracked := tracked_reachable h hFew
  refine ⟨fun id g now => ?_, hTracked.once⟩
  rw [← hTracked.current id g]
  unfold Queue.complete
  split
  · rename_i hCurrent
    exact iff_of_true rfl hCurrent
  · rename_i hNot
    exact iff_of_false nofun hNot

theorem late_completions_denied :
    let limits := (Config.default []).queueLimits
    ∃ s t, Reachable (approvals limits) s ∧ Reachable (approvals limits) t ∧
      (approvals limits).step s (.deny 1 1) = some t ∧ (s.queue.complete 1 1 2).2 = true ∧
      ¬ (t.queue.complete 1 1 2).2 = true := by
  intro limits
  let ops : List ApprovalOp :=
    [.enqueue (.tty "/dev/pts/1" "boot") ⟨"A", by decide⟩ 0 none, .markDecrypting 1 0]
  have hReplay : (((approvals limits).run (approvals limits).init ops).bind fun s =>
      ((approvals limits).step s (.deny 1 1)).map fun t =>
        decide (s.enqueues = 1 ∧ t.enqueues = 1 ∧ s.trail = [.started 1 1] ∧
          t.trail = [.ended 1, .started 1 1])) = some true := by
    decide +kernel
  obtain ⟨s, hRun, hRest⟩ := Option.bind_eq_some_iff.mp hReplay
  obtain ⟨t, hStep, hSeen⟩ := Option.map_eq_some_iff.mp hRest
  obtain ⟨hCount, hCount', hTrail, hTrail'⟩ := of_decide_eq_true hSeen
  have hReach : Reachable (approvals limits) s := Path.of_run hRun
  have hReach' : Reachable (approvals limits) t := hReach.step hStep
  have hFew : s.enqueues < wordMax := by
    rw [hCount]
    decide
  have hFew' : t.enqueues < wordMax := by
    rw [hCount']
    decide
  refine ⟨s, t, hReach, hReach', hStep, ?_, ?_⟩
  · rw [(late_completions hReach hFew).1, hTrail]
    decide
  · rw [(late_completions hReach' hFew').1, hTrail']
    decide

end Forward.Secrets

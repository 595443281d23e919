import Forward.Lib.Fade
import Forward.Lib.System
import Forward.Secrets.Queue
import Mathlib.Data.List.Nodup

/-!
# Runs of the approval queue

The queue on its own: any operations, in any order and at any times. `trail`, the decrypts that
were started and what ended them, and `enqueues`, how often `enqueue` was called, are not in the
source. Every operation but `enqueue` only removes requests or takes them out of the active states
(`Fades`).
-/

namespace Forward.Secrets

open Lib

inductive ApprovalOp
  | enqueue (scope : Scope) (key : SecretName) (now : Nat) (ttl : Option Nat)
  | markDecrypting (id now : Nat)
  | complete (id generation now : Nat)
  | finish (id now : Nat)
  | fail (id now : Nat)
  | timeout (id now : Nat)
  | deny (id now : Nat)
  | sweepTimeouts (now : Nat)
  | prune (now : Nat)

/-- A decrypt was started, it was completed, or the request was taken out of the
active states in another way. -/
inductive ApprovalEvent
  | started (id generation : Nat)
  | completed (id : Nat)
  | ended (id : Nat)
  deriving DecidableEq

namespace ApprovalEvent

def id : ApprovalEvent → Nat
  | started id _ | completed id | ended id => id

def settles : ApprovalEvent → Bool
  | started _ _ => false
  | completed _ | ended _ => true

end ApprovalEvent

structure Approvals where
  queue : Queue
  trail : List ApprovalEvent
  enqueues : Nat

namespace Approvals

def note (s : Approvals) (queue : Queue) (events : List ApprovalEvent) : Approvals :=
  { s with queue := queue, trail := events ++ s.trail }

def step (s : Approvals) : ApprovalOp → Option Approvals
  | .enqueue scope key now ttl =>
    some { s with queue := (s.queue.enqueue scope key now ttl).1, enqueues := s.enqueues + 1 }
  | .markDecrypting id now =>
    let (queue, answer) := s.queue.markDecrypting id now
    some (s.note queue (answer.toList.map fun g => .started id g))
  | .complete id generation now =>
    let (queue, answer) := s.queue.complete id generation now
    some (s.note queue (if answer then [.completed id] else []))
  | .finish id now => some (s.note (s.queue.finish id now) [])
  | .fail id now =>
    -- a failure is recorded for any request that the queue still has
    some (s.note (s.queue.fail id now) (if (s.queue.stateOf id).isSome then [.ended id] else []))
  | .timeout id now =>
    let (queue, answer) := s.queue.timeout id now
    some (s.note queue (if answer then [.ended id] else []))
  | .deny id now =>
    let (queue, answer) := s.queue.deny id now
    some (s.note queue (if answer then [.ended id] else []))
  | .sweepTimeouts now =>
    let (queue, ids) := s.queue.sweepTimeouts now
    some (s.note queue (ids.map fun id => .ended id))
  | .prune now => some (s.note (s.queue.prune now) [])

end Approvals

def approvals (limits : QueueLimits) : System Approvals ApprovalOp where
  init := ⟨.new limits, [], 0⟩
  step := Approvals.step

/-! ## Operations that only take away -/

/-- The request is the one that it was, and active only if it was. -/
structure Fades (r old : PendingRequest) : Prop where
  asked : r.asked = old.asked
  active : r.state.isActive = true → old.state.isActive = true

namespace Fades

variable {r old : PendingRequest}

theorem refl (r : PendingRequest) : Fades r r := ⟨rfl, id⟩

theorem id (h : Fades r old) : r.id = old.id := (PendingRequest.mk.inj h.asked).1

theorem scope (h : Fades r old) : r.scope = old.scope := (PendingRequest.mk.inj h.asked).2.1

theorem key (h : Fades r old) : r.key = old.key := (PendingRequest.mk.inj h.asked).2.2.1

end Fades

namespace Queue

variable {q q' : Queue} {id now generation : Nat} {state : RequestState}

/-- No request is new or active again, and no id is taken. -/
structure Fades (q' q : Queue) : Prop where
  requests : List.SublistForall₂ Secrets.Fades q'.requests q.requests
  limits : q'.limits = q.limits
  nextId : q'.nextId = q.nextId

theorem Fades.refl (q : Queue) : Fades q q := ⟨fade_refl .refl _, rfl, rfl⟩

theorem markDecrypting_fades : (q.markDecrypting id now).1.Fades q := by
  rcases hMark : q.markDecrypting id now with ⟨q', _ | g⟩
  · rw [markDecrypting_none hMark]
    exact .refl q
  · obtain ⟨-, -, -, ⟨r, hFind, hPending⟩, rfl⟩ := markDecrypting_some hMark
    refine ⟨fade_updateFirst .refl fun x hx => ⟨rfl, fun _ => ?_⟩, rfl, rfl⟩
    obtain rfl := Option.mem_unique hFind hx
    rw [hPending]
    rfl

theorem fades_of_update {f : PendingRequest → PendingRequest} (hAsked : ∀ r, (f r).asked = r.asked)
    (hState : ∀ r, (f r).state.isActive = false) :
    List.SublistForall₂ Secrets.Fades (updateFirst (byId id) f q.requests) q.requests := by
  refine fade_updateFirst .refl fun r _ => ⟨hAsked r, fun hActive => ?_⟩
  rw [hState r] at hActive
  cases hActive

theorem complete_fades : (q.complete id generation now).1.Fades q := by
  unfold complete
  split
  · exact ⟨fades_of_update (fun _ => rfl) fun _ => rfl, rfl, rfl⟩
  · exact ⟨fade_refl .refl _, rfl, rfl⟩

theorem fail_fades : (q.fail id now).Fades q :=
  ⟨fades_of_update (fun _ => rfl) fun _ => rfl, rfl, rfl⟩

theorem expel_fades (hState : state.isActive = false) : (q.expel id state now).1.Fades q := by
  rcases q.expel_cases id state now with ⟨r, -, -, hEq⟩ | ⟨-, hEq⟩
  · rw [hEq]
    exact ⟨fades_of_update (fun _ => rfl) fun _ => hState, rfl, rfl⟩
  · rw [hEq]
    exact .refl q

theorem sweepTimeouts_fades : (q.sweepTimeouts now).1.Fades q := by
  refine ⟨?_, foldl_finish_limits .., foldl_finish_nextId ..⟩
  rw [sweepTimeouts_requests]
  refine fade_map (fun r => ?_) _
  by_cases hExpired : q.expired now r
  · rw [swept_of_expired hExpired]
    exact ⟨rfl, nofun⟩
  · rw [swept_of_not_expired hExpired]
    exact .refl r

theorem prune_fades : (q.prune now).Fades q :=
  ⟨fade_of_sublist .refl List.filter_sublist, rfl, rfl⟩

end Queue

variable {s s' : Approvals} {op : ApprovalOp}

theorem Approvals.fades_step (h : s.step op = some s') :
    (∃ scope key now ttl, op = .enqueue scope key now ttl ∧
        s' = { s with
          queue := (s.queue.enqueue scope key now ttl).1, enqueues := s.enqueues + 1 }) ∨
      (s'.queue.Fades s.queue ∧ s'.enqueues = s.enqueues) := by
  cases op with
  | enqueue scope key now ttl =>
    exact .inl ⟨scope, key, now, ttl, rfl, (Option.some.inj h).symm⟩
  | markDecrypting =>
    exact .inr (Option.some.inj h ▸ ⟨Queue.markDecrypting_fades, rfl⟩)
  | complete =>
    exact .inr (Option.some.inj h ▸ ⟨Queue.complete_fades, rfl⟩)
  | finish =>
    exact .inr (Option.some.inj h ▸ ⟨⟨fade_refl .refl _, rfl, rfl⟩, rfl⟩)
  | fail => exact .inr (Option.some.inj h ▸ ⟨Queue.fail_fades, rfl⟩)
  | timeout id now | deny id now =>
    exact .inr (Option.some.inj h ▸ ⟨Queue.expel_fades rfl, rfl⟩)
  | sweepTimeouts => exact .inr (Option.some.inj h ▸ ⟨Queue.sweepTimeouts_fades, rfl⟩)
  | prune => exact .inr (Option.some.inj h ▸ ⟨Queue.prune_fades, rfl⟩)

/-! ## The shape of the queue -/

namespace Queue

variable {q q' : Queue} {scope : Scope} {key : SecretName} {now : Nat} {ttl : Option Nat}

def activeIn (q : Queue) (select : Scope → SecretName → Bool) : Nat :=
  q.requests.countP fun r => select r.scope r.key && r.state.isActive

def ofScope (scope : Scope) : Scope → SecretName → Bool := fun s _ => s == scope

def ordinaryOf (scope : Scope) : Scope → SecretName → Bool :=
  fun s k => s == scope && !k.isCapability

def capabilityOf (scope : Scope) : Scope → SecretName → Bool :=
  fun s k => s == scope && k.isCapability

def sameAs (scope : Scope) (key : SecretName) : Scope → SecretName → Bool :=
  fun s k => s == scope && k == key

theorem Fades.activeIn_le (h : q'.Fades q) (select : Scope → SecretName → Bool) :
    q'.activeIn select ≤ q.activeIn select := by
  refine countP_le_of_fade h.requests fun r old hFades hr => ?_
  rw [Bool.and_eq_true] at hr ⊢
  rw [hFades.scope, hFades.key] at hr
  exact ⟨hr.1, hFades.active hr.2⟩

theorem activeIn_mono {select select' : Scope → SecretName → Bool}
    (h : ∀ s k, select s k → select' s k) :
    q.activeIn select ≤ q.activeIn select' := by
  refine List.countP_mono_left fun r _ hr => ?_
  rw [Bool.and_eq_true] at hr ⊢
  exact ⟨h _ _ hr.1, hr.2⟩

theorem activeIn_ofScope (q : Queue) (scope : Scope) :
    q.activeIn (ofScope scope) = q.activeIn (ordinaryOf scope) + q.activeIn (capabilityOf scope) := by
  unfold activeIn
  rw [List.countP_eq_countP_filter_add _ _ fun r => !r.key.isCapability, List.countP_filter,
    List.countP_filter]
  refine congrArg₂ _ (List.countP_congr fun r _ => ?_) (List.countP_congr fun r _ => ?_)
  · simp [ofScope, ordinaryOf, and_right_comm]
  · simp [ofScope, capabilityOf, and_right_comm]

def push (q : Queue) (scope : Scope) (key : SecretName) (now : Nat) (ttl : Option Nat) : Queue :=
  { q with
    nextId := satAdd q.nextId 1
    requests := q.requests ++
      [{ id := q.nextId, scope, key, state := .pending, generation := 0, created := now,
         requestedTtl := ttl }] }

theorem activeIn_push (select : Scope → SecretName → Bool) :
    (q.push scope key now ttl).activeIn select = q.activeIn select + (select scope key).toNat := by
  unfold activeIn push
  rw [List.countP_append, List.countP_singleton]
  cases select scope key <;> rfl

theorem enqueue_spec (q : Queue) (scope : Scope) (key : SecretName) (now : Nat)
    (ttl : Option Nat) :
    (∃ r ∈ q.requests, key.isCapability = false ∧ r.scope = scope ∧ r.key = key ∧
        r.state.isActive ∧ q.enqueue scope key now ttl = (q, .ok r.id)) ∨
    (q.enqueue scope key now ttl = (q, .error .tooManyPending) ∧
      (key.isCapability = false → q.activeIn (sameAs scope key) = 0)) ∨
    (q.enqueue scope key now ttl = (q.push scope key now ttl, .ok q.nextId) ∧
      (key.isCapability → q.activeIn (capabilityOf scope) = 0) ∧
      (key.isCapability = false → q.activeIn (ofScope scope) < q.limits.maxPendingPerScope ∧
        q.activeIn (sameAs scope key) = 0)) := by
  cases hCap : key.isCapability with
  | true =>
    refine .inr ?_
    simp only [enqueue, hCap, if_true]
    split
    · exact .inl ⟨rfl, nofun⟩
    · rename_i hRoom
      refine .inr ⟨rfl, fun _ => ?_, nofun⟩
      have hNone : ¬ 1 ≤ q.activeIn (capabilityOf scope) := by
        simpa [activeIn, capabilityOf] using hRoom
      omega
  | false =>
    simp only [enqueue, hCap, Bool.false_eq_true, if_false]
    cases hFind : q.requests.find? fun r => r.scope == scope && r.key == key && r.state.isActive with
    | some r =>
      have hr := List.find?_some hFind
      simp only [Bool.and_eq_true, beq_iff_eq] at hr
      exact .inl ⟨r, List.mem_of_find?_eq_some hFind, trivial, hr.1.1, hr.1.2, hr.2, rfl⟩
    | none =>
      have hNone : q.activeIn (sameAs scope key) = 0 :=
        List.countP_eq_zero.mpr (List.find?_eq_none.mp hFind)
      refine .inr ?_
      dsimp only
      split
      · exact .inl ⟨rfl, fun _ => hNone⟩
      · rename_i hRoom
        refine .inr ⟨rfl, nofun, fun _ => ⟨?_, hNone⟩⟩
        have hSome : ¬ q.limits.maxPendingPerScope ≤ q.activeIn (ofScope scope) := by
          simpa [activeIn, ofScope] using hRoom
        omega

theorem enqueue_queue (q : Queue) (scope : Scope) (key : SecretName) (now : Nat)
    (ttl : Option Nat) :
    (q.enqueue scope key now ttl).1 = q ∨
      (q.enqueue scope key now ttl).1 = q.push scope key now ttl := by
  rcases q.enqueue_spec scope key now ttl with ⟨r, -, -, -, -, -, hSame⟩ | ⟨hRefused, -⟩ | ⟨hPush, -⟩
  · exact .inl (congrArg Prod.fst hSame)
  · exact .inl (congrArg Prod.fst hRefused)
  · exact .inr (congrArg Prod.fst hPush)

/-- Ids grow along the list and the next one is larger; no scope has more active
requests than `enqueue` admits, and none has two for one key. -/
structure Shape (q : Queue) : Prop where
  ordered : q.requests.Pairwise fun r r' => r.id < r'.id
  below : ∀ r ∈ q.requests, r.id < q.nextId
  ordinary : ∀ scope, q.activeIn (ordinaryOf scope) ≤ q.limits.maxPendingPerScope
  capability : ∀ scope, q.activeIn (capabilityOf scope) ≤ 1
  same : ∀ scope key, q.activeIn (sameAs scope key) ≤ 1

namespace Shape

theorem fades (h : Shape q) (hFades : q'.Fades q) : Shape q' := by
  have hIds : (q'.requests.map fun r => r.id).Sublist (q.requests.map fun r => r.id) :=
    map_sublist_of_fade hFades.requests fun _ _ hr => hr.id
  refine ⟨?_, fun r hr => ?_, fun scope => ?_, fun scope => ?_, fun scope key => ?_⟩
  · exact List.pairwise_map.mp ((List.pairwise_map.mpr h.ordered).sublist hIds)
  · obtain ⟨old, hOld, hr⟩ := mem_of_fade hFades.requests hr
    rw [hFades.nextId, hr.id]
    exact h.below old hOld
  · rw [hFades.limits]
    exact Nat.le_trans (hFades.activeIn_le _) (h.ordinary scope)
  · exact Nat.le_trans (hFades.activeIn_le _) (h.capability scope)
  · exact Nat.le_trans (hFades.activeIn_le _) (h.same scope key)

theorem push (h : Shape q) (hWord : q.nextId < wordMax)
    (hCap : key.isCapability → q.activeIn (capabilityOf scope) = 0)
    (hKey : key.isCapability = false → q.activeIn (ofScope scope) < q.limits.maxPendingPerScope ∧
      q.activeIn (sameAs scope key) = 0) :
    Shape (q.push scope key now ttl) := by
  have hNext : (q.push scope key now ttl).nextId = q.nextId + 1 := satAdd_one_of_lt hWord
  refine ⟨?_, fun r hr => ?_, fun scope' => ?_, fun scope' => ?_, fun scope' key' => ?_⟩
  · refine List.pairwise_append.mpr ⟨h.ordered, List.pairwise_singleton _ _, ?_⟩
    intro r hr new hNew
    obtain rfl := List.mem_singleton.mp hNew
    exact h.below r hr
  · rw [hNext]
    rcases List.mem_append.mp hr with hOld | hNew
    · exact Nat.lt_succ_of_lt (h.below r hOld)
    · obtain rfl := List.mem_singleton.mp hNew
      exact Nat.lt_succ_self _
  · rw [activeIn_push]
    have hBefore := h.ordinary scope'
    show _ ≤ q.limits.maxPendingPerScope
    -- the count goes up where the request is ordinary and of this scope
    cases hNew : ordinaryOf scope' scope key with
    | false => simpa using hBefore
    | true =>
      simp only [ordinaryOf, Bool.and_eq_true, beq_iff_eq, Bool.not_eq_true'] at hNew
      obtain ⟨rfl, hOrdinary⟩ := hNew
      have hSplit := q.activeIn_ofScope scope
      have hRoom := (hKey hOrdinary).1
      rw [Bool.toNat_true]
      omega
  · rw [activeIn_push]
    have hBefore := h.capability scope'
    cases hNew : capabilityOf scope' scope key with
    | false => simpa using hBefore
    | true =>
      simp only [capabilityOf, Bool.and_eq_true, beq_iff_eq] at hNew
      obtain ⟨rfl, hIs⟩ := hNew
      rw [hCap hIs]
      exact Nat.le_refl 1
  · rw [activeIn_push]
    have hBefore := h.same scope' key'
    cases hNew : sameAs scope' key' scope key with
    | false => simpa using hBefore
    | true =>
      simp only [sameAs, Bool.and_eq_true, beq_iff_eq] at hNew
      obtain ⟨rfl, rfl⟩ := hNew
      cases hIs : key.isCapability with
      | false =>
        rw [(hKey hIs).2]
        exact Nat.le_refl 1
      | true =>
        -- an active request for the same capability is one of the scope's
        have hOne : q.activeIn (sameAs scope key) ≤ q.activeIn (capabilityOf scope) := by
          refine activeIn_mono fun s k hSame => ?_
          simp only [sameAs, Bool.and_eq_true, beq_iff_eq] at hSame
          obtain ⟨rfl, rfl⟩ := hSame
          simp [capabilityOf, hIs]
        rw [hCap hIs] at hOne
        rw [Nat.le_zero.mp hOne]
        exact Nat.le_refl 1

theorem unique (h : Shape q) {r r' : PendingRequest} (hr : r ∈ q.requests) (hr' : r' ∈ q.requests)
    (hScope : r'.scope = r.scope) (hKey : r'.key = r.key) (hActive : r.state.isActive)
    (hActive' : r'.state.isActive) : r = r' := by
  refine eq_of_countP_le_one (h.same r.scope r.key) hr hr' ?_ ?_
  · simp [sameAs, hActive]
  · simp [sameAs, hScope, hKey, hActive']

theorem eq_of_id (h : Shape q) {r r' : PendingRequest} (hr : r ∈ q.requests)
    (hr' : r' ∈ q.requests) (hId : r'.id = r.id) : r = r' := by
  have hDistinct : q.requests.Pairwise fun r r' => r.id ≠ r'.id := h.ordered.imp Nat.ne_of_lt
  have hNodup : (q.requests.map fun r => r.id).Nodup := List.pairwise_map.mpr hDistinct
  exact List.inj_on_of_nodup_map hNodup hr hr' hId.symm

end Shape

end Queue

theorem Approvals.enqueues_step (h : s.step op = some s') : s.enqueues ≤ s'.enqueues := by
  rcases fades_step h with ⟨scope, key, now, ttl, -, rfl⟩ | ⟨-, hCount⟩
  · exact Nat.le_succ _
  · exact Nat.le_of_eq hCount.symm

theorem Approvals.shape_step
    (h : s.enqueues < wordMax → s.queue.Shape ∧ s.queue.nextId ≤ s.enqueues + 1)
    (hStep : s.step op = some s') :
    s'.enqueues < wordMax → s'.queue.Shape ∧ s'.queue.nextId ≤ s'.enqueues + 1 := by
  intro hFew
  rcases fades_step hStep with ⟨scope, key, now, ttl, -, rfl⟩ | ⟨hFades, hCount⟩
  · dsimp only at hFew ⊢
    obtain ⟨hShape, hNext⟩ := h (by omega)
    rcases s.queue.enqueue_spec scope key now ttl with
      ⟨r, -, -, -, -, -, hSame⟩ | ⟨hRefused, -⟩ | ⟨hPush, hCap, hKey⟩
    · rw [hSame]
      exact ⟨hShape, Nat.le_succ_of_le hNext⟩
    · rw [hRefused]
      exact ⟨hShape, Nat.le_succ_of_le hNext⟩
    · rw [hPush]
      have hWord : s.queue.nextId < wordMax := by omega
      refine ⟨hShape.push hWord hCap hKey, ?_⟩
      show satAdd s.queue.nextId 1 ≤ _
      rw [satAdd_one_of_lt hWord]
      omega
  · rw [hCount] at hFew ⊢
    obtain ⟨hShape, hNext⟩ := h hFew
    exact ⟨hShape.fades hFades, hFades.nextId ▸ hNext⟩

theorem shape_reachable {limits : QueueLimits} (h : Reachable (approvals limits) s)
    (hFew : s.enqueues < wordMax) : s.queue.Shape ∧ s.queue.nextId ≤ s.enqueues + 1 := by
  have hInv := h.invariant (I := fun s : Approvals => s.enqueues < wordMax →
      s.queue.Shape ∧ s.queue.nextId ≤ s.enqueues + 1)
    (fun _ _ _ hInv _ hStep => Approvals.shape_step hInv hStep) fun _ =>
      ⟨⟨.nil, nofun, fun _ => Nat.zero_le _, fun _ => Nat.zero_le _,
        fun _ _ => Nat.zero_le _⟩, Nat.le_refl _⟩
  exact hInv hFew

theorem limits_reachable {limits : QueueLimits}
    (h : Reachable (approvals limits) s) : s.queue.limits = limits := by
  refine h.invariant (I := fun s : Approvals => s.queue.limits = limits) ?_ rfl
  intro s op s' hInv _ hStep
  rcases Approvals.fades_step hStep with ⟨scope, key, now, ttl, -, rfl⟩ | ⟨hFades, -⟩
  · dsimp only
    rcases s.queue.enqueue_queue scope key now ttl with hSame | hPush
    · rw [hSame]
      exact hInv
    · rw [hPush]
      exact hInv
  · exact hFades.limits.trans hInv

/-- **The shape of the queue.** Ids grow along the list. In each scope, at most
`max_pending_per_scope` requests that are not for a capability are active, at most one that is, and
at most one for a key. An `enqueue` for a key with an active request returns its id and changes
nothing. `next_ready` returns the first pending request, and `prune` keeps the active ones. -/
theorem queue_shape {limits : QueueLimits} {s : Approvals} (h : Reachable (approvals limits) s)
    (hFew : s.enqueues < wordMax) :
    s.queue.requests.Pairwise (fun r r' => r.id < r'.id) ∧
    (∀ scope,
      s.queue.activeIn (Queue.ordinaryOf scope) ≤ limits.maxPendingPerScope ∧
      s.queue.activeIn (Queue.capabilityOf scope) ≤ 1 ∧
      s.queue.activeIn (Queue.ofScope scope) ≤ limits.maxPendingPerScope + 1 ∧
      ∀ key, s.queue.activeIn (Queue.sameAs scope key) ≤ 1) ∧
    (∀ scope key now ttl, key.isCapability = false → ∀ r ∈ s.queue.requests, r.scope = scope →
      r.key = key → r.state.isActive = true →
      s.queue.enqueue scope key now ttl = (s.queue, .ok r.id)) ∧
    (∀ scope key now ttl id, (s.queue.enqueue scope key now ttl).2 = .ok id →
      (∃ r ∈ s.queue.requests, r.id = id ∧ r.scope = scope ∧ r.key = key ∧
        r.state.isActive = true ∧ (s.queue.enqueue scope key now ttl).1 = s.queue) ∨
      ((∀ r ∈ s.queue.requests, r.id < id) ∧
        (s.queue.enqueue scope key now ttl).1.requests = s.queue.requests ++
          [⟨id, scope, key, .pending, 0, now, ttl⟩])) ∧
    (∀ now id, s.queue.nextReady now = some id →
      ∃ r ∈ s.queue.requests, r.id = id ∧ r.state = .pending ∧
        ∀ r' ∈ s.queue.requests, r'.state = .pending → id ≤ r'.id) ∧
    ∀ now, ∀ r ∈ s.queue.requests, r.state.isActive = true → r ∈ (s.queue.prune now).requests := by
  obtain ⟨hShape, -⟩ := shape_reachable h hFew
  have hLimits := limits_reachable h
  refine ⟨hShape.ordered, fun scope => ?_, ?_, ?_, ?_, ?_⟩
  · have hOrdinary := hShape.ordinary scope
    have hCap := hShape.capability scope
    have hSplit := s.queue.activeIn_ofScope scope
    rw [hLimits] at hOrdinary
    exact ⟨hOrdinary, hCap, by omega, hShape.same scope⟩
  · rintro scope key now ttl hKey r hr rfl rfl hActive
    rcases s.queue.enqueue_spec r.scope r.key now ttl with
      ⟨r', hr', -, hScope, hSame, hActive', hEq⟩ | ⟨-, hNone⟩ | ⟨-, -, hNone⟩
    · rw [hEq, hShape.unique hr hr' hScope hSame hActive hActive']
    -- the search comes before the count, and would have found the request
    · have hCount := List.countP_eq_zero.mp (hNone hKey) r hr
      exact absurd (by simp [Queue.sameAs, hActive]) hCount
    · have hCount := List.countP_eq_zero.mp (hNone hKey).2 r hr
      exact absurd (by simp [Queue.sameAs, hActive]) hCount
  · intro scope key now ttl id hId
    rcases s.queue.enqueue_spec scope key now ttl with
      ⟨r, hr, -, hScope, hKey, hActive, hEq⟩ | ⟨hRefused, -⟩ | ⟨hPush, -⟩
    · rw [hEq] at hId ⊢
      exact .inl ⟨r, hr, Except.ok.inj hId, hScope, hKey, hActive, rfl⟩
    · rw [hRefused] at hId
      cases hId
    · rw [hPush] at hId ⊢
      cases hId
      exact .inr ⟨hShape.below, rfl⟩
  · intro now id hReady
    obtain ⟨-, -, r, hFind, rfl⟩ := Queue.nextReady_some hReady
    obtain ⟨hPending, before, after, hSplit, hBefore⟩ := find?_split hFind
    have hOrdered := hShape.ordered
    rw [hSplit] at hOrdered ⊢
    refine ⟨r, by simp, rfl, by simpa using hPending, fun r' hr' hPending' => ?_⟩
    rcases List.mem_append.mp hr' with hEarlier | hLater
    · exact absurd (hBefore r' hEarlier) (by simp [hPending'])
    · rcases List.mem_cons.mp hLater with rfl | hLater
      · exact Nat.le_refl _
      · have hTail := (List.pairwise_append.mp hOrdered).2.1
        exact Nat.le_of_lt (List.rel_of_pairwise_cons hTail hLater)
  · intro now r hr hActive
    exact List.mem_filter.mpr ⟨hr, by simp [Queue.retained, hActive]⟩

theorem queue_shape_coalesced :
    let limits := (Config.default []).queueLimits
    let scope : Scope := .tty "/dev/pts/1" "boot"
    let key : SecretName := ⟨"A", by decide⟩
    ∃ s, Reachable (approvals limits) s ∧ s.enqueues < wordMax ∧ s.queue.nextReady 0 = some 1 ∧
      s.queue.enqueue scope key 5 none = (s.queue, .ok 1) := by
  intro limits scope key
  let ops : List ApprovalOp :=
    [.enqueue scope key 0 none, .enqueue scope ⟨"CAP_B", by decide⟩ 0 none]
  have hReplay : (((approvals limits).run (approvals limits).init ops).map fun s =>
      decide (s.enqueues = 2 ∧ s.queue.requests.head? = some ⟨1, scope, key, .pending, 0, 0, none⟩ ∧
        s.queue.nextReady 0 = some 1)) = some true := by
    decide +kernel
  obtain ⟨s, hReach, hSeen⟩ := Reachable.of_replay hReplay
  obtain ⟨hCount, hHead, hReady⟩ := of_decide_eq_true hSeen
  have hFew : s.enqueues < wordMax := by
    rw [hCount]
    decide
  obtain ⟨-, -, hCoalesces, -⟩ := queue_shape hReach hFew
  exact ⟨s, hReach, hFew, hReady,
    hCoalesces scope key 5 none (by decide) _ (List.mem_of_head? hHead) rfl rfl rfl⟩

end Forward.Secrets

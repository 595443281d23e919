import Forward.Lib.Lists
import Forward.Secrets.Config

/-!
# The approval queue

`requests::Queue`, as `queue.rs` and `expiry.rs` compute it. Every method that reads the clock
takes the instant it reads, `deny` too. A method that mutates returns the new queue first. The
lemmas below each definition say what it can do to the request list.
-/

namespace Forward.Secrets

open Lib

inductive RequestState
  | pending
  | decrypting
  | granted
  | denied
  | timedOut
  | failed
  deriving DecidableEq

-- the `Pending | Decrypting` pattern every operation of the queue matches on
def RequestState.isActive : RequestState → Bool
  | .pending | .decrypting => true
  | .granted | .denied | .timedOut | .failed => false

structure PendingRequest where
  id : Nat
  scope : Scope
  key : SecretName
  state : RequestState
  generation : Nat
  created : Nat
  requestedTtl : Option Nat
  deriving DecidableEq

/-- The request as it was enqueued, whatever has become of it since. -/
def PendingRequest.asked (r : PendingRequest) : PendingRequest :=
  { r with state := .pending, generation := 0 }

structure QueueLimits where
  cooldown : Nat
  ttl : Nat
  maxPendingPerScope : Nat

def Config.queueLimits (cfg : Config) : QueueLimits where
  cooldown := cfg.cooldown
  ttl := cfg.requestTtl
  maxPendingPerScope := cfg.maxPendingPerScope

/-- The approval queue. Exactly one decrypt may be in flight. -/
structure Queue where
  requests : List PendingRequest
  limits : QueueLimits
  nextId : Nat
  generation : Nat
  inflight : Option Nat
  lastFinished : Option Nat

namespace Queue

def new (limits : QueueLimits) : Queue where
  requests := []
  limits := limits
  nextId := 1
  generation := 0
  inflight := none
  lastFinished := none

/-! ## Enqueueing -/

def enqueue (q : Queue) (scope : Scope) (key : SecretName) (now : Nat)
    (requestedTtl : Option Nat) : Queue × Except ErrCode Nat :=
  let capability := key.isCapability
  let existing :=
    if capability then none
    else q.requests.find? fun r => r.scope == scope && r.key == key && r.state.isActive
  match existing with
  | some r => (q, .ok r.id)
  | none =>
    let active := q.requests.countP fun r =>
      r.scope == scope && (!capability || r.key.isCapability) && r.state.isActive
    let limit := if capability then 1 else q.limits.maxPendingPerScope
    if limit ≤ active then (q, .error .tooManyPending)
    else
      let request : PendingRequest :=
        { id := q.nextId, scope, key, state := .pending, generation := 0, created := now,
          requestedTtl }
      ({ q with nextId := satAdd q.nextId 1, requests := q.requests ++ [request] },
        .ok q.nextId)

/-! ## Starting a decrypt -/

-- `checked_duration_since` is `None` for an instant before the last finish,
-- and then nothing holds the next decrypt back
def cooling (q : Queue) (now : Nat) : Bool :=
  q.lastFinished.any fun last =>
    (checkedDurationSince now last).any fun elapsed => elapsed < q.limits.cooldown

def nextReady (q : Queue) (now : Nat) : Option Nat :=
  if q.inflight.isSome then none
  else if q.cooling now then none
  else (q.requests.find? fun r => r.state == .pending).map (·.id)

def byId (id : Nat) (r : PendingRequest) : Bool := r.id == id

def markDecrypting (q : Queue) (id now : Nat) : Queue × Option Nat :=
  if q.inflight.isSome || q.cooling now then (q, none)
  else
    match q.requests.find? (byId id) with
    | none => (q, none)
    | some r =>
      if r.state ≠ .pending then (q, none)
      else
        let generation := satAdd q.generation 1
        ({ q with
            generation := generation
            requests := updateFirst (byId id)
              (fun r => { r with state := .decrypting, generation := generation }) q.requests
            inflight := some id },
          some generation)

/-! ## Ending a decrypt -/

def finish (q : Queue) (id now : Nat) : Queue :=
  { q with
    inflight := if q.inflight = some id then none else q.inflight
    lastFinished := some now }

-- `iter_mut().find(by id)` and an assignment of the state
def setState (q : Queue) (id : Nat) (state : RequestState) : Queue :=
  { q with requests := updateFirst (byId id) (fun r => { r with state := state }) q.requests }

-- the invalidation `timeout` and `deny` share: new state, next generation
def invalidate (q : Queue) (id : Nat) (state : RequestState) : Queue :=
  { q with
    requests := updateFirst (byId id)
      (fun r => { r with state := state, generation := satAdd r.generation 1 }) q.requests }

def stillCurrent (q : Queue) (id generation : Nat) : Bool :=
  q.requests.any fun r => r.id == id && r.generation == generation && r.state == .decrypting

def complete (q : Queue) (id generation now : Nat) : Queue × Bool :=
  if q.stillCurrent id generation then ((q.setState id .granted).finish id now, true)
  else (q.finish id now, false)

/-- Mark a decrypt as failed. There is no look at the state it overwrites. -/
def fail (q : Queue) (id now : Nat) : Queue := (q.setState id .failed).finish id now

def stateOf (q : Queue) (id : Nat) : Option RequestState :=
  (q.requests.find? (byId id)).map (·.state)

/-- `timeout` and `deny` differ in the state they record. -/
def expel (q : Queue) (id : Nat) (state : RequestState) (now : Nat) : Queue × Bool :=
  if (q.stateOf id).any RequestState.isActive then ((q.invalidate id state).finish id now, true)
  else (q, false)

def timeout (q : Queue) (id now : Nat) : Queue × Bool := q.expel id .timedOut now

def deny (q : Queue) (id now : Nat) : Queue × Bool := q.expel id .denied now

def expired (q : Queue) (now : Nat) (r : PendingRequest) : Bool :=
  r.state.isActive && (checkedDurationSince now r.created).any fun elapsed => q.limits.ttl < elapsed

-- one turn of the sweep's first loop
def swept (q : Queue) (now : Nat) (r : PendingRequest) : PendingRequest :=
  if q.expired now r then { r with state := .timedOut, generation := satAdd r.generation 1 }
  else r

def sweepTimeouts (q : Queue) (now : Nat) : Queue × List Nat :=
  let ids := (q.requests.filter (q.expired now)).map (·.id)
  let requests := q.requests.map (q.swept now)
  (ids.foldl (fun q id => q.finish id now) { q with requests := requests }, ids)

/-! ## Reading and pruning -/

def describe (q : Queue) (id : Nat) : Option (Scope × SecretName × Option Nat) :=
  (q.requests.find? (byId id)).map fun r => (r.scope, r.key, r.requestedTtl)

def isIdle (q : Queue) : Bool := !q.requests.any (·.state.isActive)

def retained (q : Queue) (now : Nat) (r : PendingRequest) : Bool :=
  r.state.isActive ||
    (checkedDurationSince now r.created).any fun elapsed =>
      elapsed < saturatingMul q.limits.ttl 2

def prune (q : Queue) (now : Nat) : Queue :=
  { q with requests := q.requests.filter (q.retained now) }

/-! ## What the operations leave of each field -/

section

variable {q : Queue} {id now generation : Nat} {scope : Scope} {key : SecretName}
  {ttl : Option Nat} {state : RequestState}

@[simp] theorem finish_requests : (q.finish id now).requests = q.requests := rfl

@[simp] theorem finish_lastFinished : (q.finish id now).lastFinished = some now := rfl

theorem finish_inflight :
    (q.finish id now).inflight = if q.inflight = some id then none else q.inflight := rfl

variable {q' : Queue}

theorem markDecrypting_some {g : Nat}
    (h : q.markDecrypting id now = (q', some g)) :
    q.inflight = none ∧ q.cooling now = false ∧ g = satAdd q.generation 1 ∧
    (∃ r, q.requests.find? (byId id) = some r ∧ r.state = .pending) ∧
    q' = { q with
      generation := g
      requests := updateFirst (byId id)
        (fun r => { r with state := .decrypting, generation := g }) q.requests
      inflight := some id } := by
  unfold markDecrypting at h
  split at h
  · simp at h
  · rename_i hFree
    simp only [Bool.or_eq_true, not_or, Bool.not_eq_true, Option.isSome_eq_false_iff,
      Option.isNone_iff_eq_none] at hFree
    split at h
    · simp at h
    · rename_i r hFind
      split at h
      · simp at h
      · rename_i hPending
        simp only [Prod.mk.injEq, Option.some.injEq] at h
        obtain ⟨rfl, rfl⟩ := h
        exact ⟨hFree.1, hFree.2, rfl, ⟨r, hFind, by simpa using hPending⟩, rfl⟩

theorem describe_of_mark {g : Nat} (h : q.markDecrypting id now = (q', some g)) :
    ∃ r, q.requests.find? (byId id) = some r ∧
      q'.describe id = some (r.scope, r.key, r.requestedTtl) := by
  obtain ⟨-, -, -, ⟨r, hFind, -⟩, rfl⟩ := markDecrypting_some h
  have hMarked := find?_updateFirst_self (p := byId id) (l := q.requests)
    (f := fun r => { r with state := .decrypting, generation := g }) fun _ hx => hx
  refine ⟨r, hFind, ?_⟩
  unfold describe
  dsimp only
  rw [hMarked, hFind]
  rfl

theorem markDecrypting_none (h : q.markDecrypting id now = (q', none)) : q' = q := by
  unfold markDecrypting at h
  split at h
  · simpa using h.symm
  · split at h
    · simpa using h.symm
    · split at h
      · simpa using h.symm
      · simp at h

theorem nextReady_some (h : q.nextReady now = some id) :
    q.inflight = none ∧ q.cooling now = false ∧
    ∃ r, q.requests.find? (fun r => r.state == .pending) = some r ∧ r.id = id := by
  unfold nextReady at h
  split at h
  · cases h
  · rename_i hSlot
    split at h
    · cases h
    · rename_i hCool
      rw [Option.map_eq_some_iff] at h
      exact ⟨by simpa using hSlot, by simpa using hCool, h⟩

theorem cooling_false {last : Nat} (h : q.cooling now = false)
    (hLast : q.lastFinished = some last) (hTime : last ≤ now) :
    last + q.limits.cooldown ≤ now := by
  unfold cooling at h
  rw [hLast, Option.any_some, checkedDurationSince_of_le hTime, Option.any_some,
    decide_eq_false_iff_not] at h
  omega

theorem stateOf_eq_some :
    q.stateOf id = some state ↔ ∃ r, q.requests.find? (byId id) = some r ∧ r.state = state := by
  unfold stateOf
  exact Option.map_eq_some_iff

variable {r : PendingRequest}

theorem byId_iff : byId id r ↔ r.id = id := by
  simp [byId]

theorem byId_false_iff : byId id r = false ↔ r.id ≠ id := by
  simp [byId]

theorem expel_cases (q : Queue) (id : Nat) (state : RequestState) (now : Nat) :
    (∃ r, q.requests.find? (byId id) = some r ∧ r.state.isActive ∧
        q.expel id state now = ((q.invalidate id state).finish id now, true)) ∨
    ((∀ r, q.requests.find? (byId id) = some r → r.state.isActive = false) ∧
        q.expel id state now = (q, false)) := by
  unfold expel stateOf
  cases hFind : q.requests.find? (byId id) with
  | none => exact .inr ⟨by simp, by simp⟩
  | some r =>
    by_cases hActive : r.state.isActive
    · exact .inl ⟨r, rfl, hActive, by simp [hActive]⟩
    · refine .inr ⟨?_, by simp [hActive]⟩
      intro r' hr'
      rw [← Option.some.inj hr']
      simpa using hActive

/-! ## The sweep's release loop -/

theorem foldl_finish_frame (now : Nat) (ids : List Nat) (q : Queue) :
    ∃ inflight last, ids.foldl (fun q id => q.finish id now) q =
      { q with inflight := inflight, lastFinished := last } := by
  induction ids generalizing q with
  | nil => exact ⟨q.inflight, q.lastFinished, rfl⟩
  | cons id rest ih =>
    obtain ⟨inflight, last, hEq⟩ := ih (q.finish id now)
    exact ⟨inflight, last, hEq⟩

theorem foldl_finish_requests (ids : List Nat) (q : Queue) :
    (ids.foldl (fun q id => q.finish id now) q).requests = q.requests := by
  obtain ⟨_, _, hEq⟩ := foldl_finish_frame now ids q
  rw [hEq]

theorem foldl_finish_limits (ids : List Nat) (q : Queue) :
    (ids.foldl (fun q id => q.finish id now) q).limits = q.limits := by
  obtain ⟨_, _, hEq⟩ := foldl_finish_frame now ids q
  rw [hEq]

theorem foldl_finish_nextId (ids : List Nat) (q : Queue) :
    (ids.foldl (fun q id => q.finish id now) q).nextId = q.nextId := by
  obtain ⟨_, _, hEq⟩ := foldl_finish_frame now ids q
  rw [hEq]

theorem foldl_finish_generation (ids : List Nat) (q : Queue) :
    (ids.foldl (fun q id => q.finish id now) q).generation = q.generation := by
  obtain ⟨_, _, hEq⟩ := foldl_finish_frame now ids q
  rw [hEq]

theorem foldl_finish_inflight_none (ids : List Nat) (q : Queue) (h : q.inflight = none) :
    (ids.foldl (fun q id => q.finish id now) q).inflight = none := by
  induction ids generalizing q with
  | nil => exact h
  | cons id rest ih => exact ih _ (by simp [finish_inflight, h])

theorem foldl_finish_inflight_mem {ids : List Nat} (hMem : id ∈ ids) (q : Queue)
    (h : q.inflight = some id) :
    (ids.foldl (fun q id => q.finish id now) q).inflight = none := by
  induction ids generalizing q with
  | nil => cases hMem
  | cons i rest ih =>
    by_cases hi : i = id
    · subst hi
      exact foldl_finish_inflight_none rest _ (by simp [finish_inflight, h])
    · have hRest : id ∈ rest := by
        rcases List.mem_cons.mp hMem with rfl | hm
        · exact absurd rfl hi
        · exact hm
      refine ih hRest _ ?_
      rw [finish_inflight, h, if_neg]
      simpa using Ne.symm hi

theorem foldl_finish_inflight_not_mem {ids : List Nat} (hMem : id ∉ ids) (q : Queue)
    (h : q.inflight = some id) :
    (ids.foldl (fun q id => q.finish id now) q).inflight = some id := by
  induction ids generalizing q with
  | nil => exact h
  | cons i rest ih =>
    rw [List.mem_cons, not_or] at hMem
    refine ih hMem.2 _ ?_
    rw [finish_inflight, h, if_neg]
    simpa using hMem.1

theorem foldl_finish_lastFinished (ids : List Nat) (q : Queue) :
    (ids.foldl (fun q id => q.finish id now) q).lastFinished =
      if ids = [] then q.lastFinished else some now := by
  induction ids generalizing q with
  | nil => rfl
  | cons id rest ih =>
    rw [List.foldl_cons, ih, finish_lastFinished]
    simp

theorem sweepTimeouts_requests :
    (q.sweepTimeouts now).1.requests = q.requests.map (q.swept now) := by
  unfold sweepTimeouts
  rw [foldl_finish_requests]

theorem expired_iff :
    q.expired now r ↔
      r.state.isActive ∧ r.created ≤ now ∧ q.limits.ttl < now - r.created := by
  unfold expired checkedDurationSince
  split
  · simp_all
  · simp only [Option.any_none, Bool.and_false, Bool.false_eq_true, false_iff]
    omega

theorem swept_of_not_expired (h : ¬ q.expired now r) :
    q.swept now r = r := if_neg h

theorem swept_of_expired (h : q.expired now r) :
    q.swept now r = { r with state := .timedOut, generation := satAdd r.generation 1 } := if_pos h

@[simp] theorem swept_id (r : PendingRequest) : (q.swept now r).id = r.id := by
  unfold swept
  split <;> rfl

@[simp] theorem swept_created (r : PendingRequest) : (q.swept now r).created = r.created := by
  unfold swept
  split <;> rfl

/-! ## Which requests can be new in a state -/

section

variable {r : PendingRequest} {want : RequestState}

theorem mem_of_update {p : PendingRequest → Bool} {f : PendingRequest → PendingRequest}
    (hf : ∀ r, (f r).state ≠ want) (h : r ∈ updateFirst p f q.requests)
    (hWant : r.state = want) : r ∈ q.requests := by
  rcases mem_updateFirst h with hOld | ⟨r', _, _, rfl⟩
  · exact hOld
  · exact absurd hWant (hf r')

theorem mem_of_expel (hState : state ≠ want) (h : r ∈ (q.expel id state now).1.requests)
    (hWant : r.state = want) : r ∈ q.requests := by
  rcases q.expel_cases id state now with ⟨_, _, _, hEq⟩ | ⟨_, hEq⟩
  · rw [hEq] at h
    exact mem_of_update (fun _ => hState) h hWant
  · rw [hEq] at h
    exact h

theorem mem_of_sweepTimeouts (hState : .timedOut ≠ want)
    (h : r ∈ (q.sweepTimeouts now).1.requests) (hWant : r.state = want) : r ∈ q.requests := by
  rw [sweepTimeouts_requests] at h
  obtain ⟨r', hr', rfl⟩ := List.mem_map.mp h
  by_cases hExpired : q.expired now r'
  · rw [swept_of_expired hExpired] at hWant
    exact absurd hWant hState
  · rw [swept_of_not_expired hExpired]
    exact hr'

theorem mem_of_complete (hState : .granted ≠ want)
    (h : r ∈ (q.complete id generation now).1.requests) (hWant : r.state = want) :
    r ∈ q.requests := by
  unfold complete at h
  split at h
  · exact mem_of_update (fun _ => hState) h hWant
  · exact h

theorem stillCurrent_mono (h : ∀ r ∈ q'.requests, r.state = .decrypting → r ∈ q.requests)
    (hCurrent : q'.stillCurrent id generation) : q.stillCurrent id generation := by
  unfold stillCurrent at hCurrent ⊢
  rw [List.any_eq_true] at hCurrent ⊢
  obtain ⟨r, hr, hProp⟩ := hCurrent
  simp only [Bool.and_eq_true, beq_iff_eq] at hProp
  exact ⟨r, h r hr hProp.2, by simp [hProp]⟩

end

/-! ## What was asked for does not change -/

theorem asked_updateFirst {f : PendingRequest → PendingRequest} (hf : ∀ r, (f r).asked = r.asked)
    (p : PendingRequest → Bool) (l : List PendingRequest) :
    (updateFirst p f l).map (·.asked) = l.map (·.asked) :=
  map_updateFirst (fun r _ => hf r) l

theorem expel_asked :
    (q.expel id state now).1.requests.map (·.asked) = q.requests.map (·.asked) := by
  rcases q.expel_cases id state now with ⟨r, _, _, hEq⟩ | ⟨_, hEq⟩
  · rw [hEq]
    refine asked_updateFirst ?_ (byId id) q.requests
    exact fun _ => rfl
  · rw [hEq]

theorem sweepTimeouts_asked :
    (q.sweepTimeouts now).1.requests.map (·.asked) = q.requests.map (·.asked) := by
  rw [sweepTimeouts_requests, List.map_map]
  refine List.map_congr_left fun r _ => ?_
  show (q.swept now r).asked = r.asked
  unfold swept
  split <;> rfl

theorem markDecrypting_asked :
    (q.markDecrypting id now).1.requests.map (·.asked) = q.requests.map (·.asked) := by
  rcases hMark : q.markDecrypting id now with ⟨q', _ | g⟩
  · rw [markDecrypting_none hMark]
  · obtain ⟨-, -, -, -, rfl⟩ := markDecrypting_some hMark
    refine asked_updateFirst ?_ (byId id) q.requests
    exact fun _ => rfl

theorem complete_asked :
    (q.complete id generation now).1.requests.map (·.asked) = q.requests.map (·.asked) := by
  unfold complete
  split
  · refine asked_updateFirst ?_ (byId id) q.requests
    exact fun _ => rfl
  · rfl

theorem fail_asked : (q.fail id now).requests.map (·.asked) = q.requests.map (·.asked) := by
  refine asked_updateFirst ?_ (byId id) q.requests
  exact fun _ => rfl

theorem prune_asked :
    ((q.prune now).requests.map (·.asked)).Sublist (q.requests.map (·.asked)) :=
  List.filter_sublist.map _

end

end Queue

end Forward.Secrets

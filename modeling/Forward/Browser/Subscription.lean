import Forward.Browser.Authority
import Forward.Proto.Events

/-!
# The broker subscription fails closed

The subscription worker of `forward serve` beside the grant registry. `run_once` says HELLO and
observes the broker's authority, attaches, and then observes one authority per event; the worker's
loop turns each way it can fail into an invalidation, except where the broker cannot be reached and
the grace for that is not used up.

`received` is not in the source: the events that were read, with the calls that observe them.
-/

namespace Forward.Browser

open Lib Proto Secretsd

inductive SubscriptionFailure
  | initial (error : BrokerError)
  | attached (error : BrokerError)
  deriving DecidableEq

structure SubscriptionTiming where
  reconnectBackoff : Nat
  outageReconnectBackoff : Nat
  maxUnhealthy : Nat

def SubscriptionTiming.standard : SubscriptionTiming := ⟨fromSecs 5, fromSecs 60, fromSecs 30⟩

structure ReconnectBudget where
  unhealthySince : Option Nat

/-- The grace is used up; the first failure starts it. -/
def ReconnectBudget.exhausted (budget : ReconnectBudget) (now maximum : Nat) :
    Bool × ReconnectBudget :=
  let since := budget.unhealthySince.getD now
  (decide (maximum ≤ durationSince now since), ⟨some since⟩)

/-- Where the worker stands. In `helloed`, `observing` and `invalidating` it is
inside a call on the registry, made by the thread `t`. -/
inductive Place
  | starting
  | helloed (t : Nat) (identity : BrokerIdentity)
  | subscribing
  | reading (socket : SocketIdentity)
  | observing (t : Nat) (identity : BrokerIdentity) (socket : SocketIdentity)
  | failed (failure : SubscriptionFailure)
  | invalidating (t : Nat) (failure : SubscriptionFailure)
  | sleeping (failure : SubscriptionFailure) (exhausted : Bool) (wakeAt : Nat)
  deriving DecidableEq

structure Received where
  t : Nat
  socket : SocketIdentity
  line : String
  deriving DecidableEq

structure Worker where
  place : Place
  budget : ReconnectBudget
  inOutage : Bool
  received : List Received

structure Serve where
  registry : Registry
  worker : Worker

/-- `call` and the turns of the registry are those of all threads; the others
are the worker's: what HELLO, the attachment and a read answer is up to the
broker, and `t` numbers the call that follows. -/
inductive ServeAction
  | registry (a : Action)
  | hello (t : Nat) (answer : Except BrokerError BrokerIdentity)
  | subscribe (answer : Except BrokerError SocketIdentity)
  | read (t : Nat) (line : Option String)
  | handle (t : Nat)
  | resume
  | wake

/-- The failure after which nothing proves the authority any more. -/
def SubscriptionFailure.closes (exhausted : Bool) : SubscriptionFailure → Bool
  | .attached _ => true
  | .initial .connect => exhausted
  | .initial _ => true

/-- One line of the subscription: the authority it announces, or a failure. -/
def receive (socket : SocketIdentity) : Option String → Except BrokerError BrokerIdentity
  | none => .error .connect
  | some line =>
    if line.isEmpty then .error .subscriptionClosed
    else if line = subscriberCapacityResponse then .error .subscriberCapacity
    else
      match parseAuthorityEvent line with
      | none => .error (.protocol "malformed broker subscription event")
      | some (instanceId, epoch) => .ok ⟨instanceId, epoch, socket⟩

theorem receive_identity {socket : SocketIdentity} {line instanceId : String} {epoch : Nat}
    {identity : BrokerIdentity} (h : receive socket (some line) = .ok identity)
    (hParse : parseAuthorityEvent line = some (instanceId, epoch)) :
    identity = ⟨instanceId, epoch, socket⟩ := by
  simp only [receive, hParse] at h
  split at h
  · cases h
  · split at h
    · cases h
    · cases h
      rfl

def Call.authoritative : Call → Bool
  | .observeAuthority _ | .invalidateAuthority => true
  | _ => false

namespace Serve

def goto (s : Serve) (place : Place) : Serve := { s with worker := { s.worker with place := place } }

def begin (s : Serve) (t : Nat) (call : Call) (place : Place) : Option Serve :=
  (s.registry.step (.call t call)).map fun registry => { s with registry := registry }.goto place

def returned (s : Serve) (t : Nat) : Bool :=
  match s.registry.tasks t with
  | some (.returned _) => true
  | _ => false

/-- After the invalidation the worker sleeps; only a broker that could not be
reached keeps its budget. -/
def closed (timing : SubscriptionTiming) (s : Serve) (failure : SubscriptionFailure) : Serve :=
  match failure with
  | .initial .connect =>
    { s with worker := { s.worker with inOutage := true } }.goto
      (.sleeping failure true (s.registry.clock + timing.outageReconnectBackoff))
  | _ =>
    { s with worker := { s.worker with budget := ⟨none⟩, inOutage := false } }.goto
      (.sleeping failure false (s.registry.clock + timing.reconnectBackoff))

/-- The match on the failure in the loop of `worker`. -/
def handle (timing : SubscriptionTiming) (s : Serve) (t : Nat) (failure : SubscriptionFailure) :
    Option Serve :=
  match failure with
  | .initial .connect =>
    let (exhausted, budget) := s.worker.budget.exhausted s.registry.clock timing.maxUnhealthy
    let s := { s with worker := { s.worker with budget := budget } }
    if exhausted then s.begin t .invalidateAuthority (.invalidating t failure)
    else
      some ({ s with worker := { s.worker with inOutage := false } }.goto
        (.sleeping failure false (s.registry.clock + timing.reconnectBackoff)))
  | _ => s.begin t .invalidateAuthority (.invalidating t failure)

def step (timing : SubscriptionTiming) (s : Serve) : ServeAction → Option Serve
  | .registry (.call t call) =>
    if call.authoritative then none
    else (s.registry.step (.call t call)).map fun registry => { s with registry := registry }
  | .registry a => (s.registry.step a).map fun registry => { s with registry := registry }
  | .hello t answer =>
    match s.worker.place, answer with
    | .starting, .error e => some (s.goto (.failed (.initial e)))
    | .starting, .ok identity =>
      s.begin t (.observeAuthority identity) (.helloed t identity)
    | _, _ => none
  | .subscribe answer =>
    match s.worker.place, answer with
    | .subscribing, .error e => some (s.goto (.failed (.initial e)))
    | .subscribing, .ok socket => some (s.goto (.reading socket))
    | _, _ => none
  | .read t line =>
    match s.worker.place with
    | .reading socket =>
      match receive socket line with
      | .error e => some (s.goto (.failed (.attached e)))
      | .ok identity =>
        { s with worker := { s.worker with
            received := ⟨t, socket, line.getD ""⟩ :: s.worker.received } }.begin t
          (.observeAuthority identity) (.observing t identity socket)
    | _ => none
  | .handle t =>
    match s.worker.place with
    | .failed failure => s.handle timing t failure
    | _ => none
  | .resume =>
    match s.worker.place with
    | .helloed t _ => if s.returned t then some (s.goto .subscribing) else none
    | .observing t _ socket => if s.returned t then some (s.goto (.reading socket)) else none
    | .invalidating t failure => if s.returned t then some (s.closed timing failure) else none
    | _ => none
  | .wake =>
    match s.worker.place with
    | .sleeping _ _ wakeAt => if wakeAt ≤ s.registry.clock then some (s.goto .starting) else none
    | _ => none

end Serve

def serve (timing : SubscriptionTiming) : System Serve ServeAction where
  init := ⟨registrySystem.init, ⟨.starting, ⟨none⟩, false, []⟩⟩
  step := Serve.step timing

theorem serve_step {timing : SubscriptionTiming} {s s' : Serve} {a : ServeAction}
    (h : (serve timing).step s a = some s') : s.step timing a = some s' := h

/-! ## Calls that change the authority -/

def Task.authoritative : Task → Bool
  | .observing _ | .invalidating => true
  | .draining ending | .severing ending _ _ => ending.holds
  | _ => false

/-- The call that ends in this way, at its start. -/
def Ending.start : Ending → Task
  | .observe authority => .observing authority
  | .invalidate => .invalidating
  | .revoke => .draining .revoke
  | .expire answer => .returned answer

def Ending.leaves : Ending → Option BrokerIdentity
  | .observe authority => some authority
  | _ => none

def Ending.Noted (t : Nat) (trail : List Event) : Ending → Prop
  | .observe authority => ∃ previous, .observed t authority previous ∈ trail
  | .invalidate => .invalidated t ∈ trail
  | _ => False

variable {t : Nat}

theorem Ending.Noted.append {ending : Ending} {trail : List Event}
    (h : ending.Noted t trail) (new : List Event) : ending.Noted t (new ++ trail) := by
  cases ending with
  | observe =>
    obtain ⟨previous, hIn⟩ := h
    exact ⟨previous, List.mem_append_right _ hIn⟩
  | invalidate => exact List.mem_append_right _ h
  | revoke | expire => exact h

namespace Registry

/-- The thread is inside this call; or it has returned, and the authority it
left is still there. -/
inductive Runs (r : Registry) (t : Nat) (ending : Ending) : Prop
  | entered (hTask : r.tasks t = some ending.start)
  | draining (hTask : r.tasks t = some (.draining ending))
  | severing {pipes : List Pipe} {controls : List Nat}
      (hTask : r.tasks t = some (.severing ending pipes controls))
  | returned {answer : Answer} (hTask : r.tasks t = some (.returned answer))
      (hLeft : r.authority = ending.leaves) (hNoted : ending.Noted t r.trail)

section

variable {r r' : Registry} {a : Action} {t : Nat}

theorem authority_step (hMove : r.Move a r') :
    r'.authority = r.authority ∨
      ∃ t task, a.thread = some t ∧ r.tasks t = some task ∧ task.authoritative := by
  cases hMove with
  | observedSame hTask => exact .inr ⟨_, _, rfl, hTask, rfl⟩
  | @concluded t cloned ending hTask =>
    cases ending with
    | observe | invalidate => exact .inr ⟨_, _, rfl, hTask, rfl⟩
    | revoke | expire => exact .inl rfl
  | @guardDropped =>
    refine .inl ?_
    unfold dropGuard
    split <;> rfl
  | _ => exact .inl rfl

theorem authoritative_step (hMove : r.Move a r')
    (hCall : ∀ t call, a = .call t call → call.authoritative = false) {t : Nat} {task : Task}
    (hTask : r'.tasks t = some task) (hTo : task.authoritative) :
    ∃ old, r.tasks t = some old ∧ old.authoritative := by
  by_cases hThread : a.thread = some t
  · cases hMove with
    | @call t' call =>
      have hNot := hCall t' call rfl
      rcases update_some_cases hTask with ⟨-, rfl⟩ | ⟨-, hOld⟩
      · cases call with
        | observeAuthority | invalidateAuthority => cases hNot
        | _ => cases hTo
      · exact ⟨task, hOld, hTo⟩
    | tick => exact ⟨task, hTask, hTo⟩
    | observedOther hOld | invalidating hOld =>
      rcases update_some_cases hTask with ⟨rfl, -⟩ | ⟨-, hOld⟩
      · exact ⟨_, hOld, rfl⟩
      · exact ⟨task, hOld, hTo⟩
    | drained hOld | shut hOld | ended hOld =>
      rcases update_some_cases hTask with ⟨rfl, rfl⟩ | ⟨-, hOld⟩
      · exact ⟨_, hOld, hTo⟩
      · exact ⟨task, hOld, hTo⟩
    | @concluded t' cloned ending hOld =>
      have hUpdate : (((r.conclude t' ending).answer t' ending.answer).tasks) =
          Function.update r.tasks t' (some (.returned ending.answer)) := by
        cases ending <;> rfl
      rw [hUpdate] at hTask
      rcases update_some_cases hTask with ⟨-, rfl⟩ | ⟨-, hOld⟩
      · cases hTo
      · exact ⟨task, hOld, hTo⟩
    | @guardDropped t' grantId cloned pipe hOld =>
      have hUpdate : ((r.dropGuard grantId pipe.id).answer t' .unit).tasks =
          Function.update r.tasks t' (some (.returned .unit)) := by
        unfold dropGuard
        split <;> rfl
      rw [hUpdate] at hTask
      rcases update_some_cases hTask with ⟨-, rfl⟩ | ⟨-, hOld⟩
      · cases hTo
      · exact ⟨task, hOld, hTo⟩
    | _ =>
      rcases update_some_cases hTask with ⟨-, rfl⟩ | ⟨-, hOld⟩
      · cases hTo
      · exact ⟨task, hOld, hTo⟩
  · rw [tasks_other hMove hThread] at hTask
    exact ⟨task, hTask, hTo⟩

theorem runs_turn {ending : Ending} {cloned : Bool} (hHolds : ending.holds)
    (h : Runs r t ending) (hStep : r.step (.turn t cloned) = some r') : Runs r' t ending := by
  rw [step] at hStep
  cases h with
  | entered hTask =>
    rw [hTask] at hStep
    cases ending with
    | observe authority =>
      simp only [Ending.start, turn] at hStep
      split at hStep
      · cases hStep
      · split at hStep
        · cases hStep
          exact .draining (setTask_self ..)
        · cases hStep
          exact .returned (setTask_self ..) rfl ⟨r.authority, List.mem_cons_self ..⟩
    | invalidate =>
      simp only [Ending.start, turn] at hStep
      split at hStep
      · cases hStep
      · cases hStep
        exact .draining (setTask_self ..)
    | revoke | expire => cases hHolds
  | draining hTask =>
    rw [hTask] at hStep
    cases hStep
    exact .severing (setTask_self ..)
  | @severing pipes controls hTask =>
    rw [hTask] at hStep
    rcases pipes with - | ⟨pipe, pipes⟩
    · rcases controls with - | ⟨control, controls⟩
      · cases hStep
        cases ending with
        | observe authority =>
          exact .returned (setTask_self ..) rfl ⟨r.authority, List.mem_cons_self ..⟩
        | invalidate => exact .returned (setTask_self ..) rfl (List.mem_cons_self ..)
        | revoke | expire => cases hHolds
      · cases hStep
        exact .severing (setTask_self ..)
    · cases hStep
      exact .severing (setTask_self ..)
  | returned hTask =>
    rw [hTask] at hStep
    cases hStep

theorem runs_step {ending : Ending} (hHolds : ending.holds) (h : Runs r t ending)
    (hSolo : ∀ t' task, r.tasks t' = some task → task.authoritative → t' = t)
    (hStep : r.step a = some r') : Runs r' t ending := by
  have hMove := step_move hStep
  by_cases hThread : a.thread = some t
  · cases a with
    | call t' call =>
      cases hThread
      cases hMove with
      | call hNew => cases h with
        | entered hTask | draining hTask | severing hTask | returned hTask =>
          cases hNew.symm.trans hTask
    | tick => cases hThread
    | turn =>
      cases hThread
      exact runs_turn hHolds h hStep
  · have hTasks := tasks_other hMove hThread
    cases h with
    | entered hTask => exact .entered (hTasks.trans hTask)
    | draining hTask => exact .draining (hTasks.trans hTask)
    | severing hTask => exact .severing (hTasks.trans hTask)
    | returned hTask hLeft hNoted =>
      obtain ⟨new, hTrail⟩ := trail_step hMove
      refine .returned (hTasks.trans hTask) ?_ (hTrail ▸ hNoted.append new)
      rcases authority_step hMove with hSame | ⟨t', task, hActs, hOther, hTo⟩
      · exact hSame.trans hLeft
      · obtain rfl := hSolo t' task hOther hTo
        exact absurd hActs hThread

end

end Registry

/-! ## The worker and the registry -/

def Place.pending : Place → Option (Nat × Ending)
  | .helloed t identity | .observing t identity _ => some (t, .observe identity)
  | .invalidating t _ => some (t, .invalidate)
  | _ => none

theorem Place.pending_holds {place : Place} {ending : Ending}
    (h : place.pending = some (t, ending)) : ending.holds := by
  cases place with
  | helloed | observing | invalidating => cases h; rfl
  | _ => cases h

/-- Nobody but the worker is about to change the authority, and where it has
handled a failure that closes, there is none. -/
structure Attended (s : Serve) : Prop where
  authorized : s.registry.Authorized
  recorded : s.registry.Recorded
  solo : ∀ t task, s.registry.tasks t = some task → task.authoritative = true →
    ∃ ending, s.worker.place.pending = some (t, ending)
  running : ∀ t ending, s.worker.place.pending = some (t, ending) → s.registry.Runs t ending
  closed : ∀ failure exhausted wakeAt, s.worker.place = .sleeping failure exhausted wakeAt →
    failure.closes exhausted = true → s.registry.authority = none
  received : ∀ x ∈ s.worker.received, ∃ identity, receive x.socket (some x.line) = .ok identity ∧
    (s.worker.place.pending = some (x.t, .observe identity) ∨
      ∃ previous, .observed x.t identity previous ∈ s.registry.trail)

namespace Attended

variable {s s' : Serve} {timing : SubscriptionTiming}

theorem registry (h : Attended s) {a : Action} {r : Registry} (hStep : s.registry.step a = some r)
    (hCall : ∀ t call, a = .call t call → call.authoritative = false) :
    Attended { s with registry := r } := by
  have hMove := Registry.step_move hStep
  obtain ⟨new, hTrail⟩ := Registry.trail_step hMove
  refine ⟨Registry.authorized_step h.authorized hMove,
    Registry.recorded_step h.authorized h.recorded hMove, ?_, ?_, ?_, ?_⟩
  · intro t task hTask hTo
    obtain ⟨old, hOld, hWas⟩ := Registry.authoritative_step hMove hCall hTask hTo
    exact h.solo t old hOld hWas
  · intro t ending hPending
    refine Registry.runs_step (Place.pending_holds hPending) (h.running t ending hPending) ?_ hStep
    intro t' task hTask hTo
    obtain ⟨ending', hPending'⟩ := h.solo t' task hTask hTo
    exact congrArg Prod.fst (Option.mem_unique hPending' hPending)
  · intro failure exhausted wakeAt hPlace hCloses
    rcases Registry.authority_step hMove with hSame | ⟨t, task, -, hTask, hTo⟩
    · exact hSame.trans (h.closed failure exhausted wakeAt hPlace hCloses)
    · -- the worker sleeps, so nobody is about to change the authority
      obtain ⟨ending, hPending⟩ := h.solo t task hTask hTo
      rw [hPlace] at hPending
      cases hPending
  · intro x hx
    obtain ⟨identity, hReceive, hPending | ⟨previous, hIn⟩⟩ := h.received x hx
    · exact ⟨identity, hReceive, .inl hPending⟩
    · refine ⟨identity, hReceive, .inr ⟨previous, ?_⟩⟩
      rw [hTrail]
      exact List.mem_append_right _ hIn

variable {t : Nat}

theorem no_authoritative (h : Attended s) (hPending : s.worker.place.pending = none)
    {task : Task} (hTask : s.registry.tasks t = some task) : task.authoritative = false := by
  by_contra hTo
  obtain ⟨ending, hSome⟩ := h.solo t task hTask (Bool.not_eq_false _ ▸ hTo)
  cases hPending.symm.trans hSome

theorem begin (h : Attended s) {call : Call} {ending : Ending} {place : Place}
    (hBegin : s.begin t call place = some s') (hIdle : s.worker.place.pending = none)
    (hPending : place.pending = some (t, ending)) (hStart : call.start = ending.start) :
    Attended s' := by
  obtain ⟨r, hStep, rfl⟩ := Option.map_eq_some_iff.mp hBegin
  have hMove := Registry.step_move hStep
  refine ⟨Registry.authorized_step h.authorized hMove,
    Registry.recorded_step h.authorized h.recorded hMove, ?_, ?_, ?_, ?_⟩
  · cases hMove with
    | call =>
      intro t' task hTask hTo
      rcases update_some_cases hTask with ⟨rfl, -⟩ | ⟨-, hOld⟩
      · exact ⟨ending, hPending⟩
      · cases (h.no_authoritative hIdle hOld).symm.trans hTo
  · cases hMove with
    | call =>
      intro t' ending' hPending'
      obtain ⟨rfl, rfl⟩ := Prod.mk.inj (Option.mem_unique hPending hPending')
      exact .entered (hStart ▸ Registry.setTask_self ..)
  · intro failure exhausted wakeAt hPlace
    have hSleeps : place = .sleeping failure exhausted wakeAt := hPlace
    rw [hSleeps] at hPending
    cases hPending
  · intro x hx
    obtain ⟨new, hTrail⟩ := Registry.trail_step hMove
    obtain ⟨identity, hReceive, hOld | ⟨previous, hIn⟩⟩ := h.received x hx
    · cases hIdle.symm.trans hOld
    · refine ⟨identity, hReceive, .inr ⟨previous, ?_⟩⟩
      show _ ∈ r.trail
      rw [hTrail]
      exact List.mem_append_right _ hIn

theorem goes (h : Attended s) (hRegistry : s'.registry = s.registry)
    (hReceived : s'.worker.received = s.worker.received)
    (hPending : s'.worker.place.pending = none)
    (hReturned : ∀ t ending, s.worker.place.pending = some (t, ending) →
      ∃ answer, s.registry.tasks t = some (.returned answer))
    (hClosed : ∀ failure exhausted wakeAt, s'.worker.place = .sleeping failure exhausted wakeAt →
      failure.closes exhausted → s.registry.authority = none) : Attended s' := by
  refine ⟨hRegistry ▸ h.authorized, hRegistry ▸ h.recorded, ?_, ?_, ?_, ?_⟩
  · intro t task hTask hTo
    rw [hRegistry] at hTask
    obtain ⟨ending, hWas⟩ := h.solo t task hTask hTo
    obtain ⟨answer, hDone⟩ := hReturned t ending hWas
    obtain rfl := Option.mem_unique hTask hDone
    cases hTo
  · intro t ending hSome
    cases hPending.symm.trans hSome
  · rw [hRegistry]
    exact hClosed
  · intro x hx
    rw [hReceived] at hx
    rw [hRegistry]
    obtain ⟨identity, hReceive, hWas | hIn⟩ := h.received x hx
    · obtain ⟨answer, hDone⟩ := hReturned _ _ hWas
      refine ⟨identity, hReceive, .inr ?_⟩
      cases h.running _ _ hWas with
      | returned hTask hLeft hNoted => exact hNoted
      | entered hTask | draining hTask | severing hTask => cases hTask.symm.trans hDone
    · exact ⟨identity, hReceive, .inr hIn⟩

theorem left (h : Attended s) {ending : Ending} {answer : Answer}
    (hPending : s.worker.place.pending = some (t, ending))
    (hDone : s.registry.tasks t = some (.returned answer)) :
    s.registry.authority = ending.leaves := by
  have hHolds := Place.pending_holds hPending
  cases h.running t ending hPending with
  | returned hTask hLeft => exact hLeft
  | entered hTask =>
    have hEq := hTask.symm.trans hDone
    cases ending with
    | observe | invalidate => cases hEq
    | revoke | expire => cases hHolds
  | draining hTask | severing hTask => cases hTask.symm.trans hDone

end Attended

theorem Serve.returned_iff {s : Serve} :
    s.returned t ↔ ∃ answer, s.registry.tasks t = some (.returned answer) := by
  unfold Serve.returned
  split
  · rename_i answer hTask
    exact ⟨fun _ => ⟨answer, hTask⟩, fun _ => rfl⟩
  · rename_i hNot
    refine ⟨by simp, ?_⟩
    rintro ⟨answer, hTask⟩
    exact absurd hTask (hNot answer)

section

variable {s s' : Serve} {timing : SubscriptionTiming} {t : Nat}

theorem attended_handle (h : Attended s) {failure : SubscriptionFailure}
    (hPlace : s.worker.place = .failed failure)
    (hStep : s.handle timing t failure = some s') : Attended s' := by
  have hIdle : s.worker.place.pending = none := by rw [hPlace]; rfl
  -- the budget is the worker's own
  have hBudget : ∀ budget, Attended { s with worker := { s.worker with budget := budget } } := by
    intro budget
    exact ⟨h.authorized, h.recorded, h.solo, h.running, h.closed, h.received⟩
  have hOther : s.begin t .invalidateAuthority (.invalidating t failure) = some s' →
      Attended s' := fun hBegin => h.begin hBegin hIdle rfl rfl
  cases failure with
  | attached => exact hOther hStep
  | initial error =>
    cases error with
    | connect =>
      simp only [Serve.handle] at hStep
      split at hStep
      · exact (hBudget _).begin hStep hIdle rfl rfl
      · cases hStep
        refine h.goes rfl rfl rfl ?_ ?_
        · intro t' ending hPending
          cases hIdle.symm.trans hPending
        · intro failure exhausted wakeAt hSleeping hCloses
          cases hSleeping
          cases hCloses
    | _ => exact hOther hStep

theorem attended_resume (h : Attended s) (hStep : s.step timing .resume = some s') :
    Attended s' := by
  have hOnly : ∀ {t : Nat} {ending : Ending}, s.worker.place.pending = some (t, ending) →
      s.returned t → ∀ t' ending', s.worker.place.pending = some (t', ending') →
      ∃ answer, s.registry.tasks t' = some (.returned answer) := by
    intro t ending hPending hDone t' ending' hPending'
    obtain ⟨rfl, -⟩ := Prod.mk.inj (Option.mem_unique hPending hPending')
    exact Serve.returned_iff.mp hDone
  simp only [Serve.step] at hStep
  split at hStep
  · rename_i hPlace
    split at hStep
    · rename_i hDone
      cases hStep
      exact h.goes rfl rfl rfl (hOnly (by rw [hPlace]; rfl) hDone) nofun
    · cases hStep
  · rename_i hPlace
    split at hStep
    · rename_i hDone
      cases hStep
      exact h.goes rfl rfl rfl (hOnly (by rw [hPlace]; rfl) hDone) nofun
    · cases hStep
  · rename_i t failure hPlace
    have hPending : s.worker.place.pending = some (t, .invalidate) := by rw [hPlace]; rfl
    split at hStep
    · rename_i hDone
      cases hStep
      obtain ⟨answer, hTask⟩ := Serve.returned_iff.mp hDone
      have hNone : s.registry.authority = none := h.left hPending hTask
      have hParts : (s.closed timing failure).registry = s.registry ∧
          (s.closed timing failure).worker.received = s.worker.received ∧
          (s.closed timing failure).worker.place.pending = none := by
        unfold Serve.closed
        split <;> exact ⟨rfl, rfl, rfl⟩
      exact h.goes hParts.1 hParts.2.1 hParts.2.2 (hOnly hPending hDone) fun _ _ _ _ _ => hNone
    · cases hStep
  · cases hStep

theorem attended_read (h : Attended s) {line : Option String}
    (hStep : s.step timing (.read t line) = some s') : Attended s' := by
  simp only [Serve.step] at hStep
  split at hStep
  · rename_i socket hPlace
    have hIdle : s.worker.place.pending = none := by rw [hPlace]; rfl
    split at hStep
    · cases hStep
      refine h.goes rfl rfl rfl ?_ nofun
      intro t' ending hPending
      cases hIdle.symm.trans hPending
    · rename_i identity hReceive
      obtain ⟨text, rfl⟩ : ∃ text, line = some text := by
        cases line with
        | none => cases hReceive
        | some text => exact ⟨text, rfl⟩
      -- the call is begun as before, and the line is put on the list
      obtain ⟨r, hCall, rfl⟩ := Option.map_eq_some_iff.mp hStep
      have hPlain : s.begin t (.observeAuthority identity) (.observing t identity socket) =
          some ({ s with registry := r }.goto (.observing t identity socket)) :=
        Option.map_eq_some_iff.mpr ⟨r, hCall, rfl⟩
      have hBegun := h.begin hPlain hIdle rfl rfl
      refine ⟨hBegun.authorized, hBegun.recorded, hBegun.solo, hBegun.running, hBegun.closed, ?_⟩
      intro x hx
      rcases List.mem_cons.mp hx with rfl | hx
      · exact ⟨identity, hReceive, .inl rfl⟩
      · exact hBegun.received x hx
  · cases hStep

theorem attended_step {a : ServeAction} (h : Attended s) (hStep : s.step timing a = some s') :
    Attended s' := by
  have hMoves : ∀ {place : Place}, s.worker.place.pending = none → place.pending = none →
      (∀ failure exhausted wakeAt, place ≠ .sleeping failure exhausted wakeAt) →
      Attended (s.goto place) := by
    intro place hIdle hPending hAwake
    refine h.goes rfl rfl hPending ?_ ?_
    · intro t ending hSome
      cases hIdle.symm.trans hSome
    · intro failure exhausted wakeAt hSleeping
      exact absurd hSleeping (hAwake failure exhausted wakeAt)
  cases a with
  | registry a =>
    have hOther : ∀ t call, a = .call t call → call.authoritative = false := by
      rintro t call rfl
      by_contra hTo
      have hRefused : s.step timing (.registry (.call t call)) = none := by
        simp only [Serve.step, Bool.not_eq_false _ ▸ hTo, if_pos]
      cases hRefused.symm.trans hStep
    have hRegistry : ∃ r, s.registry.step a = some r ∧ { s with registry := r } = s' := by
      cases a with
      | call t call =>
        simp only [Serve.step, hOther t call rfl, Bool.false_eq_true, if_false] at hStep
        exact Option.map_eq_some_iff.mp hStep
      | tick | turn => exact Option.map_eq_some_iff.mp hStep
    obtain ⟨r, hRun, rfl⟩ := hRegistry
    exact h.registry hRun hOther
  | hello =>
    simp only [Serve.step] at hStep
    split at hStep
    · rename_i hPlace
      cases hStep
      exact hMoves (by rw [hPlace]; rfl) rfl (by simp)
    · rename_i hPlace
      exact h.begin hStep (by rw [hPlace]; rfl) rfl rfl
    · cases hStep
  | subscribe =>
    simp only [Serve.step] at hStep
    split at hStep
    · rename_i hPlace
      cases hStep
      exact hMoves (by rw [hPlace]; rfl) rfl (by simp)
    · rename_i hPlace
      cases hStep
      exact hMoves (by rw [hPlace]; rfl) rfl (by simp)
    · cases hStep
  | read => exact attended_read h hStep
  | handle =>
    simp only [Serve.step] at hStep
    split at hStep
    · rename_i hPlace
      exact attended_handle h hPlace hStep
    · cases hStep
  | resume => exact attended_resume h hStep
  | wake =>
    simp only [Serve.step] at hStep
    split at hStep
    · rename_i hPlace
      split at hStep
      · cases hStep
        exact hMoves (by rw [hPlace]; rfl) rfl (by simp)
      · cases hStep
    · cases hStep

theorem attended_init : Attended (serve timing).init where
  authorized := Registry.authorized_init
  recorded := Registry.recorded_init
  solo := fun _ _ hTask => by cases hTask
  running := fun _ _ hPending => by cases hPending
  closed := fun _ _ _ hPlace => by cases hPlace
  received := fun _ hx => by cases hx

theorem attended_reachable (h : Reachable (serve timing) s) : Attended s :=
  h.invariant (I := Attended)
    (fun _ _ _ hInv _ hStep => attended_step hInv (serve_step hStep)) attended_init

end

/-- **The subscription fails closed**: once the worker has handled a failure that closes, the
registry has no authority and no grant, and no insertion succeeds, until an authority is observed
again. And a grant that outlives the observation of an event was inserted under that event's
authority. -/
theorem fails_closed {timing : SubscriptionTiming} {s : Serve} (h : Reachable (serve timing) s) :
    (∀ failure exhausted wakeAt s' newer,
      s.worker.place = .sleeping failure exhausted wakeAt → failure.closes exhausted = true →
      Path (serve timing) anyStep s s' → s'.registry.trail = newer ++ s.registry.trail →
      (∀ t a previous, .observed t a previous ∉ newer) →
      s'.registry.authority = none ∧ (∀ id entry, s'.registry.grants.lookup id ≠ some entry) ∧
        ∀ t id a grant, .inserted t id a grant ∉ newer) ∧
    ∀ t socket line instanceId epoch answer,
      ⟨t, socket, line⟩ ∈ s.worker.received → parseAuthorityEvent line = some (instanceId, epoch) →
      s.registry.tasks t = some (.returned answer) →
      ∃ newer previous older,
        s.registry.trail = newer ++ .observed t ⟨instanceId, epoch, socket⟩ previous :: older ∧
        ∀ id entry, s.registry.grants.lookup id = some entry →
          ∀ id' a grant, .inserted entry.call id' a grant ∈ older →
            a = ⟨instanceId, epoch, socket⟩ := by
  have hInv := attended_reachable h
  constructor
  · intro failure exhausted wakeAt s' newer hPlace hCloses hPath hTrail hNewer
    have hInv' := attended_reachable (h.path hPath)
    have hNone := hInv.closed failure exhausted wakeAt hPlace hCloses
    have hOlder : latest s.registry.trail = none := hInv.recorded.authority.symm.trans hNone
    obtain ⟨hAuthority, hInserted⟩ :=
      Registry.closed_until_observed hInv'.recorded hTrail hOlder hNewer
    refine ⟨hAuthority, ?_, hInserted⟩
    intro id entry hEntry
    obtain ⟨a, hSome, -⟩ := hInv'.authorized.under id entry hEntry
    cases hAuthority.symm.trans hSome
  · intro t socket line instanceId epoch answer hReceived hParse hTask
    obtain ⟨identity, hReceive, hNoted⟩ := hInv.received _ hReceived
    obtain rfl := receive_identity hReceive hParse
    have hObserved : ∃ previous,
        .observed t ⟨instanceId, epoch, socket⟩ previous ∈ s.registry.trail := by
      rcases hNoted with hPending | hIn
      · cases hInv.running _ _ hPending with
        | returned hDone hLeft hIn => exact hIn
        | entered hOther | draining hOther | severing hOther => cases hOther.symm.trans hTask
      · exact hIn
    obtain ⟨previous, hIn⟩ := hObserved
    obtain ⟨newer, older, hTrail⟩ := List.append_of_mem hIn
    refine ⟨newer, previous, older, hTrail, ?_⟩
    intro id entry hEntry id' a grant hInserted
    exact Registry.survivor_named hInv.authorized hInv.recorded hTrail hEntry hInserted

/-- A grant outlives an event of its own authority; then the subscription closes,
and a ceremony that comes too late is refused. -/
theorem fails_closed_attached :
    ∃ (u s s' : Serve) (wakeAt : Nat) (entry : GrantEntry) (a : BrokerIdentity),
      Reachable (serve .standard) u ∧ u.registry.grants.lookup 0 = some entry ∧
      (∃ newer previous older, u.registry.trail = newer ++ .observed 2 a previous :: older ∧
        ∀ id' a' grant, .inserted entry.call id' a' grant ∈ older → a' = a) ∧
      Reachable (serve .standard) s ∧
      s.worker.place = .sleeping (.attached .subscriptionClosed) false wakeAt ∧
      Path (serve .standard) anyStep s s' ∧
      s'.registry.tasks 4 = some (.returned (.inserted none)) ∧
      s'.registry.authority = none ∧ ∀ id entry, s'.registry.grants.lookup id ≠ some entry := by
  let socket : SocketIdentity := ⟨1, 2⟩
  let a : BrokerIdentity := ⟨"broker", 1, socket⟩
  let grant : Grant := ⟨"session", ⟨10, 20⟩, [7], 100, 9000⟩
  let call (t : Nat) (c : Call) : ServeAction := .registry (.call t c)
  let turn (t : Nat) : ServeAction := .registry (.turn t true)
  let line := "EPOCH 1 instance=broker\n"
  let attach : List ServeAction :=
    [.hello 0 (.ok a), turn 0, .resume, call 1 (.insertIfAuthority a grant 0), turn 1, turn 1,
     .subscribe (.ok socket), .read 2 (some line), turn 2, .resume]
  let close : List ServeAction :=
    [.read 3 (some ""), .handle 3, turn 3, turn 3, turn 3, turn 3, .resume]
  let late : List ServeAction := [call 4 (.insertIfAuthority a grant 0), turn 4]
  have hReplay : ((serve .standard).run (serve .standard).init attach).bind (fun u =>
      ((serve .standard).run u close).bind fun s =>
        ((serve .standard).run s late).map fun s' =>
          decide (u.registry.grants.lookup 0 = some ⟨grant, 0, 1⟩ ∧
            u.worker.received = [⟨2, socket, line⟩] ∧
            u.registry.tasks 2 = some (.returned (.changed false)) ∧
            s.worker.place = .sleeping (.attached .subscriptionClosed) false (fromSecs 5) ∧
            s'.registry.tasks 4 = some (.returned (.inserted none)) ∧
            s'.registry.trail = s.registry.trail)) = some true := by
    decide +kernel
  obtain ⟨u, hAttach, hRest⟩ := Option.bind_eq_some_iff.mp hReplay
  obtain ⟨s, hClose, hRest⟩ := Option.bind_eq_some_iff.mp hRest
  obtain ⟨s', hLate, hSeen⟩ := Option.map_eq_some_iff.mp hRest
  obtain ⟨hEntry, hReceived, hTask, hPlace, hRefused, hTrail⟩ := of_decide_eq_true hSeen
  have hReach : Reachable (serve .standard) s := (Path.of_run hAttach).trans (Path.of_run hClose)
  obtain ⟨-, hEvents⟩ := fails_closed (Path.of_run hAttach)
  obtain ⟨newer, previous, older, hSplit, hSurvives⟩ :=
    hEvents 2 socket line "broker" 1 _ (by rw [hReceived]; exact List.mem_singleton_self _)
      (by decide +kernel) hTask
  obtain ⟨hClosed, -⟩ := fails_closed hReach
  obtain ⟨hAuthority, hGrants, -⟩ :=
    hClosed _ _ _ s' [] hPlace rfl (Path.of_run hLate) hTrail (by simp)
  exact ⟨u, s, s', _, _, a, Path.of_run hAttach, hEntry,
    ⟨newer, previous, older, hSplit, hSurvives 0 _ hEntry⟩, hReach, hPlace, Path.of_run hLate,
    hRefused, hAuthority, hGrants⟩

end Forward.Browser

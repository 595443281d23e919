import Forward.Secrets.Ceremony

/-!
# When the request numbers run out

The queue's 64-bit counter stops at its largest value. From then on all requests carry the same
number, and a waiter is told about the oldest of them.

With a request ttl of zero every request can be enqueued, expire and be pruned within a nanosecond,
so that the counter is all that is left. `gaveUp n` is the broker after `n` such requests.
-/

namespace Forward.Secrets

open Lib

/-! ## An AUTHORIZE that gives up at once -/

def impatient : Config := { Config.default [⟨"host", "/d"⟩] with requestTtl := 0 }

def impatientBroker : System Sys Action :=
  broker impatient "boot" "id" (fileWorld "CAP_X.env" 1)

def capX : Capability := ⟨"x", by decide +kernel⟩

def keyX : SecretName := ⟨"CAP_X", by decide +kernel⟩

def spent (nextId : Nat) (last : Option Nat) (trail : List Event) : State :=
  { State.new impatient "boot" "id" with
    queue := { Queue.new impatient.queueLimits with nextId := nextId, lastFinished := last }
    trail := trail }

def flowX (tty : String) : Flow where
  access := ⟨capX.keyName, none, some tty, none⟩
  returnValue := false
  forceFresh := true
  caller := ⟨1⟩
  authorizing := some (capX, 0)

-- what is left of a request that has expired
def expiredX (nextId t : Nat) (scope : Scope) (trail : List Event) : State :=
  { State.new impatient "boot" "id" with
    queue := { Queue.new impatient.queueLimits with
      nextId := satAdd nextId 1
      requests := [⟨nextId, scope, keyX, .timedOut, 1, t, none⟩]
      lastFinished := some (t + 1) }
    trail := trail }

-- the answer to an AUTHORIZE whose request expired
def gaveUpAnswer (id : Nat) : Decision :=
  ⟨.failed .timeout "approval did not complete", some .tokenlessTty, none, some id⟩

section

variable {n h t : Nat} {last : Option Nat} {trail : List Event} {tty : String}

theorem keyName_capX : capX.keyName = "CAP_X" := by decide +kernel

theorem spent_received (r : Readings) :
    (spent n last trail).handle (fileWorld "CAP_X.env" 1) h r []
        (.received (.authorize "x" none (some tty)) ⟨1⟩) =
      some (spent n last (.began h capX 0 :: trail), .resolving (flowX tty)) := by
  have hParse : Capability.parse "x" = .ok capX := dif_pos capX.valid
  simp only [State.handle, State.dispatch, hParse]
  rfl

theorem spent_resolving (r : Readings) :
    (spent n last trail).handle (fileWorld "CAP_X.env" 1) h r [] (.resolving (flowX tty)) =
      some (spent n last (.resolved h (.tty tty "boot") keyX :: trail),
        .awaiting (flowX tty) (.tty tty "boot") keyX) := by
  have hParse : SecretName.parse (flowX tty).access.key = .ok keyX := by
    show SecretName.parse capX.keyName = .ok keyX
    rw [keyName_capX]
    exact dif_pos keyX.valid
  simp only [State.handle, State.resolveAccess, hParse]
  rfl

/-- The readings of a section that falls asleep and wakes too late. -/
def overslept (t : Nat) : Readings :=
  ⟨t, t, t + 1, t + 1, Nat.le_refl _, Nat.le_succ _, Nat.le_refl _⟩

theorem spent_awaiting (ht : t ≤ instantMax) :
    (spent n last trail).handle (fileWorld "CAP_X.env" 1) h (overslept t) []
        (.awaiting (flowX tty) (.tty tty "boot") keyX) =
      some (expiredX n t (.tty tty "boot")
        (.enqueued h ⟨n, .tty tty "boot", keyX, .pending, 0, t, none⟩ :: trail),
        .minting capX 0 (gaveUpAnswer n)) := by
  have hNone : (spent n last trail).grants.lookup (.tty tty "boot") keyX t = none := rfl
  have hLocate : (spent n last trail).store.locate (fileWorld "CAP_X.env" 1) keyX = .ok "host" := by
    show HumanStore.locate ⟨[⟨"host", "/d"⟩]⟩ (fileWorld "CAP_X.env" 1) keyX = .ok "host"
    decide +kernel
  have hDeadline : checkedAdd t (spent n last trail).config.requestTtl = some t := if_pos ht
  have hCap : keyX.isCapability := by decide +kernel
  have hEnqueue : (spent n last trail).enqueue h (.tty tty "boot") keyX t
      (flowX tty).access.requestedTtl =
      ({ spent n last trail with
          queue := { (spent n last trail).queue with
            nextId := satAdd n 1
            requests := [⟨n, .tty tty "boot", keyX, .pending, 0, t, none⟩] } }.emit
          (.enqueued h ⟨n, .tty tty "boot", keyX, .pending, 0, t, none⟩), .ok n) := by
    simp [State.enqueue, Queue.enqueue, hCap, spent, State.new, Queue.new, flowX]
  have hLate : checkedDurationSince t (t + 1) = none := if_neg (by omega)
  rw [handle_awaiting]
  unfold State.awaitApproval overslept
  rw [hNone]
  unfold State.awaitRequest
  rw [hLocate]
  dsimp only
  rw [hDeadline]
  dsimp only
  rw [hEnqueue]
  simp [State.awaitLoop, Queue.stateOf, Queue.byId, State.emit, hLate, Queue.timeout, Queue.expel,
    RequestState.isActive, Queue.invalidate, updateFirst, Queue.finish, State.killActive, spent,
    State.new, Queue.new, expiredX, satAdd, wordMax, flowX, Flow.afterAwait, Flow.finish, Scope.kind,
    gaveUpAnswer]

theorem expiredX_minting (scope : Scope) (r : Readings) :
    (expiredX n t scope trail).handle (fileWorld "CAP_X.env" 1) h r []
        (.minting capX 0 (gaveUpAnswer n)) =
      some (expiredX n t scope trail, .done (gaveUpAnswer n)) := rfl

theorem expiredX_tick (scope : Scope) :
    (expiredX n t scope trail).tick (fileWorld "CAP_X.env" 1) (t + 1) =
      (spent (satAdd n 1) (some (t + 1)) trail, none) := by
  have hGrants : (GrantTable.new.revokeExpired (t + 1)).revokeMissingTtys (fileWorld "CAP_X.env" 1) =
      GrantTable.new := rfl
  have hReceipts : ReceiptTable.empty.sweep (t + 1) = ReceiptTable.empty := rfl
  have hCaps : CapabilityGrantTable.empty.sweep (t + 1) = CapabilityGrantTable.empty := rfl
  simp [State.tick, expiredX, spent, State.new, Queue.new, Queue.sweepTimeouts, Queue.expired,
    RequestState.isActive, Queue.swept, Queue.prune, Queue.retained, impatient,
    Config.queueLimits, saturatingMul, Queue.nextReady, hGrants, hReceipts, hCaps]

end

/-! ## Using up the numbers -/

/-- The whole machine, with an idle worker and no process of the broker. -/
def resting (tasks : Nat → Option Task) (st : State) (clock : Nat) : Sys :=
  ⟨st, .idle, tasks, fileWorld "CAP_X.env" 1, ⟨fun _ => none, 0⟩, clock⟩

def giveUp (h t : Nat) : List Action :=
  [.receive h (.authorize "x" none (some "/dev/pts/1")) ⟨1⟩, .handle h (.at t) [],
   .handle h (.at t) [], .handle h (overslept t) [], .handle h (.at (t + 1)) [], .tick (t + 1)]

def giveUpTrail (h id t : Nat) : List Event :=
  [.answered h (gaveUpAnswer id) (t + 1),
   .enqueued h ⟨id, .tty "/dev/pts/1" "boot", keyX, .pending, 0, t, none⟩,
   .resolved h (.tty "/dev/pts/1" "boot") keyX, .began h capX 0,
   .received h (.authorize "x" none (some "/dev/pts/1")) ⟨1⟩]

section

variable {tasks : Nat → Option Task} {st st' : State} {clock h t id : Nat} {task task' : Task}
  {last : Option Nat} {trail : List Event}

theorem resting_handle {r : Readings} (hClock : clock ≤ r.t0)
    (hHandle : st.handle (fileWorld "CAP_X.env" 1) h r [] task = some (st', task')) :
    impatientBroker.step (resting (Function.update tasks h (some task)) st clock) (.handle h r []) =
      some (resting (Function.update tasks h (some task')) (st'.conclude h r.t0 task') r.t3) := by
  simp [impatientBroker, broker, Sys.step, resting, hClock, hHandle, Sys.setTask]

theorem giveUp_run (hFree : tasks h = none) (hClock : clock ≤ t) (ht : t ≤ instantMax) :
    impatientBroker.run (resting tasks (spent id last trail) clock) (giveUp h t) =
      some (resting (Function.update tasks h (some (.done (gaveUpAnswer id))))
        (spent (satAdd id 1) (some (t + 1)) (giveUpTrail h id t ++ trail)) (t + 1)) := by
  have hReceive : impatientBroker.step (resting tasks (spent id last trail) clock)
      (.receive h (.authorize "x" none (some "/dev/pts/1")) ⟨1⟩) =
      some (resting (Function.update tasks h
          (some (.received (.authorize "x" none (some "/dev/pts/1")) ⟨1⟩)))
        (spent id last (.received h (.authorize "x" none (some "/dev/pts/1")) ⟨1⟩ :: trail))
        clock) := by
    simp [impatientBroker, broker, Sys.step, resting, hFree, Sys.setTask, spent, State.emit]
  have hTick : ∀ (tasks : Nat → Option Task) (scope : Scope) (trail : List Event),
      impatientBroker.step (resting tasks (expiredX id t scope trail) (t + 1)) (.tick (t + 1)) =
        some (resting tasks (spent (satAdd id 1) (some (t + 1)) trail) (t + 1)) := by
    intro tasks scope trail
    simp [impatientBroker, broker, Sys.step, resting, expiredX_tick]
  unfold System.run giveUp
  simp only [List.foldlM_cons, List.foldlM_nil, hReceive, Option.bind_eq_bind, Option.bind_some]
  -- dispatch, resolve, enqueue and expire, and return the failure
  rw [resting_handle (r := .at t) hClock (spent_received _), Option.bind_some]
  dsimp only [State.conclude]
  rw [resting_handle (show (Readings.at t).t3 ≤ (Readings.at t).t0 from Nat.le_refl _)
    (spent_resolving _), Option.bind_some]
  dsimp only [State.conclude]
  rw [resting_handle (show (Readings.at t).t3 ≤ (overslept t).t0 from Nat.le_refl _)
    (spent_awaiting ht), Option.bind_some]
  dsimp only [State.conclude]
  rw [resting_handle (show (overslept t).t3 ≤ (Readings.at (t + 1)).t0 from Nat.le_refl _)
    (expiredX_minting _ _), Option.bind_some]
  dsimp only [State.conclude]
  exact congrArg (fun s => s.bind pure) (hTick _ _ _)

end

def gaveUpTrail : Nat → List Event
  | 0 => []
  | n + 1 => giveUpTrail (n + 2) (n + 1) (2 * n) ++ gaveUpTrail n

/-- The broker after handlers `2 .. n + 1` have used up `n` numbers. -/
def gaveUp (n : Nat) : Sys :=
  resting (fun h => if 2 ≤ h ∧ h < n + 2 then some (.done (gaveUpAnswer (h - 1))) else none)
    (spent (n + 1) (if n = 0 then none else some (2 * n - 1)) (gaveUpTrail n)) (2 * n - 1)

theorem gaveUp_run {n : Nat} (hn : n + 2 ≤ wordMax) :
    impatientBroker.run (gaveUp n) (giveUp (n + 2) (2 * n)) = some (gaveUp (n + 1)) := by
  have hInstant : 2 * n ≤ instantMax := by
    unfold wordMax at hn
    unfold instantMax nanosPerSec
    omega
  have hNext : satAdd (n + 1) 1 = n + 1 + 1 := satAdd_one_of_lt (by omega)
  have hTasks : Function.update
      (fun h => if 2 ≤ h ∧ h < n + 2 then some (Task.done (gaveUpAnswer (h - 1))) else none)
      (n + 2) (some (.done (gaveUpAnswer (n + 1)))) =
      fun h => if 2 ≤ h ∧ h < n + 1 + 2 then some (.done (gaveUpAnswer (h - 1))) else none := by
    funext h
    by_cases hEq : h = n + 2
    · subst hEq
      simp
    · rw [Function.update_of_ne hEq]
      have hIff : (2 ≤ h ∧ h < n + 2) ↔ (2 ≤ h ∧ h < n + 1 + 2) := by omega
      simp only [hIff]
  unfold gaveUp
  rw [giveUp_run (by simp) (by omega) hInstant, hNext, hTasks]
  rfl

/-- **Every number up to the last can be used up.** -/
theorem gaveUp_reachable {n : Nat} (hn : n + 1 ≤ wordMax) : Reachable impatientBroker (gaveUp n) := by
  induction n with
  | zero =>
    have hInit : gaveUp 0 = impatientBroker.init := by
      have hTasks : (fun h => if 2 ≤ h ∧ h < 0 + 2 then
          some (Task.done (gaveUpAnswer (h - 1))) else none) = fun _ => none := by
        funext h
        rw [if_neg (by omega)]
      unfold gaveUp
      rw [hTasks]
      rfl
    rw [hInit]
    exact .init
  | succ n ih => exact (ih (by omega)).path (Path.of_run (gaveUp_run hn))

/-! ## Two receipts for one decrypt -/

theorem started_unique {trail : List Event} {job job' : Job} (hOne : starts trail = 1)
    (hJob : .started job ∈ trail) (hJob' : .started job' ∈ trail) : job = job' := by
  unfold starts at hOne
  rw [List.countP_eq_length_filter, List.length_eq_one_iff] at hOne
  obtain ⟨e, hOnly⟩ := hOne
  have hSame : ∀ j, .started j ∈ trail → .started j = e := by
    intro j hj
    have hIn : .started j ∈ trail.filter Event.isStart := List.mem_filter.mpr ⟨hj, rfl⟩
    rw [hOnly, List.mem_singleton] at hIn
    exact hIn
  exact Event.started.inj ((hSame job hJob).trans (hSame job' hJob').symm)

/-- Once the numbers have run out, AUTHORIZEs from two terminals wait on the
same number, and the one decrypt that is started mints a receipt for each. -/
theorem receipts_share_decrypt :
    ∃ (s : Sys) (answer answer' : Event) (id id' : ReceiptId) (time time' : Nat)
      (older : List Event),
      Reachable (broker impatient "boot" "id" (fileWorld "CAP_X.env" 1)) s ∧
      s.st.trail = answer :: .minted 1 capX id time :: answer' :: .minted 0 capX id' time' :: older ∧
      starts s.st.trail = 1 ∧ ¬ OneCeremonyPerReceipt s.st.trail := by
  let start := fromSecs 20 + 2 * wordMax
  let authorize (h : Nat) (tty : String) : List Action :=
    [.receive h (.authorize "x" none (some tty)) ⟨1⟩, .handle h (.at start) [],
     .handle h (.at start) [], .handle h (.at start) []]
  let turn (h : Nat) (byte : UInt8) : Action :=
    .handle h (.at (start + fromSecs 5)) [⟨List.replicate 32 byte, List.length_replicate⟩]
  let actions : List Action :=
    authorize 0 "/dev/pts/0" ++ authorize 1 "/dev/pts/2" ++
    [.tick start, .openFile true, .spawn (some 7), .start,
     .poll (.exited ⟨true, some [], some [67, 65, 80, 95, 88, 61, 115, 10]⟩),
     .report (.at (start + fromSecs 5)), turn 0 0, turn 0 0, turn 1 1, turn 1 1, turn 0 0, turn 1 1]
  have hReplay : ((impatientBroker.run (gaveUp (wordMax - 1)) actions).map fun s =>
      decide (s.st.queue.generation = 1) &&
        mintsLast 1 (fun cap rest => decide (cap = capX) &&
          mintsLast 0 (fun cap _ => decide (cap = capX)) rest) s.st.trail) = some true := by
    decide +kernel
  rw [Option.map_eq_some_iff] at hReplay
  obtain ⟨s, hRun, hSeen⟩ := hReplay
  have hReach : Reachable impatientBroker s :=
    (gaveUp_reachable (by decide)).path (Path.of_run hRun)
  rw [Bool.and_eq_true, decide_eq_true_eq] at hSeen
  obtain ⟨hGeneration, hSeen⟩ := hSeen
  have hStarts : starts s.st.trail = 1 := by
    have hCount : s.st.queue.generation = min (starts s.st.trail) wordMax :=
      (ceremonies_reachable hReach).generation
    unfold wordMax at hCount
    omega
  obtain ⟨answer, cap, id, time, rest, hTrail, hSeen⟩ := of_mintsLast hSeen
  rw [Bool.and_eq_true, decide_eq_true_eq] at hSeen
  obtain ⟨rfl, hSeen⟩ := hSeen
  obtain ⟨answer', cap', id', time', older, rfl, hCap⟩ := of_mintsLast hSeen
  obtain rfl := of_decide_eq_true hCap
  refine ⟨s, answer, answer', id, id', time, time', older, hReach, hTrail, hStarts, ?_⟩
  rintro ⟨ceremony, hEach, hInj⟩
  have hLater : s.st.trail = [answer] ++ .minted 1 capX id time ::
      answer' :: .minted 0 capX id' time' :: older := hTrail
  have hFirst : s.st.trail = [answer, .minted 1 capX id time, answer'] ++
      .minted 0 capX id' time' :: older := hTrail
  obtain ⟨job, hJob, ⟨_, _, _, _, -, -, hSub⟩, -, -⟩ := hEach _ _ _ _ _ _ hLater
  obtain ⟨job', hJob', ⟨_, _, _, _, -, -, hSub'⟩, -, -⟩ := hEach _ _ _ _ _ _ hFirst
  -- both map to a job that was started, and only one was
  have hStarted : .started job ∈ s.st.trail := by
    rw [hLater]
    exact List.mem_append_right _ (List.mem_cons_of_mem _ (hSub.subset (by simp)))
  have hStarted' : .started job' ∈ s.st.trail := by
    rw [hFirst]
    exact List.mem_append_right _ (List.mem_cons_of_mem _ (hSub'.subset (by simp)))
  have hSame : ceremony 1 = ceremony 0 := by
    rw [hJob, hJob', started_unique hStarts hStarted hStarted']
  cases hInj _ _ _ _ _ _ _ _ _ _ _ _ hLater hFirst hSame

end Forward.Secrets

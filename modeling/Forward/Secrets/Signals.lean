import Forward.Secrets.Places

/-!
# Signals and the groups they reach

The worker's start callback records the process group of the sops child, and DENY, LOCK, the
timeouts and the worker's own report signal what is recorded. The child is reaped outside the lock,
and the record stays until the report: by then its id may belong to somebody else.
-/

namespace Forward.Secrets

open Lib

/-! ## What a section signals -/

def Event.isKill : Event → Bool
  | killed .. => true
  | _ => false

/-- From `st` to `st'` only the decrypt recorded in `st` was signalled, and no
other was recorded. -/
structure Signals (st st' : State) : Prop where
  active : st'.activeDecrypt = st.activeDecrypt ∨ st'.activeDecrypt = none
  trail : ∃ new, st'.trail = new ++ st.trail ∧ ∀ e ∈ new, e.isKill = true →
    ∃ active, st.activeDecrypt = some active ∧ e = .killed active.processGroup active.child

namespace Signals

variable {st st' st'' : State} {e : Event}

theorem quiet (hActive : st'.activeDecrypt = st.activeDecrypt) (hTrail : st'.trail = st.trail) :
    Signals st st' :=
  ⟨.inl hActive, [], hTrail, by simp⟩

theorem event (hActive : st'.activeDecrypt = st.activeDecrypt) (hTrail : st'.trail = e :: st.trail)
    (he : e.isKill = false) : Signals st st' := by
  refine ⟨.inl hActive, [e], hTrail, ?_⟩
  intro x hx hKill
  rw [List.mem_singleton.mp hx, he] at hKill
  cases hKill

theorem trans (h : Signals st st') (h' : Signals st' st'') : Signals st st'' := by
  obtain ⟨new, hNew, hKills⟩ := h.trail
  obtain ⟨new', hNew', hKills'⟩ := h'.trail
  refine ⟨?_, new' ++ new, by rw [hNew', hNew, List.append_assoc], ?_⟩
  · rcases h'.active with hSame | hNone
    · rw [hSame]
      exact h.active
    · exact .inr hNone
  · intro e he hKill
    rcases List.mem_append.mp he with hLater | hEarlier
    · -- what the second part signals was recorded before the first
      obtain ⟨active, hActive, hEq⟩ := hKills' e hLater hKill
      rcases h.active with hSame | hNone
      · exact ⟨active, hSame ▸ hActive, hEq⟩
      · rw [hNone] at hActive
        cases hActive
    · exact hKills e hEarlier hKill

theorem recorded (h : Signals st st') {new : List Event} {pg child : Nat}
    (hNew : st'.trail = new ++ st.trail) (hKilled : .killed pg child ∈ new) :
    ∃ active, st.activeDecrypt = some active ∧ active.processGroup = pg ∧
      active.child = child := by
  obtain ⟨new', hNew', hKills⟩ := h.trail
  rw [hNew', List.append_cancel_right_eq] at hNew
  obtain ⟨active, hActive, hEq⟩ := hKills _ (hNew ▸ hKilled) rfl
  obtain ⟨rfl, rfl⟩ := Event.killed.inj hEq
  exact ⟨active, hActive, rfl, rfl⟩

end Signals

theorem killActive_signals (st : State) (id : Nat) : Signals st (st.killActive id) := by
  unfold State.killActive
  split
  · exact .quiet rfl rfl
  · rename_i active hActive
    split
    · refine ⟨.inr rfl, [.killed active.processGroup active.child], rfl, ?_⟩
      intro e he _
      exact ⟨active, hActive, List.mem_singleton.mp he⟩
    · exact .quiet rfl rfl

variable {w : World}

theorem Micro.signals {role : Role} {c d : Core} (hRole : role ≠ .callback)
    (h : Micro w role c d) : Signals c.st d.st := by
  cases h
  case note e _ hNote =>
    refine .event rfl rfl ?_
    cases e <;> first | rfl | cases hNote
  case enqueue h scope key ttl =>
    rcases enqueue_spec c.st h scope key c.clock ttl with ⟨_, hEq⟩ | ⟨r, _, _, _, _, hEq⟩ | ⟨r, _, hEq⟩
    · exact .quiet (by rw [hEq]) (by rw [hEq])
    · exact .event (by rw [hEq]; rfl) (by rw [hEq]; rfl) (e := .joined h r.id) rfl
    · exact .event (by rw [hEq]; rfl) (by rw [hEq]; rfl) (e := .enqueued h r) rfl
  case kill id => exact killActive_signals c.st id
  case activate hCallback _ => exact absurd hCallback hRole
  case signal hCallback _ _ => exact absurd hCallback hRole
  case began | register | unregister | revoke | start | insert | fail | mint | redeem | lock
      | answer => exact .event rfl rfl rfl
  all_goals exact .quiet rfl rfl

theorem Chain.signals {role : Role} {c d : Core} (hRole : role ≠ .callback)
    (h : Chain w role c d) : Signals c.st d.st := by
  induction h with
  | refl => exact .quiet rfl rfl
  | tail _ hLast ih => exact ih.trans (hLast.signals hRole)

variable {cfg : Config} {s : Sys}

theorem handle_signals (hInv : BrokerInv cfg s) {h : Nat} {r : Readings}
    {reads : List ReceiptId} {task task' : Task} {st' : State} (hTask : s.tasks h = some task)
    (hClock : s.clock ≤ r.t0)
    (hHandle : s.st.handle s.world h r reads task = some (st', task')) :
    Signals s.st (st'.conclude h r.t0 task') := by
  have hRole : task.role ≠ .callback := by
    cases task with
    | received request => cases request <;> simp [Task.role, Request.role]
    | _ => simp [Task.role]
  have hChain : Chain s.world task.role s.core ⟨st', s.worker.job, r.t3⟩ :=
    handle_chain (hInv.tasks h task hTask) hClock hHandle
  refine (hChain.signals hRole).trans ?_
  cases task' with
  | done => exact .event rfl rfl rfl
  | _ => exact .quiet rfl rfl

theorem report_after_kill (st : State) (w : World) (job : Job)
    (result : Except ErrCode DecryptedHumanFile) (r : Readings) :
    (st.report w job result r).activeDecrypt = (st.killActive job.id).activeDecrypt ∧
    ∃ new, (st.report w job result r).trail = new ++ (st.killActive job.id).trail := by
  unfold State.report
  cases result with
  | error e => exact ⟨rfl, [.failed job e], rfl⟩
  | ok file =>
    have hDeny : ∀ st : State, (st.denyStale w job r.t0).activeDecrypt = st.activeDecrypt ∧
        (st.denyStale w job r.t0).trail = st.trail := by
      intro st
      unfold State.denyStale
      split <;> exact ⟨rfl, rfl⟩
    have hInstall : ∀ st : State, (st.install job file r.t1 r.t2).activeDecrypt = st.activeDecrypt ∧
        ∃ new, (st.install job file r.t1 r.t2).trail = new ++ st.trail := by
      intro st
      unfold State.install
      split
      · exact ⟨rfl, [.inserted job _], rfl⟩
      · exact ⟨rfl, [], rfl⟩
    obtain ⟨hActive, hTrail⟩ := hDeny (st.killActive job.id)
    obtain ⟨hActive', new, hTrail'⟩ := hInstall ((st.killActive job.id).denyStale w job r.t0)
    exact ⟨hActive'.trans hActive, new, by rw [← hTrail]; exact hTrail'⟩

/-! ## Groups and their owners -/

/-- The group is still that of this sops child: it has not been waited for, or
some process of its group is left. -/
def Os.Owns (os : Os) (pg child : Nat) : Prop :=
  ∃ reaped others, os.groups pg = some (.child child reaped others)

namespace Os

variable {os os' : Os} {pg pg' child others : Nat} {reaped : Bool}

@[simp] theorem setGroup_same (owner : Option Owner) : (os.setGroup pg owner).groups pg = owner :=
  Function.update_self ..

theorem setGroup_of_ne (h : pg' ≠ pg) (owner : Option Owner) :
    (os.setGroup pg owner).groups pg' = os.groups pg' :=
  Function.update_of_ne h ..

theorem spawn_groups (hGroup : os.groups pg = some (.child child reaped others))
    (hFree : os.groups pg' = none) :
    (os.spawn pg').groups pg = some (.child child reaped others) := by
  have hNe : pg ≠ pg' := by
    rintro rfl
    rw [hGroup] at hFree
    cases hFree
  exact (setGroup_of_ne hNe _).trans hGroup

theorem settle_unreaped (child others : Nat) :
    settle child false others = some (.child child false others) := rfl

theorem settle_owner (child : Nat) (reaped : Bool) (others : Nat) :
    settle child reaped others = none ∨
    settle child reaped others = some (.child child reaped others) := by
  unfold settle
  split
  · exact .inl rfl
  · exact .inr rfl

theorem reap_owner (hOwns : os.Owns pg child) (pg' : Nat) :
    (os.reap pg').Owns pg child ∨ (os.reap pg').groups pg = none := by
  obtain ⟨reaped, others, hGroup⟩ := hOwns
  by_cases hEq : pg = pg'
  · subst hEq
    unfold reap Owns
    rw [hGroup]
    dsimp only
    rw [setGroup_same]
    rcases settle_owner child true others with hNone | hSome
    · exact .inr hNone
    · exact .inl ⟨true, others, hSome⟩
  · refine .inl ⟨reaped, others, ?_⟩
    unfold reap
    split
    · rw [setGroup_of_ne hEq, hGroup]
    · exact hGroup

end Os

variable {a : Action} {pg : Nat}

theorem Sys.OsMove.child {os os' : Os} {child others : Nat} {reaped : Bool}
    (h : OsMove os a os') (hGroup : os.groups pg = some (.child child reaped others)) :
    (∃ others', os'.groups pg = some (.child child reaped others')) ∨
      (reaped ∧ os'.groups pg = none) := by
  have hOther : ∀ {pg' : Nat} {owner : Option Owner}, pg ≠ pg' →
      (os.setGroup pg' owner).groups pg = some (.child child reaped others) :=
    fun hNe => (Os.setGroup_of_ne hNe _).trans hGroup
  cases h with
  | @forkMember pg' child' others' reaped' hGroup' =>
    by_cases hEq : pg = pg'
    · subst hEq
      rw [hGroup] at hGroup'
      obtain ⟨rfl, rfl, rfl⟩ := Owner.child.inj (Option.some.inj hGroup')
      exact .inl ⟨others + 1, Os.setGroup_same _⟩
    · exact .inl ⟨others, hOther hEq⟩
  | @memberExit pg' child' others' reaped' hGroup' =>
    by_cases hEq : pg = pg'
    · subst hEq
      rw [hGroup] at hGroup'
      obtain ⟨rfl, rfl, rfl⟩ := Owner.child.inj (Option.some.inj hGroup')
      rw [Os.setGroup_same]
      cases reaped with
      | false => exact .inl ⟨others', Os.settle_unreaped child others'⟩
      | true =>
        rcases Os.settle_owner child true others' with hNone | hSome
        · exact .inr ⟨rfl, hNone⟩
        · exact .inl ⟨others', hSome⟩
    · exact .inl ⟨others, hOther hEq⟩
  | @foreignStart pg' hGroup' | @foreignEnd pg' hGroup' =>
    refine .inl ⟨others, hOther ?_⟩
    rintro rfl
    rw [hGroup] at hGroup'
    cases hGroup'

/-! ## Whose decrypt is recorded -/

def Worker.running : Worker → Option (Nat × Nat)
  | .starting _ _ pg child => some (pg, child)
  | .polling _ _ pg child => some (pg, child)
  | _ => none

def Worker.Watches (active : ActiveDecrypt) : Worker → Prop
  | .polling job _ pg child =>
    job.id = active.id ∧ pg = active.processGroup ∧ child = active.child
  | .reporting job _ => job.id = active.id
  | _ => False

/-- What holds of the recorded decrypt in every state: the worker is busy with
it, and a child that was not waited for leads the group it was given. -/
structure Watched (s : Sys) : Prop where
  active : ∀ active, s.st.activeDecrypt = some active → s.worker.Watches active
  running : ∀ pg child, s.worker.running = some (pg, child) →
    ∃ others, s.os.groups pg = some (.child child false others)

namespace Watched

variable {s t : Sys}

theorem unrecorded (h : Watched s) (hWorker : ∀ active, ¬ s.worker.Watches active) :
    s.st.activeDecrypt = none := by
  cases hActive : s.st.activeDecrypt with
  | none => rfl
  | some active => exact absurd (h.active active hActive) (hWorker active)

theorem keep (h : Watched s) (hSignals : Signals s.st t.st) (hWorker : t.worker = s.worker)
    (hOs : t.os = s.os) : Watched t := by
  refine ⟨?_, ?_⟩
  · intro active hActive
    rw [hWorker]
    rcases hSignals.active with hSame | hNone
    · exact h.active active (hSame ▸ hActive)
    · rw [hNone] at hActive
      cases hActive
  · rw [hWorker, hOs]
    exact h.running

theorem clear (hActive : t.st.activeDecrypt = none) (hRunning : t.worker.running = none) :
    Watched t := by
  refine ⟨?_, ?_⟩
  · intro active hSome
    rw [hActive] at hSome
    cases hSome
  · intro pg child hSome
    rw [hRunning] at hSome
    cases hSome

theorem reported (h : Watched s) {job : Job} {file : OpenedHumanFile} {pg child : Nat}
    {result : Except ErrCode DecryptedHumanFile} (hWorker : s.worker = .polling job file pg child)
    (hActive : t.st.activeDecrypt = s.st.activeDecrypt)
    (hReporting : t.worker = .reporting job result) : Watched t := by
  refine ⟨?_, ?_⟩
  · intro active hSome
    have hWatches := h.active active (hActive ▸ hSome)
    rw [hWorker] at hWatches
    rw [hReporting]
    exact hWatches.1
  · intro pg' child' hSome
    rw [hReporting] at hSome
    cases hSome

end Watched

theorem report_unrecorded (h : Watched s) {job : Job}
    {result : Except ErrCode DecryptedHumanFile} (hWorker : s.worker = .reporting job result)
    (w : World) (r : Readings) : (s.st.report w job result r).activeDecrypt = none := by
  rw [(report_after_kill s.st w job result r).1]
  unfold State.killActive
  split
  · assumption
  · rename_i active hActive
    have hWatches := h.active active hActive
    rw [hWorker] at hWatches
    have hId : active.id = job.id := Eq.symm hWatches
    rw [if_pos hId]
    rfl

variable {t : Sys}

theorem watched_step (hInv : BrokerInv cfg s)
    (h : Watched s) (hMove : Sys.Move s a t) : Watched t := by
  cases hMove with
  | world => exact h.keep (.quiet rfl rfl) rfl rfl
  | replace | receive => exact h.keep (.event rfl rfl rfl) rfl rfl
  | handle hTask hClock hHandle => exact h.keep (handle_signals hInv hTask hClock hHandle) rfl rfl
  | @tick now st' hWorker hClock hTick =>
    have hSignals := (tick_steps hWorker hClock).signals (by simp)
    rw [hTick] at hSignals
    exact h.keep hSignals rfl rfl
  | @begin now st' job hWorker hClock hTick =>
    have hSignals := (tick_steps hWorker hClock).signals (by simp)
    rw [hTick] at hSignals
    have hNone : s.st.activeDecrypt = none := h.unrecorded fun _ => by rw [hWorker]; exact id
    refine .clear ?_ rfl
    rcases hSignals.active with hSame | hCleared
    · exact hSame.trans hNone
    · exact hCleared
  | openFile hWorker =>
    exact .clear (h.unrecorded fun _ => by rw [hWorker]; exact id) rfl
  | openFailed hWorker | spawnFailed hWorker | spawnLost hWorker =>
    exact .clear (h.unrecorded fun _ => by rw [hWorker]; exact id) rfl
  | @spawn job file pg hWorker =>
    have hNone : s.st.activeDecrypt = none := h.unrecorded fun _ => by rw [hWorker]; exact id
    refine ⟨?_, ?_⟩
    · intro active hActive
      cases hNone.symm.trans hActive
    · intro pg' child' hRunning
      cases hRunning
      exact ⟨0, Os.setGroup_same _⟩
  | @start job file pg child hWorker =>
    refine ⟨?_, ?_⟩
    · -- the callback records the child it was called for, or nothing
      intro active hActive
      change (s.st.onStarted job pg child).activeDecrypt = some active at hActive
      unfold State.onStarted at hActive
      split at hActive
      · cases hActive
        exact ⟨rfl, rfl, rfl⟩
      · have hNone : s.st.activeDecrypt = none := h.unrecorded fun _ => by rw [hWorker]; exact id
        cases hNone.symm.trans hActive
    · intro pg' child' hRunning
      cases hRunning
      exact h.running pg child (by rw [hWorker]; rfl)
  | exited hWorker | exitedBadly hWorker | deadline hWorker | abandoned hWorker =>
    exact h.reported hWorker rfl rfl
  | report hWorker => exact .clear (report_unrecorded h hWorker _ _) rfl
  | os hOs =>
    refine ⟨h.active, ?_⟩
    intro pg child hRunning
    obtain ⟨others, hGroup⟩ := h.running pg child hRunning
    rcases hOs.child hGroup with hKept | ⟨hReaped, _⟩
    · exact hKept
    · cases hReaped

theorem watched_reachable {bootId instanceId : String}
    (h : Reachable (broker cfg bootId instanceId w) s) : Watched s := by
  refine h.strengthen (I := Watched) (.clear rfl rfl) ?_
  intro x a y hx hWatched hStep
  exact watched_step (brokerInv_reachable hx) hWatched (Sys.step_move hStep)

/-! ## Signals of a run -/

/-- The step does not set the recorded group free: if the child is reaped, some
process of its group is left, and the last of them stays while it is recorded. -/
def KeepsRecorded (s : Sys) (a : Action) : Prop :=
  ∀ t active, s.step a = some t → s.st.activeDecrypt = some active →
    (s.os.groups active.processGroup).isSome → (t.os.groups active.processGroup).isSome

def OwnsRecorded (s : Sys) : Prop :=
  ∀ active, s.st.activeDecrypt = some active → s.os.Owns active.processGroup active.child

theorem move_owner {child : Nat} (hMove : Sys.Move s a t)
    (hOwns : s.os.Owns pg child) : t.os.Owns pg child ∨ t.os.groups pg = none := by
  obtain ⟨reaped, others, hGroup⟩ := hOwns
  cases hMove with
  | spawn hWorker hFree | spawnLost hWorker hFree =>
    exact .inl ⟨reaped, others, Os.spawn_groups hGroup hFree⟩
  | exited | exitedBadly | deadline => exact Os.reap_owner ⟨reaped, others, hGroup⟩ _
  | os hOs =>
    rcases hOs.child hGroup with ⟨others', hKept⟩ | ⟨_, hNone⟩
    · exact .inl ⟨reaped, others', hKept⟩
    · exact .inr hNone
  | _ => exact .inl ⟨reaped, others, hGroup⟩

theorem move_active (hInv : BrokerInv cfg s)
    (hMove : Sys.Move s a t) :
    t.st.activeDecrypt = s.st.activeDecrypt ∨ t.st.activeDecrypt = none ∨
    ∃ active, t.st.activeDecrypt = some active ∧
      s.worker.running = some (active.processGroup, active.child) ∧ t.os = s.os := by
  cases hMove with
  | handle hTask hClock hHandle =>
    exact (handle_signals hInv hTask hClock hHandle).active.imp_right Or.inl
  | @tick now st' hWorker hClock hTick | @begin now st' job hWorker hClock hTick =>
    have hSignals := (tick_steps hWorker hClock).signals (by simp)
    rw [hTick] at hSignals
    exact hSignals.active.imp_right Or.inl
  | @start job file pg child hWorker =>
    change (s.st.onStarted job pg child).activeDecrypt = _ ∨
      (s.st.onStarted job pg child).activeDecrypt = _ ∨
      ∃ active, (s.st.onStarted job pg child).activeDecrypt = some active ∧ _
    unfold State.onStarted
    split
    · exact .inr (.inr ⟨⟨job.id, pg, child⟩, rfl, by rw [hWorker]; rfl, rfl⟩)
    · exact .inl rfl
  | report hWorker hClock =>
    have hSignals := (report_steps hInv hWorker hClock).signals (by simp)
    exact hSignals.active.imp_right Or.inl
  | _ => exact .inl rfl

theorem ownsRecorded_step (hInv : BrokerInv cfg s)
    (hWatched : Watched s) (h : OwnsRecorded s) (hKeeps : KeepsRecorded s a)
    (hStep : s.step a = some t) : OwnsRecorded t := by
  intro active hActive
  have hMove := Sys.step_move hStep
  rcases move_active hInv hMove with hSame | hNone | ⟨active', hActive', hRunning, hOs⟩
  · -- recorded before: the condition rules out that it was set free
    rw [hSame] at hActive
    have hOwns := h active hActive
    obtain ⟨reaped, others, hGroup⟩ := id hOwns
    have hSome := hKeeps t active hStep hActive (by rw [hGroup]; rfl)
    rcases move_owner hMove hOwns with hKept | hFreed
    · exact hKept
    · rw [hFreed] at hSome
      cases hSome
  · rw [hNone] at hActive
    cases hActive
  · -- just recorded: the child is still to be waited for
    cases Option.mem_unique hActive' hActive
    obtain ⟨others, hGroup⟩ := hWatched.running _ _ hRunning
    exact ⟨false, others, by rw [hOs]; exact hGroup⟩

theorem onStarted_trail (st : State) (job : Job) (pg child : Nat) :
    (st.onStarted job pg child).trail = st.trail ∨
    (st.onStarted job pg child).trail = .killed pg child :: st.trail := by
  unfold State.onStarted
  split
  · exact .inl rfl
  · exact .inr rfl

theorem move_signals {new : List Event} {child : Nat}
    (hInv : BrokerInv cfg s) (hMove : Sys.Move s a t) (hNew : t.st.trail = new ++ s.st.trail)
    (hKilled : .killed pg child ∈ new) :
    (∃ active, s.st.activeDecrypt = some active ∧ active.processGroup = pg ∧
      active.child = child) ∨ s.worker.running = some (pg, child) := by
  have hOne : ∀ {e : Event}, t.st.trail = e :: s.st.trail → .killed pg child = e := by
    intro e hTrail
    have hEq : [e] ++ s.st.trail = new ++ s.st.trail := hTrail.symm.trans hNew
    rw [List.append_cancel_right_eq] at hEq
    rw [← hEq] at hKilled
    exact List.mem_singleton.mp hKilled
  have hSection : Signals s.st t.st →
      (∃ active, s.st.activeDecrypt = some active ∧ active.processGroup = pg ∧
        active.child = child) ∨ s.worker.running = some (pg, child) :=
    fun hSignals => Or.inl (hSignals.recorded hNew hKilled)
  cases hMove with
  | handle hTask hClock hHandle => exact hSection (handle_signals hInv hTask hClock hHandle)
  | @tick now st' hWorker hClock hTick | @begin now st' job hWorker hClock hTick =>
    have hSignals := (tick_steps hWorker hClock).signals (by simp)
    rw [hTick] at hSignals
    exact hSection hSignals
  | @start job file pg' child' hWorker =>
    rcases onStarted_trail s.st job pg' child' with hSame | hSignal
    · have hNil : [] ++ s.st.trail = new ++ s.st.trail := hSame.symm.trans hNew
      rw [List.append_cancel_right_eq] at hNil
      rw [← hNil] at hKilled
      cases hKilled
    · obtain ⟨rfl, rfl⟩ := Event.killed.inj (hOne hSignal)
      exact .inr (by rw [hWorker]; rfl)
  | report hWorker hClock =>
    have hSignals := (report_steps hInv hWorker hClock).signals (by simp)
    exact hSection hSignals
  | deadline hWorker =>
    obtain ⟨rfl, rfl⟩ := Event.killed.inj (hOne rfl)
    exact .inr (by rw [hWorker]; rfl)
  | replace | receive | openFile | exited => cases hOne rfl
  | _ => exact hSection (.quiet rfl rfl)

theorem freed_reporting {active : ActiveDecrypt} (hWatched : Watched s)
    (hMove : Sys.Move s a t) (hActive : s.st.activeDecrypt = some active)
    (hOwned : (s.os.groups active.processGroup).isSome)
    (hFreed : t.os.groups active.processGroup = none) :
    t.st.activeDecrypt = some active ∧
    ∃ job result, t.worker = .reporting job result ∧ job.id = active.id := by
  have hWatches := hWatched.active active hActive
  have hStill : t.os = s.os → False := by
    intro hOs
    rw [hOs] at hFreed
    rw [hFreed] at hOwned
    cases hOwned
  cases hMove with
  | spawn hWorker _ | spawnLost hWorker _ =>
    rw [hWorker] at hWatches
    exact hWatches.elim
  | exited hWorker _ | exitedBadly hWorker | deadline hWorker =>
    rw [hWorker] at hWatches
    exact ⟨hActive, _, _, rfl, hWatches.1⟩
  | os hOs =>
    refine ⟨hActive, ?_⟩
    cases hWorker : s.worker with
    | polling job file pg child =>
      -- the child was not waited for, so its group stays
      rw [hWorker] at hWatches
      obtain ⟨-, rfl, rfl⟩ := hWatches
      obtain ⟨others, hGroup⟩ := hWatched.running _ _ (by rw [hWorker]; rfl)
      rcases hOs.child hGroup with ⟨others', hKept⟩ | ⟨hReaped, _⟩
      · cases hKept.symm.trans hFreed
      · cases hReaped
    | reporting job result =>
      rw [hWorker] at hWatches
      exact ⟨job, result, rfl, hWatches⟩
    | _ =>
      rw [hWorker] at hWatches
      exact hWatches.elim
  | _ => exact (hStill rfl).elim

theorem report_kills {job : Job} {result : Except ErrCode DecryptedHumanFile}
    {active : ActiveDecrypt} (hWorker : s.worker = .reporting job result)
    (hActive : s.st.activeDecrypt = some active) (hId : job.id = active.id) :
    ∃ t new, s.step (.report (.at s.clock)) = some t ∧ t.st.trail = new ++ s.st.trail ∧
      .killed active.processGroup active.child ∈ new := by
  obtain ⟨new, hNew⟩ := (report_after_kill s.st s.world job result (.at s.clock)).2
  have hKill : (s.st.killActive job.id).trail =
      .killed active.processGroup active.child :: s.st.trail := by
    unfold State.killActive
    rw [hActive]
    dsimp only
    rw [if_pos hId.symm]
    rfl
  refine ⟨{ s with st := s.st.report s.world job result (.at s.clock), worker := .idle },
    new ++ [.killed active.processGroup active.child], ?_, ?_, by simp⟩
  · simp only [Sys.step, hWorker, Readings.at, Nat.le_refl, if_true]
  · rw [List.append_assoc]
    exact hNew.trans (by rw [hKill]; rfl)

/-- **The broker signals only its own decrypt, while no recorded group is set free.** Along every
run whose steps meet `KeepsRecorded`, each signal goes to a group that then belongs to the sops
child it was recorded for. A step that does not meet it leaves the recorded id without an owner, and
the worker's next report signals it. -/
theorem signals_own_group {cfg : Config} {bootId instanceId : String} {w : World} {s t : Sys}
    {a : Action} (hStep : s.step a = some t) :
    (∀ new pg child, Path (broker cfg bootId instanceId w) KeepsRecorded
        (broker cfg bootId instanceId w).init s →
      t.st.trail = new ++ s.st.trail → .killed pg child ∈ new → s.os.Owns pg child) ∧
    (Reachable (broker cfg bootId instanceId w) s → ¬ KeepsRecorded s a →
      ∃ r u new pg child, t.step (.report r) = some u ∧ u.st.trail = new ++ t.st.trail ∧
        .killed pg child ∈ new ∧ t.os.groups pg = none) := by
  refine ⟨?_, ?_⟩
  · intro new pg child hPath hNew hKilled
    have hInv := brokerInv_reachable hPath.forget
    have hWatched : Watched s := watched_reachable hPath.forget
    have hOwns : OwnsRecorded s := by
      refine hPath.strengthen (I := OwnsRecorded) ?_ (by intro active h; cases h)
      intro x b y hx hKeeps hOwns hNext
      exact ownsRecorded_step (brokerInv_reachable hx.forget) (watched_reachable hx.forget)
        hOwns hKeeps hNext
    rcases move_signals hInv (Sys.step_move hStep) hNew hKilled with
      ⟨active, hActive, rfl, rfl⟩ | hRunning
    · exact hOwns active hActive
    · obtain ⟨others, hGroup⟩ := hWatched.running pg child hRunning
      exact ⟨false, others, hGroup⟩
  · intro hReach hFrees
    simp only [KeepsRecorded, not_forall] at hFrees
    obtain ⟨t', active, hStep', hActive, hOwned, hFreed⟩ := hFrees
    cases Option.mem_unique hStep' hStep
    have hNone : t.os.groups active.processGroup = none := by simpa using hFreed
    obtain ⟨hStays, job, result, hWorker, hId⟩ :=
      freed_reporting (watched_reachable hReach) (Sys.step_move hStep) hActive hOwned hNone
    obtain ⟨u, new, hReport, hNew, hKilled⟩ := report_kills hWorker hStays hId
    exact ⟨_, u, new, _, _, hReport, hNew, hKilled, hNone⟩

theorem signals_own_group_deny :
    ∃ (s t : Sys) (a : Action) (new : List Event) (pg child : Nat),
      Path (broker (Config.default [⟨"host", "/d"⟩]) "boot" "id" (fileWorld "A.env" 1))
        KeepsRecorded
        (broker (Config.default [⟨"host", "/d"⟩]) "boot" "id" (fileWorld "A.env" 1)).init s ∧
      s.step a = some t ∧ t.st.trail = new ++ s.st.trail ∧ .killed pg child ∈ new ∧
      s.os.Owns pg child := by
  let sys := broker (Config.default [⟨"host", "/d"⟩]) "boot" "id" (fileWorld "A.env" 1)
  let get : Request := .get "A" none (some "/dev/pts/1") none
  let turn (h : Nat) : Action := .handle h (.at 0) []
  let check (s : Sys) (_ : Action) : Bool := s.st.activeDecrypt.isNone
  let before : List Action :=
    [.receive 0 get ⟨1⟩, turn 0, turn 0, turn 0, .tick 0, .openFile true, .spawn (some 7),
     .receive 1 (.deny 1) ⟨2⟩, .start]
  have hReplay : (((sys.guard check).run sys.init before).bind fun s =>
      (s.step (turn 1)).map fun t =>
        decide (∃ e ∈ t.st.trail.take 2, e = .killed 7 0) &&
          decide (t.st.trail = t.st.trail.take 2 ++ s.st.trail)) = some true := by
    decide +kernel
  simp only [Option.bind_eq_some_iff, Option.map_eq_some_iff] at hReplay
  obtain ⟨s, hRun, t, hStep, hSeen⟩ := hReplay
  rw [Bool.and_eq_true, decide_eq_true_eq, decide_eq_true_eq] at hSeen
  obtain ⟨⟨e, hIn, rfl⟩, hNew⟩ := hSeen
  have hPath : Path sys KeepsRecorded sys.init s := by
    refine (Path.of_run hRun).unguard ?_
    intro x a hNone t active _ hActive
    change x.st.activeDecrypt.isNone = true at hNone
    rw [hActive] at hNone
    cases hNone
  exact ⟨s, t, turn 1, _, 7, 0, hPath, hStep, hNew, hIn,
    (signals_own_group hStep).1 _ 7 0 hPath hNew hIn⟩

/-- The sops child is reaped and its group id given to somebody else before
the worker reports: the report signals the new owner. -/
theorem signal_reaches_stranger :
    ∃ (s t : Sys) (r : Readings) (new : List Event) (pg child : Nat),
      Reachable (broker (Config.default [⟨"host", "/d"⟩]) "boot" "id" (fileWorld "A.env" 1)) s ∧
      s.step (.report r) = some t ∧ t.st.trail = new ++ s.st.trail ∧ .killed pg child ∈ new ∧
      s.os.groups pg = some .foreign := by
  let sys := broker (Config.default [⟨"host", "/d"⟩]) "boot" "id" (fileWorld "A.env" 1)
  let get : Request := .get "A" none (some "/dev/pts/1") none
  let turn (h : Nat) : Action := .handle h (.at 0) []
  let before : List Action :=
    [.receive 0 get ⟨1⟩, turn 0, turn 0, turn 0, .tick 0, .openFile true, .spawn (some 7), .start,
     .poll (.exited ⟨true, some [], some [65, 61, 115, 10]⟩), .foreignStart 7]
  have hReplay : ((sys.run sys.init before).bind fun s =>
      (s.step (.report (.at 0))).map fun t =>
        decide (∃ e ∈ t.st.trail.take 2, e = .killed 7 0) &&
          decide (t.st.trail = t.st.trail.take 2 ++ s.st.trail) &&
          decide (s.os.groups 7 = some .foreign)) = some true := by
    decide +kernel
  simp only [Option.bind_eq_some_iff, Option.map_eq_some_iff] at hReplay
  obtain ⟨s, hRun, t, hStep, hSeen⟩ := hReplay
  rw [Bool.and_eq_true, Bool.and_eq_true, decide_eq_true_eq, decide_eq_true_eq,
    decide_eq_true_eq] at hSeen
  obtain ⟨⟨⟨e, hIn, rfl⟩, hNew⟩, hForeign⟩ := hSeen
  exact ⟨s, t, .at 0, _, 7, 0, Path.of_run hRun, hStep, hNew, hIn, hForeign⟩

end Forward.Secrets

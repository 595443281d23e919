import Forward.Harness.OpenCode

/-!
# What the OpenCode plugin believes about its registrations

`registered` is a belief about the broker. It is right as long as the steps meet `Alone` and
`Timely`, and a `session.deleted` ends a session for good under `Undisturbed`:

* `Alone` — `removeState` runs when no other hook of the session is under way and no message of it
  is left behind (otherwise see `register_after_delete`).
* `Timely` — the answer to a REGISTER is from the running daemon when the continuation runs, or
  the plugin has not heard from the running one yet.
* `Undisturbed` — no REGISTER is handled between the answer to a `session.deleted` and its
  continuation, and one that fails has not left the session registered.
-/

namespace Forward.Harness.OpenCode

open Lib Secrets

namespace Sys

def Quiet (s : Sys) (session : String) : Prop :=
  (∀ p task, s.tasks p = some task → task.session ≠ some session) ∧
    ∀ message ∈ s.stray, message.session ≠ some session

/-! ## Conditions -/

def removing (s : Sys) : Action → Option String
  | .turn p _ _ =>
    match s.tasks p with
    | some (.deleting session (.line (some _))) => some session
    | _ => none
  | .fail p _ _ =>
    match s.tasks p with
    | some (.deleting session _) => some session
    | _ => none
  | _ => none

/-- The session whose `session.deleted` ends in a broker error in the step. -/
def failing (s : Sys) : Action → Option String
  | .turn p _ _ =>
    match s.tasks p with
    | some (.deleting session (.line (some answer))) =>
      if answer.reply = .ok then none else some session
    | _ => none
  | .fail p _ _ =>
    match s.tasks p with
    | some (.deleting session _) => some session
    | _ => none
  | _ => none

def leaves (s : Sys) : Action → Option Message
  | .fail p true _ => (s.tasks p).bind Task.message
  | _ => none

/-- The message that the broker handles in the step. -/
def handled (s : Sys) : Action → Option Message
  | .serve p _ => (s.tasks p).bind Task.message
  | .serveStray i _ => s.stray[i]?
  | _ => none

def Alone (s : Sys) (a : Action) : Prop :=
  ∀ session, s.removing a = some session →
    (∀ p task, s.tasks p = some task → task.hook ≠ some session) ∧
      (∀ message ∈ s.stray, message.session ≠ some session) ∧ s.leaves a = none

def Timely (s : Sys) : Action → Prop
  | .turn p _ _ =>
    match s.tasks p with
    | some (.registering _ _ (.line (some answer))) =>
      answer.reply = .ok → answer.giver = s.broker.instanceId ∨
        s.plugin.brokerInstance ≠ some s.broker.instanceId
    | _ => True
  | _ => True

def Undisturbed (s : Sys) (a : Action) : Prop :=
  (∀ token session, s.handled a = some (.register token session) →
    ∀ p giver, s.tasks p ≠ some (.deleting session (.line (some ⟨giver, .ok⟩)))) ∧
  ∀ session, s.failing a = some session → s.broker.tokensOf session = []

/-! ## Beliefs -/

def Deleting (s : Sys) (session : String) : Prop :=
  ∃ p call, s.tasks p = some (.deleting session call)

/-- The broker has exactly this token for the session, until it is deleted. -/
def Bound (s : Sys) (session : String) (token : SessionToken) : Prop :=
  s.broker.tokensOf session = [token] ∨ s.Deleting session

/-- What a message on its way stands for. -/
def Sent (s : Sys) : Message → Prop
  | .register token session => s.plugin.states session = some token
  | .unregister session => s.Deleting session
  | .request _ => True

/-- What a task relies on where it stands. -/
def Fits (s : Sys) : Task → Prop
  | .probing _ session token answer =>
    s.plugin.states session = some token ∧ ∀ id, answer = some id → id ≤ s.broker.instanceId
  | .registering session token call =>
    s.plugin.states session = some token ∧
      match call with
      | .hello answer => ∀ id, answer = some id → id ≤ s.broker.instanceId
      | .line answer =>
        s.plugin.brokerInstance ≠ none ∧ ∀ a, answer = some a →
          a.giver ≤ s.broker.instanceId ∧
            (a.reply = .ok → a.giver = s.broker.instanceId → s.Bound session token)
  | .requesting _ _ _ (.hello answer) | .deleting _ (.hello answer) =>
    ∀ id, answer = some id → id ≤ s.broker.instanceId
  | _ => True

structure Trusting (s : Sys) : Prop where
  wf : s.broker.registry.WF
  seen : ∀ id, s.plugin.brokerInstance = some id → id ≤ s.broker.instanceId
  unseen : s.plugin.brokerInstance = none → ∀ session, s.plugin.registered session = false
  tasks : ∀ p task, s.tasks p = some task → s.Fits task
  stray : ∀ message ∈ s.stray, s.Sent message
  believed : ∀ session, s.plugin.registered session = true →
    ∃ token, s.plugin.states session = some token ∧
      (s.plugin.brokerInstance = some s.broker.instanceId → s.Bound session token)

variable {task : Task}

theorem Fits.mono {s t : Sys} (h : s.Fits task)
    (hStates : ∀ session token, task.hook = some session →
      s.plugin.states session = some token → t.plugin.states session = some token)
    (hInstance : s.broker.instanceId ≤ t.broker.instanceId)
    (hSeen : s.plugin.brokerInstance ≠ none → t.plugin.brokerInstance ≠ none)
    (hBound : t.broker.instanceId = s.broker.instanceId → ∀ session token,
      task.hook = some session → s.plugin.states session = some token →
      s.Bound session token → t.Bound session token) : t.Fits task := by
  cases task with
  | probing caller session token =>
    exact ⟨hStates session token rfl h.1, fun id hId => Nat.le_trans (h.2 id hId) hInstance⟩
  | registering session token call =>
    refine ⟨hStates session token rfl h.1, ?_⟩
    cases call with
    | hello => exact fun id hId => Nat.le_trans (h.2 id hId) hInstance
    | line answer =>
      refine ⟨hSeen h.2.1, ?_⟩
      intro a hAnswer
      obtain ⟨hGiver, hOk⟩ := h.2.2 a hAnswer
      refine ⟨Nat.le_trans hGiver hInstance, ?_⟩
      intro hReply hCurrent
      -- an answer of the running instance was one before
      have hSame : t.broker.instanceId = s.broker.instanceId := by omega
      exact hBound hSame session token rfl h.1 (hOk hReply (hCurrent.trans hSame))
  | requesting session token again call | deleting session call =>
    cases call with
    | hello => exact fun id hId => Nat.le_trans (h id hId) hInstance
    | line => trivial
  | joining | settling | settled | finished => trivial

/-! ## The closure's operations -/

section

variable {s : Sys} {session : String} {token : SessionToken}

theorem Trusting.hear {id : Nat} (h : s.Trusting) (hId : id ≤ s.broker.instanceId) :
    Trusting { s with plugin := s.plugin.onInstance id } := by
  refine ⟨h.wf, ?_, nofun, ?_, h.stray, ?_⟩
  · intro id' hSome
    rw [← Option.some.inj hSome]
    exact hId
  · intro p task hTask
    exact (h.tasks p task hTask).mono (fun _ _ _ hState => hState) (Nat.le_refl _) (fun _ => nofun)
      fun _ _ _ _ _ hBound => hBound
  · intro session hRegistered
    -- a belief that is left was held about the same instance
    simp only [Plugin.onInstance] at hRegistered
    split at hRegistered
    · cases hRegistered
    · rename_i hKnown
      obtain ⟨token, hState, hBound⟩ := h.believed session hRegistered
      refine ⟨token, hState, ?_⟩
      intro hCurrent
      refine hBound ?_
      rw [not_and, not_not] at hKnown
      cases hBroker : s.plugin.brokerInstance with
      | none =>
        rw [h.unseen hBroker session] at hRegistered
        cases hRegistered
      | some =>
        rw [hBroker] at hKnown
        rw [hKnown nofun]
        exact hCurrent

theorem Trusting.issue (h : s.Trusting) (hNone : s.plugin.states session = none) :
    Trusting { s with plugin :=
      { s.plugin with states := Function.update s.plugin.states session (some token) } } := by
  have hKeep : ∀ other state, s.plugin.states other = some state →
      Function.update s.plugin.states session (some token) other = some state := by
    intro other state hState
    rw [Function.update_of_ne, hState]
    rintro rfl
    rw [hNone] at hState
    cases hState
  refine ⟨h.wf, h.seen, h.unseen, ?_, ?_, ?_⟩
  · intro p task hTask
    exact (h.tasks p task hTask).mono (fun other state _ => hKeep other state) (Nat.le_refl _) id
      fun _ _ _ _ _ hBound => hBound
  · intro message hMem
    cases message with
    | register state other => exact hKeep other state (h.stray _ hMem)
    | unregister => exact h.stray _ hMem
    | request => trivial
  · intro other hRegistered
    obtain ⟨state, hState, hBound⟩ := h.believed other hRegistered
    exact ⟨state, hKeep other state hState, hBound⟩

theorem Trusting.forget (h : s.Trusting) :
    Trusting { s with plugin :=
      { s.plugin with registered := Function.update s.plugin.registered session false } } := by
  have hOld : ∀ other, Function.update s.plugin.registered session false other →
      s.plugin.registered other := by
    intro other hRegistered
    by_cases hSame : other = session
    · rw [hSame, Function.update_self] at hRegistered
      cases hRegistered
    · rw [Function.update_of_ne hSame] at hRegistered
      exact hRegistered
  refine ⟨h.wf, h.seen, ?_, h.tasks, h.stray, ?_⟩
  · intro hUnseen other
    refine Bool.eq_false_iff.mpr fun hRegistered => ?_
    have hFalse := h.unseen hUnseen other
    rw [hOld other hRegistered] at hFalse
    cases hFalse
  · exact fun other hRegistered => h.believed other (hOld other hRegistered)

theorem Trusting.believe (h : s.Trusting) (hState : s.plugin.states session = some token)
    (hSeen : s.plugin.brokerInstance ≠ none)
    (hBound : s.plugin.brokerInstance = some s.broker.instanceId → s.Bound session token) :
    Trusting { s with plugin :=
      { s.plugin with registered := Function.update s.plugin.registered session true } } := by
  refine ⟨h.wf, h.seen, fun hNone => absurd hNone hSeen, h.tasks, h.stray, ?_⟩
  intro other hRegistered
  by_cases hSame : other = session
  · subst hSame
    exact ⟨token, hState, hBound⟩
  · refine h.believed other ?_
    rw [← hRegistered]
    exact (Function.update_of_ne hSame _ _).symm

theorem Trusting.remove (h : s.Trusting)
    (hHooks : ∀ p task, s.tasks p = some task → task.hook ≠ some session)
    (hStray : ∀ message ∈ s.stray, message.session ≠ some session) :
    Trusting { s with plugin := s.plugin.removeState session } := by
  have hKeep : ∀ other state, other ≠ session → s.plugin.states other = some state →
      (s.plugin.removeState session).states other = some state := by
    intro other state hNe hState
    exact (Function.update_of_ne hNe _ _).trans hState
  refine ⟨h.wf, h.seen, ?_, ?_, ?_, ?_⟩
  · intro hUnseen other
    by_cases hSame : other = session
    · rw [hSame]
      exact Function.update_self ..
    · exact (Function.update_of_ne hSame _ _).trans (h.unseen hUnseen other)
  · intro p task hTask
    refine (h.tasks p task hTask).mono ?_ (Nat.le_refl _) id fun _ _ _ _ _ hBound => hBound
    intro other state hHook
    refine hKeep other state ?_
    rintro rfl
    exact hHooks p task hTask hHook
  · intro message hMem
    have hOther := hStray message hMem
    cases message with
    | register state other =>
      exact hKeep other state (fun hEq => hOther (congrArg some hEq)) (h.stray _ hMem)
    | unregister => exact h.stray _ hMem
    | request => trivial
  · intro other hRegistered
    by_cases hSame : other = session
    · rw [hSame] at hRegistered
      have hFalse : (s.plugin.removeState session).registered session = false :=
        Function.update_self ..
      rw [hFalse] at hRegistered
      cases hRegistered
    · have hOld : s.plugin.registered other := by
        rw [← hRegistered]
        exact (Function.update_of_ne hSame _ _).symm
      obtain ⟨state, hState, hBound⟩ := h.believed other hOld
      exact ⟨state, hKeep other state hSame hState, hBound⟩

end

/-! ## One task goes on -/

/-- The closure and the tasks after one stretch between two waits. -/
structure Ready (s : Sys) (next : Next) : Prop where
  trusting : Trusting { s with plugin := next.plugin }
  task : Fits { s with plugin := next.plugin } next.task
  spawned : ∀ task, next.spawned = some task → ∃ session token,
    task = .registering session token (.hello none) ∧ next.plugin.states session = some token

section

variable {s : Sys} {session : String} {token : SessionToken} {caller : Caller} {fresh : Nat}

theorem awaitRegistration_ready (h : s.Trusting) (hState : s.plugin.states session = some token) :
    s.Ready (s.plugin.awaitRegistration caller session token fresh) := by
  unfold Plugin.awaitRegistration
  split
  · exact ⟨h, trivial, by simp⟩
  · refine ⟨⟨h.wf, h.seen, h.unseen, h.tasks, h.stray, h.believed⟩, trivial, ?_⟩
    intro task hSpawned
    exact ⟨session, token, (Option.some.inj hSpawned).symm, hState⟩

theorem resume_fits (caller : Caller) (session : String) (token : SessionToken) :
    s.Fits (caller.resume session token) := by
  rcases caller with (_ | _) | state
  · trivial
  · exact nofun
  · exact nofun

theorem probed_ready (h : s.Trusting) (hState : s.plugin.states session = some token) :
    s.Ready (s.plugin.probed caller session token fresh) := by
  unfold Plugin.probed
  split
  · exact ⟨h, resume_fits caller session token, by simp⟩
  · exact awaitRegistration_ready h hState

theorem ensureRegistered_ready {file : Option SessionToken} (h : s.Trusting) :
    s.Ready (s.plugin.ensureRegistered caller session file fresh) := by
  unfold Plugin.ensureRegistered
  split
  · exact ⟨h, trivial, by simp⟩
  · rename_i plugin token hEnsured
    -- the session has the state by now, and the rest sees the closure with it
    have hIssued : Trusting { s with plugin := plugin } ∧
        plugin.states session = some token := by
      rcases Plugin.ensureState_cases hEnsured with ⟨rfl, hState⟩ | ⟨hNone, rfl⟩
      · exact ⟨h, hState⟩
      · exact ⟨h.issue hNone, Function.update_self ..⟩
    split
    · exact ⟨hIssued.1, ⟨hIssued.2, by simp⟩, by simp⟩
    · have hReady : Ready { s with plugin := plugin }
          (plugin.awaitRegistration caller session token fresh) :=
        awaitRegistration_ready hIssued.1 hIssued.2
      exact ⟨hReady.trusting, hReady.task, hReady.spawned⟩

theorem resume_ready {file : Option SessionToken} {next : Next} (h : s.Trusting)
    (hTask : s.Fits task)
    (hAlone : ∀ session answer, task = .deleting session (.line (some answer)) →
      (∀ p other, s.tasks p = some other → other.hook ≠ some session) ∧
        ∀ message ∈ s.stray, message.session ≠ some session)
    (hTimely : ∀ session token answer, task = .registering session token (.line (some answer)) →
      answer.reply = .ok → answer.giver = s.broker.instanceId ∨
        s.plugin.brokerInstance ≠ some s.broker.instanceId)
    (hResume : s.plugin.resume s.tasks file fresh task = some next) : s.Ready next := by
  unfold Plugin.resume at hResume
  split at hResume
  · -- the probe is answered
    rename_i caller session token id
    cases hResume
    have hReady : Ready { s with plugin := s.plugin.onInstance id }
        ((s.plugin.onInstance id).probed caller session token fresh) :=
      probed_ready (h.hear (hTask.2 id rfl)) hTask.1
    exact ⟨hReady.trusting, hReady.task, hReady.spawned⟩
  · split at hResume
    · cases hResume
      exact ⟨h, resume_fits _ _ _, by simp⟩
    · cases hResume
      exact ⟨h, trivial, by simp⟩
    · cases hResume
  · rename_i id
    cases hResume
    exact ⟨h.hear (hTask.2 id rfl), ⟨hTask.1, nofun, nofun⟩, nofun⟩
  · -- `then`: the answer was given by the running instance, if the plugin knows it
    rename_i session token answer
    split at hResume
    · rename_i hOk
      cases hResume
      obtain ⟨hState, hSeen, hAnswer⟩ := hTask
      refine ⟨h.believe hState hSeen ?_, trivial, by simp⟩
      intro hCurrent
      rcases hTimely session token answer rfl hOk with hGiver | hOther
      · exact (hAnswer answer rfl).2 hOk hGiver
      · exact absurd hCurrent hOther
    · cases hResume
      exact ⟨h, trivial, by simp⟩
  · cases hResume
    exact ⟨⟨h.wf, h.seen, h.unseen, h.tasks, h.stray, h.believed⟩, trivial, by simp⟩
  · rename_i id
    cases hResume
    exact ⟨h.hear (hTask id rfl), trivial, by simp⟩
  · rename_i session token again answer
    split at hResume
    · cases hResume
      let forgot : Plugin :=
        { s.plugin with registered := Function.update s.plugin.registered session false }
      have hReady : Ready { s with plugin := forgot }
          (forgot.ensureRegistered (.reregister token) session file fresh) :=
        ensureRegistered_ready h.forget
      exact ⟨hReady.trusting, hReady.task, hReady.spawned⟩
    · cases hResume
      exact ⟨h, trivial, by simp⟩
  · rename_i id
    cases hResume
    exact ⟨h.hear (hTask id rfl), trivial, by simp⟩
  · rename_i session answer
    cases hResume
    obtain ⟨hHooks, hStray⟩ := hAlone session answer rfl
    exact ⟨h.remove hHooks hStray, trivial, by simp⟩
  · cases hResume

theorem throw_ready {next : Next} (h : s.Trusting) (hTask : s.Fits task)
    (hAlone : ∀ session call, task = .deleting session call →
      (∀ p other, s.tasks p = some other → other.hook ≠ some session) ∧
        ∀ message ∈ s.stray, message.session ≠ some session)
    (hThrow : s.plugin.throw fresh task = some next) : s.Ready next := by
  unfold Plugin.throw at hThrow
  split at hThrow
  · cases hThrow
    exact probed_ready h hTask.1
  · cases hThrow
    exact ⟨h, trivial, by simp⟩
  · cases hThrow
    exact ⟨h, trivial, by simp⟩
  · rename_i session call
    cases hThrow
    obtain ⟨hHooks, hStray⟩ := hAlone session call rfl
    exact ⟨h.remove hHooks hStray, trivial, by simp⟩
  · cases hThrow

end

section

variable {s : Sys} {p fresh : Nat}

theorem Trusting.move (h : s.Trusting) (hFits : s.Fits task)
    (hKeep : ∀ session call, s.tasks p = some (.deleting session call) →
      (∃ call', task = .deleting session call') ∨
      (s.plugin.registered session = false ∧ task.hook ≠ some session ∧
        (∀ q other, s.tasks q = some other → other.hook ≠ some session) ∧
        ∀ message ∈ s.stray, message.session ≠ some session)) :
    Trusting { s with tasks := Function.update s.tasks p (some task) } := by
  -- the deletions of a session that somebody still relies on go on
  have hDeleting : ∀ session,
      (s.plugin.registered session ∨ task.hook = some session ∨
        (∃ q other, s.tasks q = some other ∧ other.hook = some session) ∨
        ∃ message ∈ s.stray, message.session = some session) →
      s.Deleting session →
      Deleting { s with tasks := Function.update s.tasks p (some task) } session := by
    rintro session hUsed ⟨q, call, hTask⟩
    by_cases hSame : q = p
    · subst hSame
      rcases hKeep session call hTask with ⟨call', rfl⟩ | ⟨hFalse, hHook, hHooks, hStray⟩
      · exact ⟨q, call', Function.update_self ..⟩
      · rcases hUsed with hTrue | hMine | ⟨r, other, hOther, hOf⟩ | ⟨message, hMem, hOf⟩
        · rw [hFalse] at hTrue
          cases hTrue
        · exact absurd hMine hHook
        · exact absurd hOf (hHooks r other hOther)
        · exact absurd hOf (hStray message hMem)
    · exact ⟨q, call, update_some_of_ne hSame hTask⟩
  have hMono : ∀ other, s.Fits other →
      (other = task ∨ ∃ q, s.tasks q = some other) →
      Fits { s with tasks := Function.update s.tasks p (some task) } other := by
    intro other hOther hWho
    refine hOther.mono (fun _ _ _ hState => hState) (Nat.le_refl _) id ?_
    rintro - session token hHook - (hToken | hGone)
    · exact .inl hToken
    · refine .inr (hDeleting session ?_ hGone)
      rcases hWho with rfl | ⟨q, hq⟩
      · exact .inr (.inl hHook)
      · exact .inr (.inr (.inl ⟨q, other, hq, hHook⟩))
  refine ⟨h.wf, h.seen, h.unseen, ?_, ?_, ?_⟩
  · intro q other hTask
    rcases update_some_cases hTask with ⟨-, rfl⟩ | ⟨-, hOld⟩
    · exact hMono other hFits (.inl rfl)
    · exact hMono other (h.tasks q other hOld) (.inr ⟨q, hOld⟩)
  · intro message hMem
    cases message with
    | register => exact h.stray _ hMem
    | unregister session =>
      exact hDeleting session (.inr (.inr (.inr ⟨_, hMem, rfl⟩))) (h.stray _ hMem)
    | request => trivial
  · intro session hRegistered
    obtain ⟨token, hState, hBound⟩ := h.believed session hRegistered
    refine ⟨token, hState, ?_⟩
    intro hCurrent
    rcases hBound hCurrent with hToken | hGone
    · exact .inl hToken
    · exact .inr (hDeleting session (.inl hRegistered) hGone)

theorem Ready.goOn {next : Next} (h : s.Ready next) (hFresh : s.unused p fresh)
    (hKeep : ∀ session call, s.tasks p = some (.deleting session call) →
      (∃ call', next.task = .deleting session call') ∨
      (next.plugin.registered session = false ∧ next.task.hook ≠ some session ∧
        (∀ q other, s.tasks q = some other → other.hook ≠ some session) ∧
        ∀ message ∈ s.stray, message.session ≠ some session)) :
    (s.goOn p fresh next).Trusting := by
  have hMoved := h.trusting.move h.task hKeep
  unfold Sys.goOn
  cases hSpawned : next.spawned with
  | none => exact hMoved
  | some task =>
    obtain ⟨session, token, rfl, hState⟩ := h.spawned task hSpawned
    simp only [unused, Bool.and_eq_true, bne_iff_ne, Option.isNone_iff_eq_none] at hFresh
    refine hMoved.move ⟨hState, nofun⟩ ?_
    -- nothing stood at the new number
    intro other call hTask
    have hNone : Function.update s.tasks p (some next.task) fresh = none :=
      (Function.update_of_ne hFresh.1 _ _).trans hFresh.2
    cases hNone.symm.trans hTask

/-! ## The broker -/

variable {root : Peer} {accepted : Bool}

theorem Bound.handle {message : Message} {session : String}
    {token : SessionToken} (h : s.Bound session token) (hWF : s.broker.registry.WF)
    (hSent : s.Sent message) (hState : s.plugin.states session = some token) :
    Bound { s with broker := (s.broker.handle root accepted message).1 } session token := by
  rcases h with hToken | hGone
  · by_cases hMine : message.session = some session
    · cases message with
      | register =>
        -- it carries the session's own token
        cases hMine
        obtain rfl := Option.mem_unique hSent hState
        rcases Broker.handle_register hWF with ⟨-, hOnly⟩ | hSame
        · exact .inl hOnly
        · rw [hSame]
          exact .inl hToken
      | unregister =>
        cases hMine
        exact .inr hSent
      | request => cases hMine
    · refine .inl ?_
      rw [← hToken]
      exact Broker.handle_other hMine
  · exact .inr hGone

theorem Trusting.handle {message : Message} (h : s.Trusting)
    (hSent : s.Sent message) :
    Trusting { s with broker := (s.broker.handle root accepted message).1 } := by
  have hId : (s.broker.handle root accepted message).1.instanceId = s.broker.instanceId :=
    Broker.handle_instanceId message
  refine ⟨Broker.handle_wf h.wf message, ?_, h.unseen, ?_, h.stray, ?_⟩
  · intro id hSome
    rw [hId]
    exact h.seen id hSome
  · intro p task hTask
    refine (h.tasks p task hTask).mono (fun _ _ _ hState => hState) (Nat.le_of_eq hId.symm) id ?_
    exact fun _ session token _ hState hBound => hBound.handle h.wf hSent hState
  · intro session hRegistered
    obtain ⟨token, hState, hBound⟩ := h.believed session hRegistered
    refine ⟨token, hState, ?_⟩
    intro hCurrent
    rw [hId] at hCurrent
    exact (hBound hCurrent).handle h.wf hSent hState

theorem Trusting.restart (h : s.Trusting) : Trusting { s with broker := s.broker.restart } := by
  refine ⟨Broker.restart_wf, ?_, h.unseen, ?_, h.stray, ?_⟩
  · exact fun id hSome => Nat.le_succ_of_le (h.seen id hSome)
  · intro p task hTask
    refine (h.tasks p task hTask).mono (fun _ _ _ hState => hState) (Nat.le_succ _) id ?_
    exact fun hSame => absurd hSame (Nat.succ_ne_self _)
  · intro session hRegistered
    obtain ⟨token, hState, -⟩ := h.believed session hRegistered
    refine ⟨token, hState, ?_⟩
    -- the plugin has not heard from the new instance
    intro hCurrent
    exact absurd (h.seen _ hCurrent) (Nat.not_succ_le_self _)

theorem Trusting.serve {task' : Task} {broker : Broker}
    (h : s.Trusting) (hTask : s.tasks p = some task)
    (hServe : task.serve root accepted s.broker = some (broker, task')) :
    Trusting { s with broker := broker, tasks := Function.update s.tasks p (some task') } := by
  have hFits := h.tasks p task hTask
  have hHello : ∀ id, some s.broker.instanceId = some id → id ≤ s.broker.instanceId :=
    fun id hId => Nat.le_of_eq (Option.some.inj hId).symm
  -- a task that deletes nothing takes no deletion away
  have hKeep : (∀ session call, task ≠ .deleting session call) → ∀ session call,
      s.tasks p ≠ some (.deleting session call) := by
    intro hOther session call hEq
    exact hOther session call (Option.mem_unique hTask hEq)
  unfold Task.serve at hServe
  split at hServe
  · cases hServe
    exact h.move ⟨hFits.1, hHello⟩ fun session call hEq => absurd hEq (hKeep nofun session call)
  · rename_i session token call
    rcases Broker.serveCall_cases hServe with ⟨rfl, rfl, rfl⟩ | ⟨rfl, rfl, rfl⟩
    · exact h.move ⟨hFits.1, hHello⟩ fun session call hEq => absurd hEq (hKeep nofun session call)
    · have hSent : s.Sent (.register token session) := hFits.1
      have hHandled : Trusting
          { s with broker := (s.broker.handle root accepted (.register token session)).1 } :=
        h.handle hSent
      refine hHandled.move ⟨hFits.1, hFits.2.1, ?_⟩
        fun session call hEq => absurd hEq (hKeep nofun session call)
      intro answer hAnswer
      cases hAnswer
      refine ⟨Nat.le_of_eq (Broker.handle_instanceId _).symm, ?_⟩
      rintro hOk -
      rcases Broker.handle_register h.wf with ⟨-, hOnly⟩ | hRefused
      · exact .inl hOnly
      · have hOther : (s.broker.handle root accepted (.register token session)).2 = .other := by
          rw [hRefused]
        cases hOther.symm.trans hOk
  · rename_i session token again call
    rcases Broker.serveCall_cases hServe with ⟨rfl, rfl, rfl⟩ | ⟨rfl, rfl, rfl⟩
    · exact h.move hHello fun session call hEq => absurd hEq (hKeep nofun session call)
    · have hSent : s.Sent (.request token) := trivial
      exact (h.handle hSent).move trivial
        fun session call hEq => absurd hEq (hKeep nofun session call)
  · rename_i session call
    have hGoes : ∀ call' other call'', s.tasks p = some (.deleting other call'') →
        ∃ call''', Task.deleting session call' = .deleting other call''' := by
      intro call' other call'' hEq
      obtain ⟨rfl, -⟩ := Task.deleting.inj (Option.mem_unique hTask hEq)
      exact ⟨call', rfl⟩
    rcases Broker.serveCall_cases hServe with ⟨rfl, rfl, rfl⟩ | ⟨rfl, rfl, rfl⟩
    · exact h.move hHello fun other call hEq => Or.inl (hGoes _ other call hEq)
    · have hSent : s.Sent (.unregister session) := ⟨p, _, hTask⟩
      exact (h.handle hSent).move trivial fun other call hEq => Or.inl (hGoes _ other call hEq)
  · cases hServe

end

/-! ## Whole runs -/

section

variable {root : Peer} {s t : Sys} {a : Action}

theorem Trusting.restray (h : s.Trusting) {stray : List Message}
    (hStray : ∀ message ∈ stray, s.Sent message) : Trusting { s with stray := stray } :=
  ⟨h.wf, h.seen, h.unseen, h.tasks, hStray, h.believed⟩

theorem Trusting.history (h : s.Trusting) (ended : String → Bool) :
    Trusting { s with ended := ended } :=
  ⟨h.wf, h.seen, h.unseen, h.tasks, h.stray, h.believed⟩

theorem resume_deleting {file : Option SessionToken} {fresh : Nat} {session : String}
    {call : Call} {next : Next}
    (h : s.plugin.resume s.tasks file fresh (.deleting session call) = some next) :
    next.task = .deleting session (.line none) ∨
      (∃ answer, call = .line (some answer)) ∧
        next = ⟨s.plugin.removeState session, .finished, none⟩ := by
  unfold Plugin.resume at h
  split at h
  any_goals contradiction
  · rename_i hTask
    cases hTask
    cases h
    exact .inl rfl
  · rename_i hTask
    cases hTask
    exact .inr ⟨⟨_, rfl⟩, (Option.some.inj h).symm⟩

-- what a task leaves behind when it fails, a deletion apart
theorem throw_sent {fresh : Nat} {next : Next} {message : Message}
    (hFits : s.Fits task) (hThrow : s.plugin.throw fresh task = some next)
    (hMessage : task.message = some message)
    (hOther : ∀ session call, task ≠ .deleting session call) :
    Sent { s with plugin := next.plugin } message := by
  unfold Task.message at hMessage
  split at hMessage
  · cases hMessage
    cases hThrow
    exact hFits.1
  · cases hMessage
    trivial
  · exact absurd rfl (hOther _ _)
  · cases hMessage

theorem trusting_step (h : s.Trusting) (hAlone : s.Alone a) (hTimely : s.Timely a)
    (hMove : s.Move root a t) : t.Trusting := by
  cases hMove with
  | start hTask hFresh =>
    refine (ensureRegistered_ready (h.history _)).goOn hFresh ?_
    intro session call hEq
    cases hTask.symm.trans hEq
  | nothing hTask =>
    have hFits : s.Fits .finished := trivial
    refine (h.move hFits ?_).history _
    intro session call hEq
    cases hTask.symm.trans hEq
  | delete hTask =>
    rename_i session
    have hFits : s.Fits (.deleting session (.hello none)) := nofun
    refine (h.move hFits ?_).history _
    intro session call hEq
    cases hTask.symm.trans hEq
  | serve hTask hServe => exact h.serve hTask hServe
  | serveStray hStray =>
    have hSent := h.stray _ (List.mem_of_getElem? hStray)
    exact (h.handle hSent).restray fun message hMem =>
      (h.handle hSent).stray message (List.mem_of_mem_eraseIdx hMem)
  | lose => exact h.restray fun message hMem => h.stray message (List.mem_of_mem_eraseIdx hMem)
  | turn hTask hFresh hNext =>
    rename_i p fresh file task next
    have hFits := h.tasks p task hTask
    simp only [Timely, hTask] at hTimely
    have hFree : ∀ session answer, task = .deleting session (.line (some answer)) →
        (∀ p other, s.tasks p = some other → other.hook ≠ some session) ∧
          ∀ message ∈ s.stray, message.session ≠ some session := by
      rintro session answer rfl
      obtain ⟨hHooks, hStray, -⟩ := hAlone session (by simp only [removing, hTask])
      exact ⟨hHooks, hStray⟩
    have hReady := resume_ready h hFits hFree
      (by rintro session token answer rfl; exact hTimely) hNext
    refine Ready.goOn ⟨hReady.trusting.history _, hReady.task, hReady.spawned⟩ hFresh ?_
    intro session call hEq
    obtain rfl := Option.mem_unique hTask hEq
    rcases resume_deleting hNext with hGoes | ⟨⟨answer, rfl⟩, rfl⟩
    · exact .inl ⟨_, hGoes⟩
    · exact .inr ⟨Function.update_self .., nofun, hFree session answer rfl⟩
  | fail hTask hFresh hNext =>
    rename_i p fresh kept task next
    have hFits := h.tasks p task hTask
    have hFree : ∀ session call, task = .deleting session call →
        (∀ p other, s.tasks p = some other → other.hook ≠ some session) ∧
          (∀ message ∈ s.stray, message.session ≠ some session) ∧
          (kept → task.message = none) := by
      rintro session call rfl
      obtain ⟨hHooks, hStray, hLeaves⟩ := hAlone session (by simp only [removing, hTask])
      refine ⟨hHooks, hStray, ?_⟩
      rintro rfl
      simp only [leaves, hTask, Option.bind_some] at hLeaves
      exact hLeaves
    have hReady := throw_ready h hFits
      (fun session call hEq => ⟨(hFree session call hEq).1, (hFree session call hEq).2.1⟩) hNext
    by_cases hDeletes : ∃ session call, task = .deleting session call
    · -- it leaves nothing behind
      obtain ⟨session, call, rfl⟩ := hDeletes
      obtain ⟨hHooks, hStray, hNone⟩ := hFree session call rfl
      have hSame : (if kept then (Task.deleting session call).message.toList ++ s.stray
          else s.stray) = s.stray := by
        split
        · rename_i hKept
          rw [hNone hKept]
          rfl
        · rfl
      rw [hSame]
      cases hNext
      refine hReady.goOn hFresh fun other call' hEq => Or.inr ?_
      obtain ⟨rfl, -⟩ := Task.deleting.inj (Option.mem_unique hTask hEq)
      exact ⟨Function.update_self .., nofun, hHooks, hStray⟩
    · simp only [not_exists] at hDeletes
      have hSent : ∀ message ∈ (if kept then task.message.toList ++ s.stray else s.stray),
          Sent { s with plugin := next.plugin } message := by
        intro message hMem
        split at hMem
        · rcases List.mem_append.mp hMem with hNew | hOld
          · exact throw_sent hFits hNext (Option.mem_toList.mp hNew) hDeletes
          · exact hReady.trusting.stray message hOld
        · exact hReady.trusting.stray message hMem
      refine Ready.goOn ⟨hReady.trusting.restray hSent, hReady.task, hReady.spawned⟩ hFresh ?_
      intro session call hEq
      exact absurd (Option.mem_unique hTask hEq) (hDeletes session call)
  | restart => exact h.restart

theorem trusting_run {bootId : String}
    (hRun : Path (openCode root bootId) (fun s a => s.Alone a ∧ s.Timely a)
      (openCode root bootId).init s) : s.Trusting := by
  refine Path.invariant (I := Trusting) ?_ hRun ?_
  · intro x a y hx hOk hStep
    exact trusting_step hx hOk.1 hOk.2 (openCode_move hStep)
  · refine ⟨⟨List.nodup_nil, List.nodup_nil⟩, nofun, fun _ _ => rfl, ?_, nofun, nofun⟩
    intro p task hTask
    cases hTask

end

end Sys

end Forward.Harness.OpenCode

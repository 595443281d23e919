import Forward.Harness.Belief

/-!
# What is left of an OpenCode session after `session.deleted`

A session without a state in the closure has no hook under way, no REGISTER on its way and nothing
at the broker, as long as `removeState` runs `Alone` and `Undisturbed`. A completed
`session.deleted` leaves its session like this until its next hook.
-/

namespace Forward.Harness.OpenCode

open Lib Secrets

namespace Sys

/-! ## Sessions that have ended -/

structure Revoked (s : Sys) : Prop where
  absent : ∀ session, s.plugin.states session = none →
    s.broker.tokensOf session = [] ∧ s.plugin.registered session = false
  hooks : ∀ p task session, s.tasks p = some task → task.hook = some session →
    s.plugin.states session ≠ none
  stray : ∀ token session, .register token session ∈ s.stray → s.plugin.states session ≠ none
  answered : ∀ p session giver, s.tasks p = some (.deleting session (.line (some ⟨giver, .ok⟩))) →
    s.broker.tokensOf session = []
  ended : ∀ session, s.ended session = true → s.plugin.states session = none

/-- A stretch that removes no state: beliefs come only with a state, and so do
the hooks that it leaves. -/
structure Tame (plugin : Plugin) (next : Next) : Prop where
  grows : ∀ session, plugin.states session ≠ none → next.plugin.states session ≠ none
  beliefs : ∀ session, next.plugin.states session = none →
    plugin.registered session = false → next.plugin.registered session = false
  task : ∀ session, next.task.hook = some session → next.plugin.states session ≠ none
  spawned : ∀ task session, next.spawned = some task → task.hook = some session →
    next.plugin.states session ≠ none
  unanswered : ∀ task, (task = next.task ∨ next.spawned = some task) →
    ∀ session answer, task ≠ .deleting session (.line (some answer))

section

variable {plugin plugin' : Plugin} {session : String} {token : SessionToken} {caller : Caller}
  {file : Option SessionToken} {fresh : Nat} {task : Task} {next : Next}

theorem Tame.alone (hGrows : ∀ session, plugin.states session ≠ none →
      plugin'.states session ≠ none)
    (hBeliefs : ∀ session, plugin'.states session = none → plugin.registered session = false →
      plugin'.registered session = false)
    (hTask : ∀ session, task.hook = some session → plugin'.states session ≠ none)
    (hUnanswered : ∀ session answer, task ≠ .deleting session (.line (some answer))) :
    Tame plugin ⟨plugin', task, none⟩ := by
  refine ⟨hGrows, hBeliefs, hTask, nofun, ?_⟩
  rintro other (rfl | hSpawned)
  · exact hUnanswered
  · cases hSpawned

theorem Tame.after (h : Tame plugin' next)
    (hGrows : ∀ session, plugin.states session ≠ none → plugin'.states session ≠ none)
    (hBeliefs : ∀ session, plugin.registered session = false →
      plugin'.registered session = false) : Tame plugin next :=
  ⟨fun session hState => h.grows session (hGrows session hState),
    fun session hNone hFalse => h.beliefs session hNone (hBeliefs session hFalse),
    h.task, h.spawned, h.unanswered⟩

theorem onInstance_registered {id : Nat} (h : plugin.registered session = false) :
    (plugin.onInstance id).registered session = false := by
  simp only [Plugin.onInstance]
  split
  · rfl
  · exact h

theorem resume_hook {other : String} (h : (caller.resume session token).hook = some other) :
    other = session := by
  rcases caller with (_ | _) | state
  · cases h
  · exact (Option.some.inj h).symm
  · exact (Option.some.inj h).symm

theorem resume_unanswered (other : String) (answer : Answer) :
    caller.resume session token ≠ .deleting other (.line (some answer)) := by
  rcases caller with (_ | _) | state <;> exact nofun

theorem awaitRegistration_tame (hState : plugin.states session ≠ none) :
    Tame plugin (plugin.awaitRegistration caller session token fresh) := by
  have hMine : ∀ other, some session = some other → plugin.states other ≠ none := by
    intro other hHook
    rw [← Option.some.inj hHook]
    exact hState
  unfold Plugin.awaitRegistration
  split
  · exact .alone (fun _ h => h) (fun _ _ h => h) hMine nofun
  · refine ⟨fun _ h => h, fun _ _ h => h, hMine, ?_, ?_⟩
    · intro task other hSpawned hHook
      cases hSpawned
      exact hMine other hHook
    · rintro task (rfl | hSpawned)
      · exact nofun
      · cases hSpawned
        exact nofun

theorem probed_tame (hState : plugin.states session ≠ none) :
    Tame plugin (plugin.probed caller session token fresh) := by
  unfold Plugin.probed
  split
  · refine .alone (fun _ h => h) (fun _ _ h => h) ?_ resume_unanswered
    intro other hHook
    rw [resume_hook hHook]
    exact hState
  · exact awaitRegistration_tame hState

theorem awaitRegistration_states :
    (plugin.awaitRegistration caller session token fresh).plugin.states = plugin.states := by
  unfold Plugin.awaitRegistration
  split <;> rfl

theorem probed_states :
    (plugin.probed caller session token fresh).plugin.states = plugin.states := by
  unfold Plugin.probed
  split
  · rfl
  · exact awaitRegistration_states

theorem ensureRegistered_states {other : String} (hOther : other ≠ session ∨
      plugin.states session ≠ none) :
    (plugin.ensureRegistered caller session file fresh).plugin.states other =
      plugin.states other := by
  unfold Plugin.ensureRegistered
  split
  · rfl
  · rename_i plugin' token hEnsured
    have hSame : plugin'.states other = plugin.states other := by
      rcases Plugin.ensureState_cases hEnsured with ⟨rfl, -⟩ | ⟨hNone, rfl⟩
      · rfl
      · rcases hOther with hNe | hSome
        · exact Function.update_of_ne hNe _ _
        · exact absurd hNone hSome
    split
    · exact hSame
    · rw [awaitRegistration_states]
      exact hSame

theorem ensureRegistered_tame :
    Tame plugin (plugin.ensureRegistered caller session file fresh) := by
  unfold Plugin.ensureRegistered
  split
  · exact .alone (fun _ h => h) (fun _ _ h => h) nofun nofun
  · rename_i plugin' token hEnsured
    have hIssued : plugin'.states session ≠ none ∧
        (∀ other, plugin.states other ≠ none → plugin'.states other ≠ none) ∧
        plugin'.registered = plugin.registered := by
      rcases Plugin.ensureState_cases hEnsured with ⟨rfl, hState⟩ | ⟨hNone, rfl⟩
      · exact ⟨by rw [hState]; exact nofun, fun _ h => h, rfl⟩
      · refine ⟨?_, ?_, rfl⟩
        · show Function.update plugin.states session (some token) session ≠ none
          rw [Function.update_self]
          exact nofun
        · intro other hSome
          show Function.update plugin.states session (some token) other ≠ none
          rw [Function.update_of_ne (by rintro rfl; exact hSome hNone)]
          exact hSome
    obtain ⟨hState, hGrows, hSame⟩ := hIssued
    split
    · refine .alone hGrows (fun other _ hFalse => by rw [hSame]; exact hFalse) ?_ nofun
      intro other hHook
      rw [← Option.some.inj hHook]
      exact hState
    · exact (awaitRegistration_tame hState).after hGrows
        fun other hFalse => by rw [hSame]; exact hFalse

theorem resume_tame {promises : Nat → Option Task}
    (hHook : ∀ session, task.hook = some session → plugin.states session ≠ none)
    (hNot : ∀ session answer, task ≠ .deleting session (.line (some answer)))
    (hResume : plugin.resume promises file fresh task = some next) :
    Tame plugin next ∧ next.plugin.states = plugin.states := by
  unfold Plugin.resume at hResume
  split at hResume
  · rename_i session token id
    cases hResume
    have hState : (plugin.onInstance id).states session ≠ none := hHook session rfl
    exact ⟨(probed_tame hState).after (fun _ h => h) fun _ => onInstance_registered, probed_states⟩
  · rename_i session promise
    split at hResume
    · cases hResume
      refine ⟨.alone (fun _ h => h) (fun _ _ h => h) ?_ resume_unanswered, rfl⟩
      intro other hOther
      rw [resume_hook hOther]
      exact hHook session rfl
    · cases hResume
      exact ⟨.alone (fun _ h => h) (fun _ _ h => h) nofun nofun, rfl⟩
    · cases hResume
  · cases hResume
    exact ⟨.alone (fun _ h => h) (fun _ _ => onInstance_registered) hHook nofun, rfl⟩
  · rename_i session token answer
    split at hResume
    · cases hResume
      refine ⟨.alone (fun _ h => h) ?_ hHook nofun, rfl⟩
      -- the belief is about a session with a state
      intro other hNone hFalse
      show Function.update plugin.registered session true other = false
      rw [Function.update_of_ne (by rintro rfl; exact hHook other rfl hNone)]
      exact hFalse
    · cases hResume
      exact ⟨.alone (fun _ h => h) (fun _ _ h => h) hHook nofun, rfl⟩
  · cases hResume
    exact ⟨.alone (fun _ h => h) (fun _ _ h => h) nofun nofun, rfl⟩
  · cases hResume
    exact ⟨.alone (fun _ h => h) (fun _ _ => onInstance_registered) hHook nofun, rfl⟩
  · rename_i session token again answer
    split at hResume
    · cases hResume
      refine ⟨ensureRegistered_tame.after (fun _ h => h) ?_, ?_⟩
      · intro other hFalse
        show Function.update plugin.registered session false other = false
        by_cases hSame : other = session
        · rw [hSame, Function.update_self]
        · rw [Function.update_of_ne hSame]
          exact hFalse
      · exact funext fun other => ensureRegistered_states (.inr (hHook session rfl))
    · cases hResume
      exact ⟨.alone (fun _ h => h) (fun _ _ h => h) nofun nofun, rfl⟩
  · cases hResume
    exact ⟨.alone (fun _ h => h) (fun _ _ => onInstance_registered) nofun nofun, rfl⟩
  · exact absurd rfl (hNot _ _)
  · cases hResume

theorem throw_tame (hHook : ∀ session, task.hook = some session → plugin.states session ≠ none)
    (hNot : ∀ session call, task ≠ .deleting session call)
    (hThrow : plugin.throw fresh task = some next) :
    Tame plugin next ∧ next.plugin.states = plugin.states := by
  unfold Plugin.throw at hThrow
  split at hThrow
  · rename_i session token answer
    cases hThrow
    exact ⟨probed_tame (hHook session rfl), probed_states⟩
  · cases hThrow
    exact ⟨.alone (fun _ h => h) (fun _ _ h => h) hHook nofun, rfl⟩
  · cases hThrow
    exact ⟨.alone (fun _ h => h) (fun _ _ h => h) nofun nofun, rfl⟩
  · exact absurd rfl (hNot _ _)
  · cases hThrow

end

section

variable {root : Peer} {accepted : Bool} {s : Sys} {p fresh : Nat} {session : String}

theorem Revoked.move {task : Task} (h : s.Revoked)
    (hHook : ∀ session, task.hook = some session → s.plugin.states session ≠ none)
    (hAnswered : ∀ session giver, task = .deleting session (.line (some ⟨giver, .ok⟩)) →
      s.broker.tokensOf session = []) :
    Revoked { s with tasks := Function.update s.tasks p (some task) } := by
  refine ⟨h.absent, ?_, h.stray, ?_, h.ended⟩
  · intro q other session hTask hOf
    rcases update_some_cases hTask with ⟨-, rfl⟩ | ⟨-, hOld⟩
    · exact hHook session hOf
    · exact h.hooks q other session hOld hOf
  · intro q session giver hTask
    rcases update_some_cases hTask with ⟨-, hEq⟩ | ⟨-, hOld⟩
    · exact hAnswered session giver hEq.symm
    · exact h.answered q session giver hOld

theorem Revoked.goOn {next : Next} (h : s.Revoked) (hTame : Tame s.plugin next)
    (hEnded : ∀ session, s.ended session → next.plugin.states session = none) :
    (s.goOn p fresh next).Revoked := by
  have hPlugin : Revoked { s with plugin := next.plugin } := by
    refine ⟨?_, ?_, ?_, h.answered, hEnded⟩
    · intro session hNone
      have hOld : s.plugin.states session = none := by
        by_contra hSome
        exact hTame.grows session hSome hNone
      obtain ⟨hEmpty, hFalse⟩ := h.absent session hOld
      exact ⟨hEmpty, hTame.beliefs session hNone hFalse⟩
    · intro q task session hTask hOf
      exact hTame.grows session (h.hooks q task session hTask hOf)
    · exact fun token session hMem => hTame.grows session (h.stray token session hMem)
  have hMoved : Revoked { s with
      plugin := next.plugin, tasks := Function.update s.tasks p (some next.task) } :=
    hPlugin.move hTame.task
      fun session giver hEq => absurd hEq (hTame.unanswered _ (.inl rfl) session _)
  unfold Sys.goOn
  cases hSpawned : next.spawned with
  | none => exact hMoved
  | some task =>
    exact hMoved.move (fun session => hTame.spawned task session hSpawned)
      fun session giver hEq => absurd hEq (hTame.unanswered task (.inr hSpawned) session _)

theorem Revoked.remove (h : s.Revoked) (hEmpty : s.broker.tokensOf session = [])
    (hHooks : ∀ q task, s.tasks q = some task → task.hook ≠ some session)
    (hStray : ∀ message ∈ s.stray, message.session ≠ some session) :
    (s.goOn p fresh ⟨s.plugin.removeState session, .finished, none⟩).Revoked := by
  have hSome : ∀ other, other ≠ session → s.plugin.states other ≠ none →
      (s.plugin.removeState session).states other ≠ none := by
    intro other hNe hState
    show Function.update s.plugin.states session none other ≠ none
    rw [Function.update_of_ne hNe]
    exact hState
  have hPlugin : Revoked { s with plugin := s.plugin.removeState session } := by
    refine ⟨?_, ?_, ?_, h.answered, ?_⟩
    · intro other hNone
      by_cases hSame : other = session
      · rw [hSame]
        exact ⟨hEmpty, Function.update_self ..⟩
      · have hOld : s.plugin.states other = none := by
          by_contra hState
          exact hSome other hSame hState hNone
        obtain ⟨hTokens, hFalse⟩ := h.absent other hOld
        exact ⟨hTokens, (Function.update_of_ne hSame _ _).trans hFalse⟩
    · intro q task other hTask hOf
      refine hSome other ?_ (h.hooks q task other hTask hOf)
      rintro rfl
      exact hHooks q task hTask hOf
    · intro token other hMem
      refine hSome other ?_ (h.stray token other hMem)
      rintro rfl
      exact hStray _ hMem rfl
    · intro other hEnded
      show Function.update s.plugin.states session none other = none
      by_cases hSame : other = session
      · rw [hSame, Function.update_self]
      · rw [Function.update_of_ne hSame]
        exact h.ended other hEnded
  exact hPlugin.move nofun nofun

theorem Revoked.handle {message : Message} (h : s.Revoked)
    (hSent : ∀ token session, message = .register token session →
      s.plugin.states session ≠ none)
    (hFree : ∀ token session, message = .register token session →
      ∀ p giver, s.tasks p ≠ some (.deleting session (.line (some ⟨giver, .ok⟩)))) :
    Revoked { s with broker := (s.broker.handle root accepted message).1 } := by
  -- a session that is bound to nothing stays so unless it is registered
  have hStays : ∀ session, s.broker.tokensOf session = [] →
      (∀ token, message ≠ .register token session) →
      (s.broker.handle root accepted message).1.tokensOf session = [] := by
    intro session hEmpty hOther
    by_cases hMine : message.session = some session
    · cases message with
      | register token =>
        cases hMine
        exact absurd rfl (hOther token)
      | unregister =>
        cases hMine
        rcases Broker.handle_unregister with ⟨-, hGone⟩ | hSame
        · exact hGone
        · rw [hSame]
          exact hEmpty
      | request => cases hMine
    · rw [Broker.handle_other hMine]
      exact hEmpty
  refine ⟨?_, h.hooks, h.stray, ?_, h.ended⟩
  · intro session hNone
    obtain ⟨hEmpty, hFalse⟩ := h.absent session hNone
    exact ⟨hStays session hEmpty fun token hEq => hSent token session hEq hNone, hFalse⟩
  · intro q session giver hTask
    exact hStays session (h.answered q session giver hTask)
      fun token hEq => hFree token session hEq q giver hTask

theorem Revoked.serve {task task' : Task} {broker : Broker} (h : s.Revoked)
    (hTask : s.tasks p = some task)
    (hFree : ∀ token session, task.message = some (.register token session) →
      ∀ q giver, s.tasks q ≠ some (.deleting session (.line (some ⟨giver, .ok⟩))))
    (hServe : task.serve root accepted s.broker = some (broker, task')) :
    Revoked { s with broker := broker, tasks := Function.update s.tasks p (some task') } := by
  have hHook := fun session => h.hooks p task session hTask
  unfold Task.serve at hServe
  split at hServe
  · cases hServe
    exact h.move hHook nofun
  · rename_i session token call
    rcases Broker.serveCall_cases hServe with ⟨rfl, rfl, rfl⟩ | ⟨rfl, rfl, rfl⟩
    · exact h.move hHook nofun
    · refine (h.handle ?_ ?_).move hHook nofun
      · intro token' session' hEq
        obtain ⟨-, rfl⟩ := Message.register.inj hEq
        exact hHook session rfl
      · intro token' session' hEq
        exact hFree token' session' (congrArg some hEq)
  · rename_i token again call
    rcases Broker.serveCall_cases hServe with ⟨rfl, rfl, rfl⟩ | ⟨rfl, rfl, rfl⟩
    · exact h.move hHook nofun
    · have hHandled : Revoked { s with
          broker := (s.broker.handle root accepted (.request token)).1 } := h.handle nofun nofun
      exact hHandled.move hHook nofun
  · rename_i session call
    rcases Broker.serveCall_cases hServe with ⟨rfl, rfl, rfl⟩ | ⟨rfl, rfl, rfl⟩
    · exact h.move nofun nofun
    · have hHandled : Revoked { s with
          broker := (s.broker.handle root accepted (.unregister session)).1 } := h.handle nofun nofun
      refine hHandled.move nofun ?_
      -- the answer that is OK was given by the unregistration
      intro other giver hEq
      obtain ⟨rfl, hAnswer⟩ := Task.deleting.inj hEq
      have hOk : (s.broker.handle root accepted (.unregister session)).2 = .ok :=
        (Answer.mk.inj (Option.some.inj (Call.line.inj hAnswer))).2
      rcases Broker.handle_unregister with ⟨-, hGone⟩ | hRefused
      · exact hGone
      · rw [hRefused] at hOk
        cases hOk
  · cases hServe

theorem Revoked.restart (h : s.Revoked) : Revoked { s with broker := s.broker.restart } :=
  ⟨fun session hNone => ⟨rfl, (h.absent session hNone).2⟩, h.hooks, h.stray,
    fun _ _ _ _ => rfl, h.ended⟩

end

/-! ## Whole runs -/

section

variable {root : Peer} {s t : Sys} {a : Action}

theorem Revoked.history (h : s.Revoked) {ended : String → Bool}
    (hEnded : ∀ session, ended session → s.plugin.states session = none) :
    Revoked { s with ended := ended } :=
  ⟨h.absent, h.hooks, h.stray, h.answered, hEnded⟩

theorem revoked_step (h : s.Revoked) (hAlone : s.Alone a) (hUndisturbed : s.Undisturbed a)
    (hMove : s.Move root a t) : t.Revoked := by
  obtain ⟨hFree, hFailing⟩ := hUndisturbed
  cases hMove with
  | start hTask hFresh =>
    rename_i p fresh hook session file
    have hEnded : ∀ other, Function.update s.ended session false other →
        other ≠ session ∧ s.plugin.states other = none := by
      intro other hOther
      have hNe : other ≠ session := by
        rintro rfl
        rw [Function.update_self] at hOther
        cases hOther
      rw [Function.update_of_ne hNe] at hOther
      exact ⟨hNe, h.ended other hOther⟩
    refine (h.history fun other hOther => (hEnded other hOther).2).goOn ensureRegistered_tame ?_
    intro other hOther
    rw [ensureRegistered_states (.inl (hEnded other hOther).1)]
    exact (hEnded other hOther).2
  | nothing hTask hState =>
    rename_i p session
    have hMoved : Revoked { s with tasks := Function.update s.tasks p (some .finished) } :=
      h.move nofun nofun
    refine hMoved.history ?_
    intro other hOther
    by_cases hSame : other = session
    · rw [hSame]
      exact hState
    · rw [Function.update_of_ne hSame] at hOther
      exact h.ended other hOther
  | delete hTask =>
    rename_i p session
    have hMoved : Revoked { s with
        tasks := Function.update s.tasks p (some (.deleting session (.hello none))) } :=
      h.move nofun nofun
    refine hMoved.history ?_
    intro other hOther
    by_cases hSame : other = session
    · rw [hSame, Function.update_self] at hOther
      cases hOther
    · rw [Function.update_of_ne hSame] at hOther
      exact h.ended other hOther
  | serve hTask hServe =>
    refine h.serve hTask ?_ hServe
    intro token session hMessage
    exact hFree token session (by simp only [handled, hTask, Option.bind_some, hMessage])
  | serveStray hStray =>
    rename_i accepted message
    have hMem := List.mem_of_getElem? hStray
    have hHandled : Revoked { s with broker := (s.broker.handle root accepted message).1 } := by
      refine h.handle ?_ ?_
      · rintro token session rfl
        exact h.stray token session hMem
      · rintro token session rfl
        exact hFree token session hStray
    exact ⟨hHandled.absent, hHandled.hooks, fun token session hOld =>
      h.stray token session (List.mem_of_mem_eraseIdx hOld), hHandled.answered, hHandled.ended⟩
  | lose =>
    exact ⟨h.absent, h.hooks, fun token session hOld =>
      h.stray token session (List.mem_of_mem_eraseIdx hOld), h.answered, h.ended⟩
  | turn hTask hFresh hNext =>
    rename_i p fresh file task next
    by_cases hDone : ∃ session answer, task = .deleting session (.line (some answer))
    · obtain ⟨session, answer, rfl⟩ := hDone
      obtain ⟨hHooks, hStray, -⟩ := hAlone session (by simp only [removing, hTask])
      have hEmpty : s.broker.tokensOf session = [] := by
        by_cases hOk : answer.reply = .ok
        · refine h.answered p session answer.giver ?_
          rw [hTask, ← hOk]
        · exact hFailing session (by simp only [failing, hTask, if_neg hOk])
      cases hNext
      have hRemoved : Sys.Revoked
          (s.goOn p fresh ⟨s.plugin.removeState session, .finished, none⟩) :=
        h.remove hEmpty hHooks hStray
      refine hRemoved.history ?_
      intro other hOther
      show Function.update s.plugin.states session none other = none
      by_cases hSame : other = session
      · rw [hSame, Function.update_self]
      · have hOld : s.ended other := (Function.update_of_ne hSame _ _).symm.trans hOther
        rw [Function.update_of_ne hSame]
        exact h.ended other hOld
    · simp only [not_exists] at hDone
      have hCloses : s.closes task = s.ended := by
        unfold closes
        split
        · exact absurd rfl (hDone _ _)
        · rfl
      obtain ⟨hTame, hStates⟩ :=
        resume_tame (fun session => h.hooks p task session hTask) hDone hNext
      rw [hCloses]
      refine h.goOn hTame ?_
      intro session hEnded
      rw [hStates]
      exact h.ended session hEnded
  | fail hTask hFresh hNext =>
    rename_i p fresh kept task next
    by_cases hDeletes : ∃ session call, task = .deleting session call
    · obtain ⟨session, call, rfl⟩ := hDeletes
      obtain ⟨hHooks, hStray, hLeaves⟩ := hAlone session (by simp only [removing, hTask])
      have hEmpty := hFailing session (by simp only [failing, hTask])
      have hSame : (if kept then (Task.deleting session call).message.toList ++ s.stray
          else s.stray) = s.stray := by
        split
        · rename_i hKept
          subst hKept
          simp only [leaves, hTask, Option.bind_some] at hLeaves
          rw [hLeaves]
          rfl
        · rfl
      rw [hSame]
      cases hNext
      exact h.remove hEmpty hHooks hStray
    · simp only [not_exists] at hDeletes
      have hHook := fun session => h.hooks p task session hTask
      obtain ⟨hTame, hStates⟩ := throw_tame hHook hDeletes hNext
      have hLeft : Revoked { s with
          stray := if kept then task.message.toList ++ s.stray else s.stray } := by
        refine ⟨h.absent, h.hooks, ?_, h.answered, h.ended⟩
        intro token session hMem
        split at hMem
        · rcases List.mem_append.mp hMem with hNew | hOld
          · -- a REGISTER is that of a registration under way
            refine hHook session ?_
            have hMessage := Option.mem_toList.mp hNew
            unfold Task.message at hMessage
            split at hMessage
            · obtain ⟨-, rfl⟩ := Message.register.inj (Option.some.inj hMessage)
              rfl
            all_goals cases hMessage
          · exact h.stray token session hOld
        · exact h.stray token session hMem
      refine hLeft.goOn hTame ?_
      intro session hEnded
      rw [hStates]
      exact h.ended session hEnded
  | restart => exact h.restart

theorem revoked_run {bootId : String}
    (hRun : Path (openCode root bootId) (fun s a => s.Alone a ∧ s.Undisturbed a)
      (openCode root bootId).init s) : s.Revoked := by
  refine Path.invariant (I := Revoked) ?_ hRun ?_
  · intro x a y hx hOk hStep
    exact revoked_step hx hOk.1 hOk.2 (openCode_move hStep)
  · refine ⟨fun _ _ => ⟨rfl, rfl⟩, ?_, nofun, ?_, nofun⟩
    · intro p task session hTask
      cases hTask
    · intro p session giver hTask
      cases hTask

end

end Sys

/-- **The plugin's belief about its registrations.** Nothing of the session is under way. If the
plugin has heard from the running daemon last and the session is in `registered`, the broker has
exactly its token; and after a `session.deleted` without broker error it has none. -/
theorem registration_belief (root : Peer) (bootId : String) :
    (∀ s, Path (openCode root bootId) (fun s a => s.Alone a ∧ s.Timely a)
        (openCode root bootId).init s →
      ∀ session, s.Quiet session → s.plugin.brokerInstance = some s.broker.instanceId →
        s.plugin.registered session = true →
        ∃ token, s.plugin.states session = some token ∧
          s.broker.tokensOf session = [token]) ∧
    ∀ s, Path (openCode root bootId) (fun s a => s.Alone a ∧ s.Undisturbed a)
        (openCode root bootId).init s →
      ∀ session, s.Quiet session → s.ended session = true →
        s.broker.tokensOf session = [] ∧ s.plugin.registered session = false := by
  refine ⟨?_, ?_⟩
  · intro s hRun session hQuiet hCurrent hRegistered
    obtain ⟨token, hState, hBound⟩ := (Sys.trusting_run hRun).believed session hRegistered
    refine ⟨token, hState, ?_⟩
    rcases hBound hCurrent with hToken | ⟨p, call, hTask⟩
    · exact hToken
    · exact absurd rfl (hQuiet.1 p _ hTask)
  · intro s hRun session _ hEnded
    have hRevoked := Sys.revoked_run hRun
    exact hRevoked.absent session (hRevoked.ended session hEnded)

/-! ## One session -/

def oneToken : SessionToken := ⟨List.replicate 32 7, rfl⟩

/-- `shell.env` of a new session, up to the REGISTER on its way. -/
def beginShell : List Action :=
  [.start 0 .shellEnv "s" (some oneToken) 1, .serve 1 true, .turn 1 none 3]

/-- The REGISTER is handled, and everyone goes on. -/
def endShell : List Action :=
  [.serve 1 true, .turn 1 none 3, .turn 1 none 3, .turn 0 none 3]

/-- `session.deleted` from its start to `removeState`. -/
def deleteSession : List Action :=
  [.delete 2 "s", .serve 2 true, .turn 2 none 3, .serve 2 true, .turn 2 none 3]

def Sys.Small (s : Sys) : Prop := ∀ p, 4 ≤ p → s.tasks p = none

theorem Sys.Small.step {root : Peer} {bootId : String} {s t : Sys} {a : Action} (h : s.Small)
    (hNumbers : (a.numbers.all fun p => p < 4) = true)
    (hStep : (openCode root bootId).step s a = some t) : t.Small := by
  intro p hp
  refine (openCode_move hStep).absent ?_ (h p hp)
  intro hMem
  have hBelow := of_decide_eq_true (List.all_eq_true.mp hNumbers p hMem)
  omega

theorem Sys.Small.quiet {s : Sys} {session : String} (h : s.Small) (hStray : s.stray = [])
    (hTasks : ((List.range 4).all fun p =>
      (s.tasks p).all fun task => task.session ≠ some session) = true) : s.Quiet session := by
  refine ⟨fun p task hTask => of_decide_eq_true (forall_of_range h hTasks p task hTask), ?_⟩
  rw [hStray]
  exact nofun

/-- Nothing is removed, and the daemon does not change. -/
def Sys.keepsSession (s : Sys) (a : Action) : Bool :=
  (a.numbers.all fun p => p < 4) && (s.removing a).isNone && decide (s.broker.instanceId = 0) &&
    match a with
    | .turn p _ _ =>
      match s.tasks p with
      | some (.registering _ _ (.line (some answer))) => decide (answer.giver = 0)
      | _ => true
    | _ => true

/-- The hook has returned before the session is deleted. -/
def Sys.endsSession (s : Sys) (a : Action) : Bool :=
  (a.numbers.all fun p => p < 4) && s.stray.isEmpty && (s.leaves a).isNone &&
    (s.failing a).isNone &&
    (match s.removing a with
      | none => true
      | some session =>
        (List.range 4).all fun p => (s.tasks p).all fun task => task.hook ≠ some session) &&
    match s.handled a with
    | some (.register _ _) =>
      (List.range 4).all fun p => (s.tasks p).all fun task => (task.hook).isSome
    | _ => true

theorem registration_belief_one_session :
    (∃ s token, Path (openCode ⟨0⟩ "boot") (fun s a => s.Alone a ∧ s.Timely a)
        (openCode ⟨0⟩ "boot").init s ∧ s.plugin.registered "s" = true ∧
      s.plugin.states "s" = some token ∧ s.broker.tokensOf "s" = [token]) ∧
    ∃ s, Path (openCode ⟨0⟩ "boot") (fun s a => s.Alone a ∧ s.Undisturbed a)
        (openCode ⟨0⟩ "boot").init s ∧ s.ended "s" = true ∧
      s.broker.tokensOf "s" = [] ∧ s.plugin.registered "s" = false := by
  let sys := openCode ⟨0⟩ "boot"
  refine ⟨?_, ?_⟩
  · have hReplay : (((sys.guard Sys.keepsSession).run sys.init (beginShell ++ endShell)).map fun s =>
        s.plugin.registered "s" && s.stray.isEmpty &&
          decide (s.plugin.brokerInstance = some s.broker.instanceId) &&
          ((List.range 4).all fun p =>
            (s.tasks p).all fun task => task.session ≠ some "s")) = some true := by
      decide +kernel
    obtain ⟨s, hChecked, hSeen⟩ := Path.of_replay hReplay
    simp only [Bool.and_eq_true, decide_eq_true_eq, List.isEmpty_iff] at hSeen
    obtain ⟨⟨⟨hRegistered, hStray⟩, hCurrent⟩, hTasks⟩ := hSeen
    have hSmall : s.Small := by
      refine hChecked.invariant (I := Sys.Small) ?_ fun _ _ => rfl
      intro x a y hx hCheck hStep
      simp only [Sys.keepsSession, Bool.and_eq_true] at hCheck
      exact hx.step hCheck.1.1.1 hStep
    have hPath : Path sys (fun s a => s.Alone a ∧ s.Timely a) sys.init s := by
      refine hChecked.mono fun x a hCheck => ?_
      simp only [Sys.keepsSession, Bool.and_eq_true, Option.isNone_iff_eq_none, decide_eq_true_eq] at hCheck
      obtain ⟨⟨⟨-, hRemoving⟩, hZero⟩, hGiver⟩ := hCheck
      refine ⟨?_, ?_⟩
      · intro session hEq
        rw [hRemoving] at hEq
        cases hEq
      · unfold Sys.Timely
        split
        · split
          · rename_i hTask
            simp only [hTask, decide_eq_true_eq] at hGiver
            exact fun _ => Or.inl (hGiver.trans hZero.symm)
          · trivial
        · trivial
    obtain ⟨token, hState, hToken⟩ := (registration_belief ⟨0⟩ "boot").1 s hPath "s"
      (hSmall.quiet hStray hTasks) hCurrent hRegistered
    exact ⟨s, token, hPath, hRegistered, hState, hToken⟩
  · have hReplay : (((sys.guard Sys.endsSession).run sys.init
        (beginShell ++ endShell ++ deleteSession)).map fun s =>
          s.ended "s" && s.stray.isEmpty && ((List.range 4).all fun p =>
            (s.tasks p).all fun task => task.session ≠ some "s")) = some true := by
      decide +kernel
    obtain ⟨s, hChecked, hSeen⟩ := Path.of_replay hReplay
    simp only [Bool.and_eq_true, List.isEmpty_iff] at hSeen
    obtain ⟨⟨hEnded, hStray⟩, hTasks⟩ := hSeen
    have hKeeps : ∀ x a y, Sys.Small x → Sys.endsSession x a → sys.step x a = some y →
        Sys.Small y := by
      intro x a y hx hCheck hStep
      simp only [Sys.endsSession, Bool.and_eq_true] at hCheck
      exact hx.step hCheck.1.1.1.1.1 hStep
    have hSmall : s.Small := hChecked.invariant (I := Sys.Small) hKeeps fun _ _ => rfl
    have hPath : Path sys (fun s a => s.Alone a ∧ s.Undisturbed a) sys.init s := by
      refine Path.simulate (I := Sys.Small) (f := id) hKeeps ?_ hChecked fun _ _ => rfl
      intro x a y hx hCheck hStep
      refine Path.single (show x.Alone a ∧ x.Undisturbed a from ?_) hStep
      simp only [Sys.endsSession, Bool.and_eq_true, Option.isNone_iff_eq_none, List.isEmpty_iff] at hCheck
      obtain ⟨⟨⟨⟨⟨-, hNone⟩, hLeaves⟩, hFailing⟩, hHooks⟩, hHandled⟩ := hCheck
      refine ⟨?_, ?_, ?_⟩
      · intro session hRemoving
        rw [hRemoving] at hHooks
        refine ⟨?_, ?_, hLeaves⟩
        · exact fun p task hTask => of_decide_eq_true (forall_of_range hx hHooks p task hTask)
        · rw [hNone]
          exact fun _ hIn => by cases hIn
      · intro token session hRegister p giver hTask
        rw [hRegister] at hHandled
        cases forall_of_range hx hHandled p _ hTask
      · intro session hEq
        rw [hFailing] at hEq
        cases hEq
    obtain ⟨hEmpty, hFalse⟩ := (registration_belief ⟨0⟩ "boot").2 s hPath "s"
      (hSmall.quiet hStray hTasks) hEnded
    exact ⟨s, hPath, hEnded, hEmpty, hFalse⟩

/-- **A REGISTER that is handled after the UNREGISTER.** The session is deleted
while the REGISTER of its first shell is on its way. In the end nothing is under
way, but the session is in `registered` without a state, and the broker has its
token. -/
theorem register_after_delete :
    ∃ s, Reachable (openCode ⟨0⟩ "boot") s ∧ s.Quiet "s" ∧
      s.plugin.brokerInstance = some s.broker.instanceId ∧ s.ended "s" = true ∧
      s.plugin.registered "s" = true ∧ s.plugin.states "s" = none ∧
      s.broker.tokensOf "s" = [oneToken] := by
  let sys := openCode ⟨0⟩ "boot"
  let check : Sys → Action → Bool := fun _ a => a.numbers.all fun p => p < 4
  have hReplay : (((sys.guard check).run sys.init
      (beginShell ++ deleteSession ++ endShell)).map fun s =>
        s.stray.isEmpty && decide (s.plugin.brokerInstance = some s.broker.instanceId) &&
          s.ended "s" && s.plugin.registered "s" && decide (s.plugin.states "s" = none) &&
          decide (s.broker.tokensOf "s" = [oneToken]) &&
          ((List.range 4).all fun p =>
            (s.tasks p).all fun task => task.session ≠ some "s")) = some true := by
    decide +kernel
  obtain ⟨s, hChecked, hSeen⟩ := Path.of_replay hReplay
  simp only [Bool.and_eq_true, decide_eq_true_eq, List.isEmpty_iff] at hSeen
  obtain ⟨⟨⟨⟨⟨⟨hStray, hCurrent⟩, hEnded⟩, hRegistered⟩, hState⟩, hTokens⟩, hTasks⟩ := hSeen
  have hSmall : s.Small := by
    refine hChecked.invariant (I := Sys.Small) ?_ fun _ _ => rfl
    exact fun x a y hx hCheck hStep => hx.step hCheck hStep
  exact ⟨s, hChecked.forget, hSmall.quiet hStray hTasks, hCurrent, hEnded, hRegistered, hState,
    hTokens⟩

end Forward.Harness.OpenCode

import Forward.Secrets.Broker
import Forward.Secrets.Subscribers

/-!
# No subscriber misses a lock event

Whoever writes to a subscriber read the epoch inside the same critical section, so epochs go out in
order (`Ordered`); a subscriber that does not know the current epoch is one a LOCK has still to
reach (`Covered`); a newcomer is added only where it has room and nobody alive has its pid
(`Roster`).
-/

namespace Forward.Secrets

open Lib

namespace HubTask

def holds : HubTask → Bool
  | attaching _ | publishing | done => false
  | _ => true

def epoch : HubTask → Option Nat
  | greeting _ epoch => some epoch
  | scanning (.publish epoch) _ _ => some epoch
  | _ => none

theorem holds_of_epoch {task : HubTask} {e : Nat} (h : task.epoch = some e) :
    task.holds := by
  cases task with
  | greeting | scanning => rfl
  | _ => cases h

end HubTask

/-- The thread moved on to `new`, and maybe took or gave back the mutex; all else
is as before. -/
structure Hub.Moves (hub hub' : Hub) (t : HubThread) (new : HubTask) : Prop where
  subscribers : hub'.subscribers = hub.subscribers
  epoch : hub'.epoch = hub.epoch
  instanceId : hub'.instanceId = hub.instanceId
  exited : hub'.exited = hub.exited
  deliveries : hub'.deliveries = hub.deliveries
  tasks : hub'.tasks = Function.update hub.tasks t (some new)

theorem Hub.setTask_moves (hub : Hub) (t : HubThread) (new : HubTask) :
    hub.Moves (hub.setTask t new) t new := ⟨rfl, rfl, rfl, rfl, rfl, rfl⟩

theorem Hub.finish_moves (hub : Hub) (t : HubThread) : hub.Moves (hub.finish t) t .done :=
  ⟨rfl, rfl, rfl, rfl, rfl, rfl⟩

abbrev Hub.Guarded (hub : Hub) : Prop := Exclusive HubTask.holds hub.holder hub.tasks

variable {hub hub' : Hub} {a : HubAction}

theorem guarded_step (h : hub.Guarded) (hMove : hub.Move a hub') : hub'.Guarded := by
  cases hMove with
  | subscribe hNew | lock hNew | beat hNew => exact h.move nofun
  | exit | gone => exact h
  | acquire hFree hTask | acquirePublish hFree hTask =>
    unfold Hub.Guarded at h
    rw [hFree] at h
    exact h.acquire
  | published hTask hEnd | refused hTask | attached hTask hFull | unwritten hTask =>
    have hHolder := h _ _ hTask rfl
    unfold Hub.Guarded at h
    rw [hHolder] at h
    exact h.release rfl
  | pin hTask | read hTask | retained hTask hEnd | running hTask hGet | kept hTask hGet hPid
    | replaced hTask | wrote hTask hGet hFull | dropped hTask | admitted hTask hRoom =>
    exact h.move (fun _ => h _ _ hTask rfl)

/-! ## Epochs go out in order -/

/-- No write carries an epoch older than one already written. -/
structure Ordered (hub : Hub) : Prop where
  word : hub.epoch ≤ wordMax
  order : hub.deliveries.Pairwise fun later earlier => earlier.event.epoch ≤ later.event.epoch
  written : ∀ d ∈ hub.deliveries, d.event.epoch ≤ hub.epoch
  read : ∀ t task e, hub.tasks t = some task → task.epoch = some e →
    e ≤ hub.epoch ∧ ∀ d ∈ hub.deliveries, d.event.epoch ≤ e

namespace Ordered

variable {hub hub' : Hub} {t : HubThread} {task : HubTask}

theorem move (h : Ordered hub) (hMoves : hub.Moves hub' t task)
    (hRead : ∀ e, task.epoch = some e →
      e ≤ hub.epoch ∧ ∀ d ∈ hub.deliveries, d.event.epoch ≤ e) : Ordered hub' := by
  refine ⟨hMoves.epoch ▸ h.word, hMoves.deliveries ▸ h.order, ?_, ?_⟩
  · rw [hMoves.deliveries, hMoves.epoch]
    exact h.written
  · intro t' task' e hTask he
    rw [hMoves.tasks] at hTask
    rw [hMoves.epoch, hMoves.deliveries]
    rcases update_some_cases hTask with ⟨rfl, rfl⟩ | ⟨-, hOld⟩
    · exact hRead e he
    · exact h.read t' task' e hOld he

theorem deliver (h : Ordered hub) (hGuard : hub.Guarded) {d : Delivery}
    (hTask : hub.tasks t = some task) (hRead : task.epoch = some d.event.epoch) :
    Ordered (hub.deliver d) := by
  obtain ⟨hBound, hPast⟩ := h.read t task _ hTask hRead
  refine ⟨h.word, List.pairwise_cons.mpr ⟨hPast, h.order⟩, ?_, ?_⟩
  · intro x hx
    rcases List.mem_cons.mp hx with rfl | hx
    · exact hBound
    · exact h.written x hx
  · intro t' task' e hTask' he
    obtain rfl := hGuard.unique hTask (HubTask.holds_of_epoch hRead) hTask'
      (HubTask.holds_of_epoch he)
    obtain rfl := Option.mem_unique hTask hTask'
    obtain rfl := Option.mem_unique hRead he
    refine ⟨hBound, ?_⟩
    intro x hx
    rcases List.mem_cons.mp hx with rfl | hx
    · exact Nat.le_refl _
    · exact hPast x hx

end Ordered

theorem ordered_step (hGuard : hub.Guarded) (h : Ordered hub)
    (hMove : hub.Move a hub') : Ordered hub' := by
  -- the current epoch is as good as any that was written
  have hNow : ∀ e, some hub.epoch = some e →
      e ≤ hub.epoch ∧ ∀ d ∈ hub.deliveries, d.event.epoch ≤ e := by
    intro e he
    cases he
    exact ⟨Nat.le_refl _, h.written⟩
  have hSent : ∀ {t : HubThread} {task : HubTask} (d : Delivery), hub.tasks t = some task →
      task.epoch = some d.event.epoch → Ordered (hub.deliver d) :=
    fun d hTask hRead => h.deliver hGuard hTask hRead
  cases hMove with
  | lock =>
    have hGrows : hub.epoch ≤ satAdd hub.epoch 1 := le_satAdd h.word
    refine ⟨satAdd_le _ _, h.order, fun d hd => Nat.le_trans (h.written d hd) hGrows, ?_⟩
    intro t task e hTask he
    rcases update_some_cases hTask with ⟨rfl, rfl⟩ | ⟨-, hOld⟩
    · cases he
    · obtain ⟨hBound, hPast⟩ := h.read t task e hOld he
      exact ⟨Nat.le_trans hBound hGrows, hPast⟩
  | exit | gone => exact ⟨h.word, h.order, h.written, h.read⟩
  | @wrote t written s epoch i hTask =>
    have hWrote := hSent ⟨s.conn, ⟨hub.instanceId, epoch⟩, written⟩ hTask rfl
    exact hWrote.move (Hub.setTask_moves ..) fun e he => hWrote.read _ _ e hTask he
  | @dropped t written s epoch i hTask =>
    have hWrote := hSent ⟨s.conn, ⟨hub.instanceId, epoch⟩, written⟩ hTask rfl
    have hRemoved : Ordered ((hub.deliver ⟨s.conn, ⟨hub.instanceId, epoch⟩, written⟩).remove i) :=
      ⟨hWrote.word, hWrote.order, hWrote.written, hWrote.read⟩
    exact hRemoved.move (Hub.setTask_moves ..) fun e he => hWrote.read _ _ e hTask he
  | @attached t written sub epoch hTask =>
    have hWrote := hSent ⟨sub.conn, ⟨hub.instanceId, epoch⟩, written⟩ hTask rfl
    have hPushed : Ordered { hub.deliver ⟨sub.conn, ⟨hub.instanceId, epoch⟩, written⟩ with
        subscribers := hub.subscribers ++ [sub] } :=
      ⟨hWrote.word, hWrote.order, hWrote.written, hWrote.read⟩
    exact hPushed.move (Hub.finish_moves ..) nofun
  | @unwritten t written sub epoch hTask =>
    have hWrote := hSent ⟨sub.conn, ⟨hub.instanceId, epoch⟩, written⟩ hTask rfl
    exact hWrote.move (Hub.finish_moves ..) nofun
  | @running t written pass i s hTask =>
    refine h.move (Hub.setTask_moves ..) fun e he => h.read _ _ e hTask ?_
    cases pass <;> exact he
  | @replaced t written peerPid sub i =>
    have hRemoved : Ordered (hub.remove i) := ⟨h.word, h.order, h.written, h.read⟩
    exact hRemoved.move (Hub.setTask_moves ..) nofun
  | admitted | read => exact h.move (Hub.setTask_moves ..) hNow
  | published | refused => exact h.move (Hub.finish_moves ..) nofun
  | acquire | acquirePublish =>
    exact h.move ⟨rfl, rfl, rfl, rfl, rfl, rfl⟩ nofun
  | subscribe | beat | pin | retained | kept =>
    exact h.move (Hub.setTask_moves ..) nofun

/-! ## Every LOCK reaches every subscriber -/

/-- The thread, if it is a LOCK's, has still to write this epoch to the entry
`j`. -/
def HubTask.WillWrite (epoch j : Nat) : HubTask → Prop
  | publishing | reading => True
  | scanning (.publish e) i _ => e = epoch ∧ i ≤ j
  | _ => False

namespace Hub

def Told (hub : Hub) (s : Subscriber) : Prop :=
  ∃ d ∈ hub.deliveries, d.conn = s.conn ∧ d.event = ⟨hub.instanceId, hub.epoch⟩ ∧ d.full = true

def Pending (hub : Hub) (j : Nat) : Prop :=
  ∃ n task, hub.tasks (.handler n) = some task ∧ task.WillWrite hub.epoch j

end Hub

/-- A subscriber that was not told the current epoch will be, by a LOCK that is
under way; and while a thread is about to write an older epoch, a LOCK waits
for the mutex. -/
structure Covered (hub : Hub) : Prop where
  told : ∀ (j : Nat) s, hub.subscribers[j]? = some s → hub.Told s ∨ hub.Pending j
  behind : ∀ t task e, hub.tasks t = some task → task.epoch = some e → e ≠ hub.epoch →
    ∃ n, hub.tasks (.handler n) = some .publishing

namespace Covered

variable {hub hub' : Hub} {t : HubThread} {old new : HubTask}

theorem move (h : Covered hub) (hMoves : hub.Moves hub' t new)
    (hOld : hub.tasks t ≠ some .publishing)
    (hRead : ∀ e, new.epoch = some e → e ≠ hub.epoch →
      ∃ old, hub.tasks t = some old ∧ old.epoch = some e)
    (hWill : ∀ (j : Nat) s old, hub.subscribers[j]? = some s → hub.tasks t = some old →
      old.WillWrite hub.epoch j → new.WillWrite hub.epoch j ∨ hub.Told s) : Covered hub' := by
  have hEpoch := hMoves.epoch
  have hTasks := hMoves.tasks
  refine ⟨?_, ?_⟩
  · intro j s hGet
    have hTold : hub.Told s → hub'.Told s := by
      rintro ⟨d, hd, hConn, hEvent, hFull⟩
      exact ⟨d, hMoves.deliveries ▸ hd, hConn, by rw [hEvent, hMoves.instanceId, hEpoch], hFull⟩
    rw [hMoves.subscribers] at hGet
    rcases h.told j s hGet with hDone | ⟨n, task, hTask, hTaskWill⟩
    · exact .inl (hTold hDone)
    · by_cases hEq : HubThread.handler n = t
      · subst hEq
        rcases hWill j s task hGet hTask hTaskWill with hNew | hDone
        · refine .inr ⟨n, new, ?_, hEpoch ▸ hNew⟩
          rw [hTasks]
          exact Function.update_self ..
        · exact .inl (hTold hDone)
      · refine .inr ⟨n, task, ?_, hEpoch ▸ hTaskWill⟩
        rw [hTasks]
        exact update_some_of_ne hEq hTask
  · intro t' task e hTask he hNe
    rw [hEpoch] at hNe
    have hWaits : ∃ n, hub.tasks (.handler n) = some .publishing := by
      rw [hTasks] at hTask
      rcases update_some_cases hTask with ⟨rfl, rfl⟩ | ⟨-, hStays⟩
      · obtain ⟨old, hOld', heOld⟩ := hRead e he hNe
        exact h.behind _ old e hOld' heOld hNe
      · exact h.behind t' task e hStays he hNe
    obtain ⟨n, hPublishing⟩ := hWaits
    refine ⟨n, ?_⟩
    rw [hTasks]
    refine update_some_of_ne ?_ hPublishing
    rintro rfl
    exact hOld hPublishing

theorem advance (h : Covered hub) (hMoves : hub.Moves hub' t new) (hTask : hub.tasks t = some old)
    (hOld : old ≠ .publishing)
    (hRead : ∀ e, new.epoch = some e → e ≠ hub.epoch → old.epoch = some e)
    (hWill : ∀ (j : Nat) s, hub.subscribers[j]? = some s → old.WillWrite hub.epoch j →
      new.WillWrite hub.epoch j ∨ hub.Told s) : Covered hub' := by
  refine h.move hMoves ?_ (fun e he hNe => ⟨old, hTask, hRead e he hNe⟩) ?_
  · rw [hTask]
    exact fun hEq => hOld (Option.some.inj hEq)
  · intro j s old' hGet hTask' hWrite
    cases Option.mem_unique hTask hTask'
    exact hWill j s hGet hWrite

theorem quiet (h : Covered hub) (hMoves : hub.Moves hub' t new) (hTask : hub.tasks t = some old)
    (hOld : ∀ j, ¬ old.WillWrite hub.epoch j)
    (hRead : ∀ e, new.epoch = some e → e = hub.epoch) : Covered hub' := by
  refine h.advance hMoves hTask ?_ (fun e he hNe => absurd (hRead e he) hNe) ?_
  · rintro rfl
    exact hOld 0 trivial
  · intro j s _ hWill
    exact absurd hWill (hOld j)

theorem start (h : Covered hub) (hMoves : hub.Moves hub' t new) (hNew : hub.tasks t = none)
    (hRead : new.epoch = none) : Covered hub' := by
  refine h.move hMoves (by simp [hNew]) (fun e he => ?_) ?_
  · rw [hRead] at he
    cases he
  · intro j s old _ hOld
    rw [hNew] at hOld
    cases hOld

theorem deliver (h : Covered hub) (d : Delivery) : Covered (hub.deliver d) := by
  refine ⟨?_, h.behind⟩
  intro j s hGet
  rcases h.told j s hGet with ⟨x, hx, hSent⟩ | hPending
  · exact .inl ⟨x, List.mem_cons_of_mem _ hx, hSent⟩
  · exact .inr hPending

theorem remove (h : Covered hub) (hGuard : hub.Guarded) {pass : Pass} {i : Nat} {alive : Bool}
    (hTask : hub.tasks t = some (.scanning pass i alive)) : Covered (hub.remove i) := by
  refine ⟨?_, h.behind⟩
  intro j s hGet
  change (hub.subscribers.eraseIdx i)[j]? = some s at hGet
  rw [List.getElem?_eraseIdx] at hGet
  split at hGet
  · exact h.told j s hGet
  · rename_i hLe
    rcases h.told (j + 1) s hGet with hDone | ⟨n, task, hLock, hWill⟩
    · exact .inl hDone
    · refine .inr ⟨n, task, hLock, ?_⟩
      cases task with
      | publishing | reading => trivial
      | scanning =>
        -- only one thread is at work on the entries
        have hEq := hGuard.unique hTask rfl hLock rfl
        subst hEq
        cases Option.mem_unique hTask hLock
        cases pass with
        | retain => exact hWill
        | publish => exact ⟨hWill.1, Nat.le_of_not_lt hLe⟩
      | _ => exact hWill

theorem push (h : Covered hub) {sub : Subscriber} {epoch : Nat}
    (hTask : hub.tasks t = some (.greeting sub epoch))
    (hTold : epoch = hub.epoch → hub.Told sub) :
    Covered { hub with subscribers := hub.subscribers ++ [sub] } := by
  refine ⟨?_, h.behind⟩
  intro j s hGet
  change (hub.subscribers ++ [sub])[j]? = some s at hGet
  by_cases hOld : j < hub.subscribers.length
  · rw [List.getElem?_append_left hOld] at hGet
    exact h.told j s hGet
  · rw [List.getElem?_append_right (Nat.le_of_not_lt hOld)] at hGet
    have hNew : s = sub := by
      have := List.mem_of_getElem? hGet
      simpa using this
    subst hNew
    by_cases hEpoch : epoch = hub.epoch
    · exact .inl (hTold hEpoch)
    · obtain ⟨n, hWaits⟩ := h.behind t _ epoch hTask rfl hEpoch
      exact .inr ⟨n, .publishing, hWaits, trivial⟩

end Covered

theorem covered_step (hGuard : hub.Guarded) (h : Covered hub)
    (hMove : hub.Move a hub') : Covered hub' := by
  cases hMove with
  | subscribe hNew | beat hNew => exact h.start (Hub.setTask_moves ..) hNew rfl
  | @lock n =>
    -- the LOCK that has just bumped the epoch has everybody still to tell
    have hPublishing : Function.update hub.tasks (.handler n) (some .publishing) (.handler n) =
        some HubTask.publishing := Function.update_self ..
    exact ⟨fun j s _ => Or.inr ⟨n, .publishing, hPublishing, trivial⟩,
      fun t task e _ _ _ => ⟨n, hPublishing⟩⟩
  | exit => exact ⟨h.told, h.behind⟩
  | @acquirePublish t hFree =>
    -- nobody holds the mutex, so nobody has read an epoch
    have hNone : ∀ t' task e, hub.tasks t' = some task → task.epoch = some e → False := by
      intro t' task e hTask' he
      have hHolder := hGuard t' task hTask' (HubTask.holds_of_epoch he)
      rw [hFree] at hHolder
      cases hHolder
    refine ⟨?_, ?_⟩
    · intro j s hGet
      rcases h.told j s hGet with hDone | ⟨n, task, hLock, hWill⟩
      · exact .inl hDone
      · by_cases hEq : HubThread.handler n = t
        · subst hEq
          exact .inr ⟨n, .reading, Function.update_self .., trivial⟩
        · exact .inr ⟨n, task, update_some_of_ne hEq hLock, hWill⟩
    · intro t' task e hTask' he
      rcases update_some_cases hTask' with ⟨rfl, rfl⟩ | ⟨-, hStays⟩
      · cases he
      · exact (hNone t' task e hStays he).elim
  | acquire hFree hTask =>
    exact h.quiet ⟨rfl, rfl, rfl, rfl, rfl, rfl⟩ hTask (fun _ => id) nofun
  | pin hTask | retained hTask _ | kept hTask _ _ =>
    exact h.quiet (Hub.setTask_moves ..) hTask (fun _ => id) nofun
  | refused hTask =>
    exact h.quiet (Hub.finish_moves ..) hTask (fun _ => id) nofun
  | admitted hTask =>
    exact h.quiet (Hub.setTask_moves ..) hTask (fun _ => id) (fun e he => (Option.some.inj he).symm)
  | read hTask =>
    refine h.advance (Hub.setTask_moves ..) hTask (by simp) ?_ ?_
    · intro e he hNe
      exact absurd (Option.some.inj he).symm hNe
    · intro j s _ _
      exact .inl ⟨rfl, Nat.zero_le _⟩
  | @published t written epoch i hTask hEnd =>
    -- the walk is over: no entry lies behind its end
    refine h.advance (Hub.finish_moves ..) hTask (by simp) nofun ?_
    intro j s hGet hWill
    have hLength := List.getElem?_eq_none_iff.mp hEnd
    have hInside := (List.getElem?_eq_some_iff.mp hGet).1
    have hBeyond : i ≤ j := hWill.2
    omega
  | @running t written pass i s hTask =>
    refine h.advance (Hub.setTask_moves ..) hTask (by simp) ?_ ?_
    · intro e he _
      cases pass <;> exact he
    · intro j s _ hWill
      exact .inl (by cases pass <;> exact hWill)
  | gone hTask => exact h.remove hGuard hTask
  | replaced hTask =>
    exact (h.remove hGuard hTask).quiet (Hub.setTask_moves ..) hTask (fun _ => id) nofun
  | @wrote t written s epoch i hTask hGet hFull =>
    refine (h.deliver ⟨s.conn, ⟨hub.instanceId, epoch⟩, written⟩).advance (Hub.setTask_moves ..)
      hTask (by simp) (fun e he _ => he) ?_
    -- the entry at `i` has been told, the later ones have still to be
    intro j s' hGet' hWill
    obtain ⟨hEpoch, hLe⟩ : epoch = hub.epoch ∧ i ≤ j := hWill
    by_cases hHere : i = j
    · subst hHere
      cases Option.mem_unique hGet hGet'
      exact .inr ⟨_, List.mem_cons_self .., rfl, by rw [hEpoch]; rfl, hFull⟩
    · exact .inl ⟨hEpoch, by omega⟩
  | @dropped t written s epoch i hTask =>
    have hSent := h.deliver ⟨s.conn, ⟨hub.instanceId, epoch⟩, written⟩
    exact (hSent.remove hGuard hTask).advance (Hub.setTask_moves ..) hTask (by simp)
      (fun e he _ => he) (fun j s' _ hWill => Or.inl hWill)
  | @attached t written sub epoch hTask hFull =>
    have hSent := h.deliver ⟨sub.conn, ⟨hub.instanceId, epoch⟩, written⟩
    have hPushed := hSent.push hTask (by
      intro hEpoch
      exact ⟨_, List.mem_cons_self .., rfl, by rw [hEpoch]; rfl, hFull⟩)
    exact hPushed.quiet (Hub.finish_moves ..) hTask (fun _ => id) nofun
  | unwritten hTask =>
    exact (h.deliver _).quiet (Hub.finish_moves ..) hTask (fun _ => id) nofun

/-! ## Who is on the list -/

namespace Hub

/-- Not two running processes with one pid. -/
def Distinct (hub : Hub) (s s' : Subscriber) : Prop :=
  hub.isAlive s.peer = true → hub.isAlive s'.peer = true → s.peer.pid ≠ s'.peer.pid

theorem pid_of_isAlive {hub : Hub} {peer : Process} (h : hub.isAlive peer) :
    hub.pid peer = some peer.pid := by
  unfold isAlive pid at *
  split at h
  · cases h
  · rename_i hRuns
    rw [if_neg hRuns]

end Hub

/-- What `attach` has made sure of where it stands: the newcomer's pid, and that
the entries it has passed are not the newcomer's. -/
def HubTask.Cleared (hub : Hub) : HubTask → Prop
  | scanning (.retain sub peerPid) i _ =>
    (hub.isAlive sub.peer = true → peerPid = some sub.peer.pid) ∧
      ∀ j s, j < i → hub.subscribers[j]? = some s → hub.Distinct s sub
  | admitting sub => ∀ s ∈ hub.subscribers, hub.Distinct s sub
  | greeting sub _ =>
    (∀ s ∈ hub.subscribers, hub.Distinct s sub) ∧ hub.subscribers.length < subscriberCapacity
  | _ => True

theorem HubTask.cleared_of_not_holds {task : HubTask} (h : task.holds = false) :
    task.Cleared hub := by
  cases task with
  | attaching | publishing | done => trivial
  | _ => cases h

/-- The hub is never over its capacity, nor holds two running processes with
one pid. -/
structure Roster (hub : Hub) : Prop where
  room : hub.subscribers.length ≤ subscriberCapacity
  distinct : hub.subscribers.Pairwise hub.Distinct
  places : ∀ t task, hub.tasks t = some task → task.Cleared hub

namespace Roster

variable {hub hub' : Hub} {t : HubThread} {old new : HubTask}

theorem move (h : Roster hub) (hMoves : hub.Moves hub' t new) (hNew : new.Cleared hub) :
    Roster hub' := by
  obtain ⟨hSubs, _, _, hExited, _, hTasks⟩ := hMoves
  have hAlive : hub'.isAlive = hub.isAlive := by
    funext peer
    unfold Hub.isAlive Hub.pid
    rw [hExited]
  have hDistinct : hub'.Distinct = hub.Distinct := by
    funext s s'
    unfold Hub.Distinct
    rw [hAlive]
  have hCleared : ∀ task : HubTask, task.Cleared hub → task.Cleared hub' := by
    intro task hTask
    unfold HubTask.Cleared at *
    rw [hAlive, hSubs, hDistinct]
    exact hTask
  refine ⟨hSubs ▸ h.room, ?_, ?_⟩
  · rw [hSubs, hDistinct]
    exact h.distinct
  · intro t' task hTask
    rw [hTasks] at hTask
    rcases update_some_cases hTask with ⟨rfl, rfl⟩ | ⟨-, hOld⟩
    · exact hCleared _ hNew
    · exact hCleared _ (h.places t' task hOld)

theorem change (hGuard : hub.Guarded) (hTask : hub.tasks t = some old)
    (hHolds : old.holds) {subscribers : List Subscriber}
    (hRoom : subscribers.length ≤ subscriberCapacity)
    (hDistinct : subscribers.Pairwise hub.Distinct)
    (hCleared : old.Cleared { hub with subscribers := subscribers }) :
    Roster { hub with subscribers := subscribers } := by
  refine ⟨hRoom, hDistinct, ?_⟩
  intro t' task hTask'
  by_cases hOther : task.holds
  · have hSame := hGuard.unique hTask hHolds hTask' hOther
    subst hSame
    cases Option.mem_unique hTask hTask'
    exact hCleared
  · exact HubTask.cleared_of_not_holds (by simpa using hOther)

theorem remove (h : Roster hub) (hGuard : hub.Guarded) {pass : Pass} {i : Nat} {alive : Bool}
    (hTask : hub.tasks t = some (.scanning pass i alive)) : Roster (hub.remove i) := by
  have hSub : (hub.subscribers.eraseIdx i).Sublist hub.subscribers := List.eraseIdx_sublist ..
  refine .change hGuard hTask rfl (Nat.le_trans hSub.length_le h.room) (h.distinct.sublist hSub) ?_
  have hCleared := h.places t _ hTask
  cases pass with
  | publish => trivial
  | retain =>
    refine ⟨hCleared.1, ?_⟩
    intro j s hj hGet
    change (hub.subscribers.eraseIdx i)[j]? = some s at hGet
    rw [List.getElem?_eraseIdx, if_pos hj] at hGet
    exact hCleared.2 j s hj hGet

end Roster

theorem roster_step (hGuard : hub.Guarded) (h : Roster hub)
    (hMove : hub.Move a hub') : Roster hub' := by
  cases hMove with
  | subscribe | beat | read => exact h.move (Hub.setTask_moves ..) trivial
  | published | refused => exact h.move (Hub.finish_moves ..) trivial
  | lock =>
    have hBumped : Roster { hub with epoch := satAdd hub.epoch 1 } :=
      ⟨h.room, h.distinct, h.places⟩
    exact hBumped.move (Hub.setTask_moves ..) trivial
  | @exit peer =>
    -- an exit leaves fewer processes to tell apart
    have hFewer : ∀ p, Hub.isAlive { hub with exited := peer :: hub.exited } p →
        hub.isAlive p := by
      intro p hp
      unfold Hub.isAlive Hub.pid at *
      split at hp
      · cases hp
      · rename_i hRuns
        rw [if_neg fun hIn => hRuns (List.mem_cons_of_mem _ hIn)]
        rfl
    have hDistinct : ∀ s s', hub.Distinct s s' →
        Hub.Distinct { hub with exited := peer :: hub.exited } s s' :=
      fun s s' hd hs hs' => hd (hFewer _ hs) (hFewer _ hs')
    refine ⟨h.room, h.distinct.imp fun {s s'} => hDistinct s s', ?_⟩
    intro t task hTask
    have hCleared := h.places t task hTask
    cases task with
    | scanning pass =>
      cases pass with
      | publish => trivial
      | retain =>
        exact ⟨fun hs => hCleared.1 (hFewer _ hs),
          fun j s hj hGet => hDistinct _ _ (hCleared.2 j s hj hGet)⟩
    | admitting => exact fun s hs => hDistinct _ _ (hCleared s hs)
    | greeting => exact ⟨fun s hs => hDistinct _ _ (hCleared.1 s hs), hCleared.2⟩
    | _ => trivial
  | acquire | acquirePublish => exact h.move ⟨rfl, rfl, rfl, rfl, rfl, rfl⟩ trivial
  | @pin =>
    refine h.move (Hub.setTask_moves ..) ⟨fun hAlive => Hub.pid_of_isAlive hAlive, ?_⟩
    intro j s hj
    omega
  | @retained t written peerPid sub i hTask hEnd =>
    -- the walk has passed every entry
    refine h.move (Hub.setTask_moves ..) ?_
    intro s hs
    obtain ⟨j, hj, hGet⟩ := List.mem_iff_getElem.mp hs
    have hLength := List.getElem?_eq_none_iff.mp hEnd
    exact (h.places t _ hTask).2 j s (by omega) (by rw [List.getElem?_eq_getElem hj, hGet])
  | @running t written pass i s hTask =>
    refine h.move (Hub.setTask_moves ..) ?_
    have hCleared := h.places t _ hTask
    cases pass <;> exact hCleared
  | gone hTask => exact h.remove hGuard hTask
  | @kept t written peerPid sub s i hTask hGet hPid =>
    have hCleared := h.places t _ hTask
    refine h.move (Hub.setTask_moves ..) ⟨hCleared.1, ?_⟩
    intro j s' hj hGet'
    rcases Nat.lt_or_eq_of_le (Nat.le_of_lt_succ hj) with hPassed | rfl
    · exact hCleared.2 j s' hPassed hGet'
    · -- both run, so both pids were read
      cases Option.mem_unique hGet hGet'
      intro hAlive hNewcomer hEq
      apply hPid
      rw [Hub.pid_of_isAlive hAlive, hCleared.1 hNewcomer, hEq]
  | @replaced t written peerPid sub i hTask =>
    have hRemoved := h.remove hGuard hTask
    have hCleared := hRemoved.places t _ hTask
    exact hRemoved.move (Hub.setTask_moves ..) ⟨hCleared.1, hCleared.2⟩
  | @wrote t written s epoch =>
    have hSent : Roster (hub.deliver ⟨s.conn, ⟨hub.instanceId, epoch⟩, written⟩) :=
      ⟨h.room, h.distinct, h.places⟩
    exact hSent.move (Hub.setTask_moves ..) trivial
  | @dropped t written s epoch i hTask =>
    have hSent : Roster (hub.deliver ⟨s.conn, ⟨hub.instanceId, epoch⟩, written⟩) :=
      ⟨h.room, h.distinct, h.places⟩
    exact (hSent.remove hGuard hTask).move (Hub.setTask_moves ..) trivial
  | @admitted t written sub hTask hRoom =>
    exact h.move (Hub.setTask_moves ..) ⟨h.places t _ hTask, hRoom⟩
  | @attached t written sub epoch hTask =>
    obtain ⟨hDistinct, hRoom⟩ := h.places t _ hTask
    refine ⟨?_, ?_, ?_⟩
    · show (hub.subscribers ++ [sub]).length ≤ subscriberCapacity
      rw [List.length_append]
      exact hRoom
    · refine List.pairwise_append.mpr ⟨h.distinct, List.pairwise_singleton .., ?_⟩
      intro s hs s' hs'
      rw [List.mem_singleton.mp hs']
      exact hDistinct s hs
    · -- the mutex is free now, so nobody has made sure of anything
      intro t' task hTask'
      rcases update_some_cases hTask' with ⟨rfl, rfl⟩ | ⟨hNe, hOld⟩
      · trivial
      · refine HubTask.cleared_of_not_holds ?_
        by_contra hHolds
        exact hNe (hGuard.unique hTask rfl hOld (by simpa using hHolds)).symm
  | @unwritten t written sub epoch =>
    have hSent : Roster (hub.deliver ⟨sub.conn, ⟨hub.instanceId, epoch⟩, written⟩) :=
      ⟨h.room, h.distinct, h.places⟩
    exact hSent.move (Hub.finish_moves ..) trivial

/-! ## Whole runs -/

structure HubInv (hub : Hub) : Prop where
  guarded : hub.Guarded
  ordered : Ordered hub
  covered : Covered hub
  roster : Roster hub

theorem hubInv_step (h : HubInv hub)
    (hStep : hub.step a = some hub') : HubInv hub' := by
  have hMove := Hub.step_move hStep
  exact ⟨guarded_step h.guarded hMove, ordered_step h.guarded h.ordered hMove,
    covered_step h.guarded h.covered hMove, roster_step h.guarded h.roster hMove⟩

theorem hubInv_reachable {instanceId : String}
    (h : Reachable (hubSystem instanceId) hub) : HubInv hub := by
  refine h.invariant (I := HubInv) (fun x a y hx _ hStep => hubInv_step hx hStep) ?_
  refine ⟨Exclusive.init, ⟨Nat.zero_le _, .nil, ?_, ?_⟩, ⟨?_, ?_⟩, ⟨Nat.zero_le _, .nil, ?_⟩⟩
  · intro d hd
    cases hd
  · intro t task e hTask
    cases hTask
  · intro j s hGet
    cases hGet
  · intro t task e hTask
    cases hTask
  · intro t task hTask
    cases hTask

end Forward.Secrets

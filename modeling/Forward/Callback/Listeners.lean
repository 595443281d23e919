import Forward.Callback.Serve

/-!
# Whose hands a callback listener is in

Each listener is in the hands of the call that bound it until an accept loop takes it over, and an
address has one open listener at a time.
-/

namespace Forward.Callback

open Lib Net

namespace Callbacks

variable {s s' : Callbacks} {a : Action}

/-- What a call or a loop has in hand is as it expects, in nobody else's hands,
and open at the call's port if it is open. -/
structure Placed (sockets : Table (Family × Nat) Nat) (tasks : Nat → Option Task)
    (loops : Nat × Family → Option Loop) (fates : Nat × Family → Fate) : Prop where
  fresh : ∀ c f, tasks c = none → fates (c, f) = .unbound ∧ loops (c, f) = none
  hands : ∀ c task f fate, tasks c = some task → task.expects f = some fate →
    fates (c, f) = fate ∧ loops (c, f) = none
  looped : ∀ c f loop, loops (c, f) = some loop →
    fates (c, f) = loop.fate ∧ ∃ task, tasks c = some task ∧ task.port = loop.port
  bound : ∀ c task f, tasks c = some task → fates (c, f) = .listening →
    sockets.lookup (f, task.port) = some c

namespace Placed

variable {sockets sockets' : Table (Family × Nat) Nat} {tasks : Nat → Option Task}
variable {loops : Nat × Family → Option Loop} {fates : Nat × Family → Fate}
variable {c : Nat} {f : Family} {task next : Task}

theorem unique (h : Placed sockets tasks loops fates) {c' : Nat} {task' : Task}
    (hTask : tasks c = some task) (hTask' : tasks c' = some task') (hPort : task'.port = task.port)
    (hOpen : fates (c, f) = .listening) (hOpen' : fates (c', f) = .listening) : c = c' := by
  have hAddress := h.bound c task f hTask hOpen
  have hAddress' := h.bound c' task' f hTask' hOpen'
  rw [hPort, hAddress] at hAddress'
  exact Option.some.inj hAddress'

theorem go (h : Placed sockets tasks loops fates) (hTask : tasks c = some task)
    (hPort : next.port = task.port)
    (hHands : ∀ f fate, next.expects f = some fate → fates (c, f) = fate ∧ loops (c, f) = none) :
    Placed sockets (Function.update tasks c (some next)) loops fates := by
  refine ⟨?_, ?_, ?_, ?_⟩
  · intro c' f hNone
    by_cases hEq : c' = c
    · subst hEq
      rw [Function.update_self] at hNone
      cases hNone
    · rw [Function.update_of_ne hEq] at hNone
      exact h.fresh c' f hNone
  · intro c' task' f fate hAt hExpects
    rcases update_some_cases hAt with ⟨rfl, rfl⟩ | ⟨-, hOld⟩
    · exact hHands f fate hExpects
    · exact h.hands c' task' f fate hOld hExpects
  · intro c' f loop hLoop
    obtain ⟨hFate, task', hOld, hLoopPort⟩ := h.looped c' f loop hLoop
    refine ⟨hFate, ?_⟩
    by_cases hEq : c' = c
    · subst hEq
      obtain rfl := Option.mem_unique hTask hOld
      exact ⟨next, Function.update_self .., hPort.trans hLoopPort⟩
    · exact ⟨task', update_some_of_ne hEq hOld, hLoopPort⟩
  · intro c' task' f hAt hOpen
    rcases update_some_cases hAt with ⟨rfl, rfl⟩ | ⟨-, hOld⟩
    · rw [hPort]
      exact h.bound _ task f hTask hOpen
    · exact h.bound c' task' f hOld hOpen

theorem fates_of_ne {fate : Fate} {key : Nat × Family} (hNe : key ≠ (c, f)) :
    Function.update fates (c, f) fate key = fates key := Function.update_of_ne hNe ..

theorem work {fate old : Fate} (h : Placed sockets tasks loops fates) (hTask : tasks c = some task)
    (hHand : task.expects f = some old) (hNext : task.Works next f fate)
    (hOwn : fate = .listening → sockets'.lookup (f, task.port) = some c)
    (hOthers : ∀ c' task' f', tasks c' = some task' → fates (c', f') = .listening →
      (c', f') ≠ (c, f) → sockets'.lookup (f', task'.port) = some c') :
    Placed sockets' (Function.update tasks c (some next)) loops
      (Function.update fates (c, f) fate) := by
  have hLoop : loops (c, f) = none := (h.hands c task f old hTask hHand).2
  refine ⟨?_, ?_, ?_, ?_⟩
  · intro c' f' hNone
    have hNe : c' ≠ c := by
      rintro rfl
      rw [Function.update_self] at hNone
      cases hNone
    rw [Function.update_of_ne hNe] at hNone
    rw [fates_of_ne fun hEq => hNe (Prod.mk.inj hEq).1]
    exact h.fresh c' f' hNone
  · intro c' task' f' fate' hAt hExpects
    rcases update_some_cases hAt with ⟨rfl, rfl⟩ | ⟨hNe, hOld⟩
    · by_cases hFamily : f' = f
      · subst hFamily
        rw [Function.update_self]
        exact ⟨(hNext.own fate' hExpects).symm, hLoop⟩
      · rw [fates_of_ne fun hEq => hFamily (Prod.mk.inj hEq).2]
        exact h.hands _ task f' fate' hTask (hNext.other f' fate' hFamily hExpects)
    · rw [fates_of_ne fun hEq => hNe (Prod.mk.inj hEq).1]
      exact h.hands c' task' f' fate' hOld hExpects
  · intro c' f' loop hAt
    -- the listener is not a loop's
    have hNe : (c', f') ≠ (c, f) := by
      intro hEq
      rw [hEq, hLoop] at hAt
      cases hAt
    obtain ⟨hFate, task', hOld, hLoopPort⟩ := h.looped c' f' loop hAt
    rw [fates_of_ne hNe]
    refine ⟨hFate, ?_⟩
    by_cases hEq : c' = c
    · subst hEq
      obtain rfl := Option.mem_unique hTask hOld
      exact ⟨next, Function.update_self .., hNext.port.trans hLoopPort⟩
    · exact ⟨task', update_some_of_ne hEq hOld, hLoopPort⟩
  · intro c' task' f' hAt hOpen
    by_cases hSame : (c', f') = (c, f)
    · cases hSame
      rw [Function.update_self] at hOpen
      rw [Function.update_self] at hAt
      cases hAt
      rw [hNext.port]
      exact hOwn hOpen
    · rw [fates_of_ne hSame] at hOpen
      rcases update_some_cases hAt with ⟨rfl, rfl⟩ | ⟨-, hOld⟩
      · rw [hNext.port]
        exact hOthers _ task f' hTask hOpen hSame
      · exact hOthers c' task' f' hOld hOpen hSame

theorem spawn {port : Nat} (h : Placed sockets tasks loops fates) (hTask : tasks c = some task)
    (hHand : task.expects f = some .listening) (hNext : task.Works next f .listening)
    (hGiven : next.expects f = none) (hPort : port = task.port) :
    Placed sockets (Function.update tasks c (some next))
      (Function.update loops (c, f) (some (.accepting port))) fates := by
  obtain ⟨hOpen, hLoop⟩ := h.hands c task f _ hTask hHand
  have hGone : Placed sockets (Function.update tasks c (some next)) loops fates := by
    refine h.go hTask hNext.port fun f' fate hExpects => ?_
    have hFamily : f' ≠ f := by
      rintro rfl
      rw [hGiven] at hExpects
      cases hExpects
    exact h.hands c task f' fate hTask (hNext.other f' fate hFamily hExpects)
  refine ⟨?_, ?_, ?_, hGone.bound⟩
  · intro c' f' hNone
    have hNe : c' ≠ c := by
      rintro rfl
      rw [Function.update_self] at hNone
      cases hNone
    rw [Function.update_of_ne fun hEq => hNe (Prod.mk.inj hEq).1]
    exact hGone.fresh c' f' hNone
  · intro c' task' f' fate hAt hExpects
    have hNe : (c', f') ≠ (c, f) := by
      intro hEq
      cases hEq
      rw [Function.update_self] at hAt
      cases hAt
      rw [hGiven] at hExpects
      cases hExpects
    rw [Function.update_of_ne hNe]
    exact hGone.hands c' task' f' fate hAt hExpects
  · intro c' f' loop hAt
    rcases update_some_cases hAt with ⟨hEq, rfl⟩ | ⟨-, hOld⟩
    · cases hEq
      exact ⟨hOpen, next, Function.update_self .., hNext.port.trans hPort.symm⟩
    · exact hGone.looped c' f' loop hOld

theorem loop {old : Loop} (h : Placed sockets tasks loops fates) (new : Loop)
    (hLoop : loops (c, f) = some old) (hPort : new.port = old.port)
    (hOwn : new.fate = .listening → sockets'.lookup (f, old.port) = some c)
    (hOthers : ∀ c' task' f', tasks c' = some task' → fates (c', f') = .listening →
      (c', f') ≠ (c, f) → sockets'.lookup (f', task'.port) = some c') :
    Placed sockets' tasks (Function.update loops (c, f) (some new))
      (Function.update fates (c, f) new.fate) := by
  obtain ⟨-, task, hTask, hTaskPort⟩ := h.looped c f old hLoop
  refine ⟨?_, ?_, ?_, ?_⟩
  · intro c' f' hNone
    have hNe : (c', f') ≠ (c, f) := by
      intro hEq
      rw [(Prod.mk.inj hEq).1, hTask] at hNone
      cases hNone
    rw [fates_of_ne hNe, Function.update_of_ne hNe]
    exact h.fresh c' f' hNone
  · intro c' task' f' fate hAt hExpects
    have hOld := h.hands c' task' f' fate hAt hExpects
    -- what a loop has is in no call's hands
    have hNe : (c', f') ≠ (c, f) := by
      intro hEq
      rw [hEq, hLoop] at hOld
      cases hOld.2
    rw [fates_of_ne hNe, Function.update_of_ne hNe]
    exact hOld
  · intro c' f' loop' hAt
    rcases update_some_cases hAt with ⟨hEq, rfl⟩ | ⟨hNe, hOld⟩
    · rw [hEq, Function.update_self]
      cases hEq
      exact ⟨rfl, task, hTask, hTaskPort.trans hPort.symm⟩
    · rw [fates_of_ne hNe]
      exact h.looped c' f' loop' hOld
  · intro c' task' f' hAt hOpen
    by_cases hSame : (c', f') = (c, f)
    · cases hSame
      rw [Function.update_self] at hOpen
      obtain rfl := Option.mem_unique hTask hAt
      rw [hTaskPort]
      exact hOwn hOpen
    · rw [fates_of_ne hSame] at hOpen
      exact hOthers c' task' f' hAt hOpen hSame

theorem erase_others (h : Placed sockets tasks loops fates) (hTask : tasks c = some task)
    (hOpen : fates (c, f) = .listening) {c' : Nat} {task' : Task} {f' : Family}
    (hTask' : tasks c' = some task') (hOpen' : fates (c', f') = .listening)
    (hNe : (c', f') ≠ (c, f)) :
    (sockets.erase (f, task.port)).lookup (f', task'.port) = some c' := by
  have hAddress : (f', task'.port) ≠ (f, task.port) := by
    intro hEq
    obtain ⟨rfl, hPort⟩ := Prod.mk.inj hEq
    obtain rfl := h.unique hTask hTask' hPort hOpen hOpen'
    exact hNe rfl
  rw [AList.lookup_erase_ne hAddress]
  exact h.bound c' task' f' hTask' hOpen'

end Placed

theorem placed_step (h : Placed s.sockets s.tasks s.loops s.fates) (hMove : s.Move a s') :
    Placed s'.sockets s'.tasks s'.loops s'.fates := by
  have hSame : ∀ c' task' f' (key : Nat × Family), s.tasks c' = some task' →
      s.fates (c', f') = .listening → (c', f') ≠ key →
      s.sockets.lookup (f', task'.port) = some c' :=
    fun c' task' f' _ hTask hOpen _ => h.bound c' task' f' hTask hOpen
  cases hMove with
  | @called c port ttl bridge task hNew hAlone hFresh =>
    refine ⟨?_, ?_, ?_, ?_⟩
    · intro c' f hNone
      have hNe : c' ≠ c := by
        rintro rfl
        cases (Function.update_self ..).symm.trans hNone
      exact h.fresh c' f ((Function.update_of_ne hNe ..).symm.trans hNone)
    · intro c' task' f fate hAt hExpects
      rcases update_some_cases hAt with ⟨rfl, rfl⟩ | ⟨-, hOld⟩
      · rw [hFresh f fate hExpects]
        exact h.fresh _ f hNew
      · exact h.hands c' task' f fate hOld hExpects
    · intro c' f loop hAt
      obtain ⟨hFate, task', hOld, hPort⟩ := h.looped c' f loop hAt
      refine ⟨hFate, task', update_some_of_ne ?_ hOld, hPort⟩
      rintro rfl
      rw [hNew] at hOld
      cases hOld
    · intro c' task' f hAt hOpen
      rcases update_some_cases hAt with ⟨rfl, rfl⟩ | ⟨-, hOld⟩
      · cases (h.fresh _ f hNew).1.symm.trans hOpen
      · exact h.bound c' task' f hOld hOpen
  | ticked | expired | idle => exact h
  | went hTask hNext =>
    exact h.go hTask hNext.port fun f fate hExpects => h.hands _ _ f fate hTask (hNext.expects f fate hExpects)
  | tolerated hTask | entered hTask =>
    refine h.go hTask rfl fun f fate hExpects => h.hands _ _ f fate hTask ?_
    cases f <;> exact hExpects
  | refreshed hTask => exact h.go hTask rfl nofun
  | @overflowed c reply job v6 hTask =>
    refine h.go hTask rfl fun f fate hExpects => h.hands _ _ f fate hTask ?_
    cases f with
    | v4 => exact hExpects
    | v6 =>
      cases v6 with
      | true => exact hExpects
      | false => cases hExpects
  | @listened c f reply task next hTask hFree hUnbound hOut hNext =>
    refine h.work hTask hUnbound hNext (fun _ => AList.lookup_insert ..) ?_
    intro c' task' f' hTask' hOpen hNe
    have hBound := h.bound c' task' f' hTask' hOpen
    have hAddress : (f', task'.port) ≠ (f, task.port) := by
      intro hEq
      rw [hEq, AList.lookup_eq_none.mpr hFree] at hBound
      cases hBound
    exact (AList.lookup_insert_ne hAddress).trans hBound
  | spawned hTask hListening hNext hGiven => exact h.spawn hTask hListening hNext hGiven rfl
  | closed hTask hListening hNext =>
    have hOpen := (h.hands _ _ _ _ hTask hListening).1
    refine h.work hTask hListening hNext nofun ?_
    intro c' task' f' hTask' hOpen' hNe
    exact h.erase_others hTask hOpen hTask' hOpen' hNe
  | @released c f reply task next hTask hDropped hNext =>
    exact h.work hTask hDropped hNext nofun
      fun c' task' f' hTask' hOpen hNe => hSame c' task' f' (c, f) hTask' hOpen hNe
  | @left c port f fails leases hLoop =>
    obtain ⟨hFate, task, hTask, hPort⟩ := h.looped c f _ hLoop
    have hKept := h.loop (.leaving port) hLoop rfl
      (fun _ => hPort ▸ h.bound c task f hTask hFate)
      fun c' task' f' hTask' hOpen hNe => hSame c' task' f' (c, f) hTask' hOpen hNe
    rw [show (Loop.leaving port).fate = s.fates (c, f) from hFate.symm,
      Function.update_eq_self] at hKept
    exact hKept
  | @loopClosed c port f fails hLoop =>
    obtain ⟨hFate, task, hTask, hPort⟩ := h.looped c f _ hLoop
    refine h.loop (.releasing port) hLoop rfl nofun ?_
    intro c' task' f' hTask' hOpen' hNe
    have hOthers := h.erase_others hTask hFate hTask' hOpen' hNe
    rw [hPort] at hOthers
    exact hOthers
  | @loopReleased c port f fails hLoop =>
    exact h.loop (.ended port) hLoop rfl nofun
      fun c' task' f' hTask' hOpen hNe => hSame c' task' f' (c, f) hTask' hOpen hNe

theorem placed_reachable (h : Reachable callbacks s) :
    Placed s.sockets s.tasks s.loops s.fates := by
  refine h.invariant (I := fun s => Placed s.sockets s.tasks s.loops s.fates)
    (fun _ _ _ hInv _ hStep => placed_step hInv (callbacks_move hStep)) ⟨?_, ?_, ?_, ?_⟩
  · intro c f _
    exact ⟨rfl, rfl⟩
  · intro c task f fate hAt
    cases hAt
  · intro c f loop hAt
    cases hAt
  · intro c task f hAt
    cases hAt

end Callbacks

end Forward.Callback

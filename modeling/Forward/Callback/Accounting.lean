import Forward.Callback.Listeners

/-!
# The accounting of callback leases

Whoever has a listener drops it before it gives its part of the lease back, so a lease counts the
listeners not given back. An entry is replaced by a call that has bound the same IPv4 address, so
its old IPv4 listener is gone; its IPv6 listener may not be, since a call goes on without one where
its bind fails for any reason but that the address is in use.
-/

namespace Forward.Callback

open Lib Net

namespace Callbacks

variable {s s' : Callbacks} {a : Action}

/-! ## The count of an entry -/

def unreleased (fates : Nat × Family → Fate) (c : Nat) : Nat :=
  (fates (c, .v4)).pending.toNat + (fates (c, .v6)).pending.toNat

variable {fates : Nat × Family → Fate} {c : Nat} {f : Family}

theorem unreleased_update_of_ne {c' : Nat} {fate : Fate}
    (hNe : c' ≠ c) : unreleased (Function.update fates (c, f) fate) c' = unreleased fates c' := by
  have hKey : ∀ f', (c', f') ≠ (c, f) := fun f' hEq => hNe (Prod.mk.inj hEq).1
  simp only [unreleased, Function.update_of_ne (hKey _)]

theorem unreleased_dropped (hOpen : fates (c, f) = .listening) :
    ∀ c', unreleased (Function.update fates (c, f) .dropped) c' = unreleased fates c' := by
  intro c'
  by_cases hEq : c' = c
  · subst hEq
    cases f <;> simp [unreleased, hOpen, Fate.pending]
  · exact unreleased_update_of_ne hEq

theorem unreleased_released (hDropped : fates (c, f) = .dropped) :
    unreleased fates c = unreleased (Function.update fates (c, f) .released) c + 1 := by
  cases f with
  | v4 =>
    simp [unreleased, hDropped, Fate.pending]
    omega
  | v6 => simp [unreleased, hDropped, Fate.pending]

theorem not_listening_of_unreleased
    (hNone : unreleased fates c = 0) (f : Family) : fates (c, f) ≠ .listening := by
  intro hOpen
  cases f <;> simp [unreleased, hOpen, Fate.pending] at hNone

/-- The call has been in `insert` for the port. -/
def Entered (tasks : Nat → Option Task) (c port : Nat) : Prop :=
  ∃ task, tasks c = some task ∧ task.port = port ∧ task.entered = true

namespace Entered

variable {tasks : Nat → Option Task} {c c' port : Nat} {task next : Task}

theorem new (h : Entered tasks c port) (hNew : tasks c' = none) :
    Entered (Function.update tasks c' (some next)) c port := by
  obtain ⟨task, hTask, hRest⟩ := h
  have hNe : c ≠ c' := by
    rintro rfl
    rw [hNew] at hTask
    cases hTask
  exact ⟨task, update_some_of_ne hNe hTask, hRest⟩

theorem go (h : Entered tasks c port) (hTask : tasks c' = some task)
    (hPort : next.port = task.port) (hStays : task.entered → next.entered) :
    Entered (Function.update tasks c' (some next)) c port := by
  obtain ⟨task', hTask', hPort', hEntered⟩ := h
  by_cases hEq : c = c'
  · subst hEq
    obtain rfl := Option.mem_unique hTask hTask'
    exact ⟨next, Function.update_self .., hPort.trans hPort', hStays hEntered⟩
  · exact ⟨task', update_some_of_ne hEq hTask', hPort', hEntered⟩

theorem ne_of_out (h : Entered tasks c port) (hTask : tasks c' = some task)
    (hOut : task.entered = false) : c ≠ c' := by
  rintro rfl
  obtain ⟨task', hTask', -, hEntered⟩ := h
  obtain rfl := Option.mem_unique hTask hTask'
  rw [hOut] at hEntered
  cases hEntered

theorem port_unique {port' : Nat} (h : Entered tasks c port) (h' : Entered tasks c port') :
    port = port' := by
  obtain ⟨task, hTask, hPort, -⟩ := h
  obtain ⟨task', hTask', hPort', -⟩ := h'
  obtain rfl := Option.mem_unique hTask hTask'
  exact hPort.symm.trans hPort'

end Entered

/-- An entry is a call's that has been in `insert`, and counts what the call has
not given back. -/
structure Counts (tasks : Nat → Option Task) (fates : Nat × Family → Fate) (port : Nat)
    (lease : Lease) : Prop where
  entered : Entered tasks lease.stop port
  count : lease.listeners = unreleased fates lease.stop
  pos : 0 < lease.listeners

def Counted (entries : Table Nat Lease) (tasks : Nat → Option Task)
    (fates : Nat × Family → Fate) : Prop :=
  ∀ port lease, entries.lookup port = some lease → Counts tasks fates port lease

variable {tasks tasks' : Nat → Option Task} {port : Nat} {lease : Lease}

theorem Counts.keep {fates' : Nat × Family → Fate}
    (h : Counts tasks fates port lease)
    (hEntered : ∀ c port, Entered tasks c port → Entered tasks' c port)
    (hSame : unreleased fates' lease.stop = unreleased fates lease.stop) :
    Counts tasks' fates' port lease :=
  ⟨hEntered _ _ h.entered, h.count.trans hSame.symm, h.pos⟩

theorem entered_step (hMove : s.Move a s') (h : Entered s.tasks c port) :
    Entered s'.tasks c port := by
  cases hMove with
  | called hNew => exact h.new hNew
  | ticked | expired | idle | left | loopClosed | loopReleased => exact h
  | went hTask hNext => exact h.go hTask hNext.port hNext.entered
  | listened hTask _ _ _ hNext | spawned hTask _ hNext | closed hTask _ hNext
  | released hTask _ hNext => exact h.go hTask hNext.port hNext.entered
  | refreshed hTask | entered hTask => exact h.go hTask rfl fun _ => rfl
  | tolerated hTask | overflowed hTask => exact h.go hTask rfl id

theorem Counted.release {l : Leases}
    (h : Counted l.entries tasks fates)
    (hDropped : fates (c, f) = .dropped) (hTask : ∀ task, tasks c = some task → task.port = port)
    (hEntered : ∀ c port, Entered tasks c port → Entered tasks' c port) :
    Counted (l.release port c).2.entries tasks' (Function.update fates (c, f) .released) := by
  have hOther : ∀ port' lease, port' ≠ port → l.entries.lookup port' = some lease →
      Counts tasks' (Function.update fates (c, f) .released) port' lease := by
    intro port' lease hNe hLease
    refine (h port' lease hLease).keep hEntered (unreleased_update_of_ne ?_)
    rintro rfl
    obtain ⟨task, hAt, hPort, -⟩ := (h port' lease hLease).entered
    exact hNe (hPort.symm.trans (hTask task hAt))
  intro port' lease' hLease'
  rcases l.release_cases port c with ⟨hSame, hForeign⟩ | ⟨lease, hLease, rfl, hRest⟩
  · -- the entry at the port, if there is one, is another call's
    rw [hSame] at hLease'
    by_cases hEq : port' = port
    · subst hEq
      exact (h port' lease' hLease').keep hEntered (unreleased_update_of_ne (hForeign _ hLease'))
    · exact hOther port' lease' hEq hLease'
  · rcases hRest with ⟨-, -, hEntries⟩ | ⟨hMore, -, hEntries⟩
    · rw [hEntries] at hLease'
      obtain ⟨hNe, hOld⟩ := Table.lookup_erase_cases hLease'
      exact hOther port' lease' hNe hOld
    · rw [hEntries] at hLease'
      rcases Table.lookup_insert_cases hLease' with ⟨rfl, rfl⟩ | ⟨hNe, hOld⟩
      · have hCounts := h port' lease hLease
        refine ⟨hEntered _ _ hCounts.entered, ?_, Nat.pos_of_ne_zero hMore⟩
        show lease.listeners - 1 = unreleased (Function.update fates (lease.stop, f) _) lease.stop
        rw [hCounts.count, unreleased_released hDropped, Nat.add_sub_cancel]
      · exact hOther port' lease' hNe hOld

theorem counted_step (hPlaced : Placed s.sockets s.tasks s.loops s.fates)
    (h : Counted s.leases.entries s.tasks s.fates) (hMove : s.Move a s') :
    Counted s'.leases.entries s'.tasks s'.fates := by
  have hEntered : ∀ c port, Entered s.tasks c port → Entered s'.tasks c port :=
    fun _ _ => entered_step hMove
  have hKeep : s'.fates = s.fates → ∀ {port lease},
      s.leases.entries.lookup port = some lease → Counts s'.tasks s'.fates port lease := by
    intro hFates port lease hLease
    refine (h port lease hLease).keep hEntered ?_
    rw [hFates]
  cases hMove with
  | called | ticked | expired | went | tolerated | spawned | idle =>
    exact fun port lease hLease => hKeep rfl hLease
  | left hLoop hEntries =>
    exact fun port lease hLease => hKeep rfl ((congrArg _ hEntries).symm.trans hLease)
  | overflowed =>
    exact fun port lease hLease =>
      hKeep rfl ((congrArg _ (Leases.displace_entries ..)).symm.trans hLease)
  | refreshed hTask hLease =>
    intro port lease' hLease'
    rcases Table.lookup_insert_cases hLease' with ⟨rfl, rfl⟩ | ⟨-, hOld⟩
    · have hCounts := hKeep rfl hLease
      exact ⟨hCounts.entered, hCounts.count, hCounts.pos⟩
    · exact hKeep rfl hOld
  | @listened c f reply task next hTask hFree hUnbound hOut =>
    -- the call has no entry yet
    intro port lease hLease
    refine (h port lease hLease).keep hEntered (unreleased_update_of_ne ?_)
    exact (h port lease hLease).entered.ne_of_out hTask hOut
  | @entered c deadline reply job v6 hTask =>
    intro port lease hLease
    have hEntries := s.leases.insert_entries job.port ⟨job.owner, deadline, 1 + v6.toNat, c⟩
    rcases Table.lookup_insert_cases ((congrArg _ hEntries).symm.trans hLease) with
      ⟨rfl, rfl⟩ | ⟨-, hOld⟩
    · have hOpen := (hPlaced.hands c _ .v4 _ hTask rfl).1
      have hOpen6 := (hPlaced.hands c _ .v6 _ hTask rfl).1
      refine ⟨⟨_, Function.update_self .., rfl, rfl⟩, ?_, Nat.lt_of_lt_of_le Nat.one_pos
        (Nat.le_add_right ..)⟩
      show 1 + v6.toNat = unreleased s.fates c
      rw [unreleased, hOpen, hOpen6]
      cases v6 <;> rfl
    · exact hKeep rfl hOld
  | closed hTask hListening =>
    intro port lease hLease
    have hOpen := (hPlaced.hands _ _ _ _ hTask hListening).1
    exact (h port lease hLease).keep hEntered (unreleased_dropped hOpen _)
  | loopClosed hLoop =>
    intro port lease hLease
    have hOpen := (hPlaced.looped _ _ _ hLoop).1
    exact (h port lease hLease).keep hEntered (unreleased_dropped hOpen _)
  | released hTask hDropped =>
    refine h.release (hPlaced.hands _ _ _ _ hTask hDropped).1 (fun task hAt => ?_) hEntered
    exact congrArg Task.port (Option.mem_unique hAt hTask)
  | loopReleased hLoop =>
    obtain ⟨hDropped, task, hTask, hPort⟩ := hPlaced.looped _ _ _ hLoop
    refine h.release hDropped (fun task' hAt => ?_) hEntered
    exact (congrArg Task.port (Option.mem_unique hAt hTask)).trans hPort

theorem counted_reachable (h : Reachable callbacks s) :
    Counted s.leases.entries s.tasks s.fates := by
  refine h.strengthen (I := fun s => Counted s.leases.entries s.tasks s.fates) ?_ ?_
  · intro port lease hLease
    cases hLease
  · intro s a s' hReach hInv hStep
    exact counted_step (placed_reachable hReach) hInv (callbacks_move hStep)

/-! ## What a step does to the table -/

def leaver : Event → Option Nat
  | .removed c _ | .replaced c _ _ => some c
  | .tolerated _ _ => none

def departures (trail : List Event) (c : Nat) : Nat := trail.countP fun e => leaver e = some c

variable {e : Event}

theorem departures_cons_self (hLeaver : leaver e = some c)
    (trail : List Event) : departures (e :: trail) c = departures trail c + 1 :=
  List.countP_cons_of_pos (decide_eq_true hLeaver)

theorem departures_cons_ne (hLeaver : leaver e ≠ some c)
    (trail : List Event) : departures (e :: trail) c = departures trail c :=
  List.countP_cons_of_neg (by simp [hLeaver])

/-- Nothing enters or leaves; an entry changes without a change of owner, and its
deadline is raised by a call of its owner; an entry comes in; or one goes, when
its listeners have been dropped. -/
inductive Turnover (s : Callbacks) (a : Action) (s' : Callbacks) : Prop
  | kept (hEntries : s'.leases.entries = s.leases.entries)
      (hTrail : ∀ c, departures s'.trail c = departures s.trail c)
  | changed {port : Nat} {lease lease' : Lease} (hLease : s.leases.entries.lookup port = some lease)
      (hEntries : s'.leases.entries = s.leases.entries.insert port lease')
      (hTrail : s'.trail = s.trail) (hStop : lease'.stop = lease.stop)
      (hOwner : lease'.owner = lease.owner)
      (hDeadline : lease'.deadline = lease.deadline ∨ lease.deadline ≤ lease'.deadline ∧
        ∃ c reply job, a = .turn c reply ∧ s.tasks c = some (.refreshing job) ∧
          job.port = port ∧ job.owner = lease.owner)
  | entered {c : Nat} {reply : Reply} {job : Job} {v6 : Bool} {lease' : Lease}
      (hTurn : a = .turn c reply) (hTask : s.tasks c = some (.inserting job v6))
      (hStop : lease'.stop = c)
      (hEntries : s'.leases.entries = s.leases.entries.insert job.port lease')
      (hTrail : s'.trail = (s.leases.entries.lookup job.port).elim s.trail
        fun lease => .replaced lease.stop job.port c :: s.trail)
  | removed {port : Nat} {lease : Lease} (hLease : s.leases.entries.lookup port = some lease)
      (hEntries : s'.leases.entries = s.leases.entries.erase port)
      (hTrail : s'.trail = .removed lease.stop port :: s.trail)
      (hDropped : ∀ f, s'.fates (lease.stop, f) ≠ .listening)

theorem turnover_release
    (h : Counted s.leases.entries s.tasks s.fates) (hDropped : s.fates (c, f) = .dropped)
    (hLeases : s'.leases = (s.leases.release port c).2)
    (hFates : s'.fates = Function.update s.fates (c, f) .released)
    (hTrail : s'.trail =
      if (s.leases.release port c).1 then .removed c port :: s.trail else s.trail) :
    Turnover s a s' := by
  rcases s.leases.release_cases port c with ⟨hSame, -⟩ | ⟨lease, hLease, rfl, hRest⟩
  · rw [hSame] at hLeases hTrail
    refine .kept (congrArg _ hLeases) fun c' => ?_
    exact congrArg (departures · c') hTrail
  · rcases hRest with ⟨hLast, hRemoved, hEntries⟩ | ⟨hMore, hRemoved, hEntries⟩
    · rw [if_pos hRemoved] at hTrail
      refine .removed hLease ((congrArg _ hLeases).trans hEntries) hTrail ?_
      have hCount := (h port lease hLease).count
      rw [unreleased_released hDropped] at hCount
      rw [hFates]
      exact not_listening_of_unreleased (by omega)
    · rw [hRemoved] at hTrail
      exact .changed hLease ((congrArg _ hLeases).trans hEntries) hTrail rfl rfl (.inl rfl)

theorem turnover_step (hPlaced : Placed s.sockets s.tasks s.loops s.fates)
    (h : Counted s.leases.entries s.tasks s.fates) (hMove : s.Move a s') : Turnover s a s' := by
  cases hMove with
  | called | ticked | expired | went | listened | spawned | closed | idle | loopClosed =>
    exact .kept rfl fun _ => rfl
  | tolerated => exact .kept rfl fun c => departures_cons_ne (fun hEq => by cases hEq) _
  | left _ hEntries => exact .kept hEntries fun _ => rfl
  | overflowed => exact .kept (Leases.displace_entries ..) fun _ => rfl
  | refreshed hTask hLease hOwner hLater =>
    exact .changed hLease rfl rfl rfl rfl (.inr ⟨hLater, _, _, _, rfl, hTask, rfl, hOwner.symm⟩)
  | @entered c deadline reply job v6 hTask =>
    refine .entered rfl hTask rfl (Leases.insert_entries ..) ?_
    dsimp only [Callbacks.enter, Callbacks.setTask]
    cases s.leases.entries.lookup job.port <;> rfl
  | released hTask hDropped =>
    exact turnover_release h (hPlaced.hands _ _ _ _ hTask hDropped).1 rfl rfl rfl
  | loopReleased hLoop => exact turnover_release h (hPlaced.looped _ _ _ hLoop).1 rfl rfl rfl

/-! ## An entry leaves at most once -/

/-- What has left is a call's that has been in `insert`, and is in the table no
more. -/
def Left (entries : Table Nat Lease) (tasks : Nat → Option Task) (trail : List Event) : Prop :=
  ∀ c, departures trail c = 0 ∨ departures trail c = 1 ∧ (∃ port, Entered tasks c port) ∧
    ∀ port lease, entries.lookup port = some lease → lease.stop ≠ c

theorem Left.of_entry {entries : Table Nat Lease} {trail : List Event}
    (h : Left entries tasks trail)
    (hLease : entries.lookup port = some lease) : departures trail lease.stop = 0 := by
  rcases h lease.stop with hNone | ⟨-, -, hGone⟩
  · exact hNone
  · exact absurd rfl (hGone port lease hLease)

theorem Left.leave {entries entries' : Table Nat Lease}
    {trail : List Event} (h : Left entries tasks trail)
    (hEntered : ∀ c port, Entered tasks c port → Entered tasks' c port)
    (hLease : entries.lookup port = some lease) (hCall : Entered tasks lease.stop port)
    (hLeaver : leaver e = some lease.stop)
    (hFrom : ∀ port' lease', entries'.lookup port' = some lease' → lease'.stop ≠ lease.stop ∧
      ((∃ lease'', entries.lookup port' = some lease'' ∧ lease''.stop = lease'.stop) ∨
        departures trail lease'.stop = 0)) :
    Left entries' tasks' (e :: trail) := by
  intro c
  by_cases hEq : c = lease.stop
  · subst hEq
    rw [departures_cons_self hLeaver, h.of_entry hLease]
    exact .inr ⟨rfl, ⟨port, hEntered _ _ hCall⟩, fun port' lease' hAt => (hFrom port' lease' hAt).1⟩
  · rw [departures_cons_ne fun hOther => hEq (Option.mem_unique hOther hLeaver)]
    rcases h c with hNone | ⟨hOne, ⟨port', hAt⟩, hGone⟩
    · exact .inl hNone
    · refine .inr ⟨hOne, ⟨port', hEntered _ _ hAt⟩, ?_⟩
      rintro port'' lease' hLease' rfl
      rcases (hFrom port'' lease' hLease').2 with ⟨lease'', hOld, hSame⟩ | hNone
      · exact hGone port'' lease'' hOld hSame
      · omega

theorem left_step (hCounted : Counted s.leases.entries s.tasks s.fates)
    (h : Left s.leases.entries s.tasks s.trail) (hMove : s.Move a s')
    (hTurnover : Turnover s a s') : Left s'.leases.entries s'.tasks s'.trail := by
  have hEntered : ∀ c port, Entered s.tasks c port → Entered s'.tasks c port :=
    fun _ _ => entered_step hMove
  -- the entries of different ports are different calls'
  have hOthers : ∀ {port lease port' lease'}, s.leases.entries.lookup port = some lease →
      port' ≠ port → s.leases.entries.lookup port' = some lease' → lease'.stop ≠ lease.stop := by
    intro port lease port' lease' hLease hNe hLease' hEq
    have hCall := (hCounted port' lease' hLease').entered
    rw [hEq] at hCall
    exact hNe (hCall.port_unique (hCounted port lease hLease).entered)
  cases hTurnover with
  | kept hEntries hTrail =>
    intro c
    rw [hEntries, hTrail c]
    rcases h c with hNone | ⟨hOne, ⟨port, hAt⟩, hGone⟩
    · exact .inl hNone
    · exact .inr ⟨hOne, ⟨port, hEntered _ _ hAt⟩, hGone⟩
  | changed hLease hEntries hTrail hStop =>
    intro c
    rw [hEntries, hTrail]
    rcases h c with hNone | ⟨hOne, ⟨port, hAt⟩, hGone⟩
    · exact .inl hNone
    · refine .inr ⟨hOne, ⟨port, hEntered _ _ hAt⟩, fun port' lease' hLease' => ?_⟩
      rcases Table.lookup_insert_cases hLease' with ⟨rfl, rfl⟩ | ⟨-, hOld⟩
      · exact hStop ▸ hGone _ _ hLease
      · exact hGone port' lease' hOld
  | @entered c reply job v6 new hTurn hTask hStop hEntries hTrail =>
    -- a call that is about to enter its lease has not left
    have hStays : departures s.trail new.stop = 0 := by
      rcases h new.stop with hNone | ⟨-, ⟨port, hAt⟩, -⟩
      · exact hNone
      · exact absurd hStop (hAt.ne_of_out hTask rfl)
    rw [hEntries, hTrail]
    cases hLease : s.leases.entries.lookup job.port with
    | none =>
      intro c'
      rcases h c' with hNone | ⟨hOne, ⟨port, hAt⟩, hGone⟩
      · exact .inl hNone
      · refine .inr ⟨hOne, ⟨port, hEntered _ _ hAt⟩, fun port' lease' hLease' => ?_⟩
        rcases Table.lookup_insert_cases hLease' with ⟨rfl, rfl⟩ | ⟨-, hOld⟩
        · rintro rfl
          exact absurd (hOne.symm.trans hStays) (by decide)
        · exact hGone port' lease' hOld
    | some =>
      have hCall := (hCounted _ _ hLease).entered
      refine h.leave hEntered hLease hCall rfl fun port' lease' hLease' => ?_
      rcases Table.lookup_insert_cases hLease' with ⟨rfl, rfl⟩ | ⟨hNe, hOld⟩
      · exact ⟨hStop ▸ (hCall.ne_of_out hTask rfl).symm, .inr hStays⟩
      · exact ⟨hOthers hLease hNe hOld, .inl ⟨lease', hOld, rfl⟩⟩
  | removed hLease hEntries hTrail =>
    rw [hEntries, hTrail]
    refine h.leave hEntered hLease (hCounted _ _ hLease).entered rfl fun port' lease' hLease' => ?_
    obtain ⟨hNe, hOld⟩ := Table.lookup_erase_cases hLease'
    exact ⟨hOthers hLease hNe hOld, .inl ⟨lease', hOld, rfl⟩⟩

theorem left_reachable (h : Reachable callbacks s) : Left s.leases.entries s.tasks s.trail := by
  refine h.strengthen (I := fun s => Left s.leases.entries s.tasks s.trail) ?_ ?_
  · exact fun c => Or.inl rfl
  · intro s a s' hReach hInv hStep
    have hCounted := counted_reachable hReach
    have hMove := callbacks_move hStep
    exact left_step hCounted hInv hMove (turnover_step (placed_reachable hReach) hCounted hMove)

/-! ## The fate of an entry -/

theorem trail_step (hMove : s.Move a s') (h : e ∈ s.trail) : e ∈ s'.trail := by
  cases hMove with
  | called | ticked | expired | went | refreshed | listened | overflowed | spawned | closed | idle
  | left | loopClosed => exact h
  | tolerated => exact List.mem_cons_of_mem _ h
  | @entered c deadline reply job =>
    dsimp only [Callbacks.enter, Callbacks.setTask]
    cases s.leases.entries.lookup job.port with
    | none => exact h
    | some => exact List.mem_cons_of_mem _ h
  | @released c f reply task =>
    show e ∈ if (s.leases.release task.port c).1 then _ else _
    split
    · exact List.mem_cons_of_mem _ h
    · exact h
  | @loopReleased c port =>
    show e ∈ if (s.leases.release port c).1 then _ else _
    split
    · exact List.mem_cons_of_mem _ h
    · exact h

/-- A call that is about to enter a lease for one listener could not bind the
other. -/
def Tolerant (tasks : Nat → Option Task) (trail : List Event) : Prop :=
  ∀ c task, tasks c = some task → task.alone = true → .tolerated c task.port ∈ trail

theorem tolerant_step (h : Tolerant s.tasks s.trail) (hMove : s.Move a s') :
    Tolerant s'.tasks s'.trail := by
  intro c' task' hAt hAlone
  have hStays : ∀ {e}, e ∈ s.trail → e ∈ s'.trail := fun hIn => trail_step hMove hIn
  -- a call that has just moved is alone only after `tolerated`
  have hOld : ∀ {c next}, s'.tasks = Function.update s.tasks c (some next) → next.alone = false →
      .tolerated c' task'.port ∈ s'.trail := by
    intro c next hTasks hNot
    rw [hTasks] at hAt
    rcases update_some_cases hAt with ⟨rfl, rfl⟩ | ⟨-, hOld⟩
    · rw [hNot] at hAlone
      cases hAlone
    · exact hStays (h c' task' hOld hAlone)
  cases hMove with
  | called _ hNot => exact hOld rfl hNot
  | ticked | expired | idle | left | loopClosed => exact h c' task' hAt hAlone
  | loopReleased => exact hStays (h c' task' hAt hAlone)
  | went _ hNext | listened _ _ _ _ hNext | spawned _ _ hNext | closed _ _ hNext
  | released _ _ hNext => exact hOld rfl hNext.alone
  | refreshed | entered | overflowed => exact hOld rfl rfl
  | tolerated =>
    rcases update_some_cases hAt with ⟨rfl, rfl⟩ | ⟨-, hBefore⟩
    · exact List.mem_cons_self
    · exact List.mem_cons_of_mem _ (h c' task' hBefore hAlone)

theorem tolerant_reachable (h : Reachable callbacks s) : Tolerant s.tasks s.trail := by
  refine h.invariant (I := fun s => Tolerant s.tasks s.trail)
    (fun _ _ _ hInv _ hStep => tolerant_step hInv (callbacks_move hStep)) ?_
  intro c task hAt
  cases hAt

/-- An entry stays its owner's, and only a call of the owner raises its deadline;
or it is removed, when its listeners have been dropped; or a call replaces it,
when its IPv4 listener has been dropped, and its IPv6 listener has been unless
the call goes on without one. -/
def Fares (s : Callbacks) (a : Action) (s' : Callbacks) (port : Nat) (lease : Lease) : Prop :=
  (∃ lease', s'.leases.entries.lookup port = some lease' ∧ lease'.stop = lease.stop ∧
    lease'.owner = lease.owner ∧
    (lease'.deadline = lease.deadline ∨ lease.deadline ≤ lease'.deadline ∧
      ∃ c reply job, a = .turn c reply ∧ s.tasks c = some (.refreshing job) ∧
        job.port = port ∧ job.owner = lease.owner)) ∨
  (s'.leases.entries.lookup port = none ∧ s'.trail = .removed lease.stop port :: s.trail ∧
    ∀ f, s'.fates (lease.stop, f) ≠ .listening) ∨
  ∃ c reply lease', a = .turn c reply ∧ s'.leases.entries.lookup port = some lease' ∧
    lease'.stop = c ∧ c ≠ lease.stop ∧ s'.trail = .replaced lease.stop port c :: s.trail ∧
    s.fates (lease.stop, .v4) ≠ .listening ∧
    (s.fates (lease.stop, .v6) = .listening → .tolerated c port ∈ s.trail)

theorem fares_of_turnover (h : Reachable callbacks s) (hTurnover : Turnover s a s')
    (hLease : s.leases.entries.lookup port = some lease) :
    s.Fares a s' port lease := by
  have hPlaced := placed_reachable h
  cases hTurnover with
  | kept hEntries => exact .inl ⟨lease, hEntries ▸ hLease, rfl, rfl, .inl rfl⟩
  | @changed port' old new hOld hEntries hTrail hStop hOwner hDeadline =>
    refine .inl ?_
    rw [hEntries]
    by_cases hEq : port = port'
    · subst hEq
      obtain rfl := Option.mem_unique hOld hLease
      exact ⟨new, AList.lookup_insert .., hStop, hOwner, hDeadline⟩
    · exact ⟨lease, (AList.lookup_insert_ne hEq).trans hLease, rfl, rfl, .inl rfl⟩
  | removed hOld hEntries hTrail hDropped =>
    rename_i port' old
    by_cases hEq : port = port'
    · subst hEq
      obtain rfl := Option.mem_unique hOld hLease
      exact .inr (.inl ⟨hEntries ▸ AList.lookup_erase .., hTrail, hDropped⟩)
    · exact .inl ⟨lease, hEntries ▸ (AList.lookup_erase_ne hEq).trans hLease, rfl, rfl, .inl rfl⟩
  | @entered c reply job v6 new hTurn hTask hStop hEntries hTrail =>
    by_cases hEq : port = job.port
    · subst hEq
      rw [hLease] at hTrail
      obtain ⟨task, hCall, hPort, hEntered⟩ := (counted_reachable h _ _ hLease).entered
      have hNe : c ≠ lease.stop :=
        (Entered.ne_of_out ⟨task, hCall, hPort, hEntered⟩ hTask rfl).symm
      -- the address is the new call's
      have hFree : ∀ f, s.fates (c, f) = .listening → s.fates (lease.stop, f) ≠ .listening :=
        fun f hOpen hOld => hNe (hPlaced.unique hTask hCall hPort hOpen hOld)
      refine .inr (.inr ⟨c, reply, new, hTurn, hEntries ▸ AList.lookup_insert .., hStop, hNe,
        hTrail, hFree .v4 (hPlaced.hands c _ .v4 _ hTask rfl).1, fun hOld => ?_⟩)
      cases v6 with
      | true => exact absurd hOld (hFree .v6 (hPlaced.hands c _ .v6 _ hTask rfl).1)
      | false => exact tolerant_reachable h c _ hTask rfl
    · exact .inl
        ⟨lease, hEntries ▸ (AList.lookup_insert_ne hEq).trans hLease, rfl, rfl, .inl rfl⟩

theorem refresh_owned {reply : Reply} {job : Job}
    (hTask : s.tasks c = some (.refreshing job))
    (hLease : s.leases.entries.lookup job.port = some lease)
    (hLive : s.leases.stopped lease.stop = false) (hOwner : lease.owner ≠ job.owner) :
    s.step (.turn c reply) = some (s.setTask c (.returned job.port (.owned lease.owner))) := by
  have hRefresh : s.leases.refresh job.port job.owner job.ttl s.clock =
      some (.owned lease.owner, s.leases) := by
    simp only [Leases.refresh, hLease, hLive, if_pos hOwner, Bool.false_eq_true, if_false]
  simp only [step, hTask, turn, hRefresh]

theorem refresh_live {reply : Reply} {job : Job}
    (hTask : s.tasks c = some (.refreshing job)) (hStep : s.step (.turn c reply) = some s')
    (hServed : s'.tasks c = some (.returned job.port .served)) :
    ∃ lease lease', s.leases.entries.lookup job.port = some lease ∧
      s'.leases.entries.lookup job.port = some lease' ∧ lease'.owner = lease.owner ∧
      s.clock + job.ttl ≤ lease'.deadline ∧ lease.deadline ≤ lease'.deadline := by
  simp only [step, hTask, turn] at hStep
  have hAt : ∀ {t : Callbacks} {next : Task}, some (t.setTask c next) = some s' →
      next = .returned job.port .served := by
    intro t next hEq
    cases hEq
    have hNext : (t.setTask c next).tasks c = some next := Function.update_self ..
    exact Option.mem_unique hNext hServed
  cases hRefresh : s.leases.refresh job.port job.owner job.ttl s.clock with
  | none =>
    rw [hRefresh] at hStep
    cases hAt hStep
  | some answer =>
    obtain ⟨refresh, leases⟩ := answer
    rw [hRefresh] at hStep
    cases refresh with
    | releasing | absent | owned => cases hAt hStep
    | live =>
      obtain ⟨lease, hLease, -, -, rfl⟩ := Leases.refresh_eq_live hRefresh
      cases hStep
      exact ⟨lease, _, hLease, AList.lookup_insert .., rfl, Nat.le_max_right .., Nat.le_max_left ..⟩

/-- **The accounting of leases.** An entry counts the listeners that are not given back, and there
is one; an entry leaves the table at most once; a step makes of an entry what `Fares` says; a call
for another peer than the owner is refused and leaves the leases alone; and a refreshed lease lasts
as long as the call asks for, and no less than before. -/
theorem lease_accounting (h : Reachable callbacks s) :
    (∀ port lease, s.leases.entries.lookup port = some lease →
      lease.listeners = unreleased s.fates lease.stop ∧ 0 < lease.listeners) ∧
    (∀ c, departures s.trail c ≤ 1) ∧
    (∀ a s' port lease, callbacks.step s a = some s' →
      s.leases.entries.lookup port = some lease → s.Fares a s' port lease) ∧
    (∀ c reply job lease, s.tasks c = some (.refreshing job) →
      s.leases.entries.lookup job.port = some lease → s.leases.stopped lease.stop = false →
      lease.owner ≠ job.owner →
      callbacks.step s (.turn c reply) =
        some (s.setTask c (.returned job.port (.owned lease.owner)))) ∧
    (∀ c reply job s', s.tasks c = some (.refreshing job) →
      callbacks.step s (.turn c reply) = some s' →
      s'.tasks c = some (.returned job.port .served) →
      ∃ lease lease', s.leases.entries.lookup job.port = some lease ∧
        s'.leases.entries.lookup job.port = some lease' ∧ lease'.owner = lease.owner ∧
        s.clock + job.ttl ≤ lease'.deadline ∧ lease.deadline ≤ lease'.deadline) := by
  have hCounted := counted_reachable h
  refine ⟨fun port lease hLease => ?_, fun c => ?_, ?_, ?_, ?_⟩
  · exact ⟨(hCounted port lease hLease).count, (hCounted port lease hLease).pos⟩
  · rcases left_reachable h c with hNone | ⟨hOne, -⟩
    · omega
    · omega
  · intro a s' port lease hStep hLease
    exact fares_of_turnover h (turnover_step (placed_reachable h) hCounted (callbacks_move hStep))
      hLease
  · intro c reply job lease hTask hLease hLive hOwner
    exact refresh_owned hTask hLease hLive hOwner
  · intro c reply job s' hTask hStep hServed
    exact refresh_live hTask hStep hServed

theorem lease_accounting_second_devbox :
    let first : SocketAddr := ⟨.v4 0x0a000001#32, 12801⟩
    let second : SocketAddr := ⟨.v4 0x0a000002#32, 12801⟩
    ∃ s, Reachable callbacks s ∧
      s.leases.entries.lookup 8400 = some ⟨first, 30, 2, 1⟩ ∧ unreleased s.fates 1 = 2 ∧
      callbacks.step s (.turn 2 .ok) = some (s.setTask 2 (.returned 8400 (.owned first))) ∧
      s.tasks 2 = some (.refreshing ⟨second, 8400, 30⟩) := by
  intro first second
  let actions : List Action :=
    [.call 1 (some first) 8400 30, .turn 1 .ok, .turn 1 .ok, .turn 1 .ok, .turn 1 .ok, .turn 1 .ok,
      .turn 1 .ok, .turn 1 .ok, .call 2 (some second) 8400 30]
  have hReplay : ((callbacks.run callbacks.init actions).map fun s =>
      decide (s.leases.entries.lookup 8400 = some ⟨first, 30, 2, 1⟩ ∧
        s.leases.stopped 1 = false ∧ s.tasks 2 = some (.refreshing ⟨second, 8400, 30⟩))) =
      some true := by
    decide +kernel
  obtain ⟨s, hReach, hSeen⟩ := Reachable.of_replay hReplay
  obtain ⟨hLease, hLive, hTask⟩ := of_decide_eq_true hSeen
  obtain ⟨hCount, -, -, hOwned, -⟩ := lease_accounting hReach
  exact ⟨s, hReach, hLease, (hCount 8400 _ hLease).1.symm,
    hOwned 2 .ok _ _ hTask hLease hLive (by decide), hTask⟩

/-- A call has found the port free before another call leased it. That lease has expired and its
IPv4 listener is closed when the first call binds; its own IPv6 bind fails, and it replaces the
entry of a lease whose IPv6 listener is still open. -/
theorem replaced_while_listening :
    ∃ s s', Reachable callbacks s ∧ callbacks.step s (.turn 2 .ok) = some s' ∧
      (∃ lease, s.leases.entries.lookup 8400 = some lease ∧ lease.stop = 1) ∧
      (∃ lease, s'.leases.entries.lookup 8400 = some lease ∧ lease.stop = 2) ∧
      s'.fates (1, .v6) = .listening ∧ s'.sockets.lookup (.v6, 8400) = some 1 := by
  let devbox : SocketAddr := ⟨.v4 0x0a000001#32, 12801⟩
  let actions : List Action :=
    [.call 2 (some devbox) 8400 30, .turn 2 .ok,
      .call 1 (some devbox) 8400 30, .turn 1 .ok, .turn 1 .ok, .turn 1 .ok, .turn 1 .ok,
      .turn 1 .ok, .turn 1 .ok, .turn 1 .ok,
      .tick 30, .expire 30, .accept 1 .v4 false, .accept 1 .v4 false,
      .turn 2 .ok, .turn 2 .ok, .turn 2 .failed]
  have hReplay : ((callbacks.run callbacks.init actions).bind fun s =>
      (callbacks.step s (.turn 2 .ok)).map fun s' =>
        decide (s.leases.entries.lookup 8400 = some ⟨devbox, 30, 2, 1⟩ ∧
          s'.leases.entries.lookup 8400 = some ⟨devbox, 60, 1, 2⟩ ∧
          s'.fates (1, .v6) = .listening ∧ s'.sockets.lookup (.v6, 8400) = some 1)) =
      some true := by
    decide +kernel
  obtain ⟨s, hRun, hRest⟩ := Option.bind_eq_some_iff.mp hReplay
  obtain ⟨s', hStep, hSeen⟩ := Option.map_eq_some_iff.mp hRest
  obtain ⟨hBefore, hAfter, hOpen, hSocket⟩ := of_decide_eq_true hSeen
  exact ⟨s, s', Path.of_run hRun, hStep, ⟨_, hBefore, rfl⟩, ⟨_, hAfter, rfl⟩, hOpen, hSocket⟩

end Callbacks

end Forward.Callback

import Forward.Bridge.Armed
import Forward.Lib.History

/-!
# Where the bridge's connections go

A port has one route: its holder, or a lease. `hold` inserts its holder and deletes the lease in
one critical section, and `arm` records a lease in another, after it has seen no holder.
-/

namespace Forward.Bridge

open Lib Net

/-- The port that a call with the mutex has found without a holder. -/
def Task.vacant : Task → Option Nat
  | .recording port _ | .greeting port _ => some port
  | _ => none

/-- The port of a call that has passed `can_arm`. -/
def Task.vetted : Task → Option Nat
  | .seeking port _ | .peeking port _ _ | .releasing port _ _ | .entering port _
  | .recording port _ | .greeting port _ | .clearing port => some port
  | _ => none

def Task.letIn : Task → Option Nat
  | .dialing port _ | .reaching port => some port
  | _ => none

def Event.connects : Event → Option (Nat × Nat)
  | .dialed t port _ _ | .reached t port _ => some (t, port)
  | _ => none

theorem Task.drops_next {task next : Task} {port : Nat} {holder : Holder}
    (h : task.drops = some (port, holder, next)) :
    next.locks = false ∧ next.vacant = none ∧ next.letIn = none ∧
      ∀ p, next.vetted = some p → task.vetted = some p := by
  cases task with
  | releasing port' retry =>
    obtain ⟨rfl, rfl, rfl⟩ := Option.some.inj h
    cases retry with
    | arm | hold => exact ⟨rfl, rfl, rfl, fun p => id⟩
  | freeing =>
    obtain ⟨rfl, rfl, rfl⟩ := Option.some.inj h
    exact ⟨rfl, rfl, rfl, nofun⟩
  | _ => cases h

theorem Task.drops_ne_clearing {task next : Task} {port : Nat} {holder : Holder}
    (h : task.drops = some (port, holder, next)) (p : Nat) : task ≠ .clearing p := by
  rintro rfl
  cases h

namespace Armed

variable {cfg : Config} {b b' : Armed} {a : Action}

/-! ## The mutex -/

theorem exclusive_step (h : Exclusive Task.locks b.lock b.tasks) (hMove : b.Move cfg a b') :
    Exclusive Task.locks b'.lock b'.tasks := by
  have hUnlocked : ∀ {t : Nat} {task : Task}, task.locks = false →
      Exclusive Task.locks b.lock (Function.update b.tasks t (some task)) :=
    fun hTask => h.move fun hLocks => by rw [hTask] at hLocks; cases hLocks
  have hLocked : ∀ {t : Nat} {task : Task}, b.tasks t = some task → task.locks →
      Exclusive Task.locks (some t) b.tasks := by
    intro t task hTask hLocks
    rw [← h t task hTask hLocks]
    exact h
  cases hMove with
  | @call t call => cases call <;> exact hUnlocked rfl
  | tick => exact h
  | holdUnheld hTask hFree | armEntered hTask hFree =>
    rw [hFree] at h
    exact h.acquire
  | recorded hTask | vanished hTask | cleared hTask => exact (hLocked hTask rfl).release rfl
  | installed hTask => exact h.move fun _ => h _ _ hTask rfl
  | kept hTask hDrops | removed hTask hDrops => exact hUnlocked (Task.drops_next hDrops).1
  | _ => exact hUnlocked rfl

theorem exclusive_reachable (h : Reachable (bridge cfg) b) :
    Exclusive Task.locks b.lock b.tasks :=
  h.invariant (I := fun b => Exclusive Task.locks b.lock b.tasks)
    (fun _ _ _ hInv _ hStep => exclusive_step hInv (bridge_move hStep)) .init

def Vacant (holders : Table Nat Holder) (tasks : Nat → Option Task) : Prop :=
  ∀ t task port, tasks t = some task → task.vacant = some port → holders.lookup port = none

variable {holders holders' : Table Nat Holder} {tasks : Nat → Option Task} {t : Nat} {task : Task}

theorem Vacant.move (h : Vacant holders tasks)
    (hTask : ∀ port, task.vacant = some port → holders'.lookup port = none)
    (hHolders : ∀ port, holders.lookup port = none → holders'.lookup port = none) :
    Vacant holders' (Function.update tasks t (some task)) := by
  intro t' task' port hAt hVacant
  rcases update_some_cases hAt with ⟨rfl, rfl⟩ | ⟨-, hOld⟩
  · exact hTask port hVacant
  · exact hHolders port (h t' task' port hOld hVacant)

theorem vacant_step (h : Vacant b.holders b.tasks) (hLock : Exclusive Task.locks b.lock b.tasks)
    (hMove : b.Move cfg a b') : Vacant b'.holders b'.tasks := by
  have hPlain : ∀ {t : Nat} {task : Task}, task.vacant = none →
      Vacant b.holders (Function.update b.tasks t (some task)) :=
    fun hTask => h.move (fun port hPort => by rw [hTask] at hPort; cases hPort) fun _ => id
  have hFound : ∀ {t port : Nat} {task : Task}, task.vacant = some port →
      b.holders.lookup port = none → Vacant b.holders (Function.update b.tasks t (some task)) := by
    intro t port task hTask hNone
    refine h.move (fun port' hPort => ?_) fun _ => id
    rw [hTask] at hPort
    exact Option.some.inj hPort ▸ hNone
  cases hMove with
  | @call t call => cases call <;> exact hPlain rfl
  | tick => exact h
  | holdUnheld hTask hFree hNone | armEntered hTask hFree hNone => exact hFound rfl hNone
  | kept hTask hDrops => exact hPlain (Task.drops_next hDrops).2.1
  | removed hTask hDrops =>
    refine h.move (fun port hPort => ?_) fun port hNone => ?_
    · rw [(Task.drops_next hDrops).2.1] at hPort
      cases hPort
    · exact Table.lookup_erase_of_none hNone _
  | @installed t port holder reply hTask =>
    -- nobody else has the mutex
    intro t' task' port' hAt hVacant
    rcases update_some_cases hAt with ⟨rfl, rfl⟩ | ⟨hNe, hOld⟩
    · cases hVacant
    · have hLocks : task'.locks := by
        cases task' with
        | recording | greeting => rfl
        | _ => cases hVacant
      exact absurd (hLock.unique hOld hLocks hTask rfl) hNe
  | _ => exact hPlain rfl

theorem vacant_reachable (h : Reachable (bridge cfg) b) : Vacant b.holders b.tasks := by
  refine h.strengthen (I := fun b => Vacant b.holders b.tasks) ?_ ?_
  · intro t task port hAt
    cases hAt
  · intro b a b' hReach hInv hStep
    exact vacant_step hInv (exclusive_reachable hReach) (bridge_move hStep)

/-! ## One route per port -/

def Apart (holders : Table Nat Holder) (ports : Table Nat Nat) (tasks : Nat → Option Task) : Prop :=
  ∀ port holder deadline, holders.lookup port = some holder → ports.lookup port = some deadline →
    ∃ t, tasks t = some (.clearing port)

theorem Apart.move {ports ports' : Table Nat Nat}
    (h : Apart holders ports tasks)
    (hTask : ∀ port, tasks t ≠ some (.clearing port))
    (hHolders : ∀ port holder, holders'.lookup port = some holder →
      holders.lookup port = some holder)
    (hPorts : ∀ port deadline, ports'.lookup port = some deadline →
      ports.lookup port = some deadline) :
    Apart holders' ports' (Function.update tasks t (some task)) := by
  intro port holder deadline hHeld hLeased
  obtain ⟨t', hClearing⟩ := h port holder deadline (hHolders port holder hHeld)
    (hPorts port deadline hLeased)
  refine ⟨t', update_some_of_ne ?_ hClearing⟩
  rintro rfl
  exact hTask port hClearing

theorem apart_step (h : Apart b.holders b.ports b.tasks)
    (hLock : Exclusive Task.locks b.lock b.tasks) (hVacant : Vacant b.holders b.tasks)
    (hMove : b.Move cfg a b') : Apart b'.holders b'.ports b'.tasks := by
  have hPlain : ∀ {t : Nat} {old task : Task}, b.tasks t = some old →
      (∀ port, old ≠ .clearing port) →
      Apart b.holders b.ports (Function.update b.tasks t (some task)) := by
    intro t old task hOld hNot
    refine h.move (fun port hEq => ?_) (fun _ _ => id) fun _ _ => id
    rw [hOld] at hEq
    exact hNot port (Option.some.inj hEq)
  have hPurged : ∀ {t : Nat} {old task : Task}, b.tasks t = some old →
      (∀ port, old ≠ .clearing port) →
      Apart b.holders b.purge.ports (Function.update b.tasks t (some task)) := by
    intro t old task hOld hNot
    refine h.move (fun port hEq => ?_) (fun _ _ => id) fun port deadline hLease => ?_
    · rw [hOld] at hEq
      exact hNot port (Option.some.inj hEq)
    · exact (purge_lookup.mp hLease).1
  cases hMove with
  | call hNew =>
    exact h.move (fun port hEq => by rw [hNew] at hEq; cases hEq) (fun _ _ => id) fun _ _ => id
  | tick => exact h
  | kept hTask hDrops => exact hPlain hTask (Task.drops_ne_clearing hDrops)
  | removed hTask hDrops =>
    refine h.move (fun p hEq => ?_) (fun p holder hFound => ?_) fun _ _ => id
    · rw [hTask] at hEq
      exact Task.drops_ne_clearing hDrops p (Option.some.inj hEq)
    · exact (Table.lookup_erase_cases hFound).2
  | @recorded t port deadline reply hTask =>
    intro p holder d hHeld hLeased
    rcases Table.lookup_insert_cases hLeased with ⟨rfl, -⟩ | ⟨-, hOld⟩
    · have hNone : b.holders.lookup p = none := hVacant t _ p hTask rfl
      cases hNone.symm.trans hHeld
    · obtain ⟨t', hClearing⟩ := h p holder d hHeld hOld
      refine ⟨t', update_some_of_ne ?_ hClearing⟩
      rintro rfl
      rw [hTask] at hClearing
      cases hClearing
  | @installed t port holder reply hTask =>
    intro p h' d hHeld hLeased
    rcases Table.lookup_insert_cases hHeld with ⟨rfl, -⟩ | ⟨-, hOld⟩
    · exact ⟨t, Function.update_self ..⟩
    · obtain ⟨t', hClearing⟩ := h p h' d hOld hLeased
      refine ⟨t', update_some_of_ne ?_ hClearing⟩
      rintro rfl
      rw [hTask] at hClearing
      cases hClearing
  | @cleared t port reply hTask =>
    intro p holder d hHeld hLeased
    obtain ⟨hNe, hOld⟩ := Table.lookup_erase_cases hLeased
    obtain ⟨t', hClearing⟩ := h p holder d hHeld hOld
    obtain rfl := hLock.unique hClearing rfl hTask rfl
    rw [hTask] at hClearing
    cases hClearing
    exact absurd rfl hNe
  | checked hTask | unarmed hTask => exact hPurged hTask nofun
  | armRefused hTask | armStarted hTask | holdRefused hTask | holdStarted hTask | found hTask
  | armUnheld hTask | holdUnheld hTask | alive hTask | dead hTask | armHeld hTask
  | armEntered hTask | vanished hTask | routed hTask | unrouted hTask | dialed hTask | gone hTask
  | reached hTask => exact hPlain hTask nofun

theorem apart_reachable (h : Reachable (bridge cfg) b) : Apart b.holders b.ports b.tasks := by
  refine h.strengthen (I := fun b => Apart b.holders b.ports b.tasks) ?_ ?_
  · intro port holder deadline hHeld
    cases hHeld
  · intro b a b' hReach hInv hStep
    exact apart_step hInv (exclusive_reachable hReach) (vacant_reachable hReach) (bridge_move hStep)

variable {port : Nat}

theorem unleased_of_held (h : Reachable (bridge cfg) b) (hFree : b.lock = none)
    {holder : Holder} (hHeld : b.holders.lookup port = some holder) :
    b.ports.lookup port = none := by
  cases hLeased : b.ports.lookup port with
  | none => rfl
  | some deadline =>
    obtain ⟨t, hClearing⟩ := apart_reachable h port holder deadline hHeld hLeased
    have hLock := exclusive_reachable h t _ hClearing rfl
    rw [hFree] at hLock
    cases hLock

/-- Every port in use, and every call for one, has passed `can_arm`. -/
structure Safe (cfg : Config) (holders : Table Nat Holder) (ports : Table Nat Nat)
    (tasks : Nat → Option Task) : Prop where
  held : ∀ port holder, holders.lookup port = some holder → canArm cfg port = true
  leased : ∀ port deadline, ports.lookup port = some deadline → canArm cfg port = true
  vetted : ∀ t task port, tasks t = some task → task.vetted = some port → canArm cfg port = true

theorem Safe.move {ports ports' : Table Nat Nat}
    (h : Safe cfg holders ports tasks)
    (hTask : ∀ port, task.vetted = some port → canArm cfg port)
    (hHolders : ∀ port holder, holders'.lookup port = some holder → canArm cfg port)
    (hPorts : ∀ port deadline, ports'.lookup port = some deadline → canArm cfg port) :
    Safe cfg holders' ports' (Function.update tasks t (some task)) := by
  refine ⟨hHolders, hPorts, ?_⟩
  intro t' task' port hAt hPort
  rcases update_some_cases hAt with ⟨rfl, rfl⟩ | ⟨-, hOld⟩
  · exact hTask port hPort
  · exact h.vetted t' task' port hOld hPort

theorem safe_step (h : Safe cfg b.holders b.ports b.tasks) (hMove : b.Move cfg a b') :
    Safe cfg b'.holders b'.ports b'.tasks := by
  have hStart : ∀ {t : Nat} {task : Task}, task.vetted = none →
      Safe cfg b.holders b.ports (Function.update b.tasks t (some task)) :=
    fun hTask => h.move (fun port hPort => by rw [hTask] at hPort; cases hPort) h.held h.leased
  have hPasses : ∀ {t port : Nat} {task : Task}, task.vetted = some port →
      canArm cfg port →
      Safe cfg b.holders b.ports (Function.update b.tasks t (some task)) := by
    intro t port task hTask hSafe
    refine h.move (fun port' hPort => ?_) h.held h.leased
    rw [hTask] at hPort
    exact Option.some.inj hPort ▸ hSafe
  have hPurged : ∀ port deadline, b.purge.ports.lookup port = some deadline →
      canArm cfg port :=
    fun port deadline hLease => h.leased port deadline (purge_lookup.mp hLease).1
  cases hMove with
  | @call t call => cases call <;> exact hStart rfl
  | tick => exact h
  | armStarted hTask hSafe | holdStarted hTask hSafe => exact hPasses rfl hSafe
  | found hTask | armUnheld hTask | holdUnheld hTask | dead hTask | armHeld hTask
  | armEntered hTask => exact hPasses rfl (h.vetted _ _ _ hTask rfl)
  | kept hTask hDrops =>
    refine h.move (fun port hPort => ?_) h.held h.leased
    exact h.vetted _ _ port hTask ((Task.drops_next hDrops).2.2.2 port hPort)
  | removed hTask hDrops =>
    refine h.move (fun port hPort => ?_) (fun port holder hFound => ?_) h.leased
    · exact h.vetted _ _ port hTask ((Task.drops_next hDrops).2.2.2 port hPort)
    · exact h.held port holder (Table.lookup_erase_cases hFound).2
  | recorded hTask =>
    refine h.move nofun h.held fun port deadline hLease => ?_
    rcases Table.lookup_insert_cases hLease with ⟨rfl, -⟩ | ⟨-, hOld⟩
    · exact h.vetted _ _ port hTask rfl
    · exact h.leased port deadline hOld
  | installed hTask =>
    have hSafe := h.vetted _ _ _ hTask rfl
    refine h.move (fun port hPort => ?_) (fun port holder hFound => ?_) h.leased
    · exact Option.some.inj hPort ▸ hSafe
    · rcases Table.lookup_insert_cases hFound with ⟨rfl, -⟩ | ⟨-, hOld⟩
      · exact hSafe
      · exact h.held port holder hOld
  | cleared =>
    refine h.move nofun h.held fun port deadline hLease => ?_
    exact h.leased port deadline (Table.lookup_erase_cases hLease).2
  | checked | unarmed => exact h.move nofun h.held hPurged
  | armRefused | holdRefused | alive | vanished | routed | unrouted | dialed | gone | reached =>
    exact hStart rfl

theorem safe_reachable (h : Reachable (bridge cfg) b) : Safe cfg b.holders b.ports b.tasks := by
  refine h.invariant (I := fun b => Safe cfg b.holders b.ports b.tasks)
    (fun _ _ _ hInv _ hStep => safe_step hInv (bridge_move hStep)) ⟨?_, ?_, ?_⟩
  · intro port holder hHeld
    cases hHeld
  · intro port deadline hLease
    cases hLease
  · intro t task port hAt
    cases hAt

/-! ## Leases -/

def Ends (port : Nat) (e : Event) : Prop := ∃ t holder, e = .removed t port holder

/-- A lease that outlasts `now` was recorded, and no hold of the port has ended
since. -/
def LeasedAt (port now : Nat) (trail : List Event) : Prop :=
  Since (Ends port) (fun e _ => ∃ t deadline, e = .recorded t port deadline ∧ now < deadline) trail

def Admitted (t port : Nat) (trail : List Event) : Prop :=
  Once (fun e early => ∃ now, e = .checked t port now ∧ LeasedAt port now early) trail

def Routed (e : Event) (older : List Event) : Prop :=
  ∀ t port ok, e = .reached t port ok → Admitted t port older

structure Leased (ports : Table Nat Nat) (tasks : Nat → Option Task) (trail : List Event) :
    Prop where
  lease : ∀ port deadline, ports.lookup port = some deadline →
    Since (Ends port) (fun e _ => ∃ t, e = .recorded t port deadline) trail
  admitted : ∀ t port, tasks t = some (.reaching port) → Admitted t port trail
  routed : Historically Routed trail

namespace Leased

variable {ports ports' : Table Nat Nat} {tasks : Nat → Option Task} {trail : List Event}

theorem move {t : Nat} {task : Task} (h : Leased ports tasks trail)
    (hTask : ∀ port, task = .reaching port → Admitted t port trail)
    (hPorts : ∀ port deadline, ports'.lookup port = some deadline →
      ports.lookup port = some deadline) :
    Leased ports' (Function.update tasks t (some task)) trail := by
  refine ⟨fun port deadline hLease => h.lease port deadline (hPorts port deadline hLease), ?_,
    h.routed⟩
  intro t' port hAt
  rcases update_some_cases hAt with ⟨rfl, hEq⟩ | ⟨-, hOld⟩
  · exact hTask port hEq.symm
  · exact h.admitted t' port hOld

theorem note {e : Event} (h : Leased ports tasks trail)
    (hEnds : ∀ port deadline, ports.lookup port = some deadline → ¬ Ends port e)
    (hRouted : Routed e trail) : Leased ports tasks (e :: trail) := by
  refine ⟨fun port deadline hLease => ?_, fun t port hAt => ?_, h.routed.cons hRouted⟩
  · exact (h.lease port deadline hLease).cons (hEnds port deadline hLease)
  · exact (h.admitted t port hAt).append [e]

theorem record {t port deadline : Nat} (h : Leased ports tasks trail) :
    Leased (ports.insert port (max ((ports.lookup port).getD deadline) deadline)) tasks
      (.recorded t port deadline :: trail) := by
  have hEnds : ∀ p, ¬ Ends p (.recorded t port deadline) := by
    rintro p ⟨t', holder, hEq⟩
    cases hEq
  have hNoted := h.note (e := .recorded t port deadline) (fun p _ _ => hEnds p)
    fun t' p ok hEq => by cases hEq
  refine ⟨fun p d hLease => ?_, hNoted.admitted, hNoted.routed⟩
  rcases Table.lookup_insert_cases hLease with ⟨rfl, hMax⟩ | ⟨-, hOld⟩
  · cases hBefore : ports.lookup p with
    | none =>
      rw [hBefore, Option.getD_none, Nat.max_self] at hMax
      exact Since.now ⟨t, hMax ▸ rfl⟩
    | some before =>
      -- the later of the two deadlines is this call's or was there
      rw [hBefore, Option.getD_some] at hMax
      rcases Nat.le_total before deadline with hLe | hGe
      · rw [Nat.max_eq_right hLe] at hMax
        exact Since.now ⟨t, hMax ▸ rfl⟩
      · rw [Nat.max_eq_left hGe] at hMax
        exact (h.lease p d (hMax ▸ hBefore)).cons (hEnds p)
  · exact hNoted.lease p d hOld

end Leased

theorem leased_step (h : Leased b.ports b.tasks b.trail) (hReach : Reachable (bridge cfg) b)
    (hMove : b.Move cfg a b') : Leased b'.ports b'.tasks b'.trail := by
  have hPlain : ∀ {t : Nat} {task : Task}, (∀ port, task ≠ .reaching port) →
      Leased b.ports (Function.update b.tasks t (some task)) b.trail :=
    fun hTask => h.move (fun port hEq => absurd hEq (hTask port)) fun _ _ => id
  have hDropped : ∀ {t port : Nat} {holder : Holder} {task next : Task},
      task.drops = some (port, holder, next) →
      Leased b.ports (Function.update b.tasks t (some next)) b.trail := by
    intro t port holder task next hDrops
    refine hPlain fun p hEq => ?_
    cases (congrArg Task.letIn hEq).symm.trans (Task.drops_next hDrops).2.2.1
  have hNoted : ∀ {t : Nat} {task : Task} {e : Event}, (∀ port, task ≠ .reaching port) →
      (∀ port, ¬ Ends port e) → Routed e b.trail →
      Leased b.ports (Function.update b.tasks t (some task)) (e :: b.trail) :=
    fun hTask hEnds hRouted => (hPlain hTask).note (fun port _ _ => hEnds port) hRouted
  have hPurged : ∀ port deadline, b.purge.ports.lookup port = some deadline →
      b.ports.lookup port = some deadline :=
    fun port deadline hLease => (purge_lookup.mp hLease).1
  cases hMove with
  | @call t call => cases call <;> exact hPlain nofun
  | tick => exact h
  | alive | dead | dialed | gone | installed =>
    refine hNoted nofun (fun port hEnds => ?_) fun t port ok hEq => ?_
    · obtain ⟨t, holder, hEq⟩ := hEnds
      cases hEq
    · cases hEq
  | kept hTask hDrops => exact hDropped hDrops
  | removed hTask hDrops hFree hCurrent =>
    refine (hDropped hDrops).note (fun p deadline hLease => ?_) fun t' p ok hEq => by cases hEq
    rintro ⟨t', holder', hEq⟩
    cases hEq
    -- a port that is held has no lease
    rw [unleased_of_held hReach hFree hCurrent] at hLease
    cases hLease
  | recorded => exact (hPlain fun port hEq => by cases hEq).record
  | cleared =>
    refine h.move nofun fun port deadline hLease => ?_
    exact (Table.lookup_erase_cases hLease).2
  | @checked t port deadline reply hTask hLease hLive =>
    have hSeen : Admitted t port (.checked t port b.clock :: b.trail) := by
      refine Since.now ⟨b.clock, rfl, (h.lease port deadline hLease).mono ?_⟩
      rintro e early ⟨t', rfl⟩
      exact ⟨t', deadline, rfl, hLive⟩
    have hNote : Leased b.ports b.tasks (.checked t port b.clock :: b.trail) := by
      refine h.note (fun p d _ hEnds => ?_) fun t' p ok hEq => by cases hEq
      obtain ⟨t', holder, hEq⟩ := hEnds
      cases hEq
    refine hNote.move (fun p hEq => ?_) hPurged
    cases hEq
    exact hSeen
  | unarmed => exact h.move nofun hPurged
  | @reached t port answer reply hTask =>
    refine hNoted nofun (fun p hEnds => ?_) fun t' p ok hEq => ?_
    · obtain ⟨t', holder, hEq⟩ := hEnds
      cases hEq
    · cases hEq
      exact h.admitted t port hTask
  | _ => exact hPlain nofun

theorem leased_reachable (h : Reachable (bridge cfg) b) : Leased b.ports b.tasks b.trail := by
  refine h.strengthen (I := fun b => Leased b.ports b.tasks b.trail) ⟨?_, ?_, .nil⟩ ?_
  · intro port deadline hLease
    cases hLease
  · intro t port hAt
    cases hAt
  · intro b a b' hReach hInv hStep
    exact leased_step hInv hReach (bridge_move hStep)

/-! ## After a release -/

theorem held_step (hReach : Reachable (bridge cfg) b) (hMove : b.Move cfg a b')
    {holder : Holder} (hHeld : b.holders.lookup port = some holder) :
    b'.holders.lookup port = some holder ∨
      (b'.holders.lookup port = none ∧ b.lock = none ∧ b'.ports = b.ports ∧
        ∃ t reply task arg next, a = .turn t reply ∧ b.tasks t = some task ∧
          task.drops = some (port, arg, next) ∧ holder.addr = arg.addr) := by
  cases hMove with
  | @removed t p arg current task next reply hTask hDrops hFree hCurrent hSame =>
    by_cases hPort : port = p
    · subst hPort
      obtain rfl := Option.mem_unique hCurrent hHeld
      exact .inr ⟨AList.lookup_erase .., hFree, rfl, t, reply, task, arg, next, rfl, hTask,
        hDrops, hSame⟩
    · exact .inl ((AList.lookup_erase_ne hPort).trans hHeld)
  | @installed t p arg reply hTask =>
    have hNone : b.holders.lookup p = none := vacant_reachable hReach t _ p hTask rfl
    have hNe : port ≠ p := by
      rintro rfl
      cases hNone.symm.trans hHeld
    exact .inl ((AList.lookup_insert_ne hNe).trans hHeld)
  | _ => exact .inl hHeld

def Succeeds (port : Nat) (b : Armed) : Action → Prop
  | .turn t reply =>
    (∃ deadline, b.tasks t = some (.recording port deadline)) ∨
      (∃ holder, b.tasks t = some (.greeting port holder)) ∧ reply.ok = true
  | _ => False

def LetIn (tasks : Nat → Option Task) (port t : Nat) : Prop :=
  ∃ task, tasks t = some task ∧ task.letIn = some port

/-- Since `b₀`, the port has had no route, and no call was let through to it. -/
structure Closed (port : Nat) (b₀ b : Armed) : Prop where
  unheld : b.holders.lookup port = none
  unleased : b.ports.lookup port = none
  out : ∀ t, LetIn b.tasks port t → LetIn b₀.tasks port t
  silent : ∃ new, b.trail = new ++ b₀.trail ∧
    ∀ e ∈ new, ∀ t, e.connects = some (t, port) → LetIn b₀.tasks port t

theorem closed_step {b₀ : Armed} (h : Closed port b₀ b)
    (hNone : ¬ Succeeds port b a) (hMove : b.Move cfg a b') : Closed port b₀ b' := by
  have hOut : ∀ {t : Nat} {task : Task}, task.letIn ≠ some port →
      ∀ t', LetIn (Function.update b.tasks t (some task)) port t' → LetIn b₀.tasks port t' := by
    rintro t task hTask t' ⟨task', hAt, hIn⟩
    rcases update_some_cases hAt with ⟨-, rfl⟩ | ⟨-, hOld⟩
    · exact absurd hIn hTask
    · exact h.out t' ⟨task', hOld, hIn⟩
  have hStays : ∀ {t : Nat} {task : Task}, task.letIn = none →
      ∀ t', LetIn (Function.update b.tasks t (some task)) port t' → LetIn b₀.tasks port t' :=
    fun hTask => hOut fun hEq => by rw [hTask] at hEq; cases hEq
  have hSilent : ∀ {e : Event}, (∀ t, e.connects = some (t, port) → LetIn b₀.tasks port t) →
      ∃ new, e :: b.trail = new ++ b₀.trail ∧
        ∀ e ∈ new, ∀ t, e.connects = some (t, port) → LetIn b₀.tasks port t := by
    intro e he
    obtain ⟨new, hTrail, hNew⟩ := h.silent
    refine ⟨e :: new, congrArg (e :: ·) hTrail, ?_⟩
    intro x hx
    rcases List.mem_cons.mp hx with rfl | hx
    · exact he
    · exact hNew x hx
  have hQuiet : ∀ {e : Event}, e.connects = none → ∃ new, e :: b.trail = new ++ b₀.trail ∧
      ∀ e ∈ new, ∀ t, e.connects = some (t, port) → LetIn b₀.tasks port t :=
    fun he => hSilent fun t hEq => by rw [he] at hEq; cases hEq
  have hPurged : b.purge.ports.lookup port = none := by
    cases hLease : b.purge.ports.lookup port with
    | none => rfl
    | some => cases h.unleased.symm.trans (purge_lookup.mp hLease).1
  cases hMove with
  | @call t call =>
    refine ⟨h.unheld, h.unleased, ?_, h.silent⟩
    cases call <;> exact hStays rfl
  | tick => exact ⟨h.unheld, h.unleased, h.out, h.silent⟩
  | alive | dead =>
    exact ⟨h.unheld, h.unleased, hStays rfl, hQuiet rfl⟩
  | kept hTask hDrops => exact ⟨h.unheld, h.unleased, hStays (Task.drops_next hDrops).2.2.1, h.silent⟩
  | removed hTask hDrops =>
    exact ⟨Table.lookup_erase_of_none h.unheld _, h.unleased, hStays (Task.drops_next hDrops).2.2.1,
      hQuiet rfl⟩
  | @recorded t p deadline reply hTask =>
    have hNe : port ≠ p := by
      rintro rfl
      exact hNone (.inl ⟨deadline, hTask⟩)
    exact ⟨h.unheld, (AList.lookup_insert_ne hNe).trans h.unleased, hStays rfl,
      hQuiet rfl⟩
  | @installed t p holder reply hTask hOk =>
    have hNe : port ≠ p := by
      rintro rfl
      exact hNone (.inr ⟨⟨holder, hTask⟩, hOk⟩)
    exact ⟨(AList.lookup_insert_ne hNe).trans h.unheld, h.unleased, hStays rfl,
      hQuiet rfl⟩
  | cleared =>
    exact ⟨h.unheld, Table.lookup_erase_of_none h.unleased _, hStays rfl, h.silent⟩
  | routed hTask hFree hFound =>
    refine ⟨h.unheld, h.unleased, hOut fun hEq => ?_, h.silent⟩
    cases hEq
    cases h.unheld.symm.trans hFound
  | checked hTask hLease =>
    refine ⟨h.unheld, hPurged, hOut fun hEq => ?_, hQuiet rfl⟩
    cases hEq
    cases h.unleased.symm.trans hLease
  | unarmed => exact ⟨h.unheld, hPurged, hStays rfl, h.silent⟩
  | dialed hTask | gone hTask | reached hTask =>
    refine ⟨h.unheld, h.unleased, hStays rfl, hSilent fun t hConnects => ?_⟩
    cases hConnects
    exact h.out _ ⟨_, hTask, rfl⟩
  | _ => exact ⟨h.unheld, h.unleased, hStays rfl, h.silent⟩

/-- **Where connections go**: outside of the holders' mutex no port is in both maps; every port in
one of them may be armed; a connection to this host's loopback found a lease recorded after all
ended holds of the port; and after a release, until the port is held or armed again, only calls
let through before connect to it. -/
theorem bridge_reachability (h : Reachable (bridge cfg) b) :
    (b.lock = none → ∀ port, ¬ (port ∈ b.holders ∧ port ∈ b.ports)) ∧
    (∀ port, port ∈ b.holders ∨ port ∈ b.ports → canArm cfg port = true) ∧
    (∀ newer t port ok older, b.trail = newer ++ .reached t port ok :: older →
      ∃ mid now early, older = mid ++ .checked t port now :: early ∧
        ∃ since t' deadline past, early = since ++ .recorded t' port deadline :: past ∧
          now < deadline ∧ ∀ t'' holder, .removed t'' port holder ∉ since) ∧
    ∀ a b₁ port holder, (bridge cfg).step b a = some b₁ →
      b.holders.lookup port = some holder → b₁.holders.lookup port = none →
      ∀ b₂, Path (bridge cfg) (fun b a => ¬ Succeeds port b a) b₁ b₂ →
        ∃ new, b₂.trail = new ++ b₁.trail ∧
          ∀ e ∈ new, ∀ t, e.connects = some (t, port) → LetIn b₁.tasks port t := by
  refine ⟨?_, ?_, ?_, ?_⟩
  · rintro hFree port ⟨hHeld, hLeased⟩
    obtain ⟨holder, hHolder⟩ := Option.isSome_iff_exists.mp (AList.lookup_isSome.mpr hHeld)
    exact AList.lookup_eq_none.mp (unleased_of_held h hFree hHolder) hLeased
  · have hSafe := safe_reachable h
    rintro port (hHeld | hLeased)
    · obtain ⟨holder, hHolder⟩ := Option.isSome_iff_exists.mp (AList.lookup_isSome.mpr hHeld)
      exact hSafe.held port holder hHolder
    · obtain ⟨deadline, hLease⟩ := Option.isSome_iff_exists.mp (AList.lookup_isSome.mpr hLeased)
      exact hSafe.leased port deadline hLease
  · intro newer t port ok older hTrail
    obtain ⟨mid, e, early, hMid, ⟨now, rfl, hLease⟩, -⟩ :=
      (leased_reachable h).routed newer _ older hTrail t port ok rfl
    obtain ⟨since, e', past, hSince, ⟨t', deadline, rfl, hLive⟩, hEnds⟩ := hLease
    refine ⟨mid, now, early, hMid, since, t', deadline, past, hSince, hLive, ?_⟩
    intro t'' holder hIn
    exact hEnds _ hIn ⟨t'', holder, rfl⟩
  · intro a b₁ port holder hStep hHeld hGone b₂ hPath
    have hClosed : Closed port b₁ b₁ := by
      rcases held_step h (bridge_move hStep) hHeld with hStays | ⟨-, hFree, hPorts, -⟩
      · cases hGone.symm.trans hStays
      · refine ⟨hGone, ?_, fun t => id, [], rfl, nofun⟩
        rw [hPorts]
        exact unleased_of_held h hFree hHeld
    have hEnd : Closed port b₁ b₂ := hPath.invariant (I := Closed port b₁)
      (fun _ _ _ hInv hNone hStep => closed_step hInv hNone (bridge_move hStep)) hClosed
    exact hEnd.silent

/-- No thread is about to record a lease or to insert a holder. -/
def unsuccessful (b : Armed) : Action → Bool
  | .turn t _ =>
    match b.tasks t with
    | some (.recording _ _) | some (.greeting _ _) => false
    | _ => true
  | _ => true

/-- A holder dies and is released; the lease that it took the port from is gone,
and the next connection is refused. -/
theorem bridge_reachability_released :
    let cfg : Config := ⟨300, "127.0.0.1", "", none, 12801, 12803, 12804, 12805, 12806⟩
    ∃ b b₁ b₂ : Armed, Reachable (bridge cfg) b ∧
      Path (bridge cfg) (fun b a => ¬ Succeeds 8400 b a) b₁ b₂ ∧
      b.holders.lookup 8400 = some ⟨7, 1⟩ ∧ b₁.holders.lookup 8400 = none ∧
      .recorded 0 8400 60 ∈ b.trail ∧ b₂.tasks 3 = some (.returned 8400 .unarmed) ∧
      ∃ new, b₂.trail = new ++ b₁.trail ∧
        ∀ e ∈ new, ∀ t, e.connects = some (t, 8400) → LetIn b₁.tasks 8400 t := by
  intro cfg
  let ask (t : Nat) : Action := .turn t ⟨true, .gone, 7⟩
  let before : List Action :=
    [.call 0 (.arm 8400 60), ask 0, ask 0, ask 0, ask 0,
      .call 1 (.hold 8400), ask 1, ask 1, ask 1, ask 1, .call 2 (.connect 8400), ask 2, ask 2]
  let after : List Action := [.call 3 (.connect 8400), ask 3, ask 3]
  have hReplay : (((bridge cfg).run (bridge cfg).init before).bind fun b =>
      ((bridge cfg).step b (ask 2)).bind fun b₁ =>
      (((bridge cfg).guard unsuccessful).run b₁ after).map fun b₂ =>
        decide (b.holders.lookup 8400 = some ⟨7, 1⟩ ∧ b₁.holders.lookup 8400 = none ∧
          .recorded 0 8400 60 ∈ b.trail ∧ b₂.tasks 3 = some (.returned 8400 .unarmed))) =
      some true := by
    decide +kernel
  obtain ⟨b, hBefore, hRest⟩ := Option.bind_eq_some_iff.mp hReplay
  obtain ⟨b₁, hStep, hRest⟩ := Option.bind_eq_some_iff.mp hRest
  obtain ⟨b₂, hAfter, hSeen⟩ := Option.map_eq_some_iff.mp hRest
  obtain ⟨hHeld, hGone, hLease, hUnarmed⟩ := of_decide_eq_true hSeen
  have hReach : Reachable (bridge cfg) b := Path.of_run hBefore
  have hPath : Path (bridge cfg) (fun b a => ¬ Succeeds 8400 b a) b₁ b₂ := by
    refine (Path.of_run hAfter).unguard fun b a hCheck hSucceeds => ?_
    cases a with
    | call | tick => exact hSucceeds
    | turn =>
      rcases hSucceeds with ⟨deadline, hTask⟩ | ⟨⟨holder, hTask⟩, -⟩
      · simp only [unsuccessful, hTask, Bool.false_eq_true] at hCheck
      · simp only [unsuccessful, hTask, Bool.false_eq_true] at hCheck
  obtain ⟨-, -, -, hReleased⟩ := bridge_reachability hReach
  exact ⟨b, b₁, b₂, hReach, hPath, hHeld, hGone, hLease, hUnarmed,
    hReleased (ask 2) b₁ 8400 ⟨7, 1⟩ hStep hHeld hGone b₂ hPath⟩

end Armed

end Forward.Bridge

import Forward.Bridge.Reach

/-!
# A live holder keeps its port

`arm`, `hold` and `connect` find a holder dead without the mutex, and release it later, when
another process may have the port. While a call has a reference to a holder, no other holder is at
that address, so `release` takes no other.
-/

namespace Forward.Bridge

open Lib Net

theorem Task.drops_holder {task next : Task} {port : Nat} {holder : Holder}
    (h : task.drops = some (port, holder, next)) : next.holder = none := by
  cases task with
  | releasing port' retry =>
    obtain ⟨rfl, rfl, rfl⟩ := Option.some.inj h
    cases retry <;> rfl
  | freeing =>
    obtain ⟨rfl, rfl, rfl⟩ := Option.some.inj h
    rfl
  | _ => cases h

theorem Task.holder_of_drops {task next : Task} {port : Nat} {holder : Holder}
    (h : task.drops = some (port, holder, next)) : task.holder = some holder := by
  cases task with
  | releasing | freeing =>
    obtain ⟨rfl, rfl, rfl⟩ := Option.some.inj h
    rfl
  | _ => cases h

namespace Armed

variable {cfg : Config} {b b' : Armed} {a : Action}

/-! ## References -/

def Refers (holders : Table Nat Holder) (tasks : Nat → Option Task) (holder : Holder) : Prop :=
  (∃ port, holders.lookup port = some holder) ∨
    ∃ t task, tasks t = some task ∧ task.holder = some holder

/-- Every call is in the list of calls, and two references to one address are
to one holder. -/
structure Distinct (b : Armed) : Prop where
  known : ∀ t task, b.tasks t = some task → t ∈ b.calls
  one : ∀ x y, Refers b.holders b.tasks x → Refers b.holders b.tasks y → x.addr = y.addr → x = y

variable {holder : Holder}

theorem Distinct.fresh (h : Distinct b) {addr : Nat} (hUnused : b.unused addr)
    (hRefers : Refers b.holders b.tasks holder) : holder.addr ≠ addr := by
  obtain ⟨hHolders, hCalls⟩ := Bool.and_eq_true_iff.mp hUnused
  rcases hRefers with ⟨port, hHeld⟩ | ⟨t, task, hTask, hHolder⟩
  · have hIn := Table.mem_values_iff.mpr ⟨port, hHeld⟩
    exact of_decide_eq_true (List.all_eq_true.mp hHolders holder hIn)
  · have hAll := List.all_eq_true.mp hCalls t (h.known t task hTask)
    rw [hTask, Option.bind_some, hHolder, Option.all_some] at hAll
    exact of_decide_eq_true hAll

variable {t : Nat} {task : Task}

theorem refers_update {tasks : Nat → Option Task} {holders : Table Nat Holder}
    (h : Refers holders (Function.update tasks t (some task)) holder) :
    task.holder = some holder ∨ Refers holders tasks holder := by
  rcases h with hHeld | ⟨t', task', hAt, hHolder⟩
  · exact .inr (.inl hHeld)
  · rcases update_some_cases hAt with ⟨-, rfl⟩ | ⟨-, hOld⟩
    · exact .inl hHolder
    · exact .inr (.inr ⟨t', task', hOld, hHolder⟩)

theorem refers_step (hMove : b.Move cfg a b') :
    (∀ x, Refers b'.holders b'.tasks x → Refers b.holders b.tasks x) ∨
      ∃ new, b.unused new.addr ∧
        ∀ x, Refers b'.holders b'.tasks x → x = new ∨ Refers b.holders b.tasks x := by
  have hPlain : ∀ {t : Nat} {task : Task}, task.holder = none →
      ∀ x, Refers b.holders (Function.update b.tasks t (some task)) x →
        Refers b.holders b.tasks x := by
    intro t task hTask x hRefers
    rcases refers_update hRefers with hNew | hOld
    · rw [hTask] at hNew
      cases hNew
    · exact hOld
  have hCopied : ∀ {t : Nat} {task : Task} {holder : Holder}, task.holder = some holder →
      Refers b.holders b.tasks holder →
      ∀ x, Refers b.holders (Function.update b.tasks t (some task)) x →
        Refers b.holders b.tasks x := by
    intro t task holder hTask hHolder x hRefers
    rcases refers_update hRefers with hNew | hOld
    · exact Option.mem_unique hTask hNew ▸ hHolder
    · exact hOld
  cases hMove with
  | @call t call => cases call <;> exact .inl (hPlain rfl)
  | tick => exact .inl fun x => id
  | found hTask hFree hFound | routed hTask hFree hFound =>
    exact .inl (hCopied rfl (.inl ⟨_, hFound⟩))
  | dead hTask | gone hTask => exact .inl (hCopied rfl (.inr ⟨_, _, hTask, rfl⟩))
  | @holdUnheld t port reply hTask hFree hNone hUnused =>
    refine .inr ⟨⟨reply.addr, t⟩, hUnused, fun x hRefers => ?_⟩
    rcases refers_update hRefers with hNew | hOld
    · exact .inl (Option.some.inj hNew).symm
    · exact .inr hOld
  | kept hTask hDrops => exact .inl (hPlain (Task.drops_holder hDrops))
  | removed hTask hDrops =>
    refine .inl fun x hRefers => ?_
    rcases hRefers with ⟨port, hHeld⟩ | hTasks
    · exact .inl ⟨port, (Table.lookup_erase_cases hHeld).2⟩
    · exact hPlain (Task.drops_holder hDrops) x (.inr hTasks)
  | @installed t port holder reply hTask =>
    refine .inl fun x hRefers => ?_
    rcases hRefers with ⟨p, hHeld⟩ | hTasks
    · rcases Table.lookup_insert_cases hHeld with ⟨-, rfl⟩ | ⟨-, hOld⟩
      · exact .inr ⟨t, _, hTask, rfl⟩
      · exact .inl ⟨p, hOld⟩
    · exact hPlain rfl x (.inr hTasks)
  | _ => exact .inl (hPlain rfl)

theorem known_step (h : ∀ t task, b.tasks t = some task → t ∈ b.calls)
    (hMove : b.Move cfg a b') : ∀ t task, b'.tasks t = some task → t ∈ b'.calls := by
  have hMoved : ∀ {t : Nat} {old new : Task}, b.tasks t = some old →
      ∀ t' task, Function.update b.tasks t (some new) t' = some task → t' ∈ b.calls := by
    intro t old new hOld t' task hAt
    rcases update_some_cases hAt with ⟨rfl, -⟩ | ⟨-, hTask⟩
    · exact h _ old hOld
    · exact h t' task hTask
  cases hMove with
  | call =>
    intro t' task hAt
    rcases update_some_cases hAt with ⟨rfl, -⟩ | ⟨-, hTask⟩
    · exact List.mem_cons_self ..
    · exact List.mem_cons_of_mem _ (h t' task hTask)
  | tick => exact h
  | armRefused hTask | armStarted hTask | holdRefused hTask | holdStarted hTask | found hTask
  | armUnheld hTask | holdUnheld hTask | alive hTask | dead hTask | kept hTask | removed hTask
  | armHeld hTask | armEntered hTask | recorded hTask | vanished hTask | installed hTask
  | cleared hTask | routed hTask | unrouted hTask | dialed hTask | gone hTask | checked hTask
  | unarmed hTask | reached hTask => exact hMoved hTask

theorem distinct_step (h : Distinct b) (hMove : b.Move cfg a b') : Distinct b' := by
  refine ⟨known_step h.known hMove, ?_⟩
  intro x y hx hy hAddr
  rcases refers_step hMove with hOld | ⟨new, hUnused, hOld⟩
  · exact h.one x y (hOld x hx) (hOld y hy) hAddr
  · rcases hOld x hx with rfl | hx'
    · rcases hOld y hy with rfl | hy'
      · rfl
      · exact absurd hAddr.symm (h.fresh hUnused hy')
    · rcases hOld y hy with rfl | hy'
      · exact absurd hAddr (h.fresh hUnused hx')
      · exact h.one x y hx' hy' hAddr

theorem distinct_reachable (h : Reachable (bridge cfg) b) : Distinct b := by
  refine h.invariant (I := Distinct)
    (fun _ _ _ hInv _ hStep => distinct_step hInv (bridge_move hStep)) ⟨?_, ?_⟩
  · intro t task hAt
    cases hAt
  · rintro x y (⟨port, hHeld⟩ | ⟨t, task, hAt, -⟩)
    · cases hHeld
    · cases hAt

/-! ## What the calls have seen -/

/-- A `hold` of the port put its holder into the map, which had none there. -/
def Installed (port : Nat) (holder : Holder) (trail : List Event) : Prop :=
  .installed holder.call port holder none ∈ trail

/-- The holder was seen closed or in breach of the protocol. -/
def Dead (holder : Holder) (trail : List Event) : Prop :=
  (∃ t port, .peeked t port holder false ∈ trail) ∨ ∃ t port, .dialed t port holder .gone ∈ trail

def Backed (trail : List Event) (t : Nat) : Task → Prop
  | .peeking port _ holder | .dialing port holder => Installed port holder trail
  | .releasing _ _ holder | .freeing _ holder => Dead holder trail
  | .greeting _ holder => holder.call = t
  | .clearing port | .returned port .held =>
    ∃ holder, holder.call = t ∧ Installed port holder trail
  | .returned port .busy =>
    ∃ holder, .peeked t port holder true ∈ trail ∧ Installed port holder trail
  | _ => True

variable {trail : List Event}

theorem Backed.later {new : List Event} (h : Backed trail t task)
    (hNew : trail ⊆ new) : Backed new t task := by
  cases task with
  | peeking | dialing => exact hNew h
  | releasing | freeing =>
    rcases h with ⟨t', port, hIn⟩ | ⟨t', port, hIn⟩
    · exact .inl ⟨t', port, hNew hIn⟩
    · exact .inr ⟨t', port, hNew hIn⟩
  | greeting => exact h
  | clearing =>
    obtain ⟨holder, hCall, hIn⟩ := h
    exact ⟨holder, hCall, hNew hIn⟩
  | returned port answer =>
    cases answer with
    | held =>
      obtain ⟨holder, hCall, hIn⟩ := h
      exact ⟨holder, hCall, hNew hIn⟩
    | busy =>
      obtain ⟨holder, hSeen, hIn⟩ := h
      exact ⟨holder, hNew hSeen, hNew hIn⟩
    | _ => trivial
  | _ => trivial

variable {port : Nat}

theorem backed_next {next : Task}
    (h : task.drops = some (port, holder, next)) : Backed trail t next := by
  cases task with
  | releasing port' retry =>
    obtain ⟨rfl, rfl, rfl⟩ := Option.some.inj h
    cases retry <;> trivial
  | freeing =>
    obtain ⟨rfl, rfl, rfl⟩ := Option.some.inj h
    trivial
  | _ => cases h

theorem dead_of_drops {next : Task}
    (h : task.drops = some (port, holder, next)) (hTask : Backed trail t task) :
    Dead holder trail := by
  cases task with
  | releasing | freeing =>
    obtain ⟨rfl, rfl, rfl⟩ := Option.some.inj h
    exact hTask
  | _ => cases h

/-- Every entry was installed, and every call is backed by what it has seen. -/
structure Witnessed (holders : Table Nat Holder) (tasks : Nat → Option Task)
    (trail : List Event) : Prop where
  installed : ∀ port holder, holders.lookup port = some holder → Installed port holder trail
  backed : ∀ t task, tasks t = some task → Backed trail t task

namespace Witnessed

variable {holders holders' : Table Nat Holder} {tasks : Nat → Option Task} {trail : List Event}

theorem move {t : Nat} {task : Task} (h : Witnessed holders tasks trail)
    (hTask : Backed trail t task) :
    Witnessed holders (Function.update tasks t (some task)) trail := by
  refine ⟨h.installed, ?_⟩
  intro t' task' hAt
  rcases update_some_cases hAt with ⟨rfl, rfl⟩ | ⟨-, hOld⟩
  · exact hTask
  · exact h.backed t' task' hOld

theorem note (h : Witnessed holders tasks trail) (e : Event) :
    Witnessed holders tasks (e :: trail) :=
  ⟨fun port holder hHeld => List.mem_cons_of_mem _ (h.installed port holder hHeld),
    fun t task hAt => (h.backed t task hAt).later (List.subset_cons_self ..)⟩

theorem change (h : Witnessed holders tasks trail)
    (hHolders : ∀ port holder, holders'.lookup port = some holder →
      Installed port holder trail) : Witnessed holders' tasks trail :=
  ⟨hHolders, h.backed⟩

end Witnessed

theorem witnessed_step (h : Witnessed b.holders b.tasks b.trail)
    (hReach : Reachable (bridge cfg) b) (hMove : b.Move cfg a b') :
    Witnessed b'.holders b'.tasks b'.trail := by
  cases hMove with
  | @call t call => cases call <;> exact h.move trivial
  | tick => exact h
  | found hTask hFree hFound | routed hTask hFree hFound => exact h.move (h.installed _ _ hFound)
  | holdUnheld => exact h.move rfl
  | @alive t port retry holder reply hTask =>
    refine (h.note _).move ?_
    cases retry with
    | arm => trivial
    | hold =>
      exact ⟨holder, List.mem_cons_self .., List.mem_cons_of_mem _ (h.backed t _ hTask)⟩
  | @dead t port =>
    exact (h.note _).move (.inl ⟨t, port, List.mem_cons_self ..⟩)
  | @gone t port =>
    exact (h.note _).move (.inr ⟨t, port, List.mem_cons_self ..⟩)
  | kept hTask hDrops => exact h.move (backed_next hDrops)
  | removed hTask hDrops =>
    refine ((h.note _).change fun p x hHeld => ?_).move (backed_next hDrops)
    exact List.mem_cons_of_mem _ (h.installed p x (Table.lookup_erase_cases hHeld).2)
  | @installed t port holder reply hTask =>
    have hCall : holder.call = t := h.backed t _ hTask
    have hNone : b.holders.lookup port = none := vacant_reachable hReach t _ port hTask rfl
    have hHere : Installed port holder
        (.installed t port holder (b.holders.lookup port) :: b.trail) := by
      rw [hNone, ← hCall]
      exact List.mem_cons_self ..
    refine ((h.note _).change fun p x hHeld => ?_).move ⟨holder, hCall, hHere⟩
    rcases Table.lookup_insert_cases hHeld with ⟨rfl, rfl⟩ | ⟨-, hOld⟩
    · exact hHere
    · exact List.mem_cons_of_mem _ (h.installed p x hOld)
  | cleared hTask =>
    obtain ⟨holder, hCall, hIn⟩ := h.backed _ _ hTask
    exact h.move ⟨holder, hCall, hIn⟩
  | recorded | checked => exact (h.note _).move trivial
  | dialed hTask hAnswer | reached hTask hAnswer =>
    refine (h.note _).move ?_
    rcases hAnswer with rfl | rfl <;> trivial
  | _ => exact h.move trivial

theorem witnessed_reachable (h : Reachable (bridge cfg) b) :
    Witnessed b.holders b.tasks b.trail := by
  refine h.strengthen (I := fun b => Witnessed b.holders b.tasks b.trail) ⟨?_, ?_⟩ ?_
  · intro port holder hHeld
    cases hHeld
  · intro t task hAt
    cases hAt
  · intro b a b' hReach hInv hStep
    exact witnessed_step hInv hReach (bridge_move hStep)

/-! ## Leases are not shortened -/

theorem lease_step (hMove : b.Move cfg a b') {deadline : Nat}
    (hLease : b.ports.lookup port = some deadline) (hLive : b.clock < deadline) :
    (∃ deadline', b'.ports.lookup port = some deadline' ∧ deadline ≤ deadline') ∨
      ∃ t reply, a = .turn t reply ∧ b.tasks t = some (.clearing port) := by
  cases hMove with
  | @recorded t p =>
    by_cases hPort : port = p
    · subst hPort
      refine .inl ⟨_, AList.lookup_insert .., ?_⟩
      rw [hLease, Option.getD_some]
      exact Nat.le_max_left ..
    · exact .inl ⟨deadline, (AList.lookup_insert_ne hPort).trans hLease, Nat.le_refl _⟩
  | @cleared t p reply hTask =>
    by_cases hPort : port = p
    · subst hPort
      exact .inr ⟨t, reply, rfl, hTask⟩
    · exact .inl ⟨deadline, (AList.lookup_erase_ne hPort).trans hLease, Nat.le_refl _⟩
  | checked | unarmed => exact .inl ⟨deadline, purge_lookup.mpr ⟨hLease, hLive⟩, Nat.le_refl _⟩
  | _ => exact .inl ⟨deadline, hLease, Nat.le_refl _⟩

/-- **A live holder keeps its port**: an entry leaves the map only by a release for that very
holder, seen dead before; `hold` returns Ok only after it put its own holder where there was no
entry, and Busy only after it saw a holder alive; only a hold lowers an unexpired lease. -/
theorem holder_keeps_port (h : Reachable (bridge cfg) b) :
    (∀ a b', (bridge cfg).step b a = some b' → ∀ port holder,
      b.holders.lookup port = some holder →
      b'.holders.lookup port = some holder ∨
        (b'.holders.lookup port = none ∧ Dead holder b.trail ∧
          ∃ t reply task next, a = .turn t reply ∧ b.tasks t = some task ∧
            task.drops = some (port, holder, next))) ∧
    (∀ t reply task port older next b', b.tasks t = some task →
      task.drops = some (port, older, next) →
      (bridge cfg).step b (.turn t reply) = some b' →
      ∀ holder, b.holders.lookup port = some holder → holder ≠ older →
        b'.holders.lookup port = some holder) ∧
    (∀ t port, b.tasks t = some (.returned port .held) →
      ∃ holder, holder.call = t ∧ .installed t port holder none ∈ b.trail) ∧
    (∀ t port, b.tasks t = some (.returned port .busy) →
      ∃ holder, .peeked t port holder true ∈ b.trail ∧
        .installed holder.call port holder none ∈ b.trail) ∧
    ∀ a b', (bridge cfg).step b a = some b' → ∀ port deadline,
      b.ports.lookup port = some deadline → b.clock < deadline →
      (∃ deadline', b'.ports.lookup port = some deadline' ∧ deadline ≤ deadline') ∨
        ∃ t reply, a = .turn t reply ∧ b.tasks t = some (.clearing port) := by
  have hSeen := witnessed_reachable h
  have hLeaves : ∀ a b', (bridge cfg).step b a = some b' → ∀ port holder,
      b.holders.lookup port = some holder →
      b'.holders.lookup port = some holder ∨
        (b'.holders.lookup port = none ∧ Dead holder b.trail ∧
          ∃ t reply task next, a = .turn t reply ∧ b.tasks t = some task ∧
            task.drops = some (port, holder, next)) := by
    intro a b' hStep port holder hHeld
    rcases held_step h (bridge_move hStep) hHeld with
      hStays | ⟨hGone, -, -, t, reply, task, arg, next, rfl, hTask, hDrops, hAddr⟩
    · exact .inl hStays
    · -- the call still has its reference, so the address is this holder's
      have hRefers : Refers b.holders b.tasks arg :=
        Or.inr ⟨t, task, hTask, Task.holder_of_drops hDrops⟩
      obtain rfl := (distinct_reachable h).one holder arg (.inl ⟨port, hHeld⟩) hRefers hAddr
      exact .inr ⟨hGone, dead_of_drops hDrops (hSeen.backed t task hTask), t, reply, task, next,
        rfl, hTask, hDrops⟩
  refine ⟨hLeaves, ?_, ?_, ?_, ?_⟩
  · intro t reply task port older next b' hTask hDrops hStep holder hHeld hNe
    rcases hLeaves _ b' hStep port holder hHeld with
      hStays | ⟨-, -, t', reply', task', next', hEq, hTask', hDrops'⟩
    · exact hStays
    · cases hEq
      obtain rfl := Option.mem_unique hTask hTask'
      cases Option.mem_unique hDrops hDrops'
      exact absurd rfl hNe
  · intro t port hTask
    obtain ⟨holder, rfl, hIn⟩ := hSeen.backed t _ hTask
    exact ⟨holder, rfl, hIn⟩
  · intro t port hTask
    exact hSeen.backed t _ hTask
  · intro a b' hStep port deadline hLease hLive
    exact lease_step (bridge_move hStep) hLease hLive

/-- Two connections find a holder gone. When the second releases it, another
process has the port, and keeps it. -/
theorem holder_keeps_port_late :
    let cfg : Config := ⟨300, "127.0.0.1", "", none, 12801, 12803, 12804, 12805, 12806⟩
    ∃ b b' : Armed, Reachable (bridge cfg) b ∧
      (bridge cfg).step b (.turn 3 ⟨true, .gone, 0⟩) = some b' ∧
      b.tasks 3 = some (.freeing 8400 ⟨7, 1⟩) ∧ b.holders.lookup 8400 = some ⟨8, 4⟩ ∧
      b'.holders.lookup 8400 = some ⟨8, 4⟩ ∧
      ∃ holder : Holder, holder.call = 4 ∧ .installed 4 8400 holder none ∈ b.trail := by
  intro cfg
  let ask (t addr : Nat) : Action := .turn t ⟨true, .gone, addr⟩
  let actions : List Action :=
    [.call 1 (.hold 8400), ask 1 0, ask 1 7, ask 1 0, ask 1 0,
      .call 2 (.connect 8400), ask 2 0, ask 2 0, .call 3 (.connect 8400), ask 3 0, ask 3 0, ask 2 0,
      .call 4 (.hold 8400), ask 4 0, ask 4 8, ask 4 0, ask 4 0]
  have hReplay : (((bridge cfg).run (bridge cfg).init actions).bind fun b =>
      ((bridge cfg).step b (ask 3 0)).map fun b' =>
        decide (b.tasks 3 = some (.freeing 8400 ⟨7, 1⟩) ∧
          b.holders.lookup 8400 = some ⟨8, 4⟩ ∧ b.tasks 4 = some (.returned 8400 .held))) =
      some true := by
    decide +kernel
  obtain ⟨b, hRun, hRest⟩ := Option.bind_eq_some_iff.mp hReplay
  obtain ⟨b', hStep, hSeen⟩ := Option.map_eq_some_iff.mp hRest
  obtain ⟨hFreeing, hHeld, hReturned⟩ := of_decide_eq_true hSeen
  have hReach : Reachable (bridge cfg) b := Path.of_run hRun
  obtain ⟨-, hOlder, hOk, -⟩ := holder_keeps_port hReach
  exact ⟨b, b', hReach, hStep, hFreeing, hHeld,
    hOlder 3 _ _ 8400 ⟨7, 1⟩ _ b' hFreeing rfl hStep ⟨8, 4⟩ hHeld (by decide),
    hOk 4 8400 hReturned⟩

end Armed

end Forward.Bridge

import Forward.Browser.Registry
import Forward.Lib.History

/-!
# Browser grants live under one broker authority

A ceremony checks the authority and inserts in one critical section of the authority mutex; the
subscription worker replaces the authority and drains the registry in one, too.
-/

namespace Forward.Browser

open Lib Secretsd

/-- The event ends an authority: another one was observed, or none is left. -/
def Event.resets : Event → Bool
  | .observed _ authority previous => previous ≠ some authority
  | .invalidated _ => true
  | _ => false

/-- The call's grant was inserted, and an authority has ended since. -/
def Lapsed (trail : List Event) (c : Nat) : Prop :=
  Once (fun e older => e.resets = true ∧ ∃ id a g, .inserted c id a g ∈ older) trail

section

variable {trail : List Event} {e : Event} {c : Nat}

theorem Lapsed.inserted (h : Lapsed trail c) : ∃ id a g, .inserted c id a g ∈ trail := by
  obtain ⟨newer, e, older, rfl, ⟨-, id, a, g, hIn⟩, -⟩ := h
  exact ⟨id, a, g, List.mem_append_right _ (List.mem_cons_of_mem _ hIn)⟩

theorem Lapsed.of_cons (h : Lapsed (e :: trail) c) (he : e.resets = false) : Lapsed trail c := by
  obtain ⟨newer, e', older, hEq, ⟨hResets, hIn⟩, -⟩ := h
  rcases newer with - | ⟨x, newer⟩
  · obtain ⟨rfl, rfl⟩ := List.cons.inj hEq
    rw [he] at hResets
    cases hResets
  · obtain ⟨rfl, rfl⟩ := List.cons.inj hEq
    exact ⟨newer, e', older, rfl, ⟨hResets, hIn⟩, fun _ _ hFalse => hFalse⟩

end

def Current (e : Event) (older : List Event) : Prop :=
  ∀ t calls, e = .reported t calls → ∀ c ∈ calls, ¬ Lapsed older c

namespace Registry

/-- The grant was inserted by its call, which named this authority. -/
def InsertedUnder (r : Registry) (entry : GrantEntry) (a : BrokerIdentity) : Prop :=
  ∃ id, .inserted entry.call id a entry.grant ∈ r.trail

abbrev Guarded (r : Registry) : Prop := Exclusive Task.holds r.holder r.tasks

theorem guarded_step {r r' : Registry} {a : Action} (h : r.Guarded) (hMove : r.Move a r') :
    r'.Guarded := by
  have hAcquire : ∀ {t : Nat} {task : Task}, r.holder = none →
      ((r.lock t).setTask t task).Guarded := by
    intro t task hFree
    unfold Guarded at h
    rw [hFree] at h
    exact h.acquire
  have hRelease : ∀ {t : Nat} {task : Task} {answer : Answer}, r.tasks t = some task →
      task.holds →
      Exclusive Task.holds none (Function.update r.tasks t (some (.returned answer))) := by
    intro t task answer hTask hHolds
    have hHolder := h t task hTask hHolds
    unfold Guarded at h
    rw [hHolder] at h
    exact h.release rfl
  cases hMove with
  | @call t call =>
    refine h.move fun hHolds => ?_
    cases call <;> cases hHolds
  | tick => exact h
  | insertChecked hTask hFree | observedOther hTask hFree | invalidating hTask hFree =>
    exact hAcquire hFree
  | insertFailed hTask | inserted hTask => exact hRelease hTask rfl
  | @concluded t cloned ending hTask =>
    cases ending with
    | observe authority | invalidate => exact hRelease hTask rfl
    | revoke | expire answer => exact h.move nofun
  | drained hTask | shut hTask | ended hTask => exact h.move fun hHolds => h _ _ hTask hHolds
  | expired | insertRefused | observedSame | absent | found | stale | timed | listed
    | unregistered | registered =>
    exact h.move nofun
  | @guardDropped t grantId cloned pipe =>
    have hSame : (r.dropGuard grantId pipe.id).Guarded := by
      unfold dropGuard
      split <;> exact h
    exact hSame.move nofun

structure Authorized (r : Registry) : Prop where
  guarded : r.Guarded
  named : ∀ t a grant control, r.tasks t = some (.checked a grant control) → r.authority = some a
  drained : ∀ t ending pipes controls, r.tasks t = some (.severing ending pipes controls) →
    ending.holds = true → ∀ id entry, r.grants.lookup id ≠ some entry
  under : ∀ id entry, r.grants.lookup id = some entry →
    ∃ a, r.authority = some a ∧ r.InsertedUnder entry a
  once : ∀ t id a grant, .inserted t id a grant ∈ r.trail →
    ∃ answer, r.tasks t = some (.returned answer)
  held : ∀ id entry, r.grants.lookup id = some entry → ¬ Lapsed r.trail entry.call
  reported : Historically Current r.trail

/-- An event that inserts nothing, ends no authority, and reports what is held. -/
structure Mild (r : Registry) (e : Event) : Prop where
  resets : e.resets = false
  inserted : ∀ t id a grant, e ≠ .inserted t id a grant
  reported : ∀ t calls, e = .reported t calls → ∀ c ∈ calls,
    ∃ id entry, r.grants.lookup id = some entry ∧ entry.call = c

/-- The thread moved on to `new`; the authority stays, and no grant is added. -/
structure Quiet (r r' : Registry) (t : Nat) (new : Task) : Prop where
  grants : ∀ id entry, r'.grants.lookup id = some entry → r.grants.lookup id = some entry
  authority : r'.authority = r.authority
  tasks : r'.tasks = Function.update r.tasks t (some new)
  trail : r'.trail = r.trail ∨ ∃ e, r'.trail = e :: r.trail ∧ Mild r e

section

variable {r r' : Registry} {t : Nat} {new : Task}

theorem Quiet.of_eq (hGrants : r'.grants = r.grants) (hAuthority : r'.authority = r.authority)
    (hTasks : r'.tasks = Function.update r.tasks t (some new)) (hTrail : r'.trail = r.trail) :
    Quiet r r' t new :=
  ⟨fun _ _ hEntry => hGrants ▸ hEntry, hAuthority, hTasks, .inl hTrail⟩

theorem Quiet.mem_trail (h : Quiet r r' t new) {e : Event} (he : e ∈ r.trail) : e ∈ r'.trail := by
  rcases h.trail with hSame | ⟨x, hCons, -⟩
  · exact hSame ▸ he
  · exact hCons ▸ List.mem_cons_of_mem _ he

theorem Quiet.lapsed (h : Quiet r r' t new) {c : Nat} (hc : Lapsed r'.trail c) :
    Lapsed r.trail c := by
  rcases h.trail with hSame | ⟨x, hCons, hMild⟩
  · exact hSame ▸ hc
  · rw [hCons] at hc
    exact hc.of_cons hMild.resets

theorem Authorized.quiet (h : Authorized r) (hGuard : r'.Guarded) (hQuiet : Quiet r r' t new)
    (hActive : ∀ answer, r.tasks t ≠ some (.returned answer))
    (hChecked : ∀ a grant control, new = .checked a grant control → r.authority = some a)
    (hSevering : ∀ ending pipes controls, new = .severing ending pipes controls →
      ending.holds → ∀ id entry, r'.grants.lookup id ≠ some entry) : Authorized r' := by
  refine ⟨hGuard, ?_, ?_, ?_, ?_, ?_, ?_⟩
  · intro t' a grant control hTask
    rw [hQuiet.tasks] at hTask
    rw [hQuiet.authority]
    rcases update_some_cases hTask with ⟨-, hNew⟩ | ⟨-, hOld⟩
    · exact hChecked a grant control hNew.symm
    · exact h.named t' a grant control hOld
  · intro t' ending pipes controls hTask hHolds id entry hEntry
    rw [hQuiet.tasks] at hTask
    rcases update_some_cases hTask with ⟨-, hNew⟩ | ⟨-, hOld⟩
    · exact hSevering ending pipes controls hNew.symm hHolds id entry hEntry
    · exact h.drained t' ending pipes controls hOld hHolds id entry (hQuiet.grants id entry hEntry)
  · intro id entry hEntry
    obtain ⟨a, hAuthority, id', hIn⟩ := h.under id entry (hQuiet.grants id entry hEntry)
    exact ⟨a, hQuiet.authority.trans hAuthority, id', hQuiet.mem_trail hIn⟩
  · intro t' id a grant hIn
    have hOld : .inserted t' id a grant ∈ r.trail := by
      rcases hQuiet.trail with hSame | ⟨x, hCons, hMild⟩
      · exact hSame ▸ hIn
      · rw [hCons] at hIn
        rcases List.mem_cons.mp hIn with hEq | hIn
        · exact absurd hEq.symm (hMild.inserted t' id a grant)
        · exact hIn
    obtain ⟨answer, hTask⟩ := h.once t' id a grant hOld
    have hNe : t' ≠ t := fun hEq => hActive answer (hEq ▸ hTask)
    exact ⟨answer, hQuiet.tasks ▸ update_some_of_ne hNe hTask⟩
  · intro id entry hEntry hLapsed
    exact h.held id entry (hQuiet.grants id entry hEntry) (hQuiet.lapsed hLapsed)
  · rcases hQuiet.trail with hSame | ⟨x, hCons, hMild⟩
    · exact hSame ▸ h.reported
    · rw [hCons]
      refine h.reported.cons ?_
      intro t' calls hEq c hc
      obtain ⟨id, entry, hEntry, rfl⟩ := hMild.reported t' calls hEq c hc
      exact h.held id entry hEntry

theorem Authorized.reset (h : Authorized r) (hGuard : r'.Guarded) {e : Event}
    {answer : Answer} (hEmpty : ∀ id entry, r'.grants.lookup id ≠ some entry)
    (hTasks : r'.tasks = Function.update r.tasks t (some (.returned answer)))
    (hTrail : r'.trail = e :: r.trail)
    (hInserted : ∀ t id a grant, e ≠ .inserted t id a grant)
    (hReported : ∀ t calls, e ≠ .reported t calls)
    (hAlone : ∀ t' a grant control, r.tasks t' = some (.checked a grant control) →
      r'.authority = some a) : Authorized r' := by
  refine ⟨hGuard, ?_, ?_, ?_, ?_, ?_, ?_⟩
  · intro t' a grant control hTask
    rw [hTasks] at hTask
    rcases update_some_cases hTask with ⟨-, hNew⟩ | ⟨-, hOld⟩
    · cases hNew
    · exact hAlone t' a grant control hOld
  · intro t' ending pipes controls _ _ id entry hEntry
    exact hEmpty id entry hEntry
  · intro id entry hEntry
    exact absurd hEntry (hEmpty id entry)
  · intro t' id a grant hIn
    rw [hTrail] at hIn
    rcases List.mem_cons.mp hIn with hEq | hIn
    · exact absurd hEq.symm (hInserted t' id a grant)
    · by_cases hEq : t' = t
      · exact ⟨answer, by rw [hTasks, hEq, Function.update_self]⟩
      · obtain ⟨answer', hTask⟩ := h.once t' id a grant hIn
        exact ⟨answer', hTasks ▸ update_some_of_ne hEq hTask⟩
  · intro id entry hEntry
    exact absurd hEntry (hEmpty id entry)
  · rw [hTrail]
    refine h.reported.cons ?_
    intro t' calls hEq
    exact absurd hEq (hReported t' calls)

end

section

variable {r r' : Registry} {t : Nat}

theorem Authorized.setTask (h : Authorized r) {old new : Task} (hTask : r.tasks t = some old)
    (hGuard : (r.setTask t new).Guarded) (hOld : ∀ answer, old ≠ .returned answer)
    (hNew : new.holds = false) : Authorized (r.setTask t new) := by
  refine h.quiet hGuard (.of_eq rfl rfl rfl rfl) ?_ ?_ ?_
  · intro answer hReturned
    exact hOld answer (Option.mem_unique hTask hReturned)
  · rintro a grant control rfl
    cases hNew
  · rintro ending pipes controls rfl hHolds
    exact absurd (hNew.symm.trans hHolds) Bool.false_ne_true

theorem Authorized.lock (h : Authorized r) {old new : Task} (hTask : r.tasks t = some old)
    (hGuard : ((r.lock t).setTask t new).Guarded) (hOld : ∀ answer, old ≠ .returned answer)
    (hChecked : ∀ a grant control, new = .checked a grant control → r.authority = some a)
    (hNew : ∀ ending pipes controls, new ≠ .severing ending pipes controls) :
    Authorized ((r.lock t).setTask t new) := by
  refine h.quiet hGuard (.of_eq rfl rfl rfl rfl) ?_ hChecked ?_
  · intro answer hReturned
    exact hOld answer (Option.mem_unique hTask hReturned)
  · intro ending pipes controls hEq
    exact absurd hEq (hNew ending pipes controls)

variable {answer : Answer}

theorem Authorized.insert (h : Authorized r) {a : BrokerIdentity} {grant : Grant} {control : Nat}
    (hTask : r.tasks t = some (.checked a grant control))
    (hGuard : ((r.insert t a grant control).unlock.answer t answer).Guarded) :
    Authorized ((r.insert t a grant control).unlock.answer t answer) := by
  have hAuthority := h.named t a grant control hTask
  have hNever : ∀ id a' grant', .inserted t id a' grant' ∉ r.trail := by
    intro id a' grant' hIn
    obtain ⟨answer', hReturned⟩ := h.once t id a' grant' hIn
    cases hTask.symm.trans hReturned
  have hLapsed : ∀ {c : Nat}, Lapsed ((r.insert t a grant control).unlock.answer t answer).trail c →
      Lapsed r.trail c := fun hc => hc.of_cons rfl
  refine ⟨hGuard, ?_, ?_, ?_, ?_, ?_, ?_⟩
  · intro t' a' grant' control' hTask'
    rcases update_some_cases hTask' with ⟨-, hNew⟩ | ⟨-, hOld⟩
    · cases hNew
    · exact h.named t' a' grant' control' hOld
  · intro t' ending pipes controls hTask' hHolds
    -- two critical sections of the mutex would overlap
    rcases update_some_cases hTask' with ⟨-, hNew⟩ | ⟨hNe, hOld⟩
    · cases hNew
    · exact absurd (h.guarded.unique hOld hHolds hTask rfl) hNe
  · intro id entry hEntry
    refine ⟨a, hAuthority, ?_⟩
    rcases Table.lookup_insert_cases hEntry with ⟨-, rfl⟩ | ⟨-, hOld⟩
    · exact ⟨r.nextId, List.mem_cons_self ..⟩
    · obtain ⟨a', hAuthority', id', hIn⟩ := h.under id entry hOld
      obtain rfl := Option.mem_unique hAuthority hAuthority'
      exact ⟨id', List.mem_cons_of_mem _ hIn⟩
  · intro t' id a' grant' hIn
    rcases List.mem_cons.mp hIn with hEq | hIn
    · cases hEq
      exact ⟨answer, Function.update_self ..⟩
    · obtain ⟨answer', hReturned⟩ := h.once t' id a' grant' hIn
      have hNe : t' ≠ t := by
        rintro rfl
        exact hNever id a' grant' hIn
      exact ⟨answer', update_some_of_ne hNe hReturned⟩
  · intro id entry hEntry hc
    rcases Table.lookup_insert_cases hEntry with ⟨-, rfl⟩ | ⟨-, hOld⟩
    · obtain ⟨id', a', grant', hIn⟩ := (hLapsed hc).inserted
      exact hNever id' a' grant' hIn
    · exact h.held id entry hOld (hLapsed hc)
  · refine h.reported.cons ?_
    intro t' calls hEq
    cases hEq

theorem Authorized.conclude (h : Authorized r) {ending : Ending}
    (hTask : r.tasks t = some (.severing ending [] []))
    (hGuard : ((r.conclude t ending).answer t answer).Guarded) :
    Authorized ((r.conclude t ending).answer t answer) := by
  have hAlone : ending.holds → ∀ t' a grant control,
      r.tasks t' ≠ some (.checked a grant control) := by
    intro hHolds t' a grant control hTask'
    obtain rfl := h.guarded.unique hTask hHolds hTask' rfl
    cases hTask.symm.trans hTask'
  have hEmpty := h.drained t ending [] [] hTask
  cases ending with
  | observe | invalidate =>
    exact h.reset hGuard (hEmpty rfl) rfl rfl (by simp)
      nofun fun t' a grant control hTask' =>
        absurd hTask' (hAlone rfl t' a grant control)
  | revoke | expire => exact h.setTask hTask hGuard (by simp) rfl

theorem Authorized.observe (h : Authorized r) {a : BrokerIdentity}
    (hTask : r.tasks t = some (.observing a)) (hSame : r.authority = none ∨ r.authority = some a)
    (hGuard : (({ r with authority := some a }.emit
      (.observed t a r.authority)).answer t answer).Guarded) :
    Authorized (({ r with authority := some a }.emit
      (.observed t a r.authority)).answer t answer) := by
  rcases hSame with hNone | hSome
  · refine h.reset hGuard ?_ rfl rfl (by simp) (by simp) ?_
    · intro id entry hEntry
      obtain ⟨a', hAuthority, -⟩ := h.under id entry hEntry
      cases hNone.symm.trans hAuthority
    · intro t' a' grant control hTask'
      cases hNone.symm.trans (h.named t' a' grant control hTask')
  · have hMild : Mild r (.observed t a r.authority) :=
      ⟨by simp [Event.resets, hSome], by simp, by simp⟩
    refine h.quiet hGuard ⟨fun _ _ hEntry => hEntry, hSome.symm, rfl, .inr ⟨_, rfl, hMild⟩⟩
      ?_ (by simp) (by simp)
    intro answer' hReturned
    cases hTask.symm.trans hReturned

theorem mild_of_silent {e : Event} (hResets : e.resets = false)
    (hInserted : ∀ t id a grant, e ≠ .inserted t id a grant)
    (hReported : ∀ t calls, e ≠ .reported t calls) : Mild r e :=
  ⟨hResets, hInserted, fun t calls hEq => absurd hEq (hReported t calls)⟩

theorem authorized_step {a : Action} (h : Authorized r) (hMove : r.Move a r') :
    Authorized r' := by
  have hGuard := guarded_step h.guarded hMove
  have hActive : ∀ {t : Nat} {task : Task}, r.tasks t = some task →
      (∀ answer, task ≠ .returned answer) → ∀ answer, r.tasks t ≠ some (.returned answer) := by
    intro t task hTask hNot answer hReturned
    exact hNot answer (Option.mem_unique hTask hReturned)
  cases hMove with
  | @call t call hNew =>
    refine h.quiet hGuard (.of_eq rfl rfl rfl rfl) ?_ ?_ ?_
    · intro answer hReturned
      cases hNew.symm.trans hReturned
    · intro a grant control hEq
      cases call <;> cases hEq
    · intro ending pipes controls hEq
      cases call <;> cases hEq
  | tick => exact ⟨h.guarded, h.named, h.drained, h.under, h.once, h.held, h.reported⟩
  | insertRefused hTask | absent hTask | stale hTask | timed hTask | unregistered hTask =>
    exact h.setTask hTask hGuard (by simp) rfl
  | insertChecked hTask hFree hSame =>
    refine h.lock hTask hGuard (by simp) ?_ (by simp)
    intro a grant control hEq
    cases hEq
    exact hSame
  | observedOther hTask hFree | invalidating hTask hFree =>
    exact h.lock hTask hGuard (by simp) (by simp) (by simp)
  | insertFailed hTask =>
    exact h.quiet hGuard (.of_eq rfl rfl rfl rfl) (hActive hTask (by simp)) (by simp) (by simp)
  | inserted hTask => exact h.insert hTask hGuard
  | observedSame hTask hFree hSame => exact h.observe hTask hSame hGuard
  | @drained t cloned ending hTask =>
    have hEmpty : ∀ id entry, (∅ : Table Nat GrantEntry).lookup id ≠ some entry := by
      intro id entry hEntry
      cases hEntry
    exact h.quiet hGuard
      ⟨fun id entry hEntry => absurd hEntry (hEmpty id entry), rfl, rfl,
        Or.inr ⟨_, rfl, mild_of_silent rfl (by simp) (by simp)⟩⟩
      (hActive hTask (by simp)) (by simp)
      (fun _ _ _ _ _ => hEmpty)
  | @expired t id cloned answer hTask =>
    refine h.quiet hGuard
      ⟨fun id' entry hEntry => (Table.lookup_erase_cases hEntry).2, rfl, rfl,
        Or.inr ⟨_, rfl, mild_of_silent rfl (by simp) (by simp)⟩⟩
      (hActive hTask (by simp)) (by simp) ?_
    intro ending pipes controls hEq hHolds
    cases hEq
    cases hHolds
  | @shut t cloned ending pipe pipes controls hTask =>
    refine h.quiet hGuard
      ⟨fun _ _ hEntry => hEntry, rfl, rfl,
        Or.inr ⟨_, rfl, mild_of_silent rfl (by simp) (by simp)⟩⟩
      (hActive hTask (by simp)) (by simp) ?_
    intro ending' pipes' controls' hEq hHolds
    cases hEq
    exact h.drained t ending (pipe :: pipes) controls hTask hHolds
  | @ended t cloned ending control controls hTask =>
    refine h.quiet hGuard (.of_eq rfl rfl rfl rfl) (hActive hTask (by simp)) (by simp) ?_
    intro ending' pipes' controls' hEq hHolds
    cases hEq
    exact h.drained t ending [] (control :: controls) hTask hHolds
  | concluded hTask => exact h.conclude hTask hGuard
  | @found t id cloned entry hTask hEntry =>
    refine h.quiet hGuard
      ⟨fun _ _ hIn => hIn, rfl, rfl, .inr ⟨_, rfl, rfl, by simp, ?_⟩⟩
      (hActive hTask (by simp)) (by simp) (by simp)
    intro t' calls hEq c hc
    cases hEq
    exact ⟨id, entry, hEntry, (List.mem_singleton.mp hc).symm⟩
  | @listed t now cloned answer hTask =>
    refine h.quiet hGuard
      ⟨fun _ _ hIn => hIn, rfl, rfl, .inr ⟨_, rfl, rfl, by simp, ?_⟩⟩
      (hActive hTask (by simp)) (by simp) (by simp)
    intro t' calls hEq c hc
    cases hEq
    obtain ⟨entry, hIn, rfl⟩ := List.mem_map.mp hc
    obtain ⟨id, hEntry⟩ := Table.mem_values_iff.mp (List.mem_filter.mp hIn).1
    exact ⟨id, entry, hEntry, rfl⟩
  | registered hTask =>
    exact h.quiet hGuard
      ⟨fun _ _ hIn => hIn, rfl, rfl,
        Or.inr ⟨_, rfl, mild_of_silent rfl (by simp) (by simp)⟩⟩
      (hActive hTask (by simp)) (by simp) (by simp)
  | @guardDropped t grantId cloned pipe hTask =>
    have hSame : (r.dropGuard grantId pipe.id).grants = r.grants ∧
        (r.dropGuard grantId pipe.id).authority = r.authority ∧
        (r.dropGuard grantId pipe.id).tasks = r.tasks ∧
        (r.dropGuard grantId pipe.id).trail = r.trail := by
      unfold dropGuard
      split <;> exact ⟨rfl, rfl, rfl, rfl⟩
    obtain ⟨hGrants, hAuthority, hTasks, hTrail⟩ := hSame
    exact h.quiet hGuard
      (.of_eq hGrants hAuthority (congrArg (Function.update · t _) hTasks) hTrail)
      (hActive hTask (by simp)) (by simp) (by simp)

theorem authorized_init : Authorized registrySystem.init where
  guarded := .init
  named := fun _ _ _ _ hTask => by cases hTask
  drained := fun _ _ _ _ hTask => by cases hTask
  under := fun _ _ hEntry => by cases hEntry
  once := fun _ _ _ _ hIn => by cases hIn
  held := fun _ _ hEntry => by cases hEntry
  reported := .nil

theorem authorized_reachable (h : Reachable registrySystem r) : Authorized r :=
  h.invariant (I := Authorized)
    (fun _ _ _ hInv _ hStep => authorized_step hInv (registrySystem_move hStep)) authorized_init

end

end Registry

/-! ## What the trail says about the authority -/

def latest : List Event → Option BrokerIdentity
  | [] => none
  | .observed _ authority _ :: _ => some authority
  | .invalidated _ :: _ => none
  | _ :: older => latest older

def Continues (e : Event) (older : List Event) : Prop :=
  ∀ t authority previous, e = .observed t authority previous → previous = latest older

def Names (e : Event) (older : List Event) : Prop :=
  ∀ t id authority grant, e = .inserted t id authority grant → latest older = some authority

theorem latest_none {newer older : List Event} (hOlder : latest older = none)
    (hNewer : ∀ t a p, .observed t a p ∉ newer) : latest (newer ++ older) = none := by
  induction newer with
  | nil => exact hOlder
  | cons e newer ih =>
    have hRest := ih fun t a p hIn => hNewer t a p (List.mem_cons_of_mem _ hIn)
    cases e with
    | observed t a p => exact absurd (List.mem_cons_self ..) (hNewer t a p)
    | invalidated => rfl
    | _ => exact hRest

theorem reset_between {newer older : List Event} {t : Nat} {a b : BrokerIdentity}
    {previous : Option BrokerIdentity}
    (hTrail : Historically Continues (newer ++ .observed t a previous :: older))
    (hLatest : latest (newer ++ .observed t a previous :: older) = some b) (hNe : a ≠ b) :
    ∃ between e before, newer = between ++ e :: before ∧ e.resets := by
  induction newer with
  | nil => exact absurd (Option.some.inj hLatest) hNe
  | cons e newer ih =>
    -- an event that leaves the authority as it was is not the one
    have hRest : latest (newer ++ .observed t a previous :: older) = some b →
        ∃ between e' before, e :: newer = between ++ e' :: before ∧ e'.resets := by
      intro hOld
      obtain ⟨between, e', before, rfl, hResets⟩ := ih hTrail.tail hOld
      exact ⟨e :: between, e', before, rfl, hResets⟩
    cases e with
    | observed t' b' previous' =>
      obtain rfl := Option.some.inj hLatest
      have hPrevious := hTrail [] _ _ rfl t' b' previous' rfl
      by_cases hSame : previous' = some b'
      · exact hRest (hPrevious.symm.trans hSame)
      · exact ⟨[], _, newer, rfl, decide_eq_true hSame⟩
    | invalidated => cases hLatest
    | _ => exact hRest hLatest

namespace Registry

/-- The authority is what the trail says, and no call inserts two grants. -/
structure Recorded (r : Registry) : Prop where
  authority : r.authority = latest r.trail
  continues : Historically Continues r.trail
  names : Historically Names r.trail
  single : ∀ c id a grant id' a' grant', .inserted c id a grant ∈ r.trail →
    .inserted c id' a' grant' ∈ r.trail → a = a'

section

variable {r r' : Registry} {a : Action}

theorem Recorded.event (h : Recorded r) {e : Event} (hTrail : r'.trail = e :: r.trail)
    (hAuthority : r'.authority = latest (e :: r.trail)) (hContinues : Continues e r.trail)
    (hInserted : ∀ t id a g, e ≠ .inserted t id a g) : Recorded r' := by
  have hOld : ∀ {c id a g}, .inserted c id a g ∈ r'.trail → .inserted c id a g ∈ r.trail := by
    intro c id a g hIn
    rw [hTrail] at hIn
    rcases List.mem_cons.mp hIn with hEq | hIn
    · exact absurd hEq.symm (hInserted c id a g)
    · exact hIn
  refine ⟨by rw [hAuthority, hTrail], ?_, ?_, ?_⟩
  · rw [hTrail]
    exact h.continues.cons hContinues
  · rw [hTrail]
    exact h.names.cons fun t id a g hEq => absurd hEq (hInserted t id a g)
  · intro c id a g id' a' g' h₁ h₂
    exact h.single c id a g id' a' g' (hOld h₁) (hOld h₂)

theorem Recorded.note (h : Recorded r) {e : Event} (hAuthority : r'.authority = r.authority)
    (hTrail : r'.trail = e :: r.trail) (hLatest : latest (e :: r.trail) = latest r.trail)
    (hObserved : ∀ t a p, e ≠ .observed t a p) (hInserted : ∀ t id a g, e ≠ .inserted t id a g) :
    Recorded r' :=
  h.event hTrail (hAuthority.trans (h.authority.trans hLatest.symm))
    (fun t a p hEq => absurd hEq (hObserved t a p)) hInserted

theorem recorded_step (hAuthorized : Authorized r) (h : Recorded r) (hMove : r.Move a r') :
    Recorded r' := by
  have hFound : ∀ {t : Nat} {b : BrokerIdentity}, Continues (.observed t b r.authority) r.trail := by
    intro t b t' b' p hEq
    cases hEq
    exact h.authority
  cases hMove with
  | @inserted t authority grant control hTask =>
    refine ⟨h.authority, h.continues.cons nofun, h.names.cons ?_, ?_⟩
    · intro t' id a' grant' hEq
      cases hEq
      exact h.authority.symm.trans (hAuthorized.named t authority grant control hTask)
    have hNever : ∀ id a' grant', .inserted t id a' grant' ∉ r.trail := by
      intro id a' grant' hIn
      obtain ⟨answer, hReturned⟩ := hAuthorized.once t id a' grant' hIn
      cases hTask.symm.trans hReturned
    intro c id a g id' a' g' h₁ h₂
    rcases List.mem_cons.mp h₁ with hEq₁ | h₁
    · cases hEq₁
      rcases List.mem_cons.mp h₂ with hEq₂ | h₂
      · cases hEq₂
        rfl
      · exact absurd h₂ (hNever id' a' g')
    · rcases List.mem_cons.mp h₂ with hEq₂ | h₂
      · cases hEq₂
        exact absurd h₁ (hNever id a g)
      · exact h.single c id a g id' a' g' h₁ h₂
  | observedSame => exact h.event rfl rfl hFound (by simp)
  | @concluded t cloned ending =>
    cases ending with
    | observe => exact h.event rfl rfl hFound (by simp)
    | invalidate =>
      exact h.event rfl rfl nofun nofun
    | revoke | expire => exact ⟨h.authority, h.continues, h.names, h.single⟩
  | drained | expired | shut | found | listed | registered =>
    exact h.note rfl rfl rfl (by simp) (by simp)
  | @guardDropped t grantId cloned pipe =>
    have hSame : (r.dropGuard grantId pipe.id).authority = r.authority ∧
        (r.dropGuard grantId pipe.id).trail = r.trail := by
      unfold dropGuard
      split <;> exact ⟨rfl, rfl⟩
    refine ⟨?_, ?_, ?_, ?_⟩
    · exact hSame.1.trans (h.authority.trans (congrArg latest hSame.2.symm))
    · exact hSame.2.symm ▸ h.continues
    · exact hSame.2.symm ▸ h.names
    · exact hSame.2.symm ▸ h.single
  | _ => exact ⟨h.authority, h.continues, h.names, h.single⟩

theorem recorded_init : Recorded registrySystem.init :=
  ⟨rfl, .nil, .nil, nofun⟩

theorem closed_until_observed (hRecorded : Recorded r) {newer older : List Event}
    (hTrail : r.trail = newer ++ older) (hOlder : latest older = none)
    (hNewer : ∀ t a p, .observed t a p ∉ newer) :
    r.authority = none ∧ ∀ t id a grant, .inserted t id a grant ∉ newer := by
  refine ⟨?_, ?_⟩
  · rw [hRecorded.authority, hTrail]
    exact latest_none hOlder hNewer
  · intro t id a grant hIn
    obtain ⟨newest, between, rfl⟩ := List.append_of_mem hIn
    have hSplit : r.trail = newest ++ .inserted t id a grant :: (between ++ older) := by
      rw [hTrail, List.append_assoc, List.cons_append]
    have hSome := hRecorded.names _ _ _ hSplit t id a grant rfl
    have hNone : latest (between ++ older) = none := by
      refine latest_none hOlder fun t a p hObserved => hNewer t a p ?_
      exact List.mem_append_right _ (List.mem_cons_of_mem _ hObserved)
    cases hNone.symm.trans hSome

theorem survivor_named (hAuthorized : Authorized r) (hRecorded : Recorded r)
    {newer older : List Event} {t : Nat} {b : BrokerIdentity} {previous : Option BrokerIdentity}
    (hTrail : r.trail = newer ++ .observed t b previous :: older) {id : Nat} {entry : GrantEntry}
    (hEntry : r.grants.lookup id = some entry) {id' : Nat} {a' : BrokerIdentity} {grant : Grant}
    (hIn : .inserted entry.call id' a' grant ∈ older) : a' = b := by
  obtain ⟨current, hAuthority, id'', hInserted⟩ := hAuthorized.under id entry hEntry
  have hOld : .inserted entry.call id' a' grant ∈ r.trail := by
    rw [hTrail]
    exact List.mem_append_right _ (List.mem_cons_of_mem _ hIn)
  have hNamed : a' = current := hRecorded.single _ _ _ _ _ _ _ hOld hInserted
  by_contra hNe
  have hLatest : latest r.trail = some current := hRecorded.authority.symm.trans hAuthority
  have hContinues := hRecorded.continues
  rw [hTrail] at hLatest hContinues
  have hOther : b ≠ current := fun hEq => hNe (hNamed.trans hEq.symm)
  obtain ⟨between, e, before, rfl, hResets⟩ := reset_between hContinues hLatest hOther
  refine hAuthorized.held id entry hEntry ⟨between, e, before ++ .observed t b previous :: older,
    ?_, ⟨hResets, id', a', grant, ?_⟩, fun _ _ hFalse => hFalse⟩
  · rw [hTrail, List.append_assoc, List.cons_append]
  · exact List.mem_append_right _ (List.mem_cons_of_mem _ hIn)

end

end Registry

/-- **Grants live under their authority**: in every interleaving of the calls,
every held grant was inserted by a call that named the authority the registry
has, and once another authority was observed, or the authority invalidated, no
grant inserted before is reported again. -/
theorem grants_under_authority {r : Registry} (h : Reachable registrySystem r) :
    (∀ id entry, r.grants.lookup id = some entry →
      ∃ a, r.authority = some a ∧
        ∀ id' entry', r.grants.lookup id' = some entry' → r.InsertedUnder entry' a) ∧
    ∀ newer e older, r.trail = newer ++ e :: older → e.resets = true →
      ∀ c id a grant, .inserted c id a grant ∈ older →
        ∀ t calls, .reported t calls ∈ newer → c ∉ calls := by
  have hInv := Registry.authorized_reachable h
  constructor
  · intro id entry hEntry
    obtain ⟨a, hAuthority, -⟩ := hInv.under id entry hEntry
    refine ⟨a, hAuthority, ?_⟩
    intro id' entry' hEntry'
    obtain ⟨a', hAuthority', hIn⟩ := hInv.under id' entry' hEntry'
    obtain rfl := Option.mem_unique hAuthority hAuthority'
    exact hIn
  · intro newer e older hTrail hResets c id a grant hIn t calls hReported hc
    obtain ⟨newest, between, rfl⟩ := List.append_of_mem hReported
    have hSplit : r.trail = newest ++ .reported t calls :: (between ++ e :: older) := by
      rw [hTrail, List.append_assoc, List.cons_append]
    refine hInv.reported _ _ _ hSplit t calls rfl c hc ?_
    exact ⟨between, e, older, rfl, ⟨hResets, id, a, grant, hIn⟩, fun _ _ hFalse => hFalse⟩

/-- A LOCK changes the epoch: the old grant is gone, a new one is listed. -/
theorem grants_under_authority_change :
    ∃ (r : Registry) (a b : BrokerIdentity) (grant : Grant) (newer older : List Event),
      Reachable registrySystem r ∧ a ≠ b ∧ r.authority = some b ∧
      r.grants.lookup 1 = some ⟨grant, 0, 4⟩ ∧ r.InsertedUnder ⟨grant, 0, 4⟩ b ∧
      r.trail = newer ++ .observed 3 b (some a) :: older ∧ .inserted 1 0 a grant ∈ older ∧
      .reported 5 [4] ∈ newer ∧ ∀ t calls, .reported t calls ∈ newer → 1 ∉ calls := by
  let a : BrokerIdentity := ⟨"broker", 0, ⟨1, 2⟩⟩
  let b : BrokerIdentity := ⟨"broker", 1, ⟨1, 2⟩⟩
  let grant : Grant := ⟨"session", ⟨10, 20⟩, [7], 100, 9000⟩
  let turn (t : Nat) : Action := .turn t true
  let actions : List Action :=
    [.call 0 (.observeAuthority a), turn 0,
     .call 1 (.insertIfAuthority a grant 0), turn 1, turn 1, .call 2 (.live 0), turn 2,
     .call 3 (.observeAuthority b), turn 3, turn 3, turn 3, turn 3,
     .call 4 (.insertIfAuthority b grant 0), turn 4, turn 4, .call 5 .snapshotLive, turn 5, turn 5]
  have hReplay : (registrySystem.run registrySystem.init actions).map (fun r =>
      decide (r.authority = some b ∧ r.grants.lookup 1 = some ⟨grant, 0, 4⟩ ∧
        r.trail = [.reported 5 [4], .inserted 4 1 b grant] ++ .observed 3 b (some a) ::
          [.removed 3 [0], .reported 2 [1], .inserted 1 0 a grant, .observed 0 a none])) =
      some true := by
    decide +kernel
  obtain ⟨r, hReach, hSeen⟩ := Reachable.of_replay hReplay
  obtain ⟨hAuthority, hEntry, hTrail⟩ := of_decide_eq_true hSeen
  obtain ⟨hHeld, hGone⟩ := grants_under_authority hReach
  obtain ⟨a', hAuthority', hUnder⟩ := hHeld 1 _ hEntry
  obtain rfl := Option.mem_unique hAuthority hAuthority'
  refine ⟨r, a, b, grant, _, _, hReach, by decide, hAuthority, hEntry,
    hUnder 1 _ hEntry, hTrail, by simp, by simp, ?_⟩
  exact hGone _ _ _ hTrail (by decide) 1 0 a grant (by simp)

end Forward.Browser

import Forward.Browser.Registry
import Forward.Lib.History

/-!
# Ending a grant severs its sessions

A pipe whose guard is held is in the table under a grant that is still there, or in the hands of
the call that took the grant out, which shuts it down before it returns.

Both are numbered by one 64-bit counter that wraps around: a number that was removed comes back
after 2^64 others.
-/

namespace Forward.Browser

open Lib Secretsd

/-- The event hands out a number. -/
def Event.mints : Event → Bool
  | .inserted _ _ _ _ | .registered _ _ _ => true
  | _ => false

def mints (trail : List Event) : Nat := trail.countP Event.mints

def Event.neutral : Event → Bool
  | .observed _ _ _ | .invalidated _ | .reported _ _ => true
  | _ => false

variable {e : Event}

theorem Event.mints_of_neutral (h : e.neutral) : e.mints = false := by
  cases e with
  | observed | invalidated | reported => rfl
  | _ => cases h

theorem mints_cons_of_mints (he : e.mints) (trail : List Event) :
    mints (e :: trail) = mints trail + 1 := List.countP_cons_of_pos he

theorem mints_cons_of_not (he : e.mints = false) (trail : List Event) :
    mints (e :: trail) = mints trail :=
  List.countP_cons_of_neg (by rw [he]; exact Bool.false_ne_true)

/-- The pipes a call has taken out of the table and not shut down yet. -/
def Task.pipes : Task → List Pipe
  | .severing _ pipes _ => pipes
  | _ => []

theorem Task.mem_pipes {task : Task} {p : Pipe} (h : p ∈ task.pipes) :
    ∃ ending ps controls, task = .severing ending ps controls ∧ p ∈ ps := by
  cases task with
  | severing ending ps controls => exact ⟨ending, ps, controls, rfl, h⟩
  | _ => cases h

namespace Registry

/-! ## Numbers -/

def Counted (r : Registry) : Prop := r.nextId = mints r.trail % idSpace

variable {r : Registry}

theorem counted_step {r' : Registry} {a : Action} (h : r.Counted) (hMove : r.Move a r') :
    r'.Counted := by
  have hMint : ∀ {e : Event}, e.mints →
      (r.nextId + 1) % idSpace = mints (e :: r.trail) % idSpace := by
    intro e he
    rw [mints_cons_of_mints he, h, Nat.mod_add_mod]
  have hKeep : ∀ {e : Event}, e.mints = false → r.nextId = mints (e :: r.trail) % idSpace := by
    intro e he
    rw [mints_cons_of_not he]
    exact h
  cases hMove with
  | inserted | registered => exact hMint rfl
  | observedSame | drained | expired | shut | found | listed => exact hKeep rfl
  | @concluded t cloned ending =>
    cases ending with
    | observe | invalidate => exact hKeep rfl
    | revoke | expire => exact h
  | @guardDropped =>
    unfold dropGuard
    split <;> exact h
  | _ => exact h

theorem counted_reachable (h : Reachable registrySystem r) : r.Counted :=
  h.invariant (I := Counted) (fun _ _ _ hInv _ hStep => counted_step hInv (registrySystem_move hStep)) rfl

def Sealed (e : Event) (older : List Event) : Prop :=
  ∀ t g p, e = .registered t g p → ∀ t' ids, .removed t' ids ∈ older → g ∉ ids

/-- Every number in use was handed out once, and a removed one stays out of the
registry. -/
structure Numbered (grants : Table Nat GrantEntry) (trail : List Event) : Prop where
  granted : ∀ id, id ∈ grants → id < mints trail
  removed : ∀ t ids g, .removed t ids ∈ trail → g ∈ ids → g < mints trail ∧ g ∉ grants
  piped : ∀ t g p, .registered t g p ∈ trail → p.id < mints trail
  unique : ∀ t g p t' g' p', .registered t g p ∈ trail → .registered t' g' p' ∈ trail →
    p.id = p'.id → p = p'
  sealed : Historically Sealed trail

namespace Numbered

variable {grants grants' : Table Nat GrantEntry} {trail : List Event}

theorem note (h : Numbered grants trail) {e : Event} (hMints : e.mints = false)
    (hRemoved : ∀ t ids, e ≠ .removed t ids) : Numbered grants (e :: trail) := by
  have hCount := mints_cons_of_not hMints trail
  have hOld : ∀ {t g p}, .registered t g p ∈ e :: trail → .registered t g p ∈ trail := by
    intro t g p hIn
    rcases List.mem_cons.mp hIn with rfl | hIn
    · cases hMints
    · exact hIn
  refine ⟨?_, ?_, ?_, ?_, h.sealed.cons ?_⟩
  · rw [hCount]
    exact h.granted
  · intro t ids g hIn hg
    rw [hCount]
    rcases List.mem_cons.mp hIn with hEq | hIn
    · exact absurd hEq.symm (hRemoved t ids)
    · exact h.removed t ids g hIn hg
  · intro t g p hIn
    rw [hCount]
    exact h.piped t g p (hOld hIn)
  · intro t₁ g₁ p₁ t₂ g₂ p₂ h₁ h₂
    exact h.unique t₁ g₁ p₁ t₂ g₂ p₂ (hOld h₁) (hOld h₂)
  · rintro t g p rfl
    cases hMints

variable {t : Nat}

theorem remove (h : Numbered grants trail) {ids : List Nat}
    (hIds : ∀ id ∈ ids, id ∈ grants) (hGrants : ∀ id, id ∈ grants' ↔ id ∈ grants ∧ id ∉ ids) :
    Numbered grants' (.removed t ids :: trail) := by
  have hCount := mints_cons_of_not (rfl : (Event.removed t ids).mints = false) trail
  have hOld : ∀ {t' g p}, .registered t' g p ∈ Event.removed t ids :: trail →
      .registered t' g p ∈ trail := List.mem_of_ne_of_mem nofun
  refine ⟨?_, ?_, ?_, ?_, h.sealed.cons nofun⟩
  · intro id hIn
    rw [hCount]
    exact h.granted id ((hGrants id).mp hIn).1
  · intro t' ids' g hIn hg
    rw [hCount]
    rcases List.mem_cons.mp hIn with hEq | hIn
    · cases hEq
      exact ⟨h.granted g (hIds g hg), fun hHeld => ((hGrants g).mp hHeld).2 hg⟩
    · obtain ⟨hLt, hNot⟩ := h.removed t' ids' g hIn hg
      exact ⟨hLt, fun hHeld => hNot ((hGrants g).mp hHeld).1⟩
  · intro t' g p hIn
    rw [hCount]
    exact h.piped t' g p (hOld hIn)
  · intro t₁ g₁ p₁ t₂ g₂ p₂ h₁ h₂
    exact h.unique t₁ g₁ p₁ t₂ g₂ p₂ (hOld h₁) (hOld h₂)

theorem insert (h : Numbered grants trail) {a : BrokerIdentity} {grant : Grant}
    (hGrants : ∀ id, id ∈ grants' ↔ id = mints trail ∨ id ∈ grants) :
    Numbered grants' (.inserted t (mints trail) a grant :: trail) := by
  have hCount := mints_cons_of_mints
    (rfl : (Event.inserted t (mints trail) a grant).mints) trail
  have hOld : ∀ {t' g p}, .registered t' g p ∈ Event.inserted t (mints trail) a grant :: trail →
      .registered t' g p ∈ trail := List.mem_of_ne_of_mem nofun
  refine ⟨?_, ?_, ?_, ?_, h.sealed.cons nofun⟩
  · intro id hIn
    rw [hCount]
    rcases (hGrants id).mp hIn with rfl | hIn
    · exact Nat.lt_succ_self _
    · exact Nat.lt_succ_of_lt (h.granted id hIn)
  · intro t' ids g hIn hg
    rw [hCount]
    obtain ⟨hLt, hNot⟩ := h.removed t' ids g ((List.mem_cons.mp hIn).resolve_left nofun) hg
    refine ⟨Nat.lt_succ_of_lt hLt, fun hHeld => ?_⟩
    rcases (hGrants g).mp hHeld with rfl | hHeld
    · exact Nat.lt_irrefl _ hLt
    · exact hNot hHeld
  · intro t' g p hIn
    rw [hCount]
    exact Nat.lt_succ_of_lt (h.piped t' g p (hOld hIn))
  · intro t₁ g₁ p₁ t₂ g₂ p₂ h₁ h₂
    exact h.unique t₁ g₁ p₁ t₂ g₂ p₂ (hOld h₁) (hOld h₂)

theorem register (h : Numbered grants trail) {g : Nat} {p : Pipe} (hGrant : g ∈ grants)
    (hId : p.id = mints trail) : Numbered grants (.registered t g p :: trail) := by
  have hCount := mints_cons_of_mints (rfl : (Event.registered t g p).mints) trail
  refine ⟨?_, ?_, ?_, ?_, h.sealed.cons ?_⟩
  · intro id hIn
    rw [hCount]
    exact Nat.lt_succ_of_lt (h.granted id hIn)
  · intro t' ids g' hIn hg
    rw [hCount]
    obtain ⟨hLt, hNot⟩ := h.removed t' ids g' ((List.mem_cons.mp hIn).resolve_left nofun) hg
    exact ⟨Nat.lt_succ_of_lt hLt, hNot⟩
  · intro t' g' p' hIn
    rw [hCount]
    rcases List.mem_cons.mp hIn with hEq | hIn
    · cases hEq
      rw [hId]
      exact Nat.lt_succ_self _
    · exact Nat.lt_succ_of_lt (h.piped t' g' p' hIn)
  · intro t₁ g₁ p₁ t₂ g₂ p₂ h₁ h₂ hEq
    rcases List.mem_cons.mp h₁ with hNew₁ | h₁
    · cases hNew₁
      rcases List.mem_cons.mp h₂ with hNew₂ | h₂
      · cases hNew₂
        rfl
      · have hLt := h.piped t₂ g₂ p₂ h₂
        omega
    · have hLt := h.piped t₁ g₁ p₁ h₁
      rcases List.mem_cons.mp h₂ with hNew₂ | h₂
      · cases hNew₂
        omega
      · exact h.unique t₁ g₁ p₁ t₂ g₂ p₂ h₁ h₂ hEq
  · intro t' g' p' hEq t'' ids hIn hg
    cases hEq
    exact (h.removed t'' ids g hIn hg).2 hGrant

end Numbered

/-! ## Pipes -/

def Ends (r : Registry) (t : Nat) (p : Pipe) : Prop :=
  ∃ g ids, .registered p.call g p ∈ r.trail ∧ .removed t ids ∈ r.trail ∧ g ∈ ids

/-- The pipe is in the table; or the call that removed its grant has shut it
down, or has it at hand. -/
def Served (r : Registry) (g : Nat) (p : Pipe) : Prop :=
  (∃ ps, r.pipes.lookup g = some ps ∧ p ∈ ps) ∨
    ∃ t ids, .removed t ids ∈ r.trail ∧ g ∈ ids ∧
      (.shut t p ∈ r.trail ∨ ∃ task, r.tasks t = some task ∧ p ∈ task.pipes)

structure Piped (r : Registry) : Prop where
  keys : ∀ id, id ∈ r.pipes → id ∈ r.grants
  listed : ∀ id ps p, r.pipes.lookup id = some ps → p ∈ ps → .registered p.call id p ∈ r.trail
  taken : ∀ t task p, r.tasks t = some task → p ∈ task.pipes → r.Ends t p
  shut : ∀ t p, .shut t p ∈ r.trail → r.Ends t p
  guards : ∀ t g p, r.tasks t = some (.guarding g p) →
    p.call = t ∧ .registered t g p ∈ r.trail ∧ r.Served g p
  numbers : Numbered r.grants r.trail

section

variable {r r' : Registry} {t : Nat} {new : Task}

/-- The thread, which carries no pipes, moved on to `new`; neither table
changed. -/
structure Idle (r r' : Registry) (t : Nat) (new : Task) : Prop where
  grants : r'.grants = r.grants
  pipes : r'.pipes = r.pipes
  tasks : r'.tasks = Function.update r.tasks t (some new)
  trail : r'.trail = r.trail ∨ ∃ e, r'.trail = e :: r.trail ∧ e.neutral = true
  empty : ∀ old, r.tasks t = some old → old.pipes = []
  carries : new.pipes = []
  unguarded : ∀ g p, new ≠ .guarding g p

theorem Idle.mem_iff (h : Idle r r' t new) {e : Event} (he : e.neutral = false) :
    e ∈ r'.trail ↔ e ∈ r.trail := by
  rcases h.trail with hSame | ⟨x, hCons, hNeutral⟩
  · rw [hSame]
  · rw [hCons, List.mem_cons]
    refine ⟨?_, .inr⟩
    rintro (rfl | hIn)
    · cases he.symm.trans hNeutral
    · exact hIn

variable {p : Pipe}

theorem Ends.mono {r' : Registry} (h : r.Ends t p)
    (hTrail : ∀ e ∈ r.trail, e ∈ r'.trail) : r'.Ends t p := by
  obtain ⟨g, ids, hRegistered, hRemoved, hIn⟩ := h
  exact ⟨g, ids, hTrail _ hRegistered, hTrail _ hRemoved, hIn⟩

theorem Served.mono {g : Nat} (h : r.Served g p)
    (hTrail : ∀ e ∈ r.trail, e ∈ r'.trail)
    (hPipes : ∀ ps, r.pipes.lookup g = some ps → p ∈ ps → r'.Served g p)
    (hTasks : ∀ t task, r.tasks t = some task → p ∈ task.pipes →
      .shut t p ∈ r'.trail ∨ ∃ task', r'.tasks t = some task' ∧ p ∈ task'.pipes) :
    r'.Served g p := by
  rcases h with ⟨ps, hLookup, hIn⟩ | ⟨t', ids, hRemoved, hg, hShut | ⟨task, hTask, hIn⟩⟩
  · exact hPipes ps hLookup hIn
  · exact .inr ⟨t', ids, hTrail _ hRemoved, hg, .inl (hTrail _ hShut)⟩
  · exact .inr ⟨t', ids, hTrail _ hRemoved, hg, hTasks t' task hTask hIn⟩

theorem carried_update {old : Task} (hOld : r.tasks t = some old)
    (hEmpty : old.pipes = []) {t' : Nat} {task : Task} (hTask : r.tasks t' = some task)
    (hIn : p ∈ task.pipes) : Function.update r.tasks t (some new) t' = some task := by
  refine update_some_of_ne ?_ hTask
  rintro rfl
  obtain rfl := Option.mem_unique hOld hTask
  rw [hEmpty] at hIn
  cases hIn

theorem Piped.taken_update (h : Piped r) (hNew : new.pipes = []) {t' : Nat} {task : Task}
    (hTask : Function.update r.tasks t (some new) t' = some task) (hIn : p ∈ task.pipes) :
    r.Ends t' p := by
  rcases update_some_cases hTask with ⟨-, rfl⟩ | ⟨-, hOld⟩
  · rw [hNew] at hIn
    cases hIn
  · exact h.taken t' task p hOld hIn

theorem Piped.idle (h : Piped r) (hIdle : Idle r r' t new) : Piped r' := by
  have hTrail : ∀ e ∈ r.trail, e ∈ r'.trail := by
    intro e he
    rcases hIdle.trail with hSame | ⟨x, hCons, -⟩
    · exact hSame ▸ he
    · exact hCons ▸ List.mem_cons_of_mem _ he
  refine ⟨?_, ?_, ?_, ?_, ?_, ?_⟩
  · rw [hIdle.grants, hIdle.pipes]
    exact h.keys
  · intro id ps p hLookup hIn
    rw [hIdle.pipes] at hLookup
    exact hTrail _ (h.listed id ps p hLookup hIn)
  · intro t' task p hTask hIn
    rw [hIdle.tasks] at hTask
    exact (h.taken_update hIdle.carries hTask hIn).mono hTrail
  · intro t' p hShut
    exact (h.shut t' p ((hIdle.mem_iff rfl).mp hShut)).mono hTrail
  · intro t' g p hTask
    rw [hIdle.tasks] at hTask
    rcases update_some_cases hTask with ⟨-, hNew⟩ | ⟨-, hOld⟩
    · exact absurd hNew.symm (hIdle.unguarded g p)
    · obtain ⟨hCall, hRegistered, hServed⟩ := h.guards t' g p hOld
      refine ⟨hCall, hTrail _ hRegistered, hServed.mono hTrail ?_ ?_⟩
      · intro ps hLookup hIn
        exact .inl ⟨ps, hIdle.pipes ▸ hLookup, hIn⟩
      · intro t'' task hTask' hIn
        refine .inr ⟨task, ?_, hIn⟩
        rw [hIdle.tasks]
        refine update_some_of_ne ?_ hTask'
        rintro rfl
        rw [hIdle.empty task hTask'] at hIn
        cases hIn
  · rw [hIdle.grants]
    rcases hIdle.trail with hSame | ⟨x, hCons, hNeutral⟩
    · exact hSame ▸ h.numbers
    · rw [hCons]
      refine h.numbers.note (Event.mints_of_neutral hNeutral) ?_
      rintro t' ids rfl
      cases hNeutral

end

section

variable {r r' : Registry} {t : Nat}

variable {ending : Ending}

theorem Piped.take (h : Piped r) {old : Task} {grants : Table Nat GrantEntry}
    {pipes : Table Nat (List Pipe)} {ids controls : List Nat} {taken : List Pipe}
    (hTask : r.tasks t = some old) (hOld : old.pipes = [])
    (hIds : ∀ id ∈ ids, id ∈ r.grants)
    (hGrants : ∀ id, id ∈ grants ↔ id ∈ r.grants ∧ id ∉ ids)
    (hPipes : ∀ id ps, pipes.lookup id = some ps ↔ r.pipes.lookup id = some ps ∧ id ∉ ids)
    (hTaken : ∀ p, p ∈ taken ↔ ∃ id ps, id ∈ ids ∧ r.pipes.lookup id = some ps ∧ p ∈ ps) :
    Piped (({ r with grants := grants, pipes := pipes }.emit (.removed t ids)).setTask t
      (.severing ending taken controls)) := by
  refine ⟨?_, ?_, ?_, ?_, ?_, ?_⟩
  · intro id hIn
    obtain ⟨ps, hLookup⟩ := Option.isSome_iff_exists.mp (AList.lookup_isSome.mpr hIn)
    obtain ⟨hOldPipes, hNot⟩ := (hPipes id ps).mp hLookup
    have hKey : id ∈ r.pipes := AList.lookup_isSome.mp (by rw [hOldPipes]; rfl)
    exact (hGrants id).mpr ⟨h.keys id hKey, hNot⟩
  · intro id ps p hLookup hIn
    exact List.mem_cons_of_mem _ (h.listed id ps p ((hPipes id ps).mp hLookup).1 hIn)
  · intro t' task p hTask' hIn
    rcases update_some_cases hTask' with ⟨rfl, rfl⟩ | ⟨-, hOther⟩
    · obtain ⟨id, ps, hId, hLookup, hp⟩ := (hTaken p).mp hIn
      exact ⟨id, ids, List.mem_cons_of_mem _ (h.listed id ps p hLookup hp),
        List.mem_cons_self .., hId⟩
    · exact (h.taken t' task p hOther hIn).mono fun _ he => List.mem_cons_of_mem _ he
  · intro t' p hShut
    rcases List.mem_cons.mp hShut with hEq | hShut
    · cases hEq
    · exact (h.shut t' p hShut).mono fun _ he => List.mem_cons_of_mem _ he
  · intro t' g p hTask'
    rcases update_some_cases hTask' with ⟨-, hNew⟩ | ⟨-, hOther⟩
    · cases hNew
    · obtain ⟨hCall, hRegistered, hServed⟩ := h.guards t' g p hOther
      refine ⟨hCall, List.mem_cons_of_mem _ hRegistered,
        hServed.mono (fun _ he => List.mem_cons_of_mem _ he) ?_ ?_⟩
      · intro ps hLookup hIn
        by_cases hg : g ∈ ids
        · exact .inr ⟨t, ids, List.mem_cons_self .., hg,
            Or.inr ⟨_, Function.update_self .., (hTaken p).mpr ⟨g, ps, hg, hLookup, hIn⟩⟩⟩
        · exact .inl ⟨ps, (hPipes g ps).mpr ⟨hLookup, hg⟩, hIn⟩
      · intro t'' task hCarrier hIn
        exact .inr ⟨task, carried_update hTask hOld hCarrier hIn, hIn⟩
  · exact h.numbers.remove hIds hGrants

theorem Piped.drain (h : Piped r) (hTask : r.tasks t = some (.draining ending)) :
    Piped ((r.drainAll t).setTask t
      (.severing ending r.pipes.values.flatten (r.grants.values.map (·.control)))) := by
  refine h.take hTask rfl (fun id hId => AList.mem_keys.mpr hId) ?_ ?_ ?_
  · intro id
    refine ⟨fun hIn => absurd hIn (AList.notMem_empty id), ?_⟩
    rintro ⟨hIn, hNot⟩
    exact absurd (AList.mem_keys.mp hIn) hNot
  · intro id ps
    refine ⟨nofun, ?_⟩
    rintro ⟨hLookup, hNot⟩
    have hKey : id ∈ r.pipes := AList.lookup_isSome.mp (by rw [hLookup]; rfl)
    exact absurd (AList.mem_keys.mp (h.keys id hKey)) hNot
  · intro p
    rw [List.mem_flatten]
    constructor
    · rintro ⟨ps, hIn, hp⟩
      obtain ⟨id, hLookup⟩ := Table.mem_values_iff.mp hIn
      have hKey : id ∈ r.pipes := AList.lookup_isSome.mp (by rw [hLookup]; rfl)
      exact ⟨id, ps, AList.mem_keys.mp (h.keys id hKey), hLookup, hp⟩
    · rintro ⟨id, ps, -, hLookup, hp⟩
      exact ⟨ps, Table.mem_values_iff.mpr ⟨id, hLookup⟩, hp⟩

theorem Piped.expire (h : Piped r) {id : Nat} {answer : Answer}
    (hTask : r.tasks t = some (.expiring id answer)) :
    Piped ((r.remove t id).setTask t (.severing (.expire answer) ((r.pipes.lookup id).getD [])
      ((r.grants.lookup id).toList.map (·.control)))) := by
  -- a grant that is not there has no pipes
  have hIds : ∀ id', id' ∈ (if id ∈ r.grants then [id] else []) ↔ id ∈ r.grants ∧ id' = id := by
    intro id'
    split <;> simp_all
  have hKey : ∀ {id' ps}, r.pipes.lookup id' = some ps → id' ∈ r.grants := by
    intro id' ps hLookup
    exact h.keys id' (AList.lookup_isSome.mp (by rw [hLookup]; rfl))
  refine h.take hTask rfl ?_ ?_ ?_ ?_
  · intro id' hId
    obtain ⟨hIn, rfl⟩ := (hIds id').mp hId
    exact hIn
  · intro id'
    rw [AList.mem_erase, hIds]
    constructor
    · rintro ⟨hNe, hIn⟩
      exact ⟨hIn, fun hBoth => hNe hBoth.2⟩
    · rintro ⟨hIn, hNot⟩
      refine ⟨?_, hIn⟩
      rintro rfl
      exact hNot ⟨hIn, rfl⟩
  · intro id' ps
    rw [hIds]
    constructor
    · intro hLookup
      obtain ⟨hNe, hLookup⟩ := Table.lookup_erase_cases hLookup
      exact ⟨hLookup, fun hBoth => hNe hBoth.2⟩
    · rintro ⟨hLookup, hNot⟩
      have hNe : id' ≠ id := by
        rintro rfl
        exact hNot ⟨hKey hLookup, rfl⟩
      rw [AList.lookup_erase_ne hNe]
      exact hLookup
  · intro p
    constructor
    · intro hIn
      cases hLookup : r.pipes.lookup id with
      | none =>
        rw [hLookup] at hIn
        cases hIn
      | some ps =>
        rw [hLookup] at hIn
        exact ⟨id, ps, (hIds id).mpr ⟨hKey hLookup, rfl⟩, hLookup, hIn⟩
    · rintro ⟨id', ps, hId, hLookup, hp⟩
      obtain ⟨-, rfl⟩ := (hIds id').mp hId
      rw [hLookup]
      exact hp

theorem Piped.shutPipe (h : Piped r) {pipe : Pipe} {pipes : List Pipe}
    {controls : List Nat} (hTask : r.tasks t = some (.severing ending (pipe :: pipes) controls)) :
    Piped ((r.emit (.shut t pipe)).setTask t (.severing ending pipes controls)) := by
  have hTrail : ∀ e ∈ r.trail, e ∈ (r.emit (.shut t pipe)).trail :=
    fun _ he => List.mem_cons_of_mem _ he
  refine ⟨h.keys, fun id ps p hLookup hIn => hTrail _ (h.listed id ps p hLookup hIn),
    ?_, ?_, ?_, h.numbers.note rfl nofun⟩
  · intro t' task p hTask' hIn
    rcases update_some_cases hTask' with ⟨rfl, rfl⟩ | ⟨-, hOther⟩
    · exact (h.taken t' _ p hTask (List.mem_cons_of_mem _ hIn)).mono hTrail
    · exact (h.taken t' task p hOther hIn).mono hTrail
  · intro t' p hShut
    rcases List.mem_cons.mp hShut with hEq | hShut
    · cases hEq
      exact (h.taken t _ pipe hTask (List.mem_cons_self ..)).mono hTrail
    · exact (h.shut t' p hShut).mono hTrail
  · intro t' g p hTask'
    rcases update_some_cases hTask' with ⟨-, hNew⟩ | ⟨-, hOther⟩
    · cases hNew
    · obtain ⟨hCall, hRegistered, hServed⟩ := h.guards t' g p hOther
      refine ⟨hCall, hTrail _ hRegistered, hServed.mono hTrail ?_ ?_⟩
      · intro ps hLookup hIn
        exact .inl ⟨ps, hLookup, hIn⟩
      · intro t'' task hCarrier hIn
        by_cases hEq : t'' = t
        · subst hEq
          obtain rfl := Option.mem_unique hTask hCarrier
          rcases List.mem_cons.mp hIn with rfl | hIn
          · exact .inl (List.mem_cons_self ..)
          · exact .inr ⟨_, Function.update_self .., hIn⟩
        · exact .inr ⟨task, update_some_of_ne hEq hCarrier, hIn⟩

variable {g : Nat}

theorem Piped.guards_grow (h : Piped r) {old new : Task} {t' : Nat} {p : Pipe}
    (hTask : r.tasks t = some old) (hOld : old.pipes = [])
    (hTasks : r'.tasks = Function.update r.tasks t (some new))
    (hTrail : ∀ e ∈ r.trail, e ∈ r'.trail)
    (hPipes : ∀ ps, r.pipes.lookup g = some ps → p ∈ ps →
      ∃ ps', r'.pipes.lookup g = some ps' ∧ p ∈ ps')
    (hGuard : r.tasks t' = some (.guarding g p)) :
    p.call = t' ∧ .registered t' g p ∈ r'.trail ∧ r'.Served g p := by
  obtain ⟨hCall, hRegistered, hServed⟩ := h.guards t' g p hGuard
  refine ⟨hCall, hTrail _ hRegistered, hServed.mono hTrail ?_ ?_⟩
  · intro ps hLookup hIn
    exact .inl (hPipes ps hLookup hIn)
  · intro t'' task hCarrier hIn
    exact .inr ⟨task, hTasks ▸ carried_update hTask hOld hCarrier hIn, hIn⟩

theorem Piped.insertGrant (h : Piped r) {a : BrokerIdentity} {grant : Grant} {control : Nat}
    {answer : Answer} (hTask : r.tasks t = some (.checked a grant control))
    (hNext : r.nextId = mints r.trail) :
    Piped ((r.insert t a grant control).unlock.answer t answer) := by
  have hTrail : ∀ e ∈ r.trail, e ∈ (r.insert t a grant control).trail :=
    fun _ he => List.mem_cons_of_mem _ he
  refine ⟨?_, fun id ps p hLookup hIn => hTrail _ (h.listed id ps p hLookup hIn), ?_, ?_, ?_, ?_⟩
  · intro id hIn
    exact (AList.mem_insert _).mpr (.inr (h.keys id hIn))
  · intro t' task p hTask' hIn
    exact (h.taken_update rfl hTask' hIn).mono hTrail
  · intro t' p hShut
    exact (h.shut t' p ((List.mem_cons.mp hShut).resolve_left nofun)).mono hTrail
  · intro t' g p hTask'
    rcases update_some_cases hTask' with ⟨-, hNew⟩ | ⟨-, hOther⟩
    · cases hNew
    · exact h.guards_grow hTask rfl rfl hTrail (fun ps hLookup hIn => ⟨ps, hLookup, hIn⟩) hOther
  · have hGrants : ∀ id, id ∈ r.grants.insert r.nextId ⟨grant, control, t⟩ ↔
        id = mints r.trail ∨ id ∈ r.grants := by
      intro id
      rw [hNext]
      exact AList.mem_insert _
    have hNumbers : Numbered (r.grants.insert r.nextId ⟨grant, control, t⟩)
        (.inserted t (mints r.trail) a grant :: r.trail) := h.numbers.insert hGrants
    rw [← hNext] at hNumbers
    exact hNumbers

theorem Piped.registerPipe (h : Piped r) {client laptop : Nat}
    (hTask : r.tasks t = some (.registering g client laptop)) (hGrant : g ∈ r.grants)
    (hNext : r.nextId = mints r.trail) :
    Piped ((r.push t g ⟨r.nextId, client, laptop, t⟩).setTask t
      (.guarding g ⟨r.nextId, client, laptop, t⟩)) := by
  have hTrail : ∀ e ∈ r.trail, e ∈ (r.push t g ⟨r.nextId, client, laptop, t⟩).trail :=
    fun _ he => List.mem_cons_of_mem _ he
  refine ⟨?_, ?_, ?_, ?_, ?_, h.numbers.register hGrant hNext⟩
  · intro id hIn
    rcases (AList.mem_insert _).mp hIn with rfl | hIn
    · exact hGrant
    · exact h.keys id hIn
  · intro id ps p hLookup hIn
    rcases Table.lookup_insert_cases hLookup with ⟨rfl, rfl⟩ | ⟨-, hOld⟩
    · rcases List.mem_append.mp hIn with hIn | hIn
      · cases hPrev : r.pipes.lookup id with
        | none =>
          rw [hPrev] at hIn
          cases hIn
        | some prev =>
          rw [hPrev] at hIn
          exact hTrail _ (h.listed id prev p hPrev hIn)
      · obtain rfl := List.mem_singleton.mp hIn
        exact List.mem_cons_self ..
    · exact hTrail _ (h.listed id ps p hOld hIn)
  · intro t' task p hTask' hIn
    exact (h.taken_update rfl hTask' hIn).mono hTrail
  · intro t' p hShut
    exact (h.shut t' p ((List.mem_cons.mp hShut).resolve_left nofun)).mono hTrail
  · intro t' g' p hTask'
    rcases update_some_cases hTask' with ⟨rfl, hNew⟩ | ⟨-, hOther⟩
    · cases hNew
      refine ⟨rfl, List.mem_cons_self .., .inl ⟨_, AList.lookup_insert _, ?_⟩⟩
      exact List.mem_append_right _ (List.mem_singleton_self _)
    · refine h.guards_grow hTask rfl rfl hTrail ?_ hOther
      intro ps hLookup hIn
      by_cases hEq : g' = g
      · subst hEq
        refine ⟨_, AList.lookup_insert _, List.mem_append_left _ ?_⟩
        rw [hLookup]
        exact hIn
      · exact ⟨ps, (AList.lookup_insert_ne hEq).trans hLookup, hIn⟩

theorem Piped.dropPipe (h : Piped r) {q : Pipe}
    (hTask : r.tasks t = some (.guarding g q)) :
    Piped ((r.dropGuard g q.id).answer t .unit) := by
  obtain ⟨hCall, hRegistered, -⟩ := h.guards t g q hTask
  unfold dropGuard
  split
  · refine h.idle ⟨rfl, rfl, rfl, .inl rfl, ?_, rfl, nofun⟩
    intro old hOld
    obtain rfl := Option.mem_unique hTask hOld
    rfl
  · rename_i entries hEntries
    refine ⟨?_, ?_, ?_, h.shut, ?_, h.numbers⟩
    · intro id hIn
      rcases (AList.mem_insert _).mp hIn with rfl | hIn
      · exact h.keys id (AList.lookup_isSome.mp (by rw [hEntries]; rfl))
      · exact h.keys id hIn
    · intro id ps p hLookup hIn
      rcases Table.lookup_insert_cases hLookup with ⟨rfl, rfl⟩ | ⟨-, hOld⟩
      · exact h.listed id entries p hEntries (List.mem_filter.mp hIn).1
      · exact h.listed id ps p hOld hIn
    · intro t' task p hTask' hIn
      exact h.taken_update rfl hTask' hIn
    · intro t' g' p hTask'
      rcases update_some_cases hTask' with ⟨-, hNew⟩ | ⟨hNe, hOther⟩
      · cases hNew
      · refine h.guards_grow hTask rfl rfl (fun _ he => he) ?_ hOther
        intro ps hLookup hIn
        by_cases hEq : g' = g
        · subst hEq
          obtain rfl := Option.mem_unique hEntries hLookup
          refine ⟨_, AList.lookup_insert _, List.mem_filter.mpr ⟨hIn, decide_eq_true ?_⟩⟩
          intro hId
          -- the two guards would be one call's
          obtain ⟨hCall', hRegistered', -⟩ := h.guards t' g' p hOther
          obtain rfl := h.numbers.unique _ _ _ _ _ _ hRegistered' hRegistered hId
          exact hNe (hCall'.symm.trans hCall)
        · exact ⟨ps, (AList.lookup_insert_ne hEq).trans hLookup, hIn⟩

theorem piped_step {a : Action} (hCounted : r.Counted) (hBound : mints r'.trail ≤ idSpace)
    (h : Piped r) (hMove : r.Move a r') : Piped r' := by
  -- a number that is handed out is the count, not yet wrapped around
  have hNext : ∀ {e : Event}, e.mints → mints (e :: r.trail) ≤ idSpace →
      r.nextId = mints r.trail := by
    intro e he hLe
    rw [mints_cons_of_mints he] at hLe
    exact hCounted.trans (Nat.mod_eq_of_lt hLe)
  have hEmpty : ∀ {t : Nat} {task : Task}, r.tasks t = some task → task.pipes = [] →
      ∀ old, r.tasks t = some old → old.pipes = [] := by
    intro t task hTask hNone old hOld
    obtain rfl := Option.mem_unique hTask hOld
    exact hNone
  cases hMove with
  | @call t call hNew =>
    refine h.idle ⟨rfl, rfl, rfl, .inl rfl, ?_, ?_, ?_⟩
    · intro old hOld
      cases hNew.symm.trans hOld
    · cases call <;> rfl
    · intro g p hEq
      cases call <;> cases hEq
  | tick => exact ⟨h.keys, h.listed, h.taken, h.shut, h.guards, h.numbers⟩
  | inserted hTask => exact h.insertGrant hTask (hNext rfl hBound)
  | registered hTask hGrant => exact h.registerPipe hTask hGrant (hNext rfl hBound)
  | drained hTask => exact h.drain hTask
  | expired hTask => exact h.expire hTask
  | shut hTask => exact h.shutPipe hTask
  | guardDropped hTask => exact h.dropPipe hTask
  | @concluded t cloned ending hTask =>
    cases ending with
    | observe | invalidate =>
      exact h.idle ⟨rfl, rfl, rfl, .inr ⟨_, rfl, rfl⟩, hEmpty hTask rfl, rfl, nofun⟩
    | revoke | expire =>
      exact h.idle ⟨rfl, rfl, rfl, .inl rfl, hEmpty hTask rfl, rfl, nofun⟩
  | observedSame hTask | found hTask | listed hTask =>
    exact h.idle ⟨rfl, rfl, rfl, .inr ⟨_, rfl, rfl⟩, hEmpty hTask rfl, rfl, nofun⟩
  | insertRefused hTask | insertChecked hTask | insertFailed hTask | observedOther hTask
    | invalidating hTask | ended hTask | absent hTask | stale hTask | timed hTask
    | unregistered hTask =>
    exact h.idle ⟨rfl, rfl, rfl, .inl rfl, hEmpty hTask rfl, rfl, nofun⟩

theorem piped_init : Piped registrySystem.init where
  keys := fun id hIn => absurd hIn (AList.notMem_empty id)
  listed := fun _ _ _ hPipes => by cases hPipes
  taken := fun _ _ _ hTask => by cases hTask
  shut := fun _ _ hShut => by cases hShut
  guards := fun _ _ _ hTask => by cases hTask
  numbers := ⟨fun id hIn => absurd hIn (AList.notMem_empty id), nofun,
    nofun, nofun, .nil⟩

theorem piped_reachable (h : Reachable registrySystem r) (hBound : mints r.trail ≤ idSpace) :
    Piped r := by
  refine h.strengthen (I := fun r => mints r.trail ≤ idSpace → Piped r) (fun _ => piped_init) ?_
    hBound
  intro r a r' hReach hInv hStep hBound'
  have hMove := registrySystem_move hStep
  obtain ⟨new, hTrail⟩ := trail_step hMove
  have hLe : mints r.trail ≤ mints r'.trail := by
    rw [hTrail]
    exact (List.sublist_append_right new r.trail).countP_le
  exact piped_step (counted_reachable hReach) hBound' (hInv (Nat.le_trans hLe hBound')) hMove

end

end Registry

/-- **Ending a grant severs its sessions**, as long as the 64-bit numbers last: a pipe whose guard
is held is in the table under its grant, or the call that removed the grant has shut it down or
still carries it; no pipe is registered under a removed number; and a call shuts down only pipes
whose own grant it removed. -/
theorem ending_severs {r : Registry} (h : Reachable registrySystem r)
    (hBound : mints r.trail ≤ idSpace) :
    (∀ id, id ∈ r.pipes → id ∈ r.grants) ∧
    (∀ t g p, r.tasks t = some (.guarding g p) →
      (g ∈ r.grants ∧ ∃ ps, r.pipes.lookup g = some ps ∧ p ∈ ps) ∨
      ∃ t' ids, .removed t' ids ∈ r.trail ∧ g ∈ ids ∧
        (.shut t' p ∈ r.trail ∨
          ∃ ending ps controls, r.tasks t' = some (.severing ending ps controls) ∧ p ∈ ps)) ∧
    (∀ newer t ids older, r.trail = newer ++ .removed t ids :: older →
      ∀ g ∈ ids, ∀ t' p, .registered t' g p ∉ newer) ∧
    ∀ t p, .shut t p ∈ r.trail →
      ∃ g ids, .registered p.call g p ∈ r.trail ∧ .removed t ids ∈ r.trail ∧ g ∈ ids := by
  have hInv := Registry.piped_reachable h hBound
  refine ⟨hInv.keys, ?_, ?_, hInv.shut⟩
  · intro t g p hTask
    obtain ⟨-, -, ⟨ps, hLookup, hIn⟩ | ⟨t', ids, hRemoved, hg, hShut | ⟨task, hTask', hIn⟩⟩⟩ :=
      hInv.guards t g p hTask
    · have hKey : g ∈ r.pipes := AList.lookup_isSome.mp (by rw [hLookup]; rfl)
      exact .inl ⟨hInv.keys g hKey, ps, hLookup, hIn⟩
    · exact .inr ⟨t', ids, hRemoved, hg, .inl hShut⟩
    · obtain ⟨ending, ps, controls, rfl, hp⟩ := Task.mem_pipes hIn
      exact .inr ⟨t', ids, hRemoved, hg, .inr ⟨ending, ps, controls, hTask', hp⟩⟩
  · intro newer t ids older hTrail g hg t' p hIn
    obtain ⟨newest, between, rfl⟩ := List.append_of_mem hIn
    have hSplit : r.trail = newest ++ .registered t' g p :: (between ++ .removed t ids :: older) := by
      rw [hTrail, List.append_assoc, List.cons_append]
    exact hInv.numbers.sealed _ _ _ hSplit t' g p rfl t ids
      (List.mem_append_right _ (List.mem_cons_self ..)) hg

/-- Two pipes are registered and their grant revoked; one is shut down, the
other still in the hands of the revoking call. -/
theorem ending_severs_revoked :
    ∃ (r : Registry) (p q : Pipe), Reachable registrySystem r ∧ mints r.trail ≤ idSpace ∧
      r.tasks 3 = some (.guarding 0 q) ∧ .shut 4 p ∈ r.trail ∧ 0 ∉ r.grants ∧
      (∃ t ids, .removed t ids ∈ r.trail ∧ 0 ∈ ids ∧
        (.shut t q ∈ r.trail ∨
          ∃ ending ps controls, r.tasks t = some (.severing ending ps controls) ∧ q ∈ ps)) ∧
      ∃ g ids, .registered p.call g p ∈ r.trail ∧ .removed 4 ids ∈ r.trail ∧ g ∈ ids := by
  let a : BrokerIdentity := ⟨"broker", 0, ⟨1, 2⟩⟩
  let grant : Grant := ⟨"session", ⟨10, 20⟩, [7], 100, 9000⟩
  let turn (t : Nat) : Action := .turn t true
  let actions : List Action :=
    [.call 0 (.observeAuthority a), turn 0, .call 1 (.insertIfAuthority a grant 0), turn 1, turn 1,
     .call 2 (.registerPipe 0 5 6), turn 2, .call 3 (.registerPipe 0 7 8), turn 3,
     .call 4 .invalidateAuthority, turn 4, turn 4, turn 4]
  have hReplay : (registrySystem.run registrySystem.init actions).map (fun r =>
      decide (mints r.trail ≤ idSpace ∧ r.tasks 3 = some (.guarding 0 ⟨2, 7, 8, 3⟩) ∧
        .shut 4 ⟨1, 5, 6, 2⟩ ∈ r.trail ∧ 0 ∉ r.grants)) = some true := by
    decide +kernel
  obtain ⟨r, hReach, hSeen⟩ := Reachable.of_replay hReplay
  obtain ⟨hBound, hTask, hShut, hGone⟩ := of_decide_eq_true hSeen
  obtain ⟨-, hGuards, -, hOwn⟩ := ending_severs hReach hBound
  refine ⟨r, _, _, hReach, hBound, hTask, hShut, hGone, ?_, hOwn 4 _ hShut⟩
  rcases hGuards 3 0 _ hTask with ⟨hHeld, -⟩ | hTaken
  · exact absurd hHeld hGone
  · exact hTaken

/-! ## When the numbers wrap around -/

/-- A registry in which grant 0 was removed and grant 1 is there; `n` pipes have
come and gone since, one thread each. -/
structure Wrapping (a : BrokerIdentity) (n : Nat) (r : Registry) : Prop where
  reachable : Reachable registrySystem r
  next : r.nextId = (2 + n) % idSpace
  authority : r.authority = some a
  free : r.holder = none
  granted : 1 ∈ r.grants
  unused : ∀ t, 4 + n ≤ t → r.tasks t = none
  removed : .removed 2 [0] ∈ r.trail

def wrapAuthority : BrokerIdentity := ⟨"broker", 0, ⟨1, 2⟩⟩

def wrapGrant : Grant := ⟨"session", ⟨10, 20⟩, [7], 100, 9000⟩

theorem wrapping_start : ∃ r, Wrapping wrapAuthority 0 r := by
  let turn (t : Nat) : Action := .turn t true
  let insert (t : Nat) : Action := .call t (.insertIfAuthority wrapAuthority wrapGrant 0)
  let actions : List Action :=
    [.call 0 (.observeAuthority wrapAuthority), turn 0, insert 1, turn 1, turn 1,
     .call 2 (.expire 0), turn 2, insert 3, turn 3, turn 3]
  let check (_ : Registry) (x : Action) : Bool := x.thread.all fun t => decide (t < 4)
  have hReplay : ((registrySystem.guard check).run registrySystem.init actions).map (fun r =>
      decide (r.nextId = 2 ∧ r.authority = some wrapAuthority ∧ r.holder = none ∧ 1 ∈ r.grants ∧
        .removed 2 [0] ∈ r.trail)) = some true := by
    decide +kernel
  obtain ⟨r, hPath, hSeen⟩ := Path.of_replay hReplay
  obtain ⟨hNext, hAuthority, hFree, hGranted, hRemoved⟩ := of_decide_eq_true hSeen
  refine ⟨r, hPath.forget, hNext, hAuthority, hFree, hGranted, ?_, hRemoved⟩
  intro t ht
  refine hPath.invariant (I := fun r => r.tasks t = none) ?_ rfl
  intro x a y hNone hCheck hStep
  rw [Registry.tasks_other (registrySystem_move hStep), hNone]
  intro hThread
  have hLt : (a.thread.all fun t => decide (t < 4)) = true := hCheck
  rw [hThread, Option.all_some, decide_eq_true_eq] at hLt
  omega

theorem wrapping_round {a : BrokerIdentity} {n : Nat} {r : Registry} (h : Wrapping a n r) :
    ∃ r', Wrapping a (n + 1) r' := by
  let t := 4 + n
  let pipe : Pipe := ⟨r.nextId, 0, 0, t⟩
  let called := r.setTask t (.registering 1 0 0)
  let guarding := (called.push t 1 pipe).setTask t (.guarding 1 pipe)
  let dropped := (guarding.dropGuard 1 pipe.id).answer t .unit
  have hCall : registrySystem.step r (.call t (.registerPipe 1 0 0)) = some called := by
    simp only [registrySystem, Registry.step, h.unused t (Nat.le_refl _)]
    rfl
  have hPush : registrySystem.step called (.turn t true) = some guarding := by
    have hTask : called.tasks t = some (.registering 1 0 0) := Registry.setTask_self ..
    have hIn : ¬ 1 ∉ called.grants := not_not.mpr h.granted
    simp only [registrySystem, Registry.step, hTask, Registry.turn, if_neg hIn, if_pos]
    rfl
  have hDrop : registrySystem.step guarding (.turn t true) = some dropped := by
    have hTask : guarding.tasks t = some (.guarding 1 pipe) := Registry.setTask_self ..
    simp only [registrySystem, Registry.step, hTask, Registry.turn]
    rfl
  have hSame : dropped.nextId = (r.nextId + 1) % idSpace ∧ dropped.authority = r.authority ∧
      dropped.holder = r.holder ∧ dropped.grants = r.grants ∧
      dropped.trail = .registered t 1 pipe :: r.trail := by
    simp only [dropped, Registry.dropGuard]
    split <;> exact ⟨rfl, rfl, rfl, rfl, rfl⟩
  obtain ⟨hNext, hAuthority, hHolder, hGrants, hTrail⟩ := hSame
  refine ⟨dropped, ((h.reachable.step hCall).step hPush).step hDrop, ?_, ?_, ?_, ?_, ?_, ?_⟩
  · rw [hNext, h.next, Nat.mod_add_mod]
    rfl
  · rw [hAuthority, h.authority]
  · rw [hHolder, h.free]
  · rw [hGrants]
    exact h.granted
  · intro t' ht'
    have hNe : (some t : Option Nat) ≠ some t' := by
      intro hEq
      have := Option.some.inj hEq
      omega
    rw [Registry.tasks_other (registrySystem_move hDrop) hNe,
      Registry.tasks_other (registrySystem_move hPush) hNe,
      Registry.tasks_other (registrySystem_move hCall) hNe]
    exact h.unused t' (by omega)
  · rw [hTrail]
    exact List.mem_cons_of_mem _ h.removed

theorem wrapping_all (n : Nat) : ∃ r, Wrapping wrapAuthority n r := by
  induction n with
  | zero => exact wrapping_start
  | succ n ih =>
    obtain ⟨r, h⟩ := ih
    exact wrapping_round h

theorem wrapping_reuse {n : Nat} {r : Registry} (h : Wrapping wrapAuthority n r)
    (hZero : r.nextId = 0) :
    ∃ (r' : Registry) (newer older : List Event) (p : Pipe), Reachable registrySystem r' ∧
      r'.trail = newer ++ .removed 2 [0] :: older ∧ .registered (4 + n + 1) 0 p ∈ newer := by
  let t := 4 + n
  let inserting := r.setTask t (.inserting wrapAuthority wrapGrant 0)
  let checked := (inserting.lock t).setTask t (.checked wrapAuthority wrapGrant 0)
  let inserted := (checked.insert t wrapAuthority wrapGrant 0).unlock.answer t
    (.inserted (some checked.nextId))
  let called := inserted.setTask (t + 1) (.registering 0 0 0)
  let pipe : Pipe := ⟨called.nextId, 0, 0, t + 1⟩
  let registered := (called.push (t + 1) 0 pipe).setTask (t + 1) (.guarding 0 pipe)
  have hInsert : registrySystem.step r (.call t (.insertIfAuthority wrapAuthority wrapGrant 0)) =
      some inserting := by
    simp only [registrySystem, Registry.step, h.unused t (Nat.le_refl _)]
    rfl
  have hCheck : registrySystem.step inserting (.turn t true) = some checked := by
    have hTask : inserting.tasks t = some (.inserting wrapAuthority wrapGrant 0) :=
      Registry.setTask_self ..
    have hFree : ¬ inserting.holder ≠ none := not_not.mpr h.free
    have hSame : ¬ inserting.authority ≠ some wrapAuthority := not_not.mpr h.authority
    simp only [registrySystem, Registry.step, hTask, Registry.turn, if_neg hFree, if_neg hSame]
    rfl
  have hInserted : registrySystem.step checked (.turn t true) = some inserted := by
    have hTask : checked.tasks t = some (.checked wrapAuthority wrapGrant 0) :=
      Registry.setTask_self ..
    simp only [registrySystem, Registry.step, hTask, Registry.turn, if_pos]
    rfl
  have hNe : t + 1 ≠ t := Nat.succ_ne_self t
  have hCall : registrySystem.step inserted (.call (t + 1) (.registerPipe 0 0 0)) = some called := by
    have hTask : inserted.tasks (t + 1) = none := by
      have hOther : (some t : Option Nat) ≠ some (t + 1) := fun hEq => hNe (Option.some.inj hEq).symm
      rw [Registry.tasks_other (registrySystem_move hInserted) hOther,
        Registry.tasks_other (registrySystem_move hCheck) hOther,
        Registry.tasks_other (registrySystem_move hInsert) hOther]
      exact h.unused (t + 1) (Nat.le_succ _)
    simp only [registrySystem, Registry.step, hTask]
    rfl
  have hRegister : registrySystem.step called (.turn (t + 1) true) = some registered := by
    have hTask : called.tasks (t + 1) = some (.registering 0 0 0) := Registry.setTask_self ..
    have hIn : ¬ 0 ∉ called.grants := by
      refine not_not.mpr ((AList.mem_insert _).mpr (.inl ?_))
      exact hZero.symm
    simp only [registrySystem, Registry.step, hTask, Registry.turn, if_neg hIn, if_pos]
    rfl
  obtain ⟨newer, older, hTrail⟩ := List.append_of_mem h.removed
  have hReach := (((h.reachable.step hInsert).step hCheck).step hInserted).step hCall
  refine ⟨registered, .registered (t + 1) 0 pipe :: .inserted t r.nextId wrapAuthority wrapGrant ::
    newer, older, pipe, hReach.step hRegister, ?_, List.mem_cons_self ..⟩
  show .registered (t + 1) 0 pipe :: .inserted t r.nextId wrapAuthority wrapGrant :: r.trail = _
  rw [hTrail]
  rfl

/-- After 2^64 numbers the removed number 0 names a new grant, and a pipe is
registered under it. -/
theorem removed_id_reused :
    ∃ (r : Registry) (newer : List Event) (t : Nat) (ids : List Nat) (older : List Event)
      (g t' : Nat) (p : Pipe), Reachable registrySystem r ∧
      r.trail = newer ++ .removed t ids :: older ∧ g ∈ ids ∧ .registered t' g p ∈ newer := by
  obtain ⟨r, h⟩ := wrapping_all (idSpace - 2)
  have hZero : r.nextId = 0 := h.next.trans (by decide)
  obtain ⟨r', newer, older, p, hReach, hTrail, hIn⟩ := wrapping_reuse h hZero
  exact ⟨r', newer, 2, [0], older, 0, _, p, hReach, hTrail, List.mem_singleton_self _, hIn⟩

end Forward.Browser

import Forward.Edit.Doors

/-!
# The write lock of the doors

`lock_roots` takes the directory of every root, in the order of the configuration, and skips one
that it has already under another name. All processes have the same roots, so whoever is past it
holds the first root.
-/

namespace Forward.Edit

open Lib Secrets

/-! ## Places -/

def Task.critical : Task → Bool
  | .loading .. | .locking .. | .leaving .. | .returned .. => false
  | _ => true

def Task.Held (roots : List Root) (locks : Nat → Option Nat) (p : Nat) (task : Task) : Prop :=
  match task with
  | .locking _ rest locked =>
    (∃ done, roots = done ++ rest ∧ ∀ root ∈ done, root.identity ∈ locked) ∧
      ∀ identity ∈ locked, locks identity = some p
  | task => task.critical = true → ∀ root ∈ roots, locks root.identity = some p

/-! ## One step -/

section

variable {before : Option String → Option String → Prop} [DecidableRel before]
  {roots : List Root} {disk : Disk} {locks : Nat → Option Nat} {reply : Reply}
  {task task' : Task} {effect : Effect} {p q : Nat}

theorem Task.Held.turn (hHeld : task.Held roots locks p)
    (h : Turn before roots disk locks reply task task' effect) :
    task'.Held roots (effect.onLocks p locks) p := by
  cases h with
  | refuse | load | giveUp | rename | link _ | edit _ _ | place _ | leave => nofun
  | openAgent | openHuman => exact ⟨⟨[], rfl, nofun⟩, nofun⟩
  | lockedBefore hLocked =>
    obtain ⟨⟨done, hDone, hAll⟩, hOwn⟩ := hHeld
    rename_i root rest locked
    refine ⟨⟨done ++ [root], by rw [hDone]; simp, ?_⟩, hOwn⟩
    intro other hOther
    rcases List.mem_append.mp hOther with hOther | hOther
    · exact hAll other hOther
    · rw [List.mem_singleton.mp hOther]
      exact hLocked
  | lock hFree =>
    obtain ⟨⟨done, hDone, hAll⟩, hOwn⟩ := hHeld
    rename_i root rest locked
    refine ⟨⟨done ++ [root], by rw [hDone]; simp, ?_⟩, ?_⟩
    · intro other hOther
      rcases List.mem_append.mp hOther with hOther | hOther
      · exact List.mem_cons_of_mem _ (hAll other hOther)
      · rw [List.mem_singleton.mp hOther]
        exact List.mem_cons_self
    · intro identity hIdentity
      rcases List.mem_cons.mp hIdentity with rfl | hIdentity
      · exact Function.update_self ..
      · exact held_acquire hFree (hOwn identity hIdentity)
  | enterAgent | enterHuman =>
    obtain ⟨⟨done, hDone, hAll⟩, hOwn⟩ := hHeld
    rw [List.append_nil] at hDone
    subst hDone
    exact fun _ root hRoot => hOwn root.identity (hAll root hRoot)
  | _ => exact fun _ => hHeld rfl

theorem Task.Held.other (hHeld : task.Held roots locks q) (hNe : q ≠ p)
    {mine mine' : Task} (h : Turn before roots disk locks reply mine mine' effect) :
    task.Held roots (effect.onLocks p locks) q := by
  have hKeep : ∀ identity, locks identity = some q →
      effect.onLocks p locks identity = some q := by
    intro identity hOwn
    cases h with
    | lock hFree => exact held_acquire hFree hOwn
    | leave => exact held_release hOwn hNe
    | _ => exact hOwn
  unfold Held at hHeld ⊢
  split at hHeld
  · exact ⟨hHeld.1, fun identity hIdentity => hKeep identity (hHeld.2 identity hIdentity)⟩
  · exact fun hCritical root hRoot => hKeep root.identity (hHeld hCritical root hRoot)

/-- What a process may have locked where it stands. -/
def Task.mayHold (identity : Nat) : Task → Prop
  | .loading .. | .returned .. => False
  | .locking _ _ locked => identity ∈ locked
  | _ => True

theorem Task.mayHold.turn {identity : Nat} (hMay : task.mayHold identity)
    (h : Turn before roots disk locks reply task task' effect) (hKeep : effect ≠ .unlock) :
    task'.mayHold identity := by
  cases h with
  | refuse | load | openAgent | openHuman => cases hMay
  | lockedBefore => exact hMay
  | lock => exact List.mem_cons_of_mem _ hMay
  | leave => exact absurd rfl hKeep
  | _ => trivial

theorem critical_of_disk (h : Turn before roots disk locks reply task task' effect) :
    task.critical ∨ effect.onDisk disk = disk := by
  cases h with
  | rename | link _ | makeDir | edit _ _ | place _ => exact .inl rfl
  | _ => exact .inr rfl

theorem critical_unique (hRoots : roots ≠ []) (hp : task.Held roots locks p)
    (hq : task'.Held roots locks q) (hCritical : task.critical)
    (hCritical' : task'.critical) : p = q := by
  obtain ⟨root, hRoot⟩ := List.exists_mem_of_ne_nil roots hRoots
  have hFirst : locks root.identity = some p := by
    unfold Task.Held at hp
    split at hp
    · cases hCritical
    · exact hp hCritical root hRoot
  have hSecond : locks root.identity = some q := by
    unfold Task.Held at hq
    split at hq
    · cases hCritical'
    · exact hq hCritical' root hRoot
  exact Option.mem_unique hFirst hSecond

end

/-! ## Whole runs -/

section

variable {before : Option String → Option String → Prop} [DecidableRel before]
  {roots : List Root} {disk : Disk} {s t : Sys} {a : Action}

def Locked (roots : List Root) (s : Sys) : Prop :=
  ∀ p task, s.tasks p = some task → task.Held roots s.locks p

theorem locked_step (hLocked : Locked roots s) (hMove : Sys.Move before roots s a t) :
    Locked roots t := by
  intro q task hTask'
  cases hMove with
  | start =>
    rcases update_some_cases hTask' with ⟨rfl, rfl⟩ | ⟨-, hOld⟩
    · nofun
    · exact hLocked q task hOld
  | turn hTask hTurn =>
    rcases update_some_cases hTask' with ⟨rfl, rfl⟩ | ⟨hNe, hOld⟩
    · exact (hLocked _ _ hTask).turn hTurn
    · exact (hLocked q task hOld).other hNe hTurn

theorem locked_reachable (hReach : Reachable (edits before roots disk) s) : Locked roots s := by
  refine Path.invariant (I := Locked roots) ?_ hReach ?_
  · intro x a y hx _ hStep
    exact locked_step hx (edits_move hStep)
  · intro p task hTask
    cases hTask

/-! ## Nobody waits in a circle -/

/-- Every lock has an owner that may hold it, and whoever has one has the first root's. -/
structure Owned (roots : List Root) (s : Sys) : Prop where
  owner : ∀ identity q, s.locks identity = some q →
    ∃ task, s.tasks q = some task ∧ task.mayHold identity
  first : ∀ identity q, s.locks identity = some q →
    ∀ root ∈ roots.head?, s.locks root.identity = some q

theorem owned_turn {p : Nat} {reply : Reply} {task task' : Task} {effect : Effect}
    (hLocked : Locked roots s) (h : Owned roots s) (hTask : s.tasks p = some task)
    (hTurn : Turn before roots s.disk s.locks reply task task' effect) :
    Owned roots ⟨effect.onDisk s.disk, effect.onLocks p s.locks,
      Function.update s.tasks p (some task'), effect.onTrail p s.trail⟩ := by
  have hKept : effect ≠ .unlock → ∀ identity q, s.locks identity = some q →
      ∃ task, Function.update s.tasks p (some task') q = some task ∧ task.mayHold identity := by
    intro hKeep identity q hOwner
    obtain ⟨old, hOld, hMay⟩ := h.owner identity q hOwner
    by_cases hq : q = p
    · subst hq
      obtain rfl := Option.mem_unique hTask hOld
      exact ⟨task', Function.update_self .., hMay.turn hTurn hKeep⟩
    · exact ⟨old, (Function.update_of_ne hq ..).trans hOld, hMay⟩
  cases effect with
  | quiet | publish | makeDir | put => exact ⟨hKept (by simp), h.first⟩
  | lock =>
    cases hTurn with
    | @lock purpose root rest locked hFree =>
      refine ⟨fun other q hOwner => ?_, fun other q hOwner first hFirst => ?_⟩
      · rcases update_some_cases hOwner with ⟨rfl, rfl⟩ | ⟨-, hOld⟩
        · exact ⟨_, Function.update_self .., List.mem_cons_self⟩
        · exact hKept (by simp) other q hOld
      · rcases update_some_cases hOwner with ⟨rfl, rfl⟩ | ⟨-, hOld⟩
        · -- the first root is locked first
          obtain ⟨⟨done, hDone, hAll⟩, hOwn⟩ := hLocked q _ hTask
          rw [hDone] at hFirst
          cases done with
          | nil =>
            cases hFirst
            exact Function.update_self ..
          | cons =>
            cases hFirst
            exact held_acquire hFree (hOwn _ (hAll _ List.mem_cons_self))
        · exact held_acquire hFree (h.first other q hOld first hFirst)
  | unlock =>
    have hRest : ∀ {identity q : Nat}, release s.locks p identity = some q →
        s.locks identity = some q ∧ q ≠ p := by
      intro identity q hOwner
      unfold release at hOwner
      split at hOwner
      · cases hOwner
      · rename_i hNot
        exact ⟨hOwner, fun hEq => hNot (hEq ▸ hOwner)⟩
    refine ⟨fun identity q hOwner => ?_, fun identity q hOwner root hRoot => ?_⟩
    · obtain ⟨hOld, hNe⟩ := hRest hOwner
      obtain ⟨task, hTask, hMay⟩ := h.owner identity q hOld
      exact ⟨task, (Function.update_of_ne hNe ..).trans hTask, hMay⟩
    · obtain ⟨hOld, hNe⟩ := hRest hOwner
      exact held_release (h.first identity q hOld root hRoot) hNe

theorem owned_reachable (hReach : Reachable (edits before roots disk) s) : Owned roots s := by
  refine hReach.strengthen ⟨fun _ _ hNone => ?_, fun _ _ hNone => ?_⟩ ?_
  · cases hNone
  · cases hNone
  · intro x a y hx h hStep
    cases edits_move hStep with
    | start hTask =>
      refine ⟨fun identity q hOwner => ?_, h.first⟩
      obtain ⟨task, hOld, hMay⟩ := h.owner identity q hOwner
      refine ⟨task, (Function.update_of_ne ?_ ..).trans hOld, hMay⟩
      rintro rfl
      cases hTask.symm.trans hOld
    | turn hTask hTurn => exact owned_turn (locked_reachable hx) h hTask hTurn

/-- The process waits for a directory that somebody has locked. -/
def Sys.Waits (s : Sys) (p : Nat) : Prop :=
  ∃ purpose root rest locked, s.tasks p = some (.locking purpose (root :: rest) locked) ∧
    root.identity ∉ locked ∧ s.locks root.identity ≠ none

end

end Forward.Edit

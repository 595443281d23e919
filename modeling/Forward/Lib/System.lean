import Mathlib.Logic.Basic

/-!
# Transition systems and their runs

An interleaving semantics is an executable step function: the action says which thread moves and
what its environment hands it, and `none` says that the action is not enabled. Runs carry a side
condition `ok` on the steps they take.
-/

namespace Forward.Lib

universe u v w z

/-- An executable transition system: one initial state, and a step function
that answers `none` where an action is not enabled. -/
structure System (σ : Type u) (α : Type v) where
  init : σ
  step : σ → α → Option σ

variable {σ : Type u} {α : Type v} {τ : Type w} {β : Type z}

/-- `Path sys ok s t`: a finite run of `sys` leads from `s` to `t`, and every
step of it meets `ok`. -/
inductive Path (sys : System σ α) (ok : σ → α → Prop) : σ → σ → Prop
  | refl (s : σ) : Path sys ok s s
  | step {s t u : σ} (a : α) : Path sys ok s t → ok t a → sys.step t a = some u →
      Path sys ok s u

def System.run (sys : System σ α) (s : σ) (actions : List α) : Option σ :=
  actions.foldlM sys.step s

def System.guard (sys : System σ α) (check : σ → α → Bool) : System σ α where
  init := sys.init
  step s a := if check s a then sys.step s a else none

def anyStep : σ → α → Prop := fun _ _ => True

def Reachable (sys : System σ α) (s : σ) : Prop := Path sys anyStep sys.init s

namespace Path

variable {sys : System σ α} {ok ok' : σ → α → Prop} {s t u : σ}

theorem trans (h : Path sys ok s t) (h' : Path sys ok t u) : Path sys ok s u := by
  induction h' with
  | refl => exact h
  | step a _ hok hstep ih => exact .step a ih hok hstep

theorem single {a : α} (hok : ok s a) (h : sys.step s a = some t) : Path sys ok s t :=
  .step a (.refl s) hok h

theorem of_run {actions : List α} (h : sys.run s actions = some t) :
    Path sys anyStep s t := by
  induction actions generalizing s with
  | nil =>
    have hEq : s = t := by simpa [System.run] using h
    exact hEq ▸ .refl s
  | cons a rest ih =>
    unfold System.run at h
    rw [List.foldlM_cons] at h
    cases hStep : sys.step s a with
    | none => simp [hStep] at h
    | some =>
      simp only [hStep, Option.bind_eq_bind, Option.bind_some] at h
      exact (single trivial hStep).trans (ih h)

theorem unguard {check : σ → α → Bool} (hCheck : ∀ s a, check s a → ok s a)
    (h : Path (sys.guard check) ok' s t) : Path sys ok s t := by
  induction h with
  | refl => exact .refl _
  | step a _ _ hstep ih =>
    unfold System.guard at hstep
    dsimp only at hstep
    split at hstep
    · rename_i hAllowed
      exact .step a ih (hCheck _ a hAllowed) hstep
    · cases hstep

theorem of_replay {check : σ → α → Bool} {actions : List α} {seen : σ → Bool}
    (h : ((sys.guard check).run s actions).map seen = some true) :
    ∃ t, Path sys (fun s a => check s a = true) s t ∧ seen t = true := by
  obtain ⟨t, hRun, hSeen⟩ := Option.map_eq_some_iff.mp h
  exact ⟨t, (of_run hRun).unguard fun _ _ hCheck => hCheck, hSeen⟩

theorem mono (himp : ∀ s a, ok s a → ok' s a) (h : Path sys ok s t) : Path sys ok' s t := by
  induction h with
  | refl => exact .refl _
  | step a _ hok hstep ih => exact .step a ih (himp _ _ hok) hstep

theorem forget (h : Path sys ok s t) : Path sys anyStep s t :=
  h.mono fun _ _ _ => trivial

variable {I : σ → Prop}

theorem invariant (hStep : ∀ s a s', I s → ok s a → sys.step s a = some s' → I s')
    (h : Path sys ok s t) (hs : I s) : I t := by
  induction h with
  | refl => exact hs
  | step a _ hok hstep ih => exact hStep _ a _ ih hok hstep

theorem strengthen (hStep : ∀ t a u, Path sys ok s t → ok t a → I t → sys.step t a = some u → I u)
    (h : Path sys ok s t) (hs : I s) : I t := by
  induction h with
  | refl => exact hs
  | step a hPath hok hstep ih => exact hStep _ a _ hPath hok ih hstep

theorem simulate {sys' : System τ β} {ok' : τ → β → Prop} {f : σ → τ}
    (hInv : ∀ s a s', I s → ok s a → sys.step s a = some s' → I s')
    (hStep : ∀ s a s', I s → ok s a → sys.step s a = some s' → Path sys' ok' (f s) (f s'))
    (h : Path sys ok s t) (hs : I s) : Path sys' ok' (f s) (f t) := by
  induction h with
  | refl => exact .refl _
  | step a hPath hok hstep ih =>
    have hI := hPath.invariant hInv hs
    exact ih.trans (hStep _ a _ hI hok hstep)

end Path

namespace Reachable

variable {sys : System σ α} {s t : σ}

theorem init : Reachable sys sys.init := .refl _

theorem step {a : α} (h : Reachable sys s) (hstep : sys.step s a = some t) :
    Reachable sys t := Path.step a h trivial hstep

theorem path {ok : σ → α → Prop} (h : Reachable sys s) (h' : Path sys ok s t) :
    Reachable sys t := Path.trans h h'.forget

theorem of_replay {actions : List α} {seen : σ → Bool}
    (h : (sys.run sys.init actions).map seen = some true) :
    ∃ s, Reachable sys s ∧ seen s := by
  obtain ⟨s, hRun, hSeen⟩ := Option.map_eq_some_iff.mp h
  exact ⟨s, Path.of_run hRun, hSeen⟩

theorem strengthen {I : σ → Prop} (hInit : I sys.init)
    (hStep : ∀ s a s', Reachable sys s → I s → sys.step s a = some s' → I s')
    (h : Reachable sys s) : I s :=
  Path.strengthen (fun x a y hx _ hI hstep => hStep x a y hx hI hstep) h hInit

end Reachable

end Forward.Lib

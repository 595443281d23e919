import Mathlib.Logic.Function.Basic

/-!
# Threads and the mutex they share

A program of many threads is a table `tasks : θ → Option τ`. A step of one thread is an update of
its own entry. A mutex is its current holder, and the places where a thread has it locked are a
property `holds` of tasks; `Exclusive` ties the two together.
-/

namespace Forward.Lib

universe u v

variable {θ : Type u} {τ : Type v} [DecidableEq θ] {tasks : θ → Option τ} {t t' : θ} {x y : τ}

theorem update_some_cases (h : Function.update tasks t (some x) t' = some y) :
    (t' = t ∧ y = x) ∨ (t' ≠ t ∧ tasks t' = some y) := by
  by_cases hEq : t' = t
  · subst hEq
    rw [Function.update_self] at h
    exact .inl ⟨rfl, (Option.some.inj h).symm⟩
  · rw [Function.update_of_ne hEq] at h
    exact .inr ⟨hEq, h⟩

theorem update_some_of_ne (hNe : t' ≠ t) (h : tasks t' = some y) :
    Function.update tasks t (some x) t' = some y := by
  rw [Function.update_of_ne hNe]
  exact h

theorem forall_of_range {tasks : Nat → Option τ} {n : Nat} {P : τ → Bool}
    (hIdle : ∀ t, n ≤ t → tasks t = none)
    (h : ((List.range n).all fun t => (tasks t).all P) = true) :
    ∀ t x, tasks t = some x → P x := by
  intro t x hTask
  have hBelow : t < n := by
    by_contra hAbove
    rw [hIdle t (Nat.le_of_not_lt hAbove)] at hTask
    cases hTask
  have hCheck := List.all_eq_true.mp h t (List.mem_range.mpr hBelow)
  rw [hTask] at hCheck
  exact hCheck

def Exclusive (holds : τ → Bool) (holder : Option θ) (tasks : θ → Option τ) : Prop :=
  ∀ t x, tasks t = some x → holds x = true → holder = some t

namespace Exclusive

variable {holds : τ → Bool} {holder : Option θ}

omit [DecidableEq θ] in
theorem init : Exclusive holds holder fun _ : θ => (none : Option τ) := by
  intro t x hTask
  cases hTask

omit [DecidableEq θ] in
theorem unique (h : Exclusive holds holder tasks) (ht : tasks t = some x) (hx : holds x)
    (ht' : tasks t' = some y) (hy : holds y) : t = t' :=
  Option.some.inj ((h t x ht hx).symm.trans (h t' y ht' hy))

theorem move (h : Exclusive holds holder tasks) (hx : holds x → holder = some t) :
    Exclusive holds holder (Function.update tasks t (some x)) := by
  intro t' y hTask hy
  rcases update_some_cases hTask with ⟨rfl, rfl⟩ | ⟨-, hOld⟩
  · exact hx hy
  · exact h t' y hOld hy

theorem acquire (h : Exclusive holds none tasks) :
    Exclusive holds (some t) (Function.update tasks t (some x)) := by
  intro t' y hTask hy
  rcases update_some_cases hTask with ⟨rfl, rfl⟩ | ⟨-, hOld⟩
  · rfl
  · cases h t' y hOld hy

theorem release (h : Exclusive holds (some t) tasks) (hx : holds x = false) :
    Exclusive holds none (Function.update tasks t (some x)) := by
  intro t' y hTask hy
  rcases update_some_cases hTask with ⟨rfl, rfl⟩ | ⟨hNe, hOld⟩
  · rw [hx] at hy
    cases hy
  · exact absurd (Option.some.inj (h t' y hOld hy)).symm hNe

end Exclusive

/-! ## Several locks

A table of locks names the holder of each; a thread that ends gives back all it
has at once. -/

section

variable {κ : Type v} [DecidableEq κ] {locks : κ → Option θ} {k k' : κ}

def release (locks : κ → Option θ) (t : θ) : κ → Option θ :=
  fun k => if locks k = some t then none else locks k

omit [DecidableEq κ] in
theorem held_release (hHeld : locks k = some t') (hNe : t' ≠ t) :
    release locks t k = some t' := by
  unfold release
  rw [if_neg ?_, hHeld]
  rw [hHeld]
  exact fun h => hNe (Option.some.inj h)

omit [DecidableEq θ] in
theorem held_acquire (hFree : locks k = none) (hHeld : locks k' = some t') :
    Function.update locks k (some t) k' = some t' := by
  rw [Function.update_of_ne, hHeld]
  rintro rfl
  rw [hFree] at hHeld
  cases hHeld

end

end Forward.Lib

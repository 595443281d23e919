import Mathlib.Data.List.Basic

/-!
# Sliding-window limiters

A limiter lets an event through while fewer than the limit of its key are in the window before it.
`limiter` remembers all it has let through; an implementation that forgets what has left the window
answers the same.
-/

namespace Forward.Lib

universe u

structure Stamped (κ : Type u) where
  key : κ
  time : Nat

variable {κ : Type u} [DecidableEq κ] (limit window : Nat)

def countRecent (past : List (Stamped κ)) (key : κ) (now : Nat) : Nat :=
  past.countP fun e => decide (now - e.time < window) && decide (e.key = key)

/-- Which event of its key in the window each one is, behind what has come through. -/
def limiter : List (Stamped κ) → List (Stamped κ) → List (Stamped κ × Nat)
  | _, [] => []
  | past, e :: events =>
    let count := countRecent window past e.key e.time + 1
    (e, count) :: limiter (if count ≤ limit then past ++ [e] else past) events

def passed (answers : List (Stamped κ × Nat)) : List (Stamped κ) :=
  (answers.filter fun answer => decide (answer.2 ≤ limit)).map Prod.fst

/-- At most the limit of each key in every span shorter than the window. -/
def Limited (past : List (Stamped κ)) : Prop :=
  ∀ key lo hi, hi < lo + window →
    past.countP (fun e => decide (e.key = key ∧ lo ≤ e.time ∧ e.time ≤ hi)) ≤ limit

variable {limit window} {past events : List (Stamped κ)} {e : Stamped κ}

theorem limited_nil : Limited limit window ([] : List (Stamped κ)) := fun _ _ _ _ => Nat.zero_le _

theorem Limited.push (h : Limited limit window past)
    (hCount : countRecent window past e.key e.time + 1 ≤ limit) :
    Limited limit window (past ++ [e]) := by
  intro key lo hi hSpan
  rw [List.countP_append, List.countP_singleton]
  split
  · rename_i hIn
    obtain ⟨rfl, hLow, hHigh⟩ := of_decide_eq_true hIn
    have hBefore : past.countP (fun x => decide (x.key = e.key ∧ lo ≤ x.time ∧ x.time ≤ hi)) ≤
        countRecent window past e.key e.time := by
      refine List.countP_mono_left fun x _ hx => ?_
      obtain ⟨hKey, hFrom, -⟩ := of_decide_eq_true hx
      have hWindow : e.time - x.time < window := by omega
      simp [hKey, hWindow]
    omega
  · exact h key lo hi hSpan

theorem limited_limiter (h : Limited limit window past) (events : List (Stamped κ)) :
    Limited limit window (past ++ passed limit (limiter limit window past events)) := by
  induction events generalizing past with
  | nil => simpa [limiter, passed] using h
  | cons e events ih =>
    by_cases hCount : countRecent window past e.key e.time + 1 ≤ limit
    · have hRest := ih (h.push hCount)
      rw [List.append_assoc] at hRest
      simpa [limiter, passed, hCount] using hRest
    · simpa [limiter, passed, hCount] using ih h

/-! ## Some of the keys -/

variable (own : κ → Bool)

theorem countRecent_filter {key : κ} (hOwn : own key) (past : List (Stamped κ)) (now : Nat) :
    countRecent window (past.filter fun e => own e.key) key now =
      countRecent window past key now := by
  unfold countRecent
  rw [List.countP_filter]
  refine List.countP_congr fun x _ => ?_
  by_cases hKey : x.key = key
  · simp [hKey, hOwn]
  · simp [hKey]

/-- **Other keys change no answer.** -/
theorem limiter_restrict (past events : List (Stamped κ)) :
    (limiter limit window past events).filter (fun answer => own answer.1.key) =
      limiter limit window (past.filter fun e => own e.key) (events.filter fun e => own e.key) := by
  induction events generalizing past with
  | nil => rfl
  | cons e events ih =>
    rw [limiter, List.filter_cons, List.filter_cons]
    dsimp only
    by_cases hOwn : own e.key
    · rw [if_pos hOwn, if_pos hOwn, limiter, countRecent_filter own hOwn, ih]
      split
      · rw [List.filter_append, List.filter_singleton, hOwn]
        rfl
      · rfl
    · rw [if_neg hOwn, if_neg hOwn, ih]
      split
      · rw [List.filter_append, List.filter_singleton, Bool.eq_false_iff.mpr hOwn]
        simp
      · rfl

end Forward.Lib

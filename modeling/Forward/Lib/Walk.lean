import Mathlib.Data.Nat.Basic

/-!
# Bounded walks

A walk asks about one place after another, and is told to go on elsewhere, that it has arrived, or
to stop. `walkFrom` makes a number of hops at most and gives up at a place where it has been;
`plainWalk` is without the second rule.
-/

namespace Forward.Lib

universe u

inductive Step (α : Type u)
  | arrived
  | goOn (next : α)
  | stop

variable {α : Type u} {visit : α → Step α} {a b c : α} {j k hops : Nat}

def reach (visit : α → Step α) : Nat → α → Option α
  | 0, a => some a
  | k + 1, a =>
    match visit a with
    | .goOn b => reach visit k b
    | _ => none

def plainWalk (visit : α → Step α) : Nat → α → Bool
  | 0, _ => false
  | hops + 1, current =>
    match visit current with
    | .arrived => true
    | .stop => false
    | .goOn next => plainWalk visit hops next

/-- The same, with the places where the walk has been. -/
def walkFrom [DecidableEq α] (visit : α → Step α) : Nat → List α → α → Bool
  | 0, _, _ => false
  | hops + 1, visited, current =>
    if current ∈ visited then false
    else
      match visit current with
      | .arrived => true
      | .stop => false
      | .goOn next => walkFrom visit hops (visited ++ [current]) next

theorem reach_succ_of_goOn (h : visit a = .goOn b) : reach visit (k + 1) a = reach visit k b := by
  rw [reach, h]

theorem reach_succ_of_arrived (h : visit a = .arrived) : reach visit (k + 1) a = none := by
  rw [reach, h]

theorem reach_add (h : reach visit j a = some b) : reach visit (j + k) a = reach visit k b := by
  induction j generalizing a with
  | zero =>
    rw [Nat.zero_add]
    cases h
    rfl
  | succ j ih =>
    rw [reach] at h
    split at h
    · rename_i hNext
      rw [Nat.succ_add, reach_succ_of_goOn hNext]
      exact ih h
    · cases h

theorem reach_step (hReach : reach visit k a = some b) (hVisit : visit b = .goOn c) :
    reach visit (k + 1) a = some c := (reach_add hReach).trans (reach_succ_of_goOn hVisit)

theorem reach_iff_chain :
    reach visit k a = some b ↔
      ∃ q : Nat → α, q 0 = a ∧ q k = b ∧ ∀ i < k, visit (q i) = .goOn (q (i + 1)) := by
  constructor
  · intro hReach
    induction k generalizing a with
    | zero => exact ⟨fun _ => a, rfl, Option.some.inj hReach, fun i hi => absurd hi (by omega)⟩
    | succ k ih =>
      rw [reach] at hReach
      split at hReach
      · rename_i hNext
        obtain ⟨q, hFirst, hLast, hSteps⟩ := ih hReach
        refine ⟨fun i => if i = 0 then a else q (i - 1), rfl, hLast, fun i hi => ?_⟩
        cases i with
        | zero =>
          show visit a = .goOn (q 0)
          rw [hFirst, hNext]
        | succ i => exact hSteps i (by omega)
      · cases hReach
  · rintro ⟨q, hFirst, hLast, hSteps⟩
    have hAll : ∀ i ≤ k, reach visit i a = some (q i) := by
      intro i hi
      induction i with
      | zero => exact congrArg some hFirst.symm
      | succ i ih => exact reach_step (ih (by omega)) (hSteps i (by omega))
    rw [hAll k (Nat.le_refl k), hLast]

/-- **Where a walk arrives**: some place in reach is the end. -/
theorem plainWalk_iff :
    plainWalk visit hops a ↔ ∃ k < hops, ∃ b, reach visit k a = some b ∧ visit b = .arrived := by
  induction hops generalizing a with
  | zero =>
    constructor
    · nofun
    · rintro ⟨k, hk, -⟩
      omega
  | succ hops ih =>
    rw [plainWalk]
    cases hVisit : visit a with
    | arrived => exact ⟨fun _ => ⟨0, by omega, a, rfl, hVisit⟩, fun _ => rfl⟩
    | stop =>
      constructor
      · nofun
      · rintro ⟨k, -, b, hReach, hEnd⟩
        cases k with
        | zero =>
          cases hReach
          rw [hVisit] at hEnd
          cases hEnd
        | succ =>
          rw [reach, hVisit] at hReach
          cases hReach
    | goOn next =>
      show plainWalk visit hops next ↔ _
      rw [ih]
      constructor
      · rintro ⟨k, hk, b, hReach, hEnd⟩
        exact ⟨k + 1, by omega, b, (reach_succ_of_goOn hVisit).trans hReach, hEnd⟩
      · rintro ⟨k, hk, b, hReach, hEnd⟩
        cases k with
        | zero =>
          cases hReach
          rw [hVisit] at hEnd
          cases hEnd
        | succ k =>
          rw [reach_succ_of_goOn hVisit] at hReach
          exact ⟨k, by omega, b, hReach, hEnd⟩

/-! ## Walks in circles -/

theorem reach_mul (h : reach visit j a = some a) (m : Nat) : reach visit (j * m) a = some a := by
  induction m with
  | zero => rfl
  | succ m ih => rw [Nat.mul_succ, reach_add ih, h]

theorem plainWalk_of_loop (h : reach visit (j + 1) a = some a) : plainWalk visit hops a = false := by
  refine Bool.eq_false_iff.mpr fun hArrives => ?_
  obtain ⟨k, -, b, hReach, hEnd⟩ := plainWalk_iff.mp hArrives
  -- there is nothing behind the end, but the circle goes on behind every place
  obtain ⟨more, hMore⟩ : ∃ more, (j + 1) * (k + 1) = k + (more + 1) :=
    ⟨j * (k + 1), by rw [Nat.succ_mul]; omega⟩
  have hAgain := reach_mul h (k + 1)
  rw [hMore, reach_add hReach, reach_succ_of_arrived hEnd] at hAgain
  cases hAgain

theorem plainWalk_of_reach_loop (hReach : reach visit k a = some b)
    (hLoop : reach visit (j + 1) b = some b) : plainWalk visit hops a = false := by
  refine Bool.eq_false_iff.mpr fun hArrives => ?_
  obtain ⟨i, -, c, hEnd, hArrived⟩ := plainWalk_iff.mp hArrives
  rcases Nat.lt_or_ge i k with hBefore | hBehind
  · obtain ⟨more, rfl⟩ : ∃ more, k = i + (more + 1) := ⟨k - i - 1, by omega⟩
    rw [reach_add hEnd, reach_succ_of_arrived hArrived] at hReach
    cases hReach
  · obtain ⟨more, rfl⟩ : ∃ more, i = k + more := ⟨i - k, by omega⟩
    rw [reach_add hReach] at hEnd
    have hWalk : plainWalk visit (more + 1) b :=
      plainWalk_iff.mpr ⟨more, by omega, c, hEnd, hArrived⟩
    rw [plainWalk_of_loop hLoop] at hWalk
    cases hWalk

theorem reach_congr {up : α → Step α}
    (h : ∀ i < k, ∀ c, reach up i a = some c → visit c = up c) :
    reach visit k a = reach up k a := by
  induction k generalizing a with
  | zero => rfl
  | succ k ih =>
    rw [reach, reach, h 0 (by omega) a rfl]
    split
    · rename_i hNext
      exact ih fun i hi c hReach => h (i + 1) (by omega) c ((reach_succ_of_goOn hNext).trans hReach)
    · rfl

theorem plainWalk_of_circle {up : α → Step α}
    (hReach : reach up k a = some b) (hLoop : reach up (j + 1) b = some b)
    (hWay : ∀ i ≤ k + j, ∀ c, reach up i a = some c → visit c = up c) :
    plainWalk visit hops a = false := by
  refine plainWalk_of_reach_loop (k := k) (j := j) (b := b) ?_ ?_
  · rw [reach_congr fun i hi c hc => hWay i (by omega) c hc, hReach]
  · rw [← hLoop]
    refine reach_congr fun i hi c hc => hWay (k + i) (by omega) c ?_
    rw [reach_add hReach, hc]

/-- **Giving up early changes no answer.** -/
theorem walkFrom_eq_plainWalk [DecidableEq α] {visited : List α}
    (hVisited : ∀ v ∈ visited, ∃ j, reach visit (j + 1) v = some a) :
    walkFrom visit hops visited a = plainWalk visit hops a := by
  induction hops generalizing visited a with
  | zero => rfl
  | succ hops ih =>
    rw [walkFrom]
    split
    · rename_i hBefore
      obtain ⟨j, hLoop⟩ := hVisited a hBefore
      exact (plainWalk_of_loop hLoop).symm
    · rw [plainWalk]
      cases hVisit : visit a with
      | arrived | stop => rfl
      | goOn next =>
        refine ih fun v hv => ?_
        have hOne : reach visit 1 a = some next := reach_succ_of_goOn hVisit
        rcases List.mem_append.mp hv with hOld | hNew
        · obtain ⟨j, hReach⟩ := hVisited v hOld
          exact ⟨j + 1, (reach_add hReach).trans hOne⟩
        · obtain rfl := List.mem_singleton.mp hNew
          exact ⟨0, hOne⟩

end Forward.Lib

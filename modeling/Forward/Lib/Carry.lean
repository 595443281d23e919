import Forward.Lib.Lists

/-!
# What became of the entries of a list

`Carried R fresh old new` says that `new` came from `old` by updates in place, with `R` between an
entry and what became of it, by removals, and by additions at the end that are `fresh`. It speaks
about entries, not about the keys they may share.
-/

namespace Forward.Lib

universe u

variable {α : Type u} {R : α → α → Prop} {fresh fresh' : α → Prop} {l old new : List α}
  {p : α → Bool} {f : α → α}

/-- Each entry of `old`, in order, was kept or is gone; what follows was added. -/
inductive Carried (R : α → α → Prop) (fresh : α → Prop) : List α → List α → Prop
  | added {new : List α} (h : ∀ x ∈ new, fresh x) : Carried R fresh [] new
  | kept {x y : α} {old new : List α} (hR : R x y) (h : Carried R fresh old new) :
      Carried R fresh (x :: old) (y :: new)
  | gone {x : α} {old new : List α} (h : Carried R fresh old new) :
      Carried R fresh (x :: old) new

namespace Carried

theorem refl (hR : ∀ x, R x x) (l : List α) : Carried R fresh l l := by
  induction l with
  | nil => exact .added (by simp)
  | cons x xs ih => exact .kept (hR x) ih

theorem updateFirst (hR : ∀ x, R x x) (h : ∀ x, l.find? p = some x → R x (f x)) :
    Carried R fresh l (updateFirst p f l) := by
  induction l with
  | nil => exact .added (by simp)
  | cons x xs ih =>
    cases hx : p x with
    | true =>
      rw [updateFirst_cons_pos hx]
      exact .kept (h x (by simp [hx])) (refl hR xs)
    | false =>
      rw [updateFirst_cons_neg hx]
      refine .kept (hR x) (ih fun y hy => h y ?_)
      rw [List.find?_cons, hx]
      exact hy

theorem map (h : ∀ x, R x (f x)) (l : List α) : Carried R fresh l (l.map f) := by
  induction l with
  | nil => exact .added (by simp)
  | cons x xs ih => exact .kept (h x) ih

theorem filter (hR : ∀ x, R x x) (p : α → Bool) (l : List α) :
    Carried R fresh l (l.filter p) := by
  induction l with
  | nil => exact .added (by simp)
  | cons x xs ih =>
    rw [List.filter_cons]
    split
    · exact .kept (hR x) ih
    · exact .gone ih

theorem append (hR : ∀ x, R x x) {x : α} (hx : fresh x) (l : List α) :
    Carried R fresh l (l ++ [x]) := by
  induction l with
  | nil => exact .added (by simpa using hx)
  | cons y ys ih => exact .kept (hR y) ih

theorem mono (h : Carried R fresh old new) (hFresh : ∀ x, fresh x → fresh' x) :
    Carried R fresh' old new := by
  induction h with
  | added hAll => exact .added fun x hx => hFresh x (hAll x hx)
  | kept hR _ ih => exact .kept hR ih
  | gone _ ih => exact .gone ih

theorem mem (h : Carried R fresh old new) : ∀ y ∈ new, (∃ x ∈ old, R x y) ∨ fresh y := by
  induction h with
  | added hAll => exact fun y hy => Or.inr (hAll y hy)
  | kept hR _ ih =>
    intro y hy
    rcases List.mem_cons.mp hy with rfl | hy
    · exact .inl ⟨_, List.mem_cons_self .., hR⟩
    · rcases ih y hy with ⟨x, hx, hxy⟩ | hFresh
      · exact .inl ⟨x, List.mem_cons_of_mem _ hx, hxy⟩
      · exact .inr hFresh
  | gone _ ih =>
    intro y hy
    rcases ih y hy with ⟨x, hx, hxy⟩ | hFresh
    · exact .inl ⟨x, List.mem_cons_of_mem _ hx, hxy⟩
    · exact .inr hFresh

theorem trans {mid : List α} (hR : ∀ x y z, R x y → R y z → R x z)
    (hFresh : ∀ x y, fresh x → R x y → fresh' y) (h : Carried R fresh old mid)
    (h' : Carried R fresh' mid new) : Carried R fresh' old new := by
  induction h generalizing new with
  | added hAll =>
    refine .added fun y hy => ?_
    rcases h'.mem y hy with ⟨x, hx, hxy⟩ | hNew
    · exact hFresh x y (hAll x hx) hxy
    · exact hNew
  | kept hxy _ ih =>
    cases h' with
    | kept hyz hRest => exact .kept (hR _ _ _ hxy hyz) (ih hRest)
    | gone hRest => exact .gone (ih hRest)
  | gone _ ih => exact .gone (ih h')

theorem length_le (h : Carried R (fun _ => False) old new) : new.length ≤ old.length := by
  induction h with
  | added hAll =>
    rename_i new
    cases new with
    | nil => exact Nat.le_refl _
    | cons x => exact (hAll x (List.mem_cons_self ..)).elim
  | kept _ _ ih => exact Nat.succ_le_succ ih
  | gone _ ih => exact Nat.le_succ_of_le ih

theorem forall₂ (h : Carried R (fun _ => False) old new) (hLength : new.length = old.length) :
    List.Forall₂ R old new := by
  induction h with
  | added =>
    rw [List.length_nil, List.length_eq_zero_iff] at hLength
    subst hLength
    exact .nil
  | kept hR _ ih => exact .cons hR (ih (by simpa using hLength))
  | gone hRest =>
    have := hRest.length_le
    rw [List.length_cons] at hLength
    omega

end Carried

end Forward.Lib

import Mathlib.Data.List.Nodup
import Mathlib.Data.List.Perm.Basic

/-!
# List operations of the standard library

`updateFirst` is `iter_mut().find(p)` followed by an assignment: it changes the first element that
`p` accepts. `swapRemove` is `Vec::swap_remove`, up to order a plain removal.
-/

namespace Forward.Lib

universe u v

/-! ## Updating the first match -/

variable {α : Type u} {β : Type v} {p q : α → Bool} {f : α → α} {l : List α} {x y : α}

def updateFirst (p : α → Bool) (f : α → α) : List α → List α
  | [] => []
  | x :: xs => if p x then f x :: xs else x :: updateFirst p f xs

@[simp] theorem updateFirst_nil : updateFirst p f [] = [] := rfl

theorem updateFirst_cons_pos (h : p x) :
    updateFirst p f (x :: l) = f x :: l := by
  simp [updateFirst, h]

theorem updateFirst_cons_neg (h : p x = false) :
    updateFirst p f (x :: l) = x :: updateFirst p f l := by
  simp [updateFirst, h]

theorem updateFirst_append {pre post : List α} (hPre : ∀ y ∈ pre, p y = false)
    (hx : p x) :
    updateFirst p f (pre ++ x :: post) = pre ++ f x :: post := by
  induction pre with
  | nil => simp [updateFirst, hx]
  | cons y ys ih =>
    have hy := hPre y (List.mem_cons_self ..)
    rw [List.cons_append, updateFirst_cons_neg hy,
      ih fun z hz => hPre z (List.mem_cons_of_mem _ hz), List.cons_append]

theorem find?_split (h : l.find? p = some x) :
    p x ∧ ∃ pre post, l = pre ++ x :: post ∧ ∀ y ∈ pre, p y = false := by
  obtain ⟨hx, pre, post, rfl, hPre⟩ := List.find?_eq_some_iff_append.mp h
  exact ⟨hx, pre, post, rfl, fun y hy => by simpa using hPre y hy⟩

theorem find?_of_unique (hMem : x ∈ l) (hx : p x = true) (hUnique : ∀ y ∈ l, p y = true → y = x) :
    l.find? p = some x := by
  cases hFind : l.find? p with
  | none => exact absurd hx (List.find?_eq_none.mp hFind x hMem)
  | some y => rw [hUnique y (List.mem_of_find?_eq_some hFind) (List.find?_some hFind)]

theorem updateFirst_of_find?_none (h : l.find? p = none) : updateFirst p f l = l := by
  induction l with
  | nil => rfl
  | cons y ys ih =>
    rw [List.find?_cons] at h
    cases hy : p y with
    | true => simp [hy] at h
    | false =>
      rw [updateFirst_cons_neg hy, ih]
      simpa [hy] using h

theorem map_updateFirst {g : α → β} (hg : ∀ x, p x → g (f x) = g x) (l : List α) :
    (updateFirst p f l).map g = l.map g := by
  induction l with
  | nil => rfl
  | cons y ys ih =>
    cases hy : p y with
    | true => rw [updateFirst_cons_pos hy, List.map_cons, List.map_cons, hg y hy]
    | false => rw [updateFirst_cons_neg hy, List.map_cons, List.map_cons, ih]

theorem mem_updateFirst (h : y ∈ updateFirst p f l) :
    y ∈ l ∨ ∃ x ∈ l, l.find? p = some x ∧ y = f x := by
  cases hFind : l.find? p with
  | none =>
    rw [updateFirst_of_find?_none hFind] at h
    exact .inl h
  | some x =>
    obtain ⟨hx, pre, post, rfl, hPre⟩ := find?_split hFind
    rw [updateFirst_append hPre hx] at h
    rcases List.mem_append.mp h with h | h
    · exact .inl (List.mem_append_left _ h)
    · rcases List.mem_cons.mp h with rfl | h
      · exact .inr ⟨x, by simp, rfl, rfl⟩
      · exact .inl (List.mem_append_right _ (List.mem_cons_of_mem _ h))

theorem mem_updateFirst_iff (h : l.Pairwise fun x y => ¬ (p x = true ∧ p y = true)) :
    y ∈ updateFirst p f l ↔ (y ∈ l ∧ p y = false) ∨ ∃ x ∈ l, p x ∧ y = f x := by
  induction l with
  | nil => simp
  | cons x l ih =>
    obtain ⟨hHead, hTail⟩ := List.pairwise_cons.mp h
    cases hx : p x with
    | true =>
      -- the rest has no match
      have hRest : ∀ z ∈ l, p z = false := by
        intro z hz
        have hNot := hHead z hz
        rw [hx] at hNot
        simpa using hNot
      rw [updateFirst_cons_pos hx, List.mem_cons]
      constructor
      · rintro (rfl | hy)
        · exact .inr ⟨x, List.mem_cons_self, hx, rfl⟩
        · exact .inl ⟨List.mem_cons_of_mem _ hy, hRest y hy⟩
      · rintro (⟨hy, hpy⟩ | ⟨z, hz, hpz, rfl⟩)
        · rcases List.mem_cons.mp hy with rfl | hy
          · exact absurd (hx.symm.trans hpy) (by decide)
          · exact .inr hy
        · rcases List.mem_cons.mp hz with rfl | hz
          · exact .inl rfl
          · exact absurd (hpz.symm.trans (hRest z hz)) (by decide)
    | false =>
      rw [updateFirst_cons_neg hx, List.mem_cons, ih hTail]
      constructor
      · rintro (rfl | ⟨hy, hpy⟩ | ⟨z, hz, hpz, rfl⟩)
        · exact .inl ⟨List.mem_cons_self, hx⟩
        · exact .inl ⟨List.mem_cons_of_mem _ hy, hpy⟩
        · exact .inr ⟨z, List.mem_cons_of_mem _ hz, hpz, rfl⟩
      · rintro (⟨hy, hpy⟩ | ⟨z, hz, hpz, rfl⟩)
        · rcases List.mem_cons.mp hy with rfl | hy
          · exact .inl rfl
          · exact .inr (.inl ⟨hy, hpy⟩)
        · rcases List.mem_cons.mp hz with rfl | hz
          · exact absurd (hpz.symm.trans hx) (by decide)
          · exact .inr (.inr ⟨z, hz, hpz, rfl⟩)

theorem updateFirst_around (hx : p x = false) (pre post : List α) :
    ∃ pre' post', updateFirst p f (pre ++ x :: post) = pre' ++ x :: post' ∧
      (pre' = pre ∨ pre' = updateFirst p f pre) ∧
      (post' = post ∨ post' = updateFirst p f post) := by
  induction pre with
  | nil => exact ⟨[], updateFirst p f post, updateFirst_cons_neg hx, .inl rfl, .inr rfl⟩
  | cons z zs ih =>
    cases hz : p z with
    | true =>
      refine ⟨f z :: zs, post, ?_, .inr (updateFirst_cons_pos hz).symm, .inl rfl⟩
      rw [List.cons_append, updateFirst_cons_pos hz, List.cons_append]
    | false =>
      obtain ⟨pre', post', hEq, hPre, hPost⟩ := ih
      refine ⟨z :: pre', post', ?_, ?_, hPost⟩
      · rw [List.cons_append, updateFirst_cons_neg hz, hEq, List.cons_append]
      · rcases hPre with rfl | rfl
        · exact .inl rfl
        · exact .inr (updateFirst_cons_neg hz).symm

theorem find?_updateFirst_self (hp : ∀ x, p x = true → p (f x) = true) :
    (updateFirst p f l).find? p = (l.find? p).map f := by
  cases hFind : l.find? p with
  | none => rw [updateFirst_of_find?_none hFind, hFind, Option.map_none]
  | some x =>
    obtain ⟨hx, pre, post, rfl, hPre⟩ := find?_split hFind
    rw [updateFirst_append hPre hx, Option.map_some]
    refine List.find?_eq_some_iff_append.mpr ⟨hp x hx, pre, post, rfl, ?_⟩
    intro y hy
    simp [hPre y hy]

theorem find?_updateFirst_of_disjoint
    (hq : ∀ x, p x → q x = false ∧ q (f x) = false) :
    (updateFirst p f l).find? q = l.find? q := by
  induction l with
  | nil => rfl
  | cons y ys ih =>
    cases hy : p y with
    | true =>
      obtain ⟨h₁, h₂⟩ := hq y hy
      rw [updateFirst_cons_pos hy, List.find?_cons, List.find?_cons, h₁, h₂]
    | false =>
      rw [updateFirst_cons_neg hy, List.find?_cons, List.find?_cons, ih]

/-! ## Selecting by a column -/

theorem filter_eq_singleton [DecidableEq β] {g : α → β} (hDistinct : (l.map g).Nodup)
    (hx : x ∈ l) : l.filter (fun y => g y = g x) = [x] := by
  have hNodup := List.Nodup.of_map g hDistinct
  refine List.perm_singleton.mp ((List.perm_ext_iff_of_nodup (hNodup.filter _)
    (List.nodup_singleton _)).mpr fun y => ?_)
  rw [List.mem_filter, List.mem_singleton, decide_eq_true_iff]
  constructor
  · rintro ⟨hy, hSame⟩
    exact List.inj_on_of_nodup_map hDistinct hy hx hSame
  · rintro rfl
    exact ⟨hx, rfl⟩

/-! ## Removal by swapping with the last element -/

def swapRemove (l : List α) (i : Nat) : List α :=
  match l.getLast? with
  | none => []
  | some last => (l.set i last).dropLast

theorem swapRemove_perm {i : Nat} (hi : i < l.length) :
    (swapRemove l i).Perm (l.eraseIdx i) := by
  obtain ⟨init, last, rfl⟩ : ∃ init last, l = init ++ [last] := by
    rcases List.eq_nil_or_concat l with rfl | ⟨init, last, h⟩
    · simp at hi
    · exact ⟨init, last, by simpa using h⟩
  have hLast : (init ++ [last]).getLast? = some last := by simp
  have hSwap : swapRemove (init ++ [last]) i = ((init ++ [last]).set i last).dropLast := by
    unfold swapRemove
    rw [hLast]
  rw [hSwap]
  rw [List.length_append, List.length_singleton] at hi
  by_cases hEnd : i = init.length
  · -- the last element itself
    subst hEnd
    rw [List.set_append_right _ _ (Nat.le_refl _), List.eraseIdx_append_of_length_le (Nat.le_refl _)]
    simp
  · -- the last element moves into the gap
    have hi' : i < init.length := by omega
    rw [List.set_append_left _ _ hi', List.eraseIdx_append_of_lt_length hi']
    rw [List.dropLast_concat]
    refine List.Perm.trans ?_ (List.perm_append_singleton _ _).symm
    exact List.set_perm_cons_eraseIdx hi' last

end Forward.Lib

import Forward.Lib.Lists
import Mathlib.Data.List.Forall2

/-!
# Lists that lose and weaken their elements

Mathlib's `SublistForall₂ R new old`: the elements of `new` stand for some of `old`, in their
order, each related to its own. What the relation cannot gain, the list cannot. An update of the
first match, an update of all and a filter are of this kind.
-/

namespace Forward.Lib

universe u v

variable {α : Type u} {β : Type v} {R : α → α → Prop} {p : α → Bool} {f : α → α}
variable {new old l : List α}

theorem countP_le_of_fade (h : List.SublistForall₂ R new old)
    (hp : ∀ x y, R x y → p x = true → p y = true) : new.countP p ≤ old.countP p := by
  induction h with
  | nil => exact Nat.zero_le _
  | @cons x y new old hR =>
    rw [List.countP_cons, List.countP_cons]
    have hHead := hp x y hR
    split
    · rw [if_pos (hHead (by assumption))]
      omega
    · omega
  | cons_right =>
    rw [List.countP_cons]
    omega

theorem eq_of_countP_le_one {x y : α} (h : l.countP p ≤ 1) (hx : x ∈ l) (hy : y ∈ l)
    (hpx : p x) (hpy : p y) : x = y := by
  rw [List.countP_eq_length_filter] at h
  have hxIn := List.mem_filter.mpr ⟨hx, hpx⟩
  have hyIn := List.mem_filter.mpr ⟨hy, hpy⟩
  match l.filter p, h, hxIn, hyIn with
  | [z], _, hxIn, hyIn => exact (List.mem_singleton.mp hxIn).trans (List.mem_singleton.mp hyIn).symm

theorem map_sublist_of_fade {g : α → β} (h : List.SublistForall₂ R new old)
    (hg : ∀ x y, R x y → g x = g y) : (new.map g).Sublist (old.map g) := by
  induction h with
  | nil => exact List.nil_sublist _
  | cons hR _ ih =>
    rw [List.map_cons, List.map_cons, hg _ _ hR]
    exact ih.cons_cons _
  | cons_right _ ih => exact ih.cons _

theorem mem_of_fade (h : List.SublistForall₂ R new old) {x : α} (hx : x ∈ new) :
    ∃ y ∈ old, R x y := by
  induction h with
  | nil => cases hx
  | @cons x' y new old hR _ ih =>
    rcases List.mem_cons.mp hx with rfl | hx
    · exact ⟨y, List.mem_cons_self, hR⟩
    · obtain ⟨y', hy', hR'⟩ := ih hx
      exact ⟨y', List.mem_cons_of_mem _ hy', hR'⟩
  | cons_right _ ih =>
    obtain ⟨y, hy, hR⟩ := ih hx
    exact ⟨y, List.mem_cons_of_mem _ hy, hR⟩

theorem fade_refl (hRefl : ∀ x, R x x) : ∀ l, List.SublistForall₂ R l l
  | [] => .nil
  | x :: l => .cons (hRefl x) (fade_refl hRefl l)

theorem fade_of_sublist (hRefl : ∀ x, R x x) (h : new.Sublist old) :
    List.SublistForall₂ R new old := by
  induction h with
  | slnil => exact .nil
  | cons _ _ ih => exact .cons_right ih
  | cons_cons x _ ih => exact .cons (hRefl x) ih

theorem fade_map (hf : ∀ x, R (f x) x) : ∀ l, List.SublistForall₂ R (l.map f) l
  | [] => .nil
  | x :: l => .cons (hf x) (fade_map hf l)

theorem fade_updateFirst (hRefl : ∀ x, R x x) (hf : ∀ x, l.find? p = some x → R (f x) x) :
    List.SublistForall₂ R (updateFirst p f l) l := by
  induction l with
  | nil => exact .nil
  | cons x l ih =>
    cases hx : p x with
    | true =>
      rw [updateFirst_cons_pos hx]
      exact .cons (hf x (List.find?_cons_of_pos hx)) (fade_refl hRefl l)
    | false =>
      rw [updateFirst_cons_neg hx]
      refine .cons (hRefl x) (ih fun y hy => hf y ?_)
      rw [List.find?_cons, hx]
      exact hy

end Forward.Lib

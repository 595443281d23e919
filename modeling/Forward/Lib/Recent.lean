import Mathlib.Data.Finset.Card
import Mathlib.Data.List.Nodup

/-!
# Caches ordered by recency

A history of insertions, newest first, has one latest insertion per key: `recent` lists those. A
bounded cache that drops equal keys and, when it is full, its oldest entry holds a part of that
list, and of the first `cap` places all of it that is still wanted.
-/

namespace Forward.Lib

universe u v

variable {α : Type u} {β : Type v} [DecidableEq β] (key : α → β)

def recent : List α → List α
  | [] => []
  | x :: log => x :: (recent log).filter fun y => key y ≠ key x

variable {key} {x y : α} {log newer older cache : List α}

theorem mem_of_mem_recent (h : x ∈ recent key log) : x ∈ log := by
  induction log with
  | nil => cases h
  | cons y log ih =>
    rcases List.mem_cons.mp h with rfl | hIn
    · exact List.mem_cons_self ..
    · exact List.mem_cons_of_mem _ (ih (List.mem_filter.mp hIn).1)

theorem key_mem_recent (h : x ∈ log) : ∃ y ∈ recent key log, key y = key x := by
  induction log with
  | nil => cases h
  | cons z log ih =>
    by_cases hz : key x = key z
    · exact ⟨z, List.mem_cons_self .., hz.symm⟩
    · rcases List.mem_cons.mp h with rfl | hIn
      · exact absurd rfl hz
      · obtain ⟨y, hy, hKey⟩ := ih hIn
        refine ⟨y, List.mem_cons_of_mem _ (List.mem_filter.mpr ⟨hy, decide_eq_true ?_⟩), hKey⟩
        rw [hKey]
        exact hz

theorem recent_nodup (log : List α) : ((recent key log).map key).Nodup := by
  induction log with
  | nil => exact List.nodup_nil
  | cons x log ih =>
    refine List.nodup_cons.mpr ⟨?_, ih.sublist (List.filter_sublist.map key)⟩
    intro hIn
    obtain ⟨y, hy, hKey⟩ := List.mem_map.mp hIn
    exact of_decide_eq_true (List.mem_filter.mp hy).2 hKey

theorem length_recent (log : List α) :
    (recent key log).length = (log.map key).toFinset.card := by
  have hSame : ((recent key log).map key).toFinset = (log.map key).toFinset := by
    ext b
    simp only [List.mem_toFinset, List.mem_map]
    constructor
    · rintro ⟨y, hy, rfl⟩
      exact ⟨y, mem_of_mem_recent hy, rfl⟩
    · rintro ⟨x, hx, rfl⟩
      exact key_mem_recent hx
  rw [← hSame, List.toFinset_card_of_nodup (recent_nodup log), List.length_map]

theorem recent_append (xs ys : List α) :
    recent key (xs ++ ys) =
      recent key xs ++ (recent key ys).filter fun y => key y ∉ xs.map key := by
  induction xs with
  | nil => simp [recent]
  | cons x xs ih =>
    rw [List.cons_append, recent, ih, List.filter_append, recent, List.cons_append,
      List.filter_filter]
    congr 2
    refine List.filter_congr fun y _ => ?_
    simp [not_or]

theorem recent_split (hNewer : ∀ y ∈ newer, key y ≠ key x) :
    ∃ rest, recent key (newer ++ x :: older) = recent key newer ++ x :: rest := by
  rw [recent_append, recent, List.filter_cons_of_pos]
  · exact ⟨_, rfl⟩
  · refine decide_eq_true ?_
    intro hIn
    obtain ⟨y, hy, hKey⟩ := List.mem_map.mp hIn
    exact hNewer y hy hKey

theorem split_of_mem_recent (h : x ∈ recent key log) :
    ∃ newer older, log = newer ++ x :: older ∧ ∀ y ∈ newer, key y ≠ key x := by
  induction log with
  | nil => cases h
  | cons y log ih =>
    rcases List.mem_cons.mp h with rfl | hIn
    · exact ⟨[], log, rfl, nofun⟩
    · obtain ⟨hIn, hNe⟩ := List.mem_filter.mp hIn
      obtain ⟨newer, older, rfl, hNewer⟩ := ih hIn
      refine ⟨y :: newer, older, rfl, ?_⟩
      intro z hz
      rcases List.mem_cons.mp hz with rfl | hz
      · exact fun hEq => of_decide_eq_true hNe hEq.symm
      · exact hNewer z hz

theorem last_place {part whole : List α} {i : Nat} (hPart : (part ++ [x]).Sublist whole)
    (hNodup : whole.Nodup) (hx : whole[i]? = some x) : part.length ≤ i := by
  induction whole generalizing part i with
  | nil => cases hx
  | cons w ws ih =>
    cases part with
    | nil => exact Nat.zero_le _
    | cons p ps =>
      -- x comes after p, so it is in the tail and not the head
      have hTail : (ps ++ [x]).Sublist ws := hPart.tail
      have hIn : x ∈ ws := hTail.subset (List.mem_append_right _ (List.mem_singleton_self x))
      obtain ⟨hNot, hRest⟩ := List.nodup_cons.mp hNodup
      cases i with
      | zero =>
        obtain rfl : w = x := Option.some.inj hx
        exact absurd hIn hNot
      | succ => exact Nat.succ_le_succ (ih hTail hRest hx)

theorem place_without {l : List α} {k : β} {i : Nat} (hNodup : (l.map key).Nodup)
    (hx : (l.filter fun y => key y ≠ k)[i]? = some x) : ∃ j, j ≤ i + 1 ∧ l[j]? = some x := by
  induction l generalizing i with
  | nil => cases hx
  | cons z zs ih =>
    obtain ⟨hNot, hRest⟩ := List.nodup_cons.mp hNodup
    by_cases hz : key z = k
    · -- nothing else is taken out
      have hAll : (zs.filter fun y => key y ≠ k) = zs := by
        refine List.filter_eq_self.mpr fun y hy => decide_eq_true ?_
        intro hKey
        exact hNot (List.mem_map.mpr ⟨y, hy, hKey.trans hz.symm⟩)
      rw [List.filter_cons_of_neg (by simp [hz]), hAll] at hx
      exact ⟨i + 1, Nat.le_refl _, hx⟩
    · rw [List.filter_cons_of_pos (by simp [hz])] at hx
      cases i with
      | zero => exact ⟨0, Nat.zero_le _, hx⟩
      | succ =>
        obtain ⟨j, hj, hGet⟩ := ih hRest hx
        exact ⟨j + 1, Nat.succ_le_succ hj, hGet⟩

/-! ## Caches -/

/-- What a cache of at most `cap` entries, oldest first, owes to the history of
its insertions; `wanted` entries are not forgotten. -/
structure Caches (key : α → β) (cap : Nat) (wanted : α → Prop) (log cache : List α) : Prop where
  part : cache.reverse.Sublist (recent key log)
  bounded : cache.length ≤ cap
  complete : ∀ i x, (recent key log)[i]? = some x → i < cap → wanted x → x ∈ cache

/-- Make room for an entry, and put it at the end. -/
def pushRecent (key : α → β) (cap : Nat) (cache : List α) (x : α) : List α :=
  let kept := cache.filter fun y => key y ≠ key x
  (if kept.length = cap then kept.tail else kept) ++ [x]

namespace Caches

variable {cap : Nat} {wanted wanted' : α → Prop}

theorem nil : Caches key cap wanted [] [] :=
  ⟨List.Sublist.refl _, Nat.zero_le _, nofun⟩

theorem nodup (h : Caches key cap wanted log cache) : (cache.map key).Nodup := by
  have hReverse := (recent_nodup log).sublist (h.part.map key)
  rw [List.map_reverse] at hReverse
  exact List.nodup_reverse.mp hReverse

theorem mem_recent (h : Caches key cap wanted log cache) (hx : x ∈ cache) : x ∈ recent key log :=
  h.part.subset (List.mem_reverse.mpr hx)

theorem retain (h : Caches key cap wanted log cache) {keep : α → Bool}
    (hKeep : ∀ x, wanted' x → wanted x ∧ keep x) :
    Caches key cap wanted' log (cache.filter keep) := by
  refine ⟨?_, Nat.le_trans (List.length_filter_le ..) h.bounded, ?_⟩
  · rw [← List.filter_reverse]
    exact List.filter_sublist.trans h.part
  · intro i x hx hi hWanted
    obtain ⟨hWas, hKept⟩ := hKeep x hWanted
    exact List.mem_filter.mpr ⟨h.complete i x hx hi hWas, hKept⟩

theorem kept_part (h : Caches key cap wanted log cache) (x : α) :
    (cache.filter fun y => key y ≠ key x).reverse.Sublist
      ((recent key log).filter fun y => key y ≠ key x) := by
  rw [← List.filter_reverse]
  exact h.part.filter _

theorem push (h : Caches key cap wanted log cache) (hCap : 0 < cap) (x : α) :
    Caches key cap wanted (x :: log) (pushRecent key cap cache x) := by
  have hKept := h.kept_part x
  have hNodup : ((recent key log).filter fun y => key y ≠ key x).Nodup :=
    (List.Nodup.of_map key (recent_nodup log)).filter _
  have hLength : (cache.filter fun y => key y ≠ key x).length ≤ cap :=
    Nat.le_trans (List.length_filter_le ..) h.bounded
  unfold pushRecent
  generalize hEq : (cache.filter fun y => key y ≠ key x) = kept at hKept hLength
  refine ⟨?_, ?_, ?_⟩
  · rw [List.reverse_append, List.reverse_singleton, List.singleton_append, recent]
    refine List.Sublist.cons_cons x ?_
    split
    · exact (List.reverse_sublist.mpr kept.tail_sublist).trans hKept
    · exact hKept
  · rw [List.length_append, List.length_singleton]
    split
    · rename_i hFull
      rw [List.length_tail, hFull]
      omega
    · omega
  · intro i y hy hi hWanted
    cases i with
    | zero =>
      obtain rfl : x = y := Option.some.inj hy
      exact List.mem_append_right _ (List.mem_singleton_self x)
    | succ i =>
      have hPlace : ((recent key log).filter fun z => key z ≠ key x)[i]? = some y := hy
      obtain ⟨j, hj, hOld⟩ := place_without (recent_nodup log) hPlace
      have hNe := (List.mem_filter.mp (List.mem_of_getElem? hPlace)).2
      have hIn : y ∈ kept := by
        rw [← hEq]
        exact List.mem_filter.mpr ⟨h.complete j y hOld (by omega) hWanted, hNe⟩
      refine List.mem_append_left _ ?_
      split
      · rename_i hFull
        cases kept with
        | nil => cases hIn
        | cons oldest =>
          rcases List.mem_cons.mp hIn with rfl | hIn
          · -- the oldest of a full cache has all others before it
            rw [List.reverse_cons] at hKept
            have hBehind := last_place hKept hNodup hPlace
            rw [List.length_reverse] at hBehind
            rw [List.length_cons] at hFull
            omega
          · exact hIn
      · exact hIn

end Caches

end Forward.Lib

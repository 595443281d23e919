import Mathlib.Data.List.AList

/-!
# Finite maps that a program walks over

Hash maps as association lists with different keys: to Mathlib's `AList`, the operations that go
through a whole map, each with the one fact that says what it does to a key.
-/

namespace Forward.Lib

universe u v

abbrev Table (κ : Type u) (ν : Type v) := AList fun _ : κ => ν

namespace Table

variable {κ : Type u} {ν : Type v} [DecidableEq κ]

def values (t : Table κ ν) : List ν := t.entries.map fun e => e.2

def retain (t : Table κ ν) (keep : κ → ν → Bool) : Table κ ν :=
  ⟨t.entries.filter fun e => keep e.1 e.2, t.nodupKeys.sublist List.filter_sublist⟩

variable {t : Table κ ν} {k : κ} {v : ν}

theorem lookup_some_iff :
    t.lookup k = some v ↔ ⟨k, v⟩ ∈ t.entries := AList.mem_lookup_iff

theorem mem_values_iff : v ∈ t.values ↔ ∃ k, t.lookup k = some v := by
  simp only [values, List.mem_map, lookup_some_iff]
  constructor
  · rintro ⟨⟨k, v⟩, hIn, rfl⟩
    exact ⟨k, hIn⟩
  · rintro ⟨k, hIn⟩
    exact ⟨⟨k, v⟩, hIn, rfl⟩

theorem lookup_retain (t : Table κ ν) (keep : κ → ν → Bool) (k : κ) :
    (t.retain keep).lookup k = (t.lookup k).filter (keep k) := by
  ext v
  rw [lookup_some_iff, Option.filter_eq_some_iff, lookup_some_iff]
  exact List.mem_filter

variable {k' : κ}

theorem lookup_insert_cases {v' : ν}
    (h : (t.insert k v).lookup k' = some v') :
    (k' = k ∧ v' = v) ∨ (k' ≠ k ∧ t.lookup k' = some v') := by
  by_cases hEq : k' = k
  · subst hEq
    rw [AList.lookup_insert] at h
    exact .inl ⟨rfl, (Option.some.inj h).symm⟩
  · rw [AList.lookup_insert_ne hEq] at h
    exact .inr ⟨hEq, h⟩

theorem lookup_erase_cases
    (h : (t.erase k).lookup k' = some v) : k' ≠ k ∧ t.lookup k' = some v := by
  by_cases hEq : k' = k
  · subst hEq
    rw [AList.lookup_erase] at h
    cases h
  · rw [AList.lookup_erase_ne hEq] at h
    exact ⟨hEq, h⟩

theorem lookup_erase_of_none (h : t.lookup k' = none) (k : κ) : (t.erase k).lookup k' = none := by
  cases hFound : (t.erase k).lookup k' with
  | none => rfl
  | some => cases h.symm.trans (lookup_erase_cases hFound).2

end Table

end Forward.Lib

import Forward.Lib.History

/-!
# A register in a history

Some events of a history write a register: `write e = some (old, new)` says that `e` replaced the
value `old` by `new`. Where every write replaces the value that was there by one that was never
replaced before (`WritesFresh`), a value is held during one stretch of the history only.
-/

namespace Forward.Lib

universe u v

variable {ε : Type u} {ν : Type v}

def held (write : ε → Option (ν × ν)) (init : Option ν) : List ε → Option ν
  | [] => init
  | e :: before =>
    match write e with
    | some (_, new) => some new
    | none => held write init before

def WritesFresh (write : ε → Option (ν × ν)) (init : Option ν) (e : ε) (before : List ε) : Prop :=
  ∀ old new, write e = some (old, new) →
    held write init before = some old ∧ old ≠ new ∧
      ∀ e' ∈ before, ∀ old' new', write e' = some (old', new') → old' ≠ new

section

variable {write : ε → Option (ν × ν)} {init : Option ν} {log mid rest newer older : List ε}
  {e : ε} {v old new : ν}

theorem held_cons_write (h : write e = some (old, new)) :
    held write init (e :: log) = some new := by
  simp [held, h]

theorem held_cons_none (h : write e = none) :
    held write init (e :: log) = held write init log := by
  simp [held, h]

theorem held_append_none (h : ∀ e ∈ mid, write e = none) :
    held write init (mid ++ log) = held write init log := by
  induction mid with
  | nil => rfl
  | cons x mid ih =>
    rw [List.cons_append, held_cons_none (h x (List.mem_cons_self ..))]
    exact ih fun e he => h e (List.mem_cons_of_mem _ he)

theorem held_not_replaced (hFresh : Historically (WritesFresh write init) log)
    (hHeld : held write init log = some v) (he : e ∈ log) (hWrite : write e = some (old, new)) :
    old ≠ v := by
  induction log with
  | nil => cases he
  | cons x rest ih =>
    cases hx : write x with
    | none =>
      rw [held_cons_none hx] at hHeld
      rcases List.mem_cons.mp he with rfl | he
      · rw [hx] at hWrite
        cases hWrite
      · exact ih hFresh.tail hHeld he
    | some pair =>
      obtain ⟨o, n⟩ := pair
      rw [held_cons_write hx] at hHeld
      obtain rfl := Option.some.inj hHeld
      obtain ⟨-, hNe, hUnused⟩ := hFresh [] x rest rfl o n hx
      rcases List.mem_cons.mp he with rfl | he
      · rw [hx] at hWrite
        obtain ⟨rfl, -⟩ := Prod.mk.inj (Option.some.inj hWrite)
        exact hNe
      · exact hUnused e he old new hWrite

theorem held_or_replaced (hFresh : Historically (WritesFresh write init) (mid ++ rest))
    (hHeld : held write init rest = some v) :
    held write init (mid ++ rest) = some v ∨ ∃ e ∈ mid, ∃ new, write e = some (v, new) := by
  induction mid with
  | nil => exact .inl hHeld
  | cons x mid ih =>
    rcases ih hFresh.tail with hStill | ⟨e, he, hReplaced⟩
    · cases hx : write x with
      | none =>
        left
        rw [List.cons_append, held_cons_none hx]
        exact hStill
      | some pair =>
        obtain ⟨o, n⟩ := pair
        obtain ⟨hOld, -, -⟩ := hFresh [] x (mid ++ rest) rfl o n hx
        obtain rfl := Option.mem_unique hOld hStill
        exact .inr ⟨x, List.mem_cons_self .., n, hx⟩
    · exact .inr ⟨e, List.mem_cons_of_mem _ he, hReplaced⟩

theorem held_since (hHeld : held write init (newer ++ e :: older) = some v)
    (hWrite : write e = some (old, new)) :
    ∃ e' ∈ newer ++ [e], ∃ old', write e' = some (old', v) := by
  induction newer with
  | nil =>
    rw [List.nil_append, held_cons_write hWrite] at hHeld
    cases hHeld
    exact ⟨e, List.mem_singleton_self e, old, hWrite⟩
  | cons x newer ih =>
    cases hx : write x with
    | none =>
      rw [List.cons_append, held_cons_none hx] at hHeld
      obtain ⟨e', he', hSince⟩ := ih hHeld
      exact ⟨e', List.mem_cons_of_mem _ he', hSince⟩
    | some pair =>
      obtain ⟨o, n⟩ := pair
      rw [List.cons_append, held_cons_write hx] at hHeld
      cases hHeld
      exact ⟨x, List.mem_cons_self .., o, hx⟩

/-- **A read is no older than a write that did not replace what was read.** -/
theorem read_not_older (hFresh : Historically (WritesFresh write init) log)
    (hRead : held write init rest = some v) (hRest : log = mid ++ rest)
    (hLog : log = newer ++ e :: older) (hWrite : write e = some (old, new))
    (hKept : ∀ x ∈ e :: older, ∀ new, write x ≠ some (v, new)) :
    ∃ e' ∈ newer ++ [e], ∃ old', write e' = some (old', v) := by
  -- the read came after the write, or before it
  rcases List.append_eq_append_iff.mp (hLog.symm.trans hRest) with
    ⟨between, hMid, hOlder⟩ | ⟨between, hNewer, hAfter⟩
  · cases between with
    | nil =>
      have hSame : rest = [] ++ e :: older := by simpa using hOlder.symm
      rw [hSame] at hRead
      obtain ⟨e', he', hSince⟩ := held_since hRead hWrite
      exact ⟨e', List.mem_append_right _ he', hSince⟩
    | cons x between =>
      -- then it was replaced by this write or before it
      obtain ⟨rfl, hBefore⟩ := List.cons.inj hOlder
      have hBefore : older = between ++ rest := hBefore
      have hPast : Historically (WritesFresh write init) (e :: (between ++ rest)) := by
        rw [hLog, hBefore] at hFresh
        exact hFresh.past
      rcases held_or_replaced hPast.tail hRead with hStill | ⟨y, hy, next, hReplaced⟩
      · obtain ⟨hOld, -, -⟩ := hFresh newer e older hLog old new hWrite
        rw [hBefore] at hOld
        obtain rfl := Option.mem_unique hOld hStill
        exact absurd hWrite (hKept e (List.mem_cons_self ..) new)
      · refine absurd hReplaced (hKept y ?_ next)
        rw [hBefore]
        simp [hy]
  · rw [hAfter] at hRead
    obtain ⟨e', he', hSince⟩ := held_since hRead hWrite
    refine ⟨e', ?_, hSince⟩
    rw [hNewer, List.append_assoc]
    exact List.mem_append_right _ he'

end

end Forward.Lib

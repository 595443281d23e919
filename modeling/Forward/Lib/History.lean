import Mathlib.Data.List.Basic

/-!
# Reasoning about the past of a run

A history is the list of events of a run, the newest first. One shared by many threads is `Staged`
when each thread's events climb in rank: it then does each thing at most once.
-/

namespace Forward.Lib

universe u

variable {ε : Type u} {breaks breaks' : ε → Prop} {P P' : ε → List ε → Prop}
variable {Q Q' : ε → List ε → Prop} {log new older : List ε} {e : ε}

/-- Since an event that satisfied `P`, no event was in `breaks`. -/
def Since (breaks : ε → Prop) (P : ε → List ε → Prop) (log : List ε) : Prop :=
  ∃ mid e before, log = mid ++ e :: before ∧ P e before ∧ ∀ x ∈ mid, ¬ breaks x

/-- At some point of the past an event satisfied `P`. -/
abbrev Once (P : ε → List ε → Prop) (log : List ε) : Prop := Since (fun _ => False) P log

/-- Every event satisfied `Q` when it happened. -/
def Historically (Q : ε → List ε → Prop) (log : List ε) : Prop :=
  ∀ newer e older, log = newer ++ e :: older → Q e older

theorem split_cases {e' : ε} {newer newer' older' : List ε}
    (h : newer ++ e :: older = newer' ++ e' :: older') :
    (newer = newer' ∧ e = e' ∧ older = older') ∨ (∃ xs, older = xs ++ e' :: older') ∨
      ∃ xs, older' = xs ++ e :: older := by
  induction newer generalizing newer' with
  | nil =>
    cases newer' with
    | nil =>
      obtain ⟨rfl, rfl⟩ := List.cons.inj h
      exact .inl ⟨rfl, rfl, rfl⟩
    | cons x xs => exact .inr (.inl ⟨xs, (List.cons.inj h).2⟩)
  | cons x xs ih =>
    cases newer' with
    | nil => exact .inr (.inr ⟨xs, (List.cons.inj h).2.symm⟩)
    | cons =>
      obtain ⟨rfl, hTail⟩ := List.cons.inj h
      rcases ih hTail with ⟨rfl, hSame⟩ | hPast
      · exact .inl ⟨rfl, hSame⟩
      · exact .inr hPast

namespace Since

theorem now (h : P e log) : Since breaks P (e :: log) :=
  ⟨[], e, log, rfl, h, by simp⟩

theorem cons (h : Since breaks P log) (he : ¬ breaks e) : Since breaks P (e :: log) := by
  obtain ⟨mid, e', before, rfl, hP, hMid⟩ := h
  refine ⟨e :: mid, e', before, rfl, hP, ?_⟩
  intro x hx
  rcases List.mem_cons.mp hx with rfl | hx
  · exact he
  · exact hMid x hx

theorem append (h : Since breaks P log) (hNew : ∀ e ∈ new, ¬ breaks e) :
    Since breaks P (new ++ log) := by
  induction new with
  | nil => exact h
  | cons e es ih =>
    have hes := ih fun x hx => hNew x (List.mem_cons_of_mem _ hx)
    exact hes.cons (hNew e (List.mem_cons_self ..))

theorem mono (h : Since breaks P log) (hP : ∀ e before, P e before → P' e before) :
    Since breaks P' log := by
  obtain ⟨mid, e, before, hLog, hE, hMid⟩ := h
  exact ⟨mid, e, before, hLog, hP e before hE, hMid⟩

end Since

theorem Once.append (h : Once P log) (new : List ε) : Once P (new ++ log) :=
  Since.append h fun _ _ => id

namespace Historically

theorem nil : Historically Q [] := by
  intro newer e older h
  simp at h

theorem cons (h : Historically Q log) (he : Q e log) : Historically Q (e :: log) := by
  intro newer e' older hLog
  cases newer with
  | nil =>
    obtain ⟨rfl, rfl⟩ := List.cons.inj hLog
    exact he
  | cons x xs => exact h xs e' older (List.cons.inj hLog).2

theorem append (h : Historically Q log)
    (hNew : ∀ newer e older, new = newer ++ e :: older → Q e (older ++ log)) :
    Historically Q (new ++ log) := by
  induction new with
  | nil => exact h
  | cons x xs ih =>
    refine (ih fun newer e older hEq => hNew (x :: newer) e older (by rw [hEq]; rfl)).cons ?_
    exact hNew [] x xs rfl

theorem past (h : Historically Q (new ++ log)) : Historically Q log :=
  fun newer e older hLog => h (new ++ newer) e older (by rw [hLog, List.append_assoc])

theorem tail (h : Historically Q (e :: log)) : Historically Q log := by
  have hAll : Historically Q ([e] ++ log) := h
  exact hAll.past

theorem of_mem (h : Historically Q log) (he : e ∈ log) :
    ∃ newer older, log = newer ++ e :: older ∧ Q e older := by
  obtain ⟨newer, older, rfl⟩ := List.mem_iff_append.mp he
  exact ⟨newer, older, rfl, h newer e older rfl⟩

end Historically

/-! ## Staged histories -/

section Staged

universe v

variable {κ : Type v} {owner : ε → Option κ} {rank : ε → Nat} {stage stage' : κ → Nat}

/-- Every owner's events climb in rank, and all lie below the stage the owner
has reached. -/
structure Staged (owner : ε → Option κ) (rank : ε → Nat) (stage : κ → Nat) (log : List ε) :
    Prop where
  climbs : log.Pairwise fun later earlier =>
    ∀ k, owner later = some k → owner earlier = some k → rank earlier < rank later
  below : ∀ e ∈ log, ∀ k, owner e = some k → rank e < stage k

namespace Staged

theorem nil : Staged owner rank stage [] := ⟨.nil, by simp⟩

theorem advance (h : Staged owner rank stage log) (hStage : ∀ k, stage k ≤ stage' k) :
    Staged owner rank stage' log :=
  ⟨h.climbs, fun e he k hk => Nat.lt_of_lt_of_le (h.below e he k hk) (hStage k)⟩

theorem record (h : Staged owner rank stage log) (hStage : ∀ k, stage k ≤ stage' k)
    (he : ∀ k, owner e = some k → stage k ≤ rank e ∧ rank e < stage' k) :
    Staged owner rank stage' (e :: log) := by
  refine ⟨List.pairwise_cons.mpr ⟨?_, h.climbs⟩, ?_⟩
  · intro x hx k hk hxk
    have hLow := h.below x hx k hxk
    have hHigh := (he k hk).1
    omega
  · intro x hx k hk
    rcases List.mem_cons.mp hx with rfl | hx
    · exact (he k hk).2
    · exact (h.advance hStage).below x hx k hk

theorem quiet (h : Staged owner rank stage log) (hNew : ∀ e ∈ new, owner e = none) :
    Staged owner rank stage (new ++ log) := by
  induction new with
  | nil => exact h
  | cons x xs ih =>
    have hxs := ih fun e he => hNew e (List.mem_cons_of_mem _ he)
    refine hxs.record (fun _ => Nat.le_refl _) ?_
    intro k hk
    rw [hNew x (List.mem_cons_self ..)] at hk
    cases hk

theorem past {newer : List ε} (h : Staged owner rank stage (newer ++ log)) :
    Staged owner rank stage log :=
  ⟨h.climbs.sublist (List.sublist_append_right ..),
    fun e he => h.below e (List.mem_append_right _ he)⟩

variable {e' : ε} {k : κ}

theorem ordered (h : Staged owner rank stage log) (he : e ∈ log)
    (he' : e' ∈ log) (hk : owner e = some k) (hk' : owner e' = some k)
    (hRank : rank e' < rank e) : [e, e'].Sublist log := by
  obtain ⟨newer, older, rfl⟩ := List.mem_iff_append.mp he
  have hOlder : e' ∈ older := by
    rcases List.mem_append.mp he' with hNewer | hRest
    · have := (List.pairwise_append.mp h.climbs).2.2 e' hNewer e (List.mem_cons_self ..) k hk' hk
      omega
    · rcases List.mem_cons.mp hRest with rfl | hOlder
      · omega
      · exact hOlder
  exact ((List.singleton_sublist.mpr hOlder).cons_cons e).trans (List.sublist_append_right ..)

/-- **An owner has at most one event of each rank.** -/
theorem unique {newer newer' older' : List ε}
    (h : Staged owner rank stage log) (hLog : log = newer ++ e :: older)
    (hLog' : log = newer' ++ e' :: older') (hk : owner e = some k) (hk' : owner e' = some k)
    (hRank : rank e = rank e') : newer = newer' ∧ e = e' ∧ older = older' := by
  have hClimb : ∀ {newer older : List ε} {x y : ε}, log = newer ++ x :: older → y ∈ older →
      owner x = some k → owner y = some k → rank y < rank x := by
    rintro newer older x y rfl hy hx hOwner
    have hTail := (List.pairwise_append.mp h.climbs).2.1
    exact (List.pairwise_cons.mp hTail).1 y hy k hx hOwner
  rcases split_cases (hLog.symm.trans hLog') with hSame | ⟨xs, hOlder⟩ | ⟨xs, hOlder⟩
  · exact hSame
  · have := hClimb hLog (y := e') (by rw [hOlder]; simp) hk hk'
    omega
  · have := hClimb hLog' (y := e) (by rw [hOlder]; simp) hk' hk
    omega

theorem unique_mem (h : Staged owner rank stage log) (he : e ∈ log)
    (he' : e' ∈ log) (hk : owner e = some k) (hk' : owner e' = some k)
    (hRank : rank e = rank e') : e = e' := by
  obtain ⟨newer, older, hLog⟩ := List.mem_iff_append.mp he
  obtain ⟨newer', older', hLog'⟩ := List.mem_iff_append.mp he'
  exact (h.unique hLog hLog' hk hk' hRank).2.1

end Staged

end Staged

end Forward.Lib

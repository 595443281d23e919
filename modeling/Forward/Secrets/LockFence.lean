import Mathlib.Data.List.TakeWhile
import Forward.Secrets.Provenance

/-!
# Nothing crosses a LOCK

LOCK empties the three tables and raises the epoch in one critical section. Work that was under way
keeps the epoch it started with and is compared with the current one before it leaves anything
behind: the worker's job before its grant is inserted, an AUTHORIZE before its receipt is minted.
-/

namespace Forward.Secrets

open Lib

/-! ## Epochs in the history -/

namespace Event

def isLock : Event → Bool
  | locked => true
  | _ => false

/-- The deadline of the capability grant an event creates. -/
def deadline : Event → Option Nat
  | redeemed _ _ _ _ deadline => some deadline
  | _ => none

end Event

/-- The number of LOCKs so far; the epoch, until it stops at the largest word. -/
def locks (trail : List Event) : Nat := trail.countP Event.isLock

/-- What happened since the last LOCK. -/
def current (trail : List Event) : List Event := trail.takeWhile fun e => !e.isLock

-- a job and an AUTHORIZE carry the epoch they were started at
def ReadsEpoch : Event → List Event → Prop
  | .started job, before => job.lockEpoch = min (locks before) wordMax
  | .began _ _ epoch, before => epoch = min (locks before) wordMax
  | _, _ => True

section

variable {e : Event} {trail newer older : List Event}

theorem locks_cons (he : e.isLock = false) : locks (e :: trail) = locks trail := by
  simp [locks, he]

theorem locks_locked : locks (.locked :: trail) = locks trail + 1 := by
  unfold locks
  rw [List.countP_cons_of_pos rfl]

theorem current_cons (he : e.isLock = false) : current (e :: trail) = e :: current trail := by
  simp [current, he]

theorem mem_current (hTrail : trail = newer ++ e :: older) (he : e.isLock = false)
    (hLocks : locks older = locks trail) : e ∈ current trail := by
  subst hTrail
  induction newer with
  | nil =>
    show e ∈ current (e :: older)
    rw [current_cons he]
    exact List.mem_cons_self ..
  | cons x xs ih =>
    have hRest : locks (xs ++ e :: older) = locks xs + locks older := by
      show locks _ = _
      unfold locks
      rw [List.countP_append, List.countP_cons_of_neg (by simp [he])]
    by_cases hx : x.isLock
    · -- a LOCK after the event would have been counted
      have hSum : locks (x :: (xs ++ e :: older)) = locks (xs ++ e :: older) + 1 := by
        simp [locks, hx]
      rw [List.cons_append] at hLocks
      omega
    · rw [Bool.not_eq_true] at hx
      rw [List.cons_append] at hLocks ⊢
      rw [locks_cons hx] at hLocks
      rw [current_cons hx]
      exact List.mem_cons_of_mem _ (ih hLocks)

theorem current_split (trail : List Event) :
    ∃ older, trail = current trail ++ older ∧ .locked ∉ current trail ∧
      locks older = locks trail := by
  have hClean : ∀ e ∈ current trail, e.isLock = false := by
    intro e he
    have := List.mem_takeWhile_imp he
    simpa using this
  refine ⟨trail.dropWhile fun e => !e.isLock, (List.takeWhile_append_dropWhile ..).symm, ?_, ?_⟩
  · intro hLocked
    cases hClean _ hLocked
  · have hCount : locks (current trail) = 0 := by
      refine List.countP_eq_zero.mpr fun e he => ?_
      rw [hClean e he]
      decide
    have hAll : locks trail = locks (current trail) +
        locks (trail.dropWhile fun e => !e.isLock) := by
      unfold locks current
      rw [← List.countP_append, List.takeWhile_append_dropWhile]
    omega

end

/-! ## The fence -/

/-- Nothing in the tables was started before the last LOCK. -/
structure Fence (c : Core) : Prop where
  epoch : c.st.lockEpoch = min (locks c.st.trail) wordMax
  reads : Historically ReadsEpoch c.st.trail
  grants : locks c.st.trail < wordMax → ∀ g ∈ c.st.grants.grants, ∃ job,
    job.lockEpoch = c.st.lockEpoch ∧
      [.inserted job g, .started job].Sublist (current c.st.trail)
  receipts : locks c.st.trail < wordMax → ∀ r ∈ c.st.receipts.entries, ∃ h,
    [.minted h r.cap r.id r.minted, .began h r.cap c.st.lockEpoch].Sublist (current c.st.trail)
  redeemed : c.st.capabilityGrants.entries.Sublist
    ((current c.st.trail).reverse.filterMap Event.deadline)

namespace Fence

variable {w : World} {role : Role} {c d : Core}

theorem quiet (hF : Fence c) (hTrail : d.st.trail = c.st.trail)
    (hEpoch : d.st.lockEpoch = c.st.lockEpoch)
    (hGrants : ∀ g ∈ d.st.grants.grants, g ∈ c.st.grants.grants)
    (hReceipts : ∀ r ∈ d.st.receipts.entries, r ∈ c.st.receipts.entries)
    (hCaps : d.st.capabilityGrants.entries.Sublist c.st.capabilityGrants.entries) : Fence d := by
  refine ⟨by rw [hEpoch, hTrail]; exact hF.epoch, by rw [hTrail]; exact hF.reads, ?_, ?_, ?_⟩
  · rw [hTrail, hEpoch]
    exact fun hBound g hg => hF.grants hBound g (hGrants g hg)
  · rw [hTrail, hEpoch]
    exact fun hBound r hr => hF.receipts hBound r (hReceipts r hr)
  · rw [hTrail]
    exact hCaps.trans hF.redeemed

variable {e : Event}

theorem record (hF : Fence c) (hTrail : d.st.trail = e :: c.st.trail)
    (he : e.isLock = false) (hRead : ReadsEpoch e c.st.trail)
    (hEpoch : d.st.lockEpoch = c.st.lockEpoch)
    (hGrants : locks c.st.trail < wordMax → ∀ g ∈ d.st.grants.grants, g ∈ c.st.grants.grants ∨
      ∃ job, job.lockEpoch = c.st.lockEpoch ∧ e = .inserted job g ∧
        .started job ∈ current c.st.trail)
    (hReceipts : locks c.st.trail < wordMax → ∀ r ∈ d.st.receipts.entries,
      r ∈ c.st.receipts.entries ∨
      ∃ h, e = .minted h r.cap r.id r.minted ∧
        .began h r.cap c.st.lockEpoch ∈ current c.st.trail)
    (hCaps : d.st.capabilityGrants.entries.Sublist
      (c.st.capabilityGrants.entries ++ e.deadline.toList)) : Fence d := by
  refine ⟨?_, ?_, ?_, ?_, ?_⟩
  · rw [hEpoch, hTrail, locks_cons he]
    exact hF.epoch
  · rw [hTrail]
    exact hF.reads.cons hRead
  · rw [hTrail, hEpoch, locks_cons he, current_cons he]
    intro hBound g hg
    rcases hGrants hBound g hg with hOld | ⟨job, hJob, rfl, hStarted⟩
    · obtain ⟨job, hJob, hSub⟩ := hF.grants hBound g hOld
      exact ⟨job, hJob, hSub.cons _⟩
    · exact ⟨job, hJob, (List.singleton_sublist.mpr hStarted).cons_cons _⟩
  · rw [hTrail, hEpoch, locks_cons he, current_cons he]
    intro hBound r hr
    rcases hReceipts hBound r hr with hOld | ⟨h, rfl, hBegan⟩
    · obtain ⟨h, hSub⟩ := hF.receipts hBound r hOld
      exact ⟨h, hSub.cons _⟩
    · exact ⟨h, (List.singleton_sublist.mpr hBegan).cons_cons _⟩
  · rw [hTrail, current_cons he, List.reverse_cons, List.filterMap_append]
    refine hCaps.trans (hF.redeemed.append ?_)
    cases hDeadline : e.deadline <;> simp [hDeadline]

theorem current_of_epoch (hF : Fence c) {epoch : Nat} (he : e ∈ c.st.trail)
    (hLock : e.isLock = false)
    (hRead : ∀ before, ReadsEpoch e before → epoch = min (locks before) wordMax)
    (hEpoch : c.st.lockEpoch = epoch) (hBound : locks c.st.trail < wordMax) :
    e ∈ current c.st.trail := by
  obtain ⟨newer, older, hTrail, hReads⟩ := hF.reads.of_mem he
  refine mem_current hTrail hLock ?_
  have hOld : locks older ≤ locks c.st.trail := by
    rw [hTrail]
    unfold locks
    rw [List.countP_append, List.countP_cons]
    omega
  have hThen := hRead older hReads
  have hNow := hF.epoch
  omega

theorem insert (hF : Fence c) {job : Job} {g : Grant} (hHand : InHand job c.st.trail)
    (hEpoch : c.st.lockEpoch = job.lockEpoch)
    (hTrail : d.st.trail = .inserted job g :: c.st.trail)
    (hSame : d.st.lockEpoch = c.st.lockEpoch) (hGrants : d.st.grants = c.st.grants.insert g)
    (hReceipts : d.st.receipts = c.st.receipts)
    (hCaps : d.st.capabilityGrants = c.st.capabilityGrants) : Fence d := by
  refine hF.record hTrail rfl trivial hSame ?_ ?_ ?_
  · intro hBound g' hg'
    rw [hGrants] at hg'
    rcases List.mem_append.mp hg' with hOld | hNew
    · exact .inl (List.mem_of_mem_filter hOld)
    · rw [List.mem_singleton] at hNew
      subst hNew
      refine .inr ⟨job, hEpoch.symm, rfl, ?_⟩
      exact hF.current_of_epoch hHand.started rfl (fun _ hRead => hRead) hEpoch hBound
  · rw [hReceipts]
    exact fun _ r hr => Or.inl hr
  · rw [hCaps]
    exact List.sublist_append_left _ _

theorem mint (hF : Fence c) {h : Nat} {cap : Capability} {reads : List ReceiptId} {id : ReceiptId}
    (hBegan : .began h cap c.st.lockEpoch ∈ c.st.trail)
    (hMint : (c.st.receipts.mintId cap c.clock reads).2 = .ok id)
    (hTrail : d.st.trail = .minted h cap id c.clock :: c.st.trail)
    (hSame : d.st.lockEpoch = c.st.lockEpoch) (hGrants : d.st.grants = c.st.grants)
    (hReceipts : d.st.receipts = (c.st.receipts.mintId cap c.clock reads).1)
    (hCaps : d.st.capabilityGrants = c.st.capabilityGrants) : Fence d := by
  refine hF.record hTrail rfl trivial hSame ?_ ?_ ?_
  · rw [hGrants]
    exact fun _ g hg => Or.inl hg
  · intro hBound r hr
    rw [hReceipts] at hr
    rcases c.st.receipts.mintId_cases cap c.clock reads with ⟨_, hEq⟩ | ⟨_, _, _, hEq⟩
    · rw [hEq] at hMint
      cases hMint
    · rw [hEq] at hMint hr
      cases hMint
      rcases List.mem_append.mp hr with hOld | hNew
      · exact .inl (ReceiptTable.mem_sweep.mp hOld).1
      · rw [List.mem_singleton] at hNew
        subst hNew
        refine .inr ⟨h, rfl, ?_⟩
        exact hF.current_of_epoch hBegan rfl (fun _ hRead => hRead) rfl hBound
  · rw [hCaps]
    exact List.sublist_append_left _ _

theorem pass (hF : Fence c) (hTrail : d.st.trail = e :: c.st.trail)
    (he : e.isLock = false) (hRead : ReadsEpoch e c.st.trail)
    (hEpoch : d.st.lockEpoch = c.st.lockEpoch)
    (hGrants : ∀ g ∈ d.st.grants.grants, g ∈ c.st.grants.grants)
    (hReceipts : d.st.receipts = c.st.receipts)
    (hCaps : d.st.capabilityGrants = c.st.capabilityGrants) : Fence d := by
  refine hF.record hTrail he hRead hEpoch (fun _ g hg => Or.inl (hGrants g hg)) ?_ ?_
  · rw [hReceipts]
    exact fun _ r hr => Or.inl hr
  · rw [hCaps]
    exact List.sublist_append_left _ _

theorem lock (hF : Fence c) (hTrail : d.st.trail = .locked :: c.st.trail)
    (hEpoch : d.st.lockEpoch = satAdd c.st.lockEpoch 1) (hGrants : d.st.grants.grants = [])
    (hReceipts : d.st.receipts.entries = []) (hCaps : d.st.capabilityGrants.entries = []) :
    Fence d := by
  refine ⟨?_, ?_, ?_, ?_, ?_⟩
  · rw [hEpoch, hTrail, locks_locked, hF.epoch]
    unfold satAdd
    omega
  · rw [hTrail]
    exact hF.reads.cons trivial
  · simp [hGrants]
  · simp [hReceipts]
  · rw [hCaps]
    exact List.nil_sublist _

theorem micro (hF : Fence c) (h : Micro w role c d) : Fence d := by
  have hAll : ∀ g ∈ c.st.grants.grants, g ∈ c.st.grants.grants := fun _ hg => hg
  cases h with
  | note hOut hNote =>
    rename_i e
    refine hF.pass rfl ?_ ?_ rfl hAll rfl rfl
    · cases e <;> first | rfl | cases hNote
    · cases e <;> trivial
  | began | start => exact hF.pass rfl rfl hF.epoch rfl hAll rfl rfl
  | register | unregister | revoke =>
    exact hF.pass rfl rfl trivial rfl (fun _ hg => List.mem_of_mem_filter hg) rfl rfl
  | expire =>
    exact hF.quiet rfl rfl (fun _ hg => List.mem_of_mem_filter hg) (fun _ hr => hr) (.refl _)
  | enqueue n scope key ttl =>
    rcases enqueue_spec c.st n scope key c.clock ttl with
      ⟨_, hEq⟩ | ⟨_, _, _, _, _, hEq⟩ | ⟨_, _, hEq⟩
    · rw [hEq]
      exact hF
    · rw [hEq]
      exact hF.pass rfl rfl trivial rfl hAll rfl rfl
    · rw [hEq]
      exact hF.pass rfl rfl trivial rfl hAll rfl rfl
  | kill id =>
    have hTrail := killActive_trail c.st id
    obtain ⟨active, trail, hEq⟩ := killActive_frame c.st id
    rw [hEq] at hTrail ⊢
    rcases hTrail with hSame | ⟨_, _, hNew⟩
    · exact hF.quiet hSame rfl hAll (fun _ hr => hr) (.refl _)
    · exact hF.pass hNew rfl trivial rfl hAll rfl rfl
  | signal | fail | answer => exact hF.pass rfl rfl trivial rfl hAll rfl rfl
  | insert hRole hJob hDone hEpoch hActive hNow hFile =>
    exact hF.insert hFile.inHand hEpoch rfl rfl rfl rfl rfl
  | mint hRole hBegan hMint => exact hF.mint hBegan hMint rfl rfl rfl rfl rfl
  | redeem =>
    refine hF.record rfl rfl trivial rfl (fun _ g hg => Or.inl hg) ?_ (.refl _)
    exact fun _ r hr => Or.inl (ReceiptTable.redeem_subset _ _ _ _ r hr)
  | sweepReceipts =>
    exact hF.quiet rfl rfl hAll (fun _ hr => (ReceiptTable.mem_sweep.mp hr).1) (.refl _)
  | sweepCapabilityGrants => exact hF.quiet rfl rfl hAll (fun _ hr => hr) List.filter_sublist
  | lock => exact hF.lock rfl rfl rfl rfl rfl
  | _ => exact hF.quiet rfl rfl hAll (fun _ hr => hr) (.refl _)

end Fence

/-! ## Whole runs -/

section

variable {cfg : Config} {bootId instanceId : String} {w : World} {s : Sys}

theorem fence_reachable (hReach : Reachable (broker cfg bootId instanceId w) s) :
    Fence s.core := by
  refine core_invariant ?_ (fun _ _ _ _ _ hF hMicro => hF.micro hMicro) hReach
  exact ⟨rfl, .nil, (fun _ _ hg => by cases hg), (fun _ _ hr => by cases hr), List.nil_sublist _⟩

/-- **LOCK fence.** With fewer than `2^64 - 1` LOCKs, the history splits at the last one: every
grant was inserted by a job that was started after it, every receipt was minted for an AUTHORIZE
that began after it, and the capability grants are among those of the REDEEMs after it. -/
theorem lock_fence (hReach : Reachable (broker cfg bootId instanceId w) s)
    (hLocks : locks s.st.trail < wordMax) :
    ∃ newer older, s.st.trail = newer ++ older ∧ .locked ∉ newer ∧
      s.st.lockEpoch = locks older ∧
      (∀ g ∈ s.st.grants.grants, ∃ job, job.lockEpoch = s.st.lockEpoch ∧
        [.inserted job g, .started job].Sublist newer) ∧
      (∀ r ∈ s.st.receipts.entries, ∃ h,
        [.minted h r.cap r.id r.minted, .began h r.cap s.st.lockEpoch].Sublist newer) ∧
      s.st.capabilityGrants.entries.Sublist (newer.reverse.filterMap Event.deadline) := by
  have hF := fence_reachable hReach
  obtain ⟨older, hSplit, hClean, hCount⟩ := current_split s.st.trail
  refine ⟨current s.st.trail, older, hSplit, hClean, ?_, hF.grants hLocks, hF.receipts hLocks,
    hF.redeemed⟩
  have hEpoch : s.st.lockEpoch = min (locks s.st.trail) wordMax := hF.epoch
  omega

end

theorem lock_fence_after_lock :
    ∃ (s : Sys) (newer older : List Event),
      Reachable (broker (Config.default [⟨"host", "/d"⟩]) "boot" "id" (fileWorld "A.env" 1)) s ∧
      locks s.st.trail < wordMax ∧ s.st.lockEpoch = 1 ∧ s.st.grants.grants.length = 1 ∧
      s.st.trail = newer ++ older ∧ .locked ∉ newer ∧
      ∀ g ∈ s.st.grants.grants, ∃ job, job.lockEpoch = 1 ∧
        [.inserted job g, .started job].Sublist newer := by
  let sys := broker (Config.default [⟨"host", "/d"⟩]) "boot" "id" (fileWorld "A.env" 1)
  let turn : Action := .handle 0 (.at 0) []
  let actions : List Action :=
    [.receive 1 .lock ⟨1⟩, .handle 1 (.at 0) [],
     .receive 0 (.get "A" none (some "/dev/pts/1") none) ⟨1⟩, turn, turn, turn, .tick 0,
     .openFile true, .spawn (some 7), .start,
     .poll (.exited ⟨true, some [], some [65, 61, 115, 10]⟩), .report (.at 0)]
  have hReplay : ((sys.run sys.init actions).map fun s =>
      decide (locks s.st.trail < wordMax ∧ s.st.lockEpoch = 1 ∧ s.st.grants.grants.length = 1)) =
      some true := by
    decide +kernel
  obtain ⟨s, hReach, hSeen⟩ := Reachable.of_replay hReplay
  obtain ⟨hLocks, hEpoch, hOne⟩ := of_decide_eq_true hSeen
  obtain ⟨newer, older, hSplit, hClean, -, hGrants, -, -⟩ := lock_fence hReach hLocks
  rw [hEpoch] at hGrants
  exact ⟨s, newer, older, hReach, hLocks, hEpoch, hOne, hSplit, hClean, hGrants⟩

/-- **No secret crosses a LOCK.** What a GET is answered with is the value of a grant for its own
scope and key, of a decrypt that was started after the last LOCK before the answer. -/
theorem released_since_lock {cfg : Config} {bootId instanceId : String} {w : World} {s : Sys}
    (hReach : Reachable (broker cfg bootId instanceId w) s)
    {newer older : List Event} {h time : Nat} {decision : Decision} {value : List UInt8}
    (hAnswer : s.st.trail = newer ++ .answered h decision time :: older)
    (hBytes : decision.outcome = .bytes value) (hLocks : locks older < wordMax) :
    ∃ job g, g.value = value ∧ .resolved h g.scope g.key ∈ older ∧
      [.inserted job g, .started job].Sublist (current older) := by
  have hAll : Historically (fun e before => ∀ h decision time value,
      e = .answered h decision time → decision.outcome = .bytes value → locks before < wordMax →
      ∃ job g, g.value = value ∧ .resolved h g.scope g.key ∈ before ∧
        [.inserted job g, .started job].Sublist (current before)) s.st.trail := by
    refine handler_invariant ?_ ?_ ?_ hReach
    · rintro e before - hNot n d t v rfl
      cases hNot
    · intro x n now reads cap epoch d id _ _ _ _ _ n' d' t v hEq
      cases hEq
    · intro x n r reads task st' d hx hTask _ hHandle n' d' t v hEq hV hFew
      obtain ⟨rfl, rfl, rfl⟩ := Event.answered.inj hEq
      have hPlace := (brokerInv_reachable hx).tasks n task hTask
      obtain ⟨rfl, flow, scope, key, source, rid, g, rfl, -, hLookup, hValue⟩ :=
        handle_bytes hPlace hHandle hV
      obtain ⟨hMem, rfl, rfl, -⟩ := GrantTable.lookupGrant_some hLookup
      -- the grant is in the table, so the fence has it
      obtain ⟨job, -, hSince⟩ := (fence_reachable hx).grants hFew g hMem
      obtain ⟨⟨-, hResolved, -⟩, -⟩ := hPlace
      exact ⟨job, g, hValue, hResolved, hSince⟩
  exact hAll newer _ older hAnswer h decision time value rfl hBytes hLocks

theorem released_after_lock :
    ∃ (s : Sys) (older : List Event) (decision : Decision) (job : Job) (g : Grant),
      Reachable (broker (Config.default [⟨"host", "/d"⟩]) "boot" "id" (fileWorld "A.env" 1)) s ∧
      s.st.trail = .answered 0 decision 0 :: older ∧ decision.outcome = .bytes [115] ∧
      locks older = 1 ∧ [.inserted job g, .started job].Sublist (current older) := by
  let sys := broker (Config.default [⟨"host", "/d"⟩]) "boot" "id" (fileWorld "A.env" 1)
  let turn : Action := .handle 0 (.at 0) []
  let actions : List Action :=
    [.receive 1 .lock ⟨1⟩, .handle 1 (.at 0) [],
     .receive 0 (.get "A" none (some "/dev/pts/1") none) ⟨1⟩, turn, turn, turn, .tick 0,
     .openFile true, .spawn (some 7), .start,
     .poll (.exited ⟨true, some [], some [65, 61, 115, 10]⟩), .report (.at 0), turn, turn]
  have hReplay : ((sys.run sys.init actions).map fun s => lastAnswer 0 (fun decision older =>
      decide (decision.outcome = .bytes [115] ∧ locks older = 1)) s.st.trail) = some true := by
    decide +kernel
  obtain ⟨s, hReach, hSeen⟩ := Reachable.of_replay hReplay
  obtain ⟨decision, older, hTrail, hSeen⟩ := of_lastAnswer hSeen
  obtain ⟨hBytes, hOne⟩ := of_decide_eq_true hSeen
  have hNewest : s.st.trail = [] ++ .answered 0 decision 0 :: older := hTrail
  obtain ⟨job, g, -, -, hSince⟩ :=
    released_since_lock hReach hNewest hBytes (by rw [hOne]; decide)
  exact ⟨s, older, decision, job, g, hReach, hTrail, hBytes, hOne, hSince⟩

end Forward.Secrets

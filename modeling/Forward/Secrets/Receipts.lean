import Mathlib.Data.List.Nodup
import Forward.Lib.History
import Forward.Lib.Lists
import Forward.Lib.Scan
import Forward.Lib.System
import Forward.Lib.Word
import Forward.Secrets.Names

/-!
# Attestation receipts

`receipts::ReceiptTable`: single-use receipts for capability authorizations. Random ids are
whatever the environment hands out, repeats included; `mint` takes the successive reads of the
entropy source as an argument.
-/

namespace Forward.Secrets

open Lib Hygiene

/-! ## The table -/

def receiptLen : Nat := 32

def receiptTtl : Nat := fromSecs 60

def maxReceipts : Nat := 32

structure ReceiptId where
  bytes : List UInt8
  length_eq : bytes.length = receiptLen
  deriving DecidableEq

structure ReceiptEntry where
  id : ReceiptId
  cap : Capability
  minted : Nat
  deriving DecidableEq

structure ReceiptTable where
  entries : List ReceiptEntry
  deriving DecidableEq

/-- Why `mint` fails: the table is full, or the entropy source could not be
read. -/
inductive MintError
  | wouldBlock
  | entropy

namespace ReceiptTable

def empty : ReceiptTable := ⟨[]⟩

def unexpired (now : Nat) (e : ReceiptEntry) : Bool := durationSince now e.minted < receiptTtl

def sweep (t : ReceiptTable) (now : Nat) : ReceiptTable := ⟨t.entries.filter (unexpired now)⟩

-- the retry loop of `mint`: the first read that is no duplicate
def freshId (t : ReceiptTable) : List ReceiptId → Option ReceiptId
  | [] => none
  | id :: reads => if t.entries.any fun e => e.id == id then t.freshId reads else some id

-- `mint` before it encodes the id it stored
def mintId (t : ReceiptTable) (cap : Capability) (now : Nat) (reads : List ReceiptId) :
    ReceiptTable × Except MintError ReceiptId :=
  let t := t.sweep now
  if maxReceipts ≤ t.entries.length then (t, .error .wouldBlock)
  else
    match t.freshId reads with
    | none => (t, .error .entropy)
    | some id => (⟨t.entries ++ [⟨id, cap, now⟩]⟩, .ok id)

def mint (t : ReceiptTable) (cap : Capability) (now : Nat) (reads : List ReceiptId) :
    ReceiptTable × Except MintError String :=
  let (t, minted) := t.mintId cap now reads
  (t, minted.map fun id => encode id.bytes)

/-- The entry `redeem` takes: the scan over every id, then the capability
of the entry it stopped at. -/
def select (t : ReceiptTable) (presented : List UInt8) (expected : Capability) : Option Nat :=
  let (position, found) := scan (fun e : ReceiptEntry => e.id.bytes == presented) t.entries
  if found && t.entries[position.toNat]?.any fun e => e.cap == expected then some position.toNat
  else none

/-- Consume a receipt for the expected capability at most once, within its
lifetime. -/
def redeem (t : ReceiptTable) (receiptHex : String) (expected : Capability) (now : Nat) :
    ReceiptTable × Option Capability :=
  let t := t.sweep now
  match decodeExact receiptHex receiptLen with
  | none => (t, none)
  | some presented =>
    match t.select presented expected with
    | none => (t, none)
    | some position =>
      (⟨swapRemove t.entries position⟩, (t.entries[position]?).map (·.cap))

def clear (_t : ReceiptTable) : ReceiptTable := ⟨[]⟩

structure WF (t : ReceiptTable) : Prop where
  bounded : t.entries.length ≤ maxReceipts
  distinct : (t.entries.map (·.id)).Nodup

variable {t : ReceiptTable} {now : Nat} {cap : Capability} {reads : List ReceiptId}
variable {presented : List UInt8} {receiptHex : String}

/-! ## What the operations do -/

theorem mem_sweep {e : ReceiptEntry} :
    e ∈ (t.sweep now).entries ↔ e ∈ t.entries ∧ durationSince now e.minted < receiptTtl := by
  simp [sweep, unexpired]

theorem sweep_wf (h : t.WF) (now : Nat) : (t.sweep now).WF :=
  ⟨Nat.le_trans (List.length_filter_le _ _) h.bounded,
    h.distinct.sublist (List.filter_sublist.map _)⟩

theorem freshId_some {id : ReceiptId} (h : t.freshId reads = some id) :
    ∀ e ∈ t.entries, e.id ≠ id := by
  induction reads with
  | nil => simp [freshId] at h
  | cons read rest ih =>
    rw [freshId] at h
    split at h
    · exact ih h
    · rename_i hFresh
      injection h with h
      intro e he hEq
      exact hFresh (List.any_eq_true.mpr ⟨e, he, by simp [hEq, h]⟩)

theorem mintId_cases (t : ReceiptTable) (cap : Capability) (now : Nat) (reads : List ReceiptId) :
    (∃ err, t.mintId cap now reads = (t.sweep now, .error err)) ∨
    ∃ id, (∀ e ∈ (t.sweep now).entries, e.id ≠ id) ∧ (t.sweep now).entries.length < maxReceipts ∧
      t.mintId cap now reads = (⟨(t.sweep now).entries ++ [⟨id, cap, now⟩]⟩, .ok id) := by
  unfold mintId
  dsimp only
  split
  · exact .inl ⟨.wouldBlock, rfl⟩
  · rename_i hRoom
    split
    · exact .inl ⟨.entropy, rfl⟩
    · rename_i id hFresh
      exact .inr ⟨id, freshId_some hFresh, by omega, rfl⟩

theorem WF.eq_of_id (h : t.WF) {a b : ReceiptEntry} (ha : a ∈ t.entries) (hb : b ∈ t.entries)
    (hId : a.id = b.id) : a = b :=
  List.inj_on_of_nodup_map h.distinct ha hb hId

theorem eq_of_bytes {a b : ReceiptId} (h : a.bytes = b.bytes) : a = b := by
  cases a
  cases b
  cases h
  rfl

theorem select_eq (h : t.entries.length ≤ maxReceipts) :
    t.select presented cap =
      (t.entries.findIdx? fun e => e.id.bytes == presented).bind fun i =>
        if t.entries[i]?.any fun e => e.cap == cap then some i else none := by
  unfold select
  rw [List.findIdx?_eq_guard_findIdx_lt]
  cases hAny : t.entries.any (fun e => e.id.bytes == presented) with
  | false =>
    -- no id matches: the flag stays down
    have hNot : ¬ t.entries.findIdx (fun e => e.id.bytes == presented) < t.entries.length := by
      rw [List.findIdx_lt_length]
      simpa using hAny
    simp [scan_found, hAny, Option.guard, hNot]
  | true =>
    have hPos := scan_position hAny (by unfold maxReceipts at h; omega)
    have hLt : t.entries.findIdx (fun e => e.id.bytes == presented) < t.entries.length := by
      rw [List.findIdx_lt_length]
      simpa using hAny
    simp only [scan_found, hAny, hPos, Bool.true_and, Option.guard, hLt, decide_true, if_true,
      Option.bind_some]

/-- **The branch-free selection is the plain search for the pair.** -/
theorem select_eq_findIdx? (h : t.WF) :
    t.select presented cap =
      t.entries.findIdx? fun e => e.id.bytes == presented && e.cap == cap := by
  rw [select_eq h.bounded]
  cases hFind : t.entries.findIdx? (fun e => e.id.bytes == presented) with
  | none =>
    rw [Option.bind_none, eq_comm, List.findIdx?_eq_none_iff]
    intro e he
    have hNo := List.findIdx?_eq_none_iff.mp hFind e he
    simp [hNo]
  | some i =>
    obtain ⟨hi, hMatch, hFirst⟩ := List.findIdx?_eq_some_iff_getElem.mp hFind
    rw [Option.bind_some, List.getElem?_eq_getElem hi]
    cases hCap : (t.entries[i].cap == cap) with
    | true =>
      -- the first id match already has the capability
      simp only [Option.any_some, hCap, if_true]
      rw [eq_comm, List.findIdx?_eq_some_iff_getElem]
      refine ⟨hi, by simp [hMatch, hCap], ?_⟩
      intro j hj
      simp [hFirst j hj]
    | false =>
      -- no other entry has that id, so no pair matches either
      simp only [Option.any_some, hCap, if_neg Bool.false_ne_true]
      rw [eq_comm, List.findIdx?_eq_none_iff]
      intro e he
      by_contra hPair
      rw [Bool.not_eq_false, Bool.and_eq_true, beq_iff_eq, beq_iff_eq] at hPair
      have hSame : e.id = t.entries[i].id := by
        refine eq_of_bytes (hPair.1.trans ?_)
        exact (beq_iff_eq.mp hMatch).symm
      have hEq := h.eq_of_id he (List.getElem_mem hi) hSame
      rw [← hEq, hPair.2] at hCap
      simp at hCap

theorem select_entry {position : Nat} (h : t.select presented cap = some position) :
    ∃ e, t.entries[position]? = some e ∧ e.cap = cap := by
  unfold select at h
  dsimp only at h
  split at h
  · rename_i hFound
    injection h with h
    rw [h, Bool.and_eq_true] at hFound
    cases hEntry : t.entries[position]? with
    | none => simp [hEntry] at hFound
    | some e => exact ⟨e, rfl, by simpa [hEntry] using hFound.2⟩
  · cases h

theorem redeem_none (h : (t.redeem receiptHex cap now).2 = none) :
    (t.redeem receiptHex cap now).1 = t.sweep now := by
  unfold redeem at h ⊢
  dsimp only at h ⊢
  split at h
  · rfl
  · split at h
    · rfl
    · rename_i hSelect
      obtain ⟨e, hEntry, -⟩ := select_entry hSelect
      rw [hEntry] at h
      cases h

theorem redeem_some {got : Capability} (h : (t.redeem receiptHex cap now).2 = some got) :
    ∃ presented, decodeExact receiptHex receiptLen = some presented ∧ got = cap := by
  unfold redeem at h
  dsimp only at h
  split at h
  · cases h
  · rename_i presented hDecode
    refine ⟨presented, hDecode, ?_⟩
    split at h
    · cases h
    · rename_i hSelect
      obtain ⟨e, hEntry, hCap⟩ := select_entry hSelect
      rw [hEntry] at h
      injection h with h
      exact h.symm.trans hCap

theorem redeem_subset (t : ReceiptTable) (receiptHex : String) (cap : Capability) (now : Nat) :
    ∀ e ∈ (t.redeem receiptHex cap now).1.entries, e ∈ t.entries := by
  intro e he
  have hSwept : ∀ e ∈ (t.sweep now).entries, e ∈ t.entries := fun e he => (mem_sweep.mp he).1
  unfold redeem at he
  dsimp only at he
  split at he
  · exact hSwept e he
  · split at he
    · exact hSwept e he
    · rename_i hSelect
      obtain ⟨_, hEntry, -⟩ := select_entry hSelect
      obtain ⟨hi, -⟩ := List.getElem?_eq_some_iff.mp hEntry
      exact hSwept e (List.mem_of_mem_eraseIdx ((swapRemove_perm hi).mem_iff.mp he))

theorem redeem_cases (h : t.WF) (receiptHex : String) (cap : Capability) (now : Nat) :
    t.redeem receiptHex cap now = (t.sweep now, none) ∨
    ∃ e ∈ (t.sweep now).entries, e.cap = cap ∧ decodeExact receiptHex receiptLen = some e.id.bytes ∧
      ∃ rest, t.redeem receiptHex cap now = (⟨rest⟩, some cap) ∧
        (t.sweep now).entries.Perm (e :: rest) := by
  unfold redeem
  dsimp only
  split
  · exact .inl rfl
  · rename_i hDecode
    split
    · exact .inl rfl
    · rename_i position hSelect
      rw [select_eq_findIdx? (sweep_wf h now)] at hSelect
      obtain ⟨hi, hMatch, -⟩ := List.findIdx?_eq_some_iff_getElem.mp hSelect
      rw [Bool.and_eq_true, beq_iff_eq, beq_iff_eq] at hMatch
      refine .inr ⟨(t.sweep now).entries[position], List.getElem_mem hi, hMatch.2, ?_, ?_⟩
      · rw [hDecode, hMatch.1]
      · refine ⟨swapRemove (t.sweep now).entries position, ?_, ?_⟩
        · rw [List.getElem?_eq_getElem hi, Option.map_some, hMatch.2]
        · refine List.Perm.trans ?_ (List.Perm.cons _ (swapRemove_perm hi).symm)
          exact (List.getElem_cons_eraseIdx_perm hi).symm

end ReceiptTable

/-! ## Runs -/

inductive ReceiptOp
  | mint (cap : Capability) (reads : List ReceiptId) (now : Nat)
  | redeem (receiptHex : String) (expected : Capability) (now : Nat)
  | sweep (now : Nat)
  | clear

/-- What a run records: receipts handed out, receipts accepted, and clears.
Ids are recorded by their bytes. -/
inductive ReceiptEvent
  | minted (id : List UInt8) (cap : Capability) (time : Nat)
  | redeemed (id : List UInt8) (cap : Capability) (time : Nat)
  | cleared
  deriving DecidableEq

namespace ReceiptEvent

/-- Events after which an earlier receipt with this id is no longer
outstanding under it. -/
def Ends (id : List UInt8) : ReceiptEvent → Prop
  | minted id' _ _ => id' = id
  | redeemed id' _ _ => id' = id
  | cleared => True

def mints (id : List UInt8) : ReceiptEvent → Bool
  | minted id' _ _ => id' == id
  | _ => false

def redeems (id : List UInt8) : ReceiptEvent → Bool
  | redeemed id' _ _ => id' == id
  | _ => false

/-- A redeem honours a receipt: that id was minted for that capability less
than the lifetime ago, and since then the id was neither redeemed nor minted
again and the table was not cleared. -/
def Honoured (e : ReceiptEvent) (older : List ReceiptEvent) : Prop :=
  ∀ id cap now, e = redeemed id cap now →
    Since (Ends id)
      (fun m _ => ∃ t₀, m = minted id cap t₀ ∧ t₀ ≤ now ∧ now - t₀ < receiptTtl) older

end ReceiptEvent

structure ReceiptSys where
  table : ReceiptTable
  clock : Nat
  log : List ReceiptEvent
  deriving DecidableEq

namespace ReceiptSys

def step (s : ReceiptSys) : ReceiptOp → Option ReceiptSys
  | .mint cap reads now =>
    if s.clock ≤ now then
      let (table, minted) := s.table.mintId cap now reads
      match minted with
      | .ok id => some ⟨table, now, .minted id.bytes cap now :: s.log⟩
      | .error _ => some ⟨table, now, s.log⟩
    else none
  | .redeem receiptHex expected now =>
    if s.clock ≤ now then
      let (table, redeemed) := s.table.redeem receiptHex expected now
      match redeemed, decodeExact receiptHex receiptLen with
      | some cap, some presented => some ⟨table, now, .redeemed presented cap now :: s.log⟩
      | _, _ => some ⟨table, now, s.log⟩
    else none
  | .sweep now => if s.clock ≤ now then some ⟨s.table.sweep now, now, s.log⟩ else none
  | .clear => some ⟨s.table.clear, s.clock, .cleared :: s.log⟩

theorem step_cases {s s' : ReceiptSys} {op : ReceiptOp} (hWF : s.table.WF)
    (hStep : s.step op = some s') :
    (∃ now, s.clock ≤ now ∧ s' = ⟨s.table.sweep now, now, s.log⟩) ∨
    (∃ id cap now, s.clock ≤ now ∧ (∀ e ∈ (s.table.sweep now).entries, e.id ≠ id) ∧
      (s.table.sweep now).entries.length < maxReceipts ∧
      s' = ⟨⟨(s.table.sweep now).entries ++ [⟨id, cap, now⟩]⟩, now,
        .minted id.bytes cap now :: s.log⟩) ∨
    (∃ e rest now, s.clock ≤ now ∧ e ∈ (s.table.sweep now).entries ∧
      (s.table.sweep now).entries.Perm (e :: rest) ∧
      s' = ⟨⟨rest⟩, now, .redeemed e.id.bytes e.cap now :: s.log⟩) ∨
    s' = ⟨⟨[]⟩, s.clock, .cleared :: s.log⟩ := by
  cases op with
  | mint cap reads now =>
    rw [step] at hStep
    split at hStep
    · rename_i hClock
      rcases s.table.mintId_cases cap now reads with ⟨err, hMint⟩ | ⟨id, hFresh, hRoom, hMint⟩
      · rw [hMint] at hStep
        injection hStep with hStep
        exact .inl ⟨now, hClock, hStep.symm⟩
      · rw [hMint] at hStep
        injection hStep with hStep
        exact .inr (.inl ⟨id, cap, now, hClock, hFresh, hRoom, hStep.symm⟩)
    · cases hStep
  | redeem receiptHex expected now =>
    rw [step] at hStep
    split at hStep
    · rename_i hClock
      rcases ReceiptTable.redeem_cases hWF receiptHex expected now with
        hNone | ⟨e, he, rfl, hDecode, rest, hSome, hPerm⟩
      · rw [hNone] at hStep
        injection hStep with hStep
        exact .inl ⟨now, hClock, hStep.symm⟩
      · rw [hSome, hDecode] at hStep
        injection hStep with hStep
        exact .inr (.inr (.inl ⟨e, rest, now, hClock, he, hPerm, hStep.symm⟩))
    · cases hStep
  | sweep now =>
    rw [step] at hStep
    split at hStep
    · rename_i hClock
      injection hStep with hStep
      exact .inl ⟨now, hClock, hStep.symm⟩
    · cases hStep
  | clear =>
    injection hStep with hStep
    exact .inr (.inr (.inr hStep.symm))

end ReceiptSys

def receiptSystem : System ReceiptSys ReceiptOp := ⟨⟨.empty, 0, []⟩, ReceiptSys.step⟩

structure ReceiptInv (s : ReceiptSys) : Prop where
  wf : s.table.WF
  timed : ∀ e ∈ s.table.entries, e.minted ≤ s.clock
  outstanding : ∀ e ∈ s.table.entries,
    Since (ReceiptEvent.Ends e.id.bytes)
      (fun m _ => m = .minted e.id.bytes e.cap e.minted) s.log
  honoured : Historically ReceiptEvent.Honoured s.log

namespace ReceiptInv

variable {s : ReceiptSys} {now : Nat}

theorem sweep (h : ReceiptInv s) (hNow : s.clock ≤ now) :
    ReceiptInv ⟨s.table.sweep now, now, s.log⟩ := by
  refine ⟨ReceiptTable.sweep_wf h.wf now, ?_, ?_, h.honoured⟩
  · intro e he
    have hOld := h.timed e (ReceiptTable.mem_sweep.mp he).1
    show e.minted ≤ now
    omega
  · intro e he
    exact h.outstanding e (ReceiptTable.mem_sweep.mp he).1

theorem mint (h : ReceiptInv s) {id : ReceiptId} (cap : Capability)
    (hTime : s.clock = now) (hFresh : ∀ e ∈ s.table.entries, e.id ≠ id)
    (hRoom : s.table.entries.length < maxReceipts) :
    ReceiptInv ⟨⟨s.table.entries ++ [⟨id, cap, now⟩]⟩, now, .minted id.bytes cap now :: s.log⟩ := by
  refine ⟨⟨?_, ?_⟩, ?_, ?_, ?_⟩
  · rw [List.length_append, List.length_singleton]
    omega
  · rw [List.map_append, List.map_singleton, ← List.concat_eq_append, List.nodup_concat]
    refine ⟨?_, h.wf.distinct⟩
    intro hMem
    obtain ⟨e, he, hEq⟩ := List.mem_map.mp hMem
    exact hFresh e he hEq
  · intro e he
    rcases List.mem_append.mp he with he | he
    · have hOld := h.timed e he
      show e.minted ≤ now
      omega
    · rw [List.mem_singleton] at he
      subst he
      exact Nat.le_refl _
  · intro e he
    rcases List.mem_append.mp he with he | he
    · -- an older receipt has another id
      refine (h.outstanding e he).cons ?_
      intro hEnds
      exact hFresh e he (ReceiptTable.eq_of_bytes hEnds).symm
    · rw [List.mem_singleton] at he
      subst he
      exact .now rfl
  · refine h.honoured.cons ?_
    intro id' cap' now' hEq
    cases hEq

theorem redeem (h : ReceiptInv s) {e : ReceiptEntry} {rest : List ReceiptEntry}
    (hTime : s.clock = now) (he : e ∈ s.table.entries)
    (hLive : durationSince now e.minted < receiptTtl)
    (hPerm : s.table.entries.Perm (e :: rest)) :
    ReceiptInv ⟨⟨rest⟩, now, .redeemed e.id.bytes e.cap now :: s.log⟩ := by
  have hIds : (e.id :: rest.map (·.id)).Nodup := by
    rw [← List.map_cons (f := fun x : ReceiptEntry => x.id), ← (hPerm.map _).nodup_iff]
    exact h.wf.distinct
  have hSub : ∀ x ∈ rest, x ∈ s.table.entries := fun x hx =>
    hPerm.mem_iff.mpr (List.mem_cons_of_mem _ hx)
  have hOther : ∀ x ∈ rest, x.id ≠ e.id := by
    intro x hx hEq
    exact (List.nodup_cons.mp hIds).1 (List.mem_map.mpr ⟨x, hx, hEq⟩)
  refine ⟨⟨?_, (List.nodup_cons.mp hIds).2⟩, ?_, ?_, ?_⟩
  · have hLen := hPerm.length_eq
    have hOld := h.wf.bounded
    rw [List.length_cons] at hLen
    show rest.length ≤ maxReceipts
    omega
  · intro x hx
    have hOld := h.timed x (hSub x hx)
    show x.minted ≤ now
    omega
  · intro x hx
    refine (h.outstanding x (hSub x hx)).cons ?_
    intro hEnds
    exact hOther x hx (ReceiptTable.eq_of_bytes hEnds).symm
  · -- the removed entry was an outstanding receipt: that is what is honoured
    refine h.honoured.cons ?_
    intro id cap now' hEq
    injection hEq with hId hCap hNow
    subst hId hCap hNow
    refine (h.outstanding e he).mono ?_
    intro m before hMint
    have hOld := h.timed e he
    exact ⟨e.minted, hMint, by omega, hLive⟩

theorem clear (h : ReceiptInv s) : ReceiptInv ⟨⟨[]⟩, s.clock, .cleared :: s.log⟩ := by
  refine ⟨⟨Nat.zero_le _, List.nodup_nil⟩, by simp, by simp, ?_⟩
  refine h.honoured.cons ?_
  intro id cap now hEq
  cases hEq

end ReceiptInv

theorem receiptInv_step {s s' : ReceiptSys} {op : ReceiptOp} (h : ReceiptInv s)
    (hStep : s.step op = some s') : ReceiptInv s' := by
  rcases ReceiptSys.step_cases h.wf hStep with
    ⟨now, hNow, rfl⟩ | ⟨id, cap, now, hNow, hFresh, hRoom, rfl⟩ |
    ⟨e, rest, now, hNow, he, hPerm, rfl⟩ | rfl
  · exact h.sweep hNow
  · exact (h.sweep hNow).mint cap rfl hFresh hRoom
  · exact (h.sweep hNow).redeem rfl he (ReceiptTable.mem_sweep.mp he).2 hPerm
  · exact h.clear

theorem receiptInv_reachable {s : ReceiptSys} (h : Reachable receiptSystem s) : ReceiptInv s := by
  have hInit : ReceiptInv receiptSystem.init :=
    ⟨⟨Nat.zero_le _, List.nodup_nil⟩, by simp [receiptSystem, ReceiptTable.empty],
      by simp [receiptSystem, ReceiptTable.empty], .nil⟩
  exact Path.invariant (fun _ _ _ hInv _ hStep => receiptInv_step hInv hStep) h hInit

/-! ## Single use -/

open ReceiptEvent in
theorem redeemed_once {newer older : List ReceiptEvent} {id : List UInt8} {cap : Capability}
    {t₀ : Nat} (h : Historically Honoured (newer ++ .minted id cap t₀ :: older))
    (hNoMint : ∀ e ∈ newer, e.mints id = false) : newer.countP (redeems id) ≤ 1 := by
  induction newer with
  | nil => simp
  | cons x xs ih =>
    have hTail : Historically Honoured (xs ++ .minted id cap t₀ :: older) := by
      intro newer e rest hEq
      exact h (x :: newer) e rest (by rw [List.cons_append, hEq]; rfl)
    have hRest := ih hTail fun e he => hNoMint e (List.mem_cons_of_mem _ he)
    cases hx : redeems id x with
    | false => rw [List.countP_cons_of_neg (by simp [hx])]; exact hRest
    | true =>
      -- `x` redeems the id, so nothing back to its mint may have
      obtain ⟨cap', now, rfl⟩ : ∃ cap' now, x = .redeemed id cap' now := by
        cases x with
        | redeemed id' cap' now => exact ⟨cap', now, by simpa [redeems] using hx⟩
        | minted | cleared => cases hx
      obtain ⟨mid, m, before, hSplit, ⟨t, rfl, -, -⟩, hMid⟩ :=
        h [] _ _ rfl id cap' now rfl
      have hSub : ∀ e ∈ xs, e ∈ mid := by
        intro e he
        rcases List.append_eq_append_iff.mp hSplit with ⟨as, hMidEq, -⟩ | ⟨bs, hXs, hTailEq⟩
        · rw [hMidEq]
          exact List.mem_append_left _ he
        · cases bs with
          | nil => simpa [hXs] using he
          | cons b =>
            have hb : b = .minted id cap' t := ((List.cons.inj hTailEq).1).symm
            have hNo := hNoMint b (by simp [hXs])
            simp [hb, mints] at hNo
      have hZero : xs.countP (redeems id) = 0 := by
        rw [List.countP_eq_zero]
        intro e he hRed
        have hEnds := hMid e (hSub e he)
        cases e with
        | redeemed => exact hEnds (beq_iff_eq.mp hRed)
        | minted | cleared => cases hRed
      rw [List.countP_cons_of_pos hx, hZero]

/-- **Receipt table.** In every run at non-decreasing times: each mint is followed by at most one
successful redeem of its id before that id is minted again; every successful redeem honours a
receipt of that id and capability, unexpired and with no clear in between; a failed one removes no
unexpired receipt; at most `maxReceipts` are stored, under distinct ids; and the branch-free scan is
a plain search. -/
theorem receipt_table_safe {s : ReceiptSys} (hReach : Reachable receiptSystem s) :
    (∀ newest newer id cap t₀ older,
      s.log = newest ++ (newer ++ .minted id cap t₀ :: older) →
      (∀ e ∈ newer, e.mints id = false) →
      newer.countP (ReceiptEvent.redeems id) ≤ 1) ∧
    Historically ReceiptEvent.Honoured s.log ∧
    (∀ receiptHex cap now, s.clock ≤ now → (s.table.redeem receiptHex cap now).2 = none →
      ∀ e ∈ s.table.entries, durationSince now e.minted < receiptTtl →
        e ∈ (s.table.redeem receiptHex cap now).1.entries) ∧
    s.table.entries.length ≤ maxReceipts ∧
    (s.table.entries.map (·.id)).Nodup ∧
    (∀ presented cap now,
      (s.table.sweep now).select presented cap =
        (s.table.sweep now).entries.findIdx? fun e =>
          e.id.bytes == presented && e.cap == cap) := by
  have hInv := receiptInv_reachable hReach
  refine ⟨?_, hInv.honoured, ?_, hInv.wf.bounded, hInv.wf.distinct, ?_⟩
  · intro newest newer id cap t₀ older hLog hNoMint
    have hPart : Historically ReceiptEvent.Honoured (newer ++ .minted id cap t₀ :: older) := by
      intro newer' e rest hEq
      exact hInv.honoured (newest ++ newer') e rest (by rw [hLog, hEq, List.append_assoc])
    exact redeemed_once hPart hNoMint
  · intro receiptHex cap now _ hNone e he hLive
    rcases ReceiptTable.redeem_cases hInv.wf receiptHex cap now with hFail | ⟨_, _, _, _, _, hSome, _⟩
    · rw [hFail]
      exact ReceiptTable.mem_sweep.mpr ⟨he, hLive⟩
    · rw [hSome] at hNone
      cases hNone
  · intro presented cap now
    exact ReceiptTable.select_eq_findIdx? (ReceiptTable.sweep_wf hInv.wf now)

/-- A run that mints one receipt, redeems it, and presents it again: the
second redeem is refused. -/
theorem receipt_table_safe_replay :
    ∃ s, Reachable receiptSystem s ∧ s.table.entries = [] ∧
      (∃ id cap t t₀, s.log = [.redeemed id cap t, .minted id cap t₀]) ∧
      Historically ReceiptEvent.Honoured s.log := by
  let id : ReceiptId := ⟨List.replicate 32 7, by decide⟩
  let cap : Capability := ⟨"deploy", by decide⟩
  let hex := encode id.bytes
  let ops : List ReceiptOp :=
    [.mint cap [id] 5, .redeem hex cap (fromSecs 30), .redeem hex cap (fromSecs 31)]
  have hRun : receiptSystem.run receiptSystem.init ops =
      some ⟨⟨[]⟩, fromSecs 31, [.redeemed id.bytes cap (fromSecs 30), .minted id.bytes cap 5]⟩ := by
    decide +kernel
  have hReach := Path.of_run hRun
  exact ⟨_, hReach, rfl, ⟨_, _, _, _, rfl⟩, (receipt_table_safe hReach).2.1⟩

end Forward.Secrets

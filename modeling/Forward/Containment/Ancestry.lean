import Mathlib.Data.Nat.Find
import Forward.Hygiene.Hex
import Forward.Lib.Walk

/-!
# Whose subtree a process is in

A walk over the parents of a process looks for the process a grant was issued to. An anchored peer
is a pid with its start time, and its walk makes 12 hops; a pinned peer is a pid, and its walk
makes 64. `anchor_for` finds the nearest session above the caller or, without one, the caller's
parent. The process table does not change while a call lasts.
-/

namespace Forward.Containment

open Lib Hygiene

/-- `walk`, which knows where it has been. -/
def walk (start maxHops : Nat) (visit : Nat → Step Nat) : Bool := walkFrom visit maxHops [] start

theorem walk_eq_plainWalk (start maxHops : Nat) (visit : Nat → Step Nat) :
    walk start maxHops visit = plainWalk visit maxHops start :=
  walkFrom_eq_plainWalk fun _ hv => nomatch hv

/-! ## Anchored peers -/

def maxAncestryHops : Nat := 12

structure Process where
  argv : List String
  parent : Nat
  start : Nat

structure AnchoredPeer where
  pid : Nat
  start : Nat
  deriving DecidableEq

variable (lookup : Nat → Option Process)

def AnchoredPeer.visit (peer : AnchoredPeer) (current : Nat) : Step Nat :=
  match lookup current with
  | none => .stop
  | some process =>
    if current = peer.pid then
      -- the same process instance, or one that has got its pid since
      if process.start = peer.start then .arrived else .stop
    else if process.parent ≤ 1 then .stop
    else .goOn process.parent

def AnchoredPeer.containsWith (peer : AnchoredPeer) (pid : Nat) : Bool :=
  walk pid maxAncestryHops (peer.visit lookup)

def isSessionId (value : String) : Bool :=
  let groups := [8, 4, 4, 4, 12]
  let parts := value.toList.splitOn '-'
  parts.map List.length == groups && parts.all fun part => part.all isHexDigit

def resumed : List String → Option String
  | [] => none
  | argument :: arguments =>
    if argument = "--resume" then arguments.head?.filter isSessionId else resumed arguments

def sessionOf (process : Process) : Option String :=
  match process.argv.head? with
  | none => none
  | some command =>
    if command ≠ "omp" ∧ "/omp".toList.isSuffixOf command.toList = false then none
    else resumed process.argv

variable (isOmp : Nat → Bool)

def anchorFrom (parent : Nat) : Nat → Nat → Option AnchoredPeer → Option AnchoredPeer
  | 0, _, fallback => fallback
  | hops + 1, current, fallback =>
    match lookup current with
    | none => fallback
    | some process =>
      let fallback := if current = parent then some ⟨current, process.start⟩ else fallback
      if (sessionOf process).isSome && isOmp current then some ⟨current, process.start⟩
      else if process.parent ≤ 1 ∨ process.parent = current then fallback
      else anchorFrom parent hops process.parent fallback

def anchorForWith (pid : Nat) : Option AnchoredPeer :=
  match lookup pid with
  | none => none
  | some process =>
    if process.parent ≤ 1 ∨ process.parent = pid then none
    else anchorFrom lookup isOmp process.parent maxAncestryHops process.parent none

/-! ## Pinned peers -/

def maxAncestryDepth : Nat := 64

/-- What `descends_from_pid` says about one process; pids are read as 32-bit numbers
with a sign. -/
def visitPinned (parentOf : Int → Option Int) (ancestor : Int) (current : Nat) : Step Nat :=
  if 2 ^ 31 ≤ current then .stop
  else if (current : Int) = ancestor then .arrived
  else if (current : Int) ≤ 1 then .stop
  else
    match parentOf current with
    | none => .stop
    | some parent => if parent < 0 then .stop else .goOn parent.toNat

def descendsFromPid (parentOf : Int → Option Int) (caller ancestor : Int) : Bool :=
  if caller < 0 then false
  else walk caller.toNat maxAncestryDepth (visitPinned parentOf ancestor)

/-! ## Ancestors -/

def upward (current : Nat) : Step Nat :=
  match lookup current with
  | none => .stop
  | some process => if process.parent ≤ 1 then .stop else .goOn process.parent

/-- The process `k` parents above `pid`. -/
def ancestor (k pid : Nat) : Option Nat := reach (upward lookup) k pid

variable {lookup isOmp} {peer a : AnchoredPeer} {pid current next k : Nat}

theorem upward_goOn_iff :
    upward lookup current = .goOn next ↔
      ∃ process, lookup current = some process ∧ process.parent = next ∧ 1 < next := by
  unfold upward
  cases hLookup : lookup current with
  | none => simp
  | some process =>
    dsimp only
    split
    · rename_i hRoot
      constructor
      · nofun
      · rintro ⟨other, hOther, rfl, hNext⟩
        cases hOther
        omega
    · rename_i hParent
      constructor
      · intro hGo
        obtain rfl := Step.goOn.inj hGo
        exact ⟨process, rfl, rfl, by omega⟩
      · rintro ⟨other, hOther, rfl, -⟩
        cases hOther
        rfl

namespace AnchoredPeer

theorem visit_of_ne (h : current ≠ peer.pid) : peer.visit lookup current = upward lookup current := by
  unfold visit upward
  split
  · rfl
  · rw [if_neg h]

theorem visit_arrived_iff :
    peer.visit lookup current = .arrived ↔
      current = peer.pid ∧ ∃ process, lookup current = some process ∧
        process.start = peer.start := by
  unfold visit
  cases hLookup : lookup current with
  | none => simp
  | some process =>
    dsimp only
    by_cases hPid : current = peer.pid
    · by_cases hStart : process.start = peer.start
      · simp [hPid, hStart]
      · simp [hPid, hStart]
    · rw [if_neg hPid]
      split <;> simp [hPid]

theorem visit_goOn_iff :
    peer.visit lookup current = .goOn next ↔
      current ≠ peer.pid ∧ ∃ process, lookup current = some process ∧
        process.parent = next ∧ 1 < next := by
  by_cases hPid : current = peer.pid
  · unfold visit
    split
    · simp [hPid]
    · rw [if_pos hPid]
      split <;> simp [hPid]
  · rw [visit_of_ne hPid, upward_goOn_iff]
    simp [hPid]

theorem containsWith_iff_reach :
    peer.containsWith lookup pid ↔
      ∃ k < 12, reach (peer.visit lookup) k pid = some peer.pid ∧
        ∃ process, lookup peer.pid = some process ∧ process.start = peer.start := by
  unfold containsWith
  rw [walk_eq_plainWalk, plainWalk_iff]
  constructor
  · rintro ⟨k, hk, b, hReach, hEnd⟩
    obtain ⟨rfl, hProcess⟩ := visit_arrived_iff.mp hEnd
    exact ⟨k, hk, hReach, hProcess⟩
  · rintro ⟨k, hk, hReach, hProcess⟩
    exact ⟨k, hk, peer.pid, hReach, visit_arrived_iff.mpr ⟨rfl, hProcess⟩⟩

/-- **Containment is ancestry within 11 parents**, of the process that has the
start time. -/
theorem containsWith_iff :
    peer.containsWith lookup pid ↔
      (∃ k < 12, ancestor lookup k pid = some peer.pid) ∧
        ∃ process, lookup peer.pid = some process ∧ process.start = peer.start := by
  rw [containsWith_iff_reach]
  constructor
  · rintro ⟨k, hk, hReach, hProcess⟩
    refine ⟨⟨k, hk, ?_⟩, hProcess⟩
    obtain ⟨q, hFirst, hLast, hSteps⟩ := reach_iff_chain.mp hReach
    refine reach_iff_chain.mpr ⟨q, hFirst, hLast, fun i hi => ?_⟩
    exact upward_goOn_iff.mpr (visit_goOn_iff.mp (hSteps i hi)).2
  · rintro ⟨hAbove, hProcess⟩
    -- the walk stops at the first ancestor with this pid
    obtain ⟨hk, hReach⟩ := Nat.find_spec hAbove
    refine ⟨Nat.find hAbove, hk, ?_, hProcess⟩
    obtain ⟨q, hFirst, hLast, hSteps⟩ := reach_iff_chain.mp hReach
    refine reach_iff_chain.mpr ⟨q, hFirst, hLast, fun i hi => ?_⟩
    have hBefore : q i ≠ peer.pid := by
      intro hPid
      refine Nat.find_min hAbove hi ⟨by omega, ?_⟩
      exact reach_iff_chain.mpr ⟨q, hFirst, hPid, fun j hj => hSteps j (by omega)⟩
    rw [visit_of_ne hBefore]
    exact hSteps i hi

end AnchoredPeer

/-! ## Chains of processes -/

/-- A chain `q 0, …, q k` of processes from `pid` up to the peer. -/
structure AncestryChain (lookup : Nat → Option Process) (peer : AnchoredPeer) (pid k : Nat)
    (q : Nat → Nat) : Prop where
  first : q 0 = pid
  last : q k = peer.pid
  readable : ∀ i ≤ k, (lookup (q i)).isSome = true
  parent : ∀ i < k, ∀ process, lookup (q i) = some process →
    process.parent = q (i + 1) ∧ 1 < q (i + 1)
  before : ∀ i < k, q i ≠ peer.pid
  start : ∀ process, lookup peer.pid = some process → process.start = peer.start

theorem ancestryChain_iff :
    (∃ q, AncestryChain lookup peer pid k q) ↔
      reach (peer.visit lookup) k pid = some peer.pid ∧
        ∃ process, lookup peer.pid = some process ∧ process.start = peer.start := by
  constructor
  · rintro ⟨q, hChain⟩
    have hLast := hChain.readable k (Nat.le_refl k)
    rw [hChain.last] at hLast
    obtain ⟨process, hProcess⟩ := Option.isSome_iff_exists.mp hLast
    refine ⟨reach_iff_chain.mpr ⟨q, hChain.first, hChain.last, fun i hi => ?_⟩,
      process, hProcess, hChain.start process hProcess⟩
    obtain ⟨child, hChild⟩ := Option.isSome_iff_exists.mp (hChain.readable i (by omega))
    exact AnchoredPeer.visit_goOn_iff.mpr
      ⟨hChain.before i hi, child, hChild, hChain.parent i hi child hChild⟩
  · rintro ⟨hReach, process, hProcess, hStart⟩
    obtain ⟨q, hFirst, hLast, hSteps⟩ := reach_iff_chain.mp hReach
    have hUp := fun i hi => AnchoredPeer.visit_goOn_iff.mp (hSteps i hi)
    refine ⟨q, hFirst, hLast, ?_, ?_, fun i hi => (hUp i hi).1, ?_⟩
    · intro i hi
      rcases Nat.lt_or_eq_of_le hi with hBefore | rfl
      · obtain ⟨-, child, hChild, -⟩ := hUp i hBefore
        rw [hChild]
        rfl
      · rw [hLast, hProcess]
        rfl
    · intro i hi child hChild
      obtain ⟨-, other, hOther, hParent⟩ := hUp i hi
      obtain rfl := Option.mem_unique hChild hOther
      exact hParent
    · intro other hOther
      obtain rfl := Option.mem_unique hProcess hOther
      exact hStart

/-! ## Containment -/

def upwardPinned (parentOf : Int → Option Int) (current : Nat) : Step Nat :=
  if 2 ^ 31 ≤ current ∨ (current : Int) ≤ 1 then .stop
  else
    match parentOf current with
    | none => .stop
    | some parent => if parent < 0 then .stop else .goOn parent.toNat

theorem visitPinned_of_ne {parentOf : Int → Option Int} {root : Int}
    (h : (current : Int) ≠ root) :
    visitPinned parentOf root current = upwardPinned parentOf current := by
  unfold visitPinned upwardPinned
  rw [if_neg h]
  by_cases hLarge : 2 ^ 31 ≤ current
  · rw [if_pos hLarge, if_pos (.inl hLarge)]
  · by_cases hRoot : (current : Int) ≤ 1
    · rw [if_neg hLarge, if_pos hRoot, if_pos (.inr hRoot)]
    · rw [if_neg hLarge, if_neg hRoot, if_neg (not_or.mpr ⟨hLarge, hRoot⟩)]

/-- **Containment is bounded ancestry.** A process is contained in an anchored peer
just if a chain of fewer than twelve parents leads to it; neither walk depends on
its visited set; and a walk that runs into a circle of parents which the peer is not
on finds nothing. -/
theorem containment_is_bounded_ancestry (lookup : Nat → Option Process) (peer : AnchoredPeer)
    (pid : Nat) (parentOf : Int → Option Int) (caller root : Int) :
    (peer.containsWith lookup pid = true ↔ ∃ k < 12, ∃ q, AncestryChain lookup peer pid k q) ∧
    peer.containsWith lookup pid = plainWalk (peer.visit lookup) 12 pid ∧
    descendsFromPid parentOf caller root =
      (decide (0 ≤ caller) && plainWalk (visitPinned parentOf root) 64 caller.toNat) ∧
    (∀ i n q, ancestor lookup i pid = some q → ancestor lookup (n + 1) q = some q →
      (∀ j ≤ i + n, ancestor lookup j pid ≠ some peer.pid) →
      peer.containsWith lookup pid = false) ∧
    ∀ i n q, reach (upwardPinned parentOf) i caller.toNat = some q →
      reach (upwardPinned parentOf) (n + 1) q = some q →
      (∀ j ≤ i + n, ∀ p : Nat, reach (upwardPinned parentOf) j caller.toNat = some p →
        (p : Int) ≠ root) →
      descendsFromPid parentOf caller root = false := by
  have hAnchored : peer.containsWith lookup pid = plainWalk (peer.visit lookup) 12 pid :=
    walk_eq_plainWalk _ _ _
  have hPinned : descendsFromPid parentOf caller root =
      (decide (0 ≤ caller) && plainWalk (visitPinned parentOf root) 64 caller.toNat) := by
    unfold descendsFromPid
    split
    · rename_i hNegative
      rw [decide_eq_false (by omega), Bool.false_and]
    · rename_i hProper
      rw [decide_eq_true (by omega), Bool.true_and]
      exact walk_eq_plainWalk _ _ _
  refine ⟨?_, hAnchored, hPinned, ?_, ?_⟩
  · rw [AnchoredPeer.containsWith_iff_reach]
    constructor
    · rintro ⟨k, hk, hReach⟩
      exact ⟨k, hk, ancestryChain_iff.mpr hReach⟩
    · rintro ⟨k, hk, hChain⟩
      exact ⟨k, hk, ancestryChain_iff.mp hChain⟩
  · intro i n q hReach hLoop hOther
    rw [hAnchored]
    refine plainWalk_of_circle hReach hLoop fun j hj p hp => AnchoredPeer.visit_of_ne ?_
    rintro rfl
    exact hOther j hj hp
  · intro i n q hReach hLoop hOther
    rw [hPinned, plainWalk_of_circle hReach hLoop, Bool.and_false]
    exact fun j hj p hp => visitPinned_of_ne (hOther j hj p hp)

/-! ## Anchors -/

theorem anchorFrom_some {parent hops : Nat} {fallback : Option AnchoredPeer}
    (h : anchorFrom lookup isOmp parent hops current fallback = some a) :
    fallback = some a ∨
      (∃ k < hops, ancestor lookup k current = some a.pid) ∧
        ∃ process, lookup a.pid = some process ∧ process.start = a.start := by
  induction hops generalizing current fallback with
  | zero => exact .inl h
  | succ hops ih =>
    unfold anchorFrom at h
    cases hLookup : lookup current with
    | none =>
      rw [hLookup] at h
      exact .inl h
    | some process =>
      simp only [hLookup] at h
      -- the process itself is where the search stands, no parent above
      have hHere : a = ⟨current, process.start⟩ →
          (∃ k < hops + 1, ancestor lookup k current = some a.pid) ∧
            ∃ process, lookup a.pid = some process ∧ process.start = a.start := by
        rintro rfl
        exact ⟨⟨0, by omega, rfl⟩, process, hLookup, rfl⟩
      have hFallback : (if current = parent then some ⟨current, process.start⟩ else fallback) =
          some a → fallback = some a ∨ a = ⟨current, process.start⟩ := by
        split
        · exact fun hEq => .inr (Option.some.inj hEq).symm
        · exact .inl
      split at h
      · exact .inr (hHere (Option.some.inj h).symm)
      · split at h
        · exact (hFallback h).imp id hHere
        · rename_i hGo
          rcases ih h with hOld | ⟨⟨k, hk, hAbove⟩, hProcess⟩
          · exact (hFallback hOld).imp id hHere
          · have hUp : upward lookup current = .goOn process.parent :=
              upward_goOn_iff.mpr ⟨process, hLookup, rfl, by omega⟩
            exact .inr ⟨⟨k + 1, by omega, (reach_succ_of_goOn hUp).trans hAbove⟩, hProcess⟩

/-- **When a grant's anchor contains who asked for it.** The anchor is at most twelve
parents above; it contains the process just if it is at most eleven above. -/
theorem anchor_contains_requester (h : anchorForWith lookup isOmp pid = some a) :
    (∃ k ≤ 12, ancestor lookup k pid = some a.pid) ∧
      (a.containsWith lookup pid = true ↔ ∃ k < 12, ancestor lookup k pid = some a.pid) := by
  unfold anchorForWith at h
  cases hLookup : lookup pid with
  | none =>
    rw [hLookup] at h
    cases h
  | some process =>
    simp only [hLookup] at h
    split at h
    · cases h
    · rename_i hParent
      have hUp : upward lookup pid = .goOn process.parent :=
        upward_goOn_iff.mpr ⟨process, hLookup, rfl, by omega⟩
      rcases anchorFrom_some h with hNone | ⟨⟨k, hk, hAbove⟩, hProcess⟩
      · cases hNone
      · have hLimit : maxAncestryHops = 12 := rfl
        refine ⟨⟨k + 1, by omega, (reach_succ_of_goOn hUp).trans hAbove⟩, ?_⟩
        rw [AnchoredPeer.containsWith_iff]
        exact and_iff_left hProcess

/-- A line of processes below a session: 100, 101, … up to the session. -/
def line (session pid : Nat) : Option Process :=
  if pid = session then
    some ⟨["omp", "--resume", "00000000-0000-0000-0000-000000000000"], 1, 7⟩
  else if 100 ≤ pid ∧ pid < session then some ⟨["sh"], pid + 1, 7⟩
  else none

theorem anchor_contains_requester_eleven :
    anchorForWith (line 111) (fun _ => true) 100 = some ⟨111, 7⟩ ∧
      AnchoredPeer.containsWith (line 111) ⟨111, 7⟩ 100 = true := by
  have hAnchor : anchorForWith (line 111) (fun _ => true) 100 = some ⟨111, 7⟩ := by
    decide +kernel
  refine ⟨hAnchor, (anchor_contains_requester hAnchor).2.mpr ⟨11, by omega, ?_⟩⟩
  decide +kernel

/-- **A session that is found and does not contain its caller**: it is the twelfth
ancestor. -/
theorem twelfth_ancestor :
    anchorForWith (line 112) (fun _ => true) 100 = some ⟨112, 7⟩ ∧
      AnchoredPeer.containsWith (line 112) ⟨112, 7⟩ 100 = false := by
  decide +kernel

end Forward.Containment

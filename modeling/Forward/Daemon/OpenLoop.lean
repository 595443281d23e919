import Forward.Lib.Limiter
import Forward.Lib.Word
import Forward.Net.Address

/-!
# The guard against open loops

`ratelimit`: a page that keeps opening itself is dropped at its fourth open in two seconds. The
permitted opens are in one deque of 64 places; when it is full, the oldest is forgotten before its
time.
-/

namespace Forward.Daemon

open Lib Net

def maxOpensPerWindow : Nat := 3

def maxTrackedOpens : Nat := 64

def openWindow : Nat := fromSecs 2

inductive OpenDecision
  | permit
  | drop (count : Nat)
  deriving DecidableEq

structure OpenedUrl where
  url : String
  openedAt : Nat
  origin : Option IpAddr
  deriving DecidableEq

structure RecentOpens where
  entries : List OpenedUrl

namespace RecentOpens

def new : RecentOpens := ⟨[]⟩

def retained (entries : List OpenedUrl) (now : Nat) : List OpenedUrl :=
  entries.filter fun entry => durationSince now entry.openedAt < openWindow

def record (opens : RecentOpens) (url : String) (now : Nat) (origin : Option IpAddr) :
    OpenDecision × RecentOpens :=
  let entries := retained opens.entries now
  let count := entries.countP (fun entry => entry.origin = origin && entry.url = url) + 1
  if maxOpensPerWindow < count then (.drop count, ⟨entries⟩)
  else
    let entries := if entries.length = maxTrackedOpens then entries.tail else entries
    (.permit, ⟨entries ++ [⟨url, now, origin⟩]⟩)

/-- The answers to a sequence of calls; a call is what would be remembered of it. -/
def answers : RecentOpens → List OpenedUrl → List (OpenedUrl × OpenDecision)
  | _, [] => []
  | opens, call :: calls =>
    let (decision, opens) := opens.record call.url call.openedAt call.origin
    (call, decision) :: answers opens calls

/-- No open is forgotten before its time: there is room for each that is permitted. -/
def Roomy : RecentOpens → List OpenedUrl → Prop
  | _, [] => True
  | opens, call :: calls =>
    ((opens.record call.url call.openedAt call.origin).1 = .permit →
      (retained opens.entries call.openedAt).length < maxTrackedOpens) ∧
    Roomy (opens.record call.url call.openedAt call.origin).2 calls

instance decidableRoomy : (opens : RecentOpens) → (calls : List OpenedUrl) →
    Decidable (Roomy opens calls)
  | _, [] => isTrue trivial
  | opens, call :: calls =>
    have := decidableRoomy (opens.record call.url call.openedAt call.origin).2 calls
    inferInstanceAs (Decidable (_ ∧ _))

end RecentOpens

/-! ## The guard as a limiter -/

def OpenedUrl.stamped (entry : OpenedUrl) : Stamped (String × Option IpAddr) :=
  ⟨(entry.url, entry.origin), entry.openedAt⟩

def decisionOf (count : Nat) : OpenDecision :=
  if count ≤ maxOpensPerWindow then .permit else .drop count

/-- From now on the guard sees of the past what it would see of all of it. -/
def Tracks (past : List OpenedUrl) (now : Nat) (opens : RecentOpens) : Prop :=
  ∀ t, now ≤ t → RecentOpens.retained opens.entries t = RecentOpens.retained past t

section

open RecentOpens

variable {past calls : List OpenedUrl} {now : Nat} {opens : RecentOpens} {call : OpenedUrl}

theorem retained_retained (entries : List OpenedUrl) {t t' : Nat} (h : t ≤ t') :
    retained (retained entries t) t' = retained entries t' := by
  unfold retained
  rw [List.filter_filter]
  refine List.filter_congr fun entry _ => ?_
  by_cases hLater : durationSince t' entry.openedAt < openWindow
  · have hEarlier : durationSince t entry.openedAt < openWindow := by
      unfold durationSince at hLater ⊢
      omega
    simp [hLater, hEarlier]
  · simp [hLater]

theorem retained_append (front back : List OpenedUrl) (t : Nat) :
    retained (front ++ back) t = retained front t ++ retained back t := List.filter_append ..

theorem count_eq (h : Tracks past now opens) (hTime : now ≤ call.openedAt) :
    (retained opens.entries call.openedAt).countP
        (fun entry => entry.origin = call.origin && entry.url = call.url) =
      countRecent openWindow (past.map OpenedUrl.stamped) call.stamped.key call.stamped.time := by
  rw [h _ hTime, retained, countRecent, List.countP_filter, List.countP_map]
  refine List.countP_congr fun entry _ => ?_
  simp only [Function.comp, OpenedUrl.stamped, durationSince, Prod.mk.injEq, Bool.and_eq_true,
    decide_eq_true_eq]
  constructor
  · rintro ⟨⟨hOrigin, hUrl⟩, hWindow⟩
    exact ⟨hWindow, hUrl, hOrigin⟩
  · rintro ⟨hWindow, hUrl, hOrigin⟩
    exact ⟨⟨hOrigin, hUrl⟩, hWindow⟩

/-- The number of the call among those of its URL and peer in the window. -/
def place (past : List OpenedUrl) (call : OpenedUrl) : Nat :=
  countRecent openWindow (past.map OpenedUrl.stamped) call.stamped.key call.stamped.time + 1

theorem record_decision (h : Tracks past now opens) (hTime : now ≤ call.openedAt) :
    (opens.record call.url call.openedAt call.origin).1 = decisionOf (place past call) := by
  unfold record decisionOf place
  simp only [count_eq h hTime]
  by_cases hFew : countRecent openWindow (past.map OpenedUrl.stamped) call.stamped.key
      call.stamped.time + 1 ≤ maxOpensPerWindow
  · rw [if_neg (Nat.not_lt.mpr hFew), if_pos hFew]
  · rw [if_pos (Nat.lt_of_not_le hFew), if_neg hFew]

theorem decisionOf_permit_iff {count : Nat} :
    decisionOf count = .permit ↔ count ≤ maxOpensPerWindow := by
  unfold decisionOf
  split
  · rename_i hFew
    exact ⟨fun _ => hFew, fun _ => rfl⟩
  · rename_i hMany
    exact ⟨nofun, fun hFew => absurd hFew hMany⟩

/-- **One call with room in the deque**: it is remembered if it was permitted. -/
theorem tracks_record (h : Tracks past now opens) (hTime : now ≤ call.openedAt)
    (hRoom : (opens.record call.url call.openedAt call.origin).1 = .permit →
      (retained opens.entries call.openedAt).length < maxTrackedOpens) :
    Tracks (if place past call ≤ maxOpensPerWindow then past ++ [call] else past) call.openedAt
      (opens.record call.url call.openedAt call.origin).2 := by
  rw [record_decision h hTime, decisionOf_permit_iff] at hRoom
  have hCount : (retained opens.entries call.openedAt).countP
      (fun entry => entry.origin = call.origin && entry.url = call.url) + 1 = place past call := by
    rw [count_eq h hTime]
    rfl
  intro t ht
  unfold record
  simp only [hCount]
  by_cases hFew : place past call ≤ maxOpensPerWindow
  · have hSpace := hRoom hFew
    rw [if_neg (Nat.not_lt.mpr hFew), if_pos hFew]
    dsimp only
    rw [if_neg (by omega), retained_append, retained_append, retained_retained _ ht,
      h t (by omega)]
  · rw [if_pos (Nat.lt_of_not_le hFew), if_neg hFew, retained_retained _ ht, h t (by omega)]

/-- **A whole sequence**: as long as there is room, the answers are the limiter's. -/
theorem answers_eq_limiter (h : Tracks past now opens) (hTimes : ∀ call ∈ calls, now ≤ call.openedAt)
    (hSorted : calls.Pairwise fun c d => c.openedAt ≤ d.openedAt) (hRoomy : Roomy opens calls) :
    (answers opens calls).map (fun answer => (answer.1.stamped, answer.2)) =
      (limiter maxOpensPerWindow openWindow (past.map OpenedUrl.stamped)
        (calls.map OpenedUrl.stamped)).map fun answer => (answer.1, decisionOf answer.2) := by
  induction calls generalizing past now opens with
  | nil => rfl
  | cons call calls ih =>
    obtain ⟨hLater, hRest⟩ := List.pairwise_cons.mp hSorted
    have hTime := hTimes call List.mem_cons_self
    have hNext := ih (tracks_record h hTime hRoomy.1) hLater hRest hRoomy.2
    simp only [answers, List.map_cons, limiter, record_decision h hTime, hNext]
    refine congrArg _ (congrArg _ ?_)
    unfold place
    split
    · rw [List.map_append]
      rfl
    · rfl

theorem tracks_new : Tracks [] 0 new := fun _ _ => rfl

/-! ## The calls of one peer -/

theorem place_filter (past : List OpenedUrl) (call : OpenedUrl) :
    place (past.filter fun entry => entry.origin = call.origin) call = place past call := by
  unfold place
  rw [← countRecent_filter (fun key => decide (key.2 = call.origin)) (decide_eq_true rfl)
    (past.map OpenedUrl.stamped), List.filter_map]
  rfl

theorem retained_filter (past : List OpenedUrl) (own : OpenedUrl → Bool) (t : Nat) :
    retained (past.filter own) t = (retained past t).filter own := by
  unfold retained
  rw [List.filter_filter, List.filter_filter]
  simp only [Bool.and_comm]

theorem roomy_filter {origin : Option IpAddr} {fewer : RecentOpens} (h : Tracks past now opens)
    (hFewer : Tracks (past.filter fun entry => entry.origin = origin) now fewer)
    (hTimes : ∀ call ∈ calls, now ≤ call.openedAt)
    (hSorted : calls.Pairwise fun c d => c.openedAt ≤ d.openedAt) (hRoomy : Roomy opens calls) :
    Roomy fewer (calls.filter fun call => call.origin = origin) := by
  induction calls generalizing past now opens fewer with
  | nil => trivial
  | cons call calls ih =>
    obtain ⟨hLater, hRest⟩ := List.pairwise_cons.mp hSorted
    have hTime := hTimes call List.mem_cons_self
    have hTracks := tracks_record h hTime hRoomy.1
    by_cases hOwn : call.origin = origin
    · subst hOwn
      rw [List.filter_cons_of_pos (by simp)]
      have hRoom : (fewer.record call.url call.openedAt call.origin).1 = .permit →
          (retained fewer.entries call.openedAt).length < maxTrackedOpens := by
        intro hPermit
        rw [record_decision hFewer hTime, place_filter, ← record_decision h hTime] at hPermit
        have hSpace := hRoomy.1 hPermit
        rw [h _ hTime] at hSpace
        rw [hFewer _ hTime, retained_filter]
        exact Nat.lt_of_le_of_lt (List.length_filter_le _ _) hSpace
      refine ⟨hRoom, ih hTracks ?_ hLater hRest hRoomy.2⟩
      have hNext := tracks_record hFewer hTime hRoom
      rw [place_filter] at hNext
      split
      · rename_i hFew
        rw [if_pos hFew] at hNext
        rwa [List.filter_append, List.filter_cons_of_pos (by simp), List.filter_nil]
      · rename_i hMany
        rwa [if_neg hMany] at hNext
    · rw [List.filter_cons_of_neg (by simpa using hOwn)]
      refine ih hTracks ?_ hLater hRest hRoomy.2
      intro t ht
      rw [hFewer t (by omega)]
      split
      · rw [List.filter_append, List.filter_cons_of_neg (by simpa using hOwn), List.filter_nil,
          List.append_nil]
      · rfl

end

/-! ## The guard -/

open RecentOpens

theorem stamped_injective : Function.Injective OpenedUrl.stamped := by
  rintro ⟨url, openedAt, origin⟩ ⟨url', openedAt', origin'⟩ hEq
  simp only [OpenedUrl.stamped, Stamped.mk.injEq, Prod.mk.injEq] at hEq
  obtain ⟨⟨rfl, rfl⟩, rfl⟩ := hEq
  rfl

/-- **The open-loop guard**, where each open that is permitted finds room in the
deque: at most three opens of a URL by a peer in less than two seconds, and no peer
changes what another is answered. -/
theorem open_loop_guard {calls : List OpenedUrl}
    (hSorted : calls.Pairwise fun c d => c.openedAt ≤ d.openedAt) (hRoomy : Roomy new calls) :
    (∀ url origin lo hi, hi < lo + fromSecs 2 →
      (answers new calls).countP (fun answer => decide (answer.2 = .permit ∧ answer.1.url = url ∧
        answer.1.origin = origin ∧ lo ≤ answer.1.openedAt ∧ answer.1.openedAt ≤ hi)) ≤ 3) ∧
    ∀ origin, (answers new calls).filter (fun answer => answer.1.origin = origin) =
      answers new (calls.filter fun call => call.origin = origin) := by
  have hStart : ∀ calls : List OpenedUrl, ∀ call ∈ calls, 0 ≤ call.openedAt :=
    fun _ _ _ => Nat.zero_le _
  have hLimiter := answers_eq_limiter tracks_new (hStart calls) hSorted hRoomy
  refine ⟨?_, ?_⟩
  · intro url origin lo hi hSpan
    have hNone : Limited maxOpensPerWindow openWindow
        ([] : List (Stamped (String × Option IpAddr))) := limited_nil
    have hLimited := limited_limiter hNone (calls.map OpenedUrl.stamped) (url, origin) lo hi hSpan
    rw [List.nil_append, passed, List.countP_map, List.countP_filter] at hLimited
    refine Nat.le_trans (Nat.le_of_eq ?_) hLimited
    have hCounts := congrArg (List.countP fun answer : Stamped (String × Option IpAddr) ×
      OpenDecision => decide (answer.2 = .permit ∧ answer.1.key = (url, origin) ∧
        lo ≤ answer.1.time ∧ answer.1.time ≤ hi)) hLimiter
    rw [List.countP_map, List.countP_map] at hCounts
    refine Eq.trans (List.countP_congr fun answer _ => ?_) (hCounts.trans
      (List.countP_congr fun answer _ => ?_))
    · simp [OpenedUrl.stamped, and_assoc]
    · simp [decisionOf_permit_iff, and_comm, and_assoc]
  · intro origin
    have hFewer : Roomy new (calls.filter fun call => call.origin = origin) :=
      roomy_filter tracks_new tracks_new (hStart calls) hSorted hRoomy
    have hRestricted := answers_eq_limiter tracks_new (hStart _) (hSorted.filter _) hFewer
    -- the answers as the limiter gives them, with the peer in the key
    let shown : OpenedUrl × OpenDecision → Stamped (String × Option IpAddr) × OpenDecision :=
      fun answer => (answer.1.stamped, answer.2)
    have hInjective : Function.Injective shown := by
      rintro ⟨c, d⟩ ⟨c', d'⟩ hEq
      obtain ⟨hCall, rfl⟩ := Prod.mk.inj hEq
      obtain rfl : c = c' := stamped_injective hCall
      rfl
    let own : String × Option IpAddr → Bool := fun key => decide (key.2 = origin)
    refine hInjective.list_map ?_
    calc ((answers new calls).filter fun answer => answer.1.origin = origin).map shown
        = ((answers new calls).map shown).filter (fun answer => own answer.1.key) := by
          rw [List.filter_map]
          rfl
      _ = ((limiter maxOpensPerWindow openWindow [] (calls.map OpenedUrl.stamped)).filter
            fun answer => own answer.1.key).map fun answer => (answer.1, decisionOf answer.2) := by
          rw [hLimiter, List.filter_map]
          rfl
      _ = (limiter maxOpensPerWindow openWindow [] ((calls.filter fun call => call.origin = origin).map
            OpenedUrl.stamped)).map fun answer => (answer.1, decisionOf answer.2) := by
          rw [limiter_restrict, List.filter_map]
          rfl
      _ = (answers new (calls.filter fun call => call.origin = origin)).map shown :=
          hRestricted.symm

def remotePeer : Option IpAddr := some (.v4 1)

def devbox : Option IpAddr := some (.v4 2)

def page : OpenedUrl := ⟨"https://example.com/", 0, remotePeer⟩

theorem open_loop_guard_fourth :
    (answers new [page, page, page, page]).map Prod.snd = [.permit, .permit, .permit, .drop 4] ∧
      (answers new [page, page, page, page]).countP (fun answer => decide (answer.2 = .permit ∧
        answer.1.url = page.url ∧ answer.1.origin = remotePeer ∧ 0 ≤ answer.1.openedAt ∧
        answer.1.openedAt ≤ 0)) ≤ 3 :=
  ⟨by decide +kernel, (open_loop_guard (by decide +kernel) (by decide +kernel)).1 _ _ 0 0
    (by decide)⟩

/-- Three opens of the page, 62 opens of other pages by another peer, and the page
again, all at one time. -/
def crowd : List OpenedUrl :=
  [page, page, page] ++ (List.range 62).map (fun n => ⟨toString n, 0, devbox⟩) ++ [page]

/-- **What other opens can do**: a fourth open of the page is permitted in one
moment, and without the other peer it is not. -/
theorem crowded_deque :
    (crowd.Pairwise fun c d => c.openedAt ≤ d.openedAt) ∧
      (answers new crowd).countP (fun answer => decide (answer.2 = .permit ∧
        answer.1.url = page.url ∧ answer.1.origin = remotePeer ∧ 0 ≤ answer.1.openedAt ∧
        answer.1.openedAt ≤ 0)) = 4 ∧
      (answers new crowd).filter (fun answer => answer.1.origin = remotePeer) ≠
        answers new (crowd.filter fun call => call.origin = remotePeer) := by
  decide +kernel

end Forward.Daemon

import Forward.Lib.Recent
import Forward.Lib.System
import Forward.Lib.Word

/-!
# The laptop's mirror of relay tokens

The relay tokens that one devbox has pushed. An insertion drops what has expired and any older
entry of the token, evicts the oldest entry if there is no room, and appends; every lookup drops
what has expired. Times are readings of `CLOCK_BOOTTIME`. `log` is not in the source: all
insertions, newest first.
-/

namespace Forward.Browser

open Lib

structure TokenEntry where
  token : List UInt8
  deadline : Nat

structure Inner where
  entries : List TokenEntry
  connected : Bool

def maxLiveTokens : Nat := 64

def lease : Nat := fromSecs (5 * 60)

def longestTtl : Nat := fromSecs (12 * 60 * 60)

def clampWireTtl (ttl : Nat) : Nat := min ttl longestTtl

def bootAdd (t d : Nat) : Option Nat := if t + d ≤ durationMax then some (t + d) else none

namespace Inner

def empty : Inner := ⟨[], false⟩

def retainLive (inner : Inner) (now : Nat) : Inner :=
  { inner with entries := inner.entries.filter fun entry => now < entry.deadline }

def insertUntil (inner : Inner) (token : List UInt8) (deadline now : Nat) : Inner :=
  let entries := (inner.retainLive now).entries.filter fun entry => entry.token ≠ token
  let entries := if entries.length = maxLiveTokens then entries.tail else entries
  { inner with entries := entries ++ [⟨token, deadline⟩] }

def insert (inner : Inner) (token : List UInt8) (ttl now : Nat) : Inner :=
  match bootAdd now (min (clampWireTtl ttl) lease) with
  | none => inner
  | some deadline => inner.insertUntil token deadline now

def acceptsAt (inner : Inner) (presented : List UInt8) (now : Nat) : Bool × Inner :=
  let inner := inner.retainLive now
  (inner.entries.any fun entry => entry.token = presented, inner)

def reapExpiredAt (inner : Inner) (now : Nat) : Inner := inner.retainLive now

def setConnected (inner : Inner) (connected : Bool) : Inner :=
  { inner with connected := connected }

theorem insertUntil_entries (inner : Inner) (token : List UInt8) (deadline now : Nat) :
    (inner.insertUntil token deadline now).entries =
      pushRecent (·.token) maxLiveTokens (inner.retainLive now).entries ⟨token, deadline⟩ := rfl

theorem acceptsAt_iff {inner : Inner} {presented : List UInt8} {now : Nat} :
    (inner.acceptsAt presented now).1 ↔
      ∃ entry ∈ inner.entries, now < entry.deadline ∧ entry.token = presented := by
  simp only [acceptsAt, retainLive, List.any_eq_true, List.mem_filter, decide_eq_true_eq,
    and_assoc]

end Inner

/-! ## Runs of the mirror -/

structure Insertion where
  token : List UInt8
  time : Nat
  ttl : Nat
  deriving DecidableEq

def Insertion.deadline (i : Insertion) : Nat := i.time + min (min i.ttl longestTtl) lease

def Insertion.entry (i : Insertion) : TokenEntry := ⟨i.token, i.deadline⟩

structure Mirror where
  inner : Inner
  now : Nat
  log : List Insertion

inductive MirrorAction
  | insert (elapsed : Nat) (token : List UInt8) (ttl : Nat)
  | accepts (elapsed : Nat) (presented : List UInt8)
  | reap (elapsed : Nat)

def Mirror.step (m : Mirror) : MirrorAction → Option Mirror
  | .insert elapsed token ttl =>
    let now := m.now + elapsed
    some ⟨m.inner.insert token ttl now, now, ⟨token, now, ttl⟩ :: m.log⟩
  | .accepts elapsed presented =>
    let now := m.now + elapsed
    some ⟨(m.inner.acceptsAt presented now).2, now, m.log⟩
  | .reap elapsed =>
    let now := m.now + elapsed
    some ⟨m.inner.reapExpiredAt now, now, m.log⟩

def mirror : System Mirror MirrorAction where
  init := ⟨.empty, 0, []⟩
  step := Mirror.step

/-- The deadline of an insertion does not overflow. -/
def Fits (m : Mirror) : MirrorAction → Prop
  | .insert elapsed token ttl =>
    (Insertion.mk token (m.now + elapsed) ttl).deadline ≤ durationMax
  | _ => True

/-- The entries are a recency cache of the log, for what has not expired. -/
abbrev Mirrored (m : Mirror) : Prop :=
  Caches TokenEntry.token maxLiveTokens (fun entry => m.now < entry.deadline)
    (m.log.map Insertion.entry) m.inner.entries

section

variable {m m' : Mirror}

theorem retained (h : Mirrored m) (elapsed : Nat) :
    Caches TokenEntry.token maxLiveTokens (fun entry => m.now + elapsed < entry.deadline)
      (m.log.map Insertion.entry) (m.inner.retainLive (m.now + elapsed)).entries := by
  refine h.retain fun entry hLive => ⟨?_, decide_eq_true hLive⟩
  omega

theorem mirrored_step {a : MirrorAction} (h : Mirrored m) (hFits : Fits m a)
    (hStep : m.step a = some m') : Mirrored m' := by
  cases a with
  | insert elapsed token ttl =>
    cases hStep
    have hDeadline : bootAdd (m.now + elapsed) (min (clampWireTtl ttl) lease) =
        some (Insertion.mk token (m.now + elapsed) ttl).deadline := if_pos hFits
    have hPush := (retained h elapsed).push (by decide)
      (Insertion.mk token (m.now + elapsed) ttl).entry
    show Caches _ _ _ _ (m.inner.insert token ttl (m.now + elapsed)).entries
    rw [Inner.insert, hDeadline, Inner.insertUntil_entries]
    exact hPush
  | accepts elapsed | reap elapsed =>
    cases hStep
    exact retained h elapsed

theorem mirrored_path (h : Path mirror Fits mirror.init m) : Mirrored m :=
  h.invariant (I := Mirrored) (fun _ _ _ hInv hFits hStep => mirrored_step hInv hFits hStep) .nil

end

/-- **The mirror of relay tokens**: at most 64 entries with different tokens; a
token is accepted at `T` only if its latest insertion, at `S` for `ttl`, has
`T < S + min(ttl, 12 h, 5 min)`; and then it is, unless 64 other tokens were
inserted since. -/
theorem relay_token_mirror {m : Mirror} (h : Path mirror Fits mirror.init m) :
    m.inner.entries.length ≤ 64 ∧ (m.inner.entries.map (·.token)).Nodup ∧
    ∀ (t : List UInt8) (T : Nat), m.now ≤ T →
      ((m.inner.acceptsAt t T).1 = true →
        ∃ newer i older, m.log = newer ++ i :: older ∧ i.token = t ∧
          (∀ x ∈ newer, x.token ≠ t) ∧
          T < i.time + min (min i.ttl (fromSecs (12 * 60 * 60))) (fromSecs (5 * 60))) ∧
      ∀ newer i older, m.log = newer ++ i :: older → i.token = t →
        (∀ x ∈ newer, x.token ≠ t) →
        T < i.time + min (min i.ttl (fromSecs (12 * 60 * 60))) (fromSecs (5 * 60)) →
        (newer.map (·.token)).toFinset.card < 64 → (m.inner.acceptsAt t T).1 = true := by
  have hInv := mirrored_path h
  refine ⟨hInv.bounded, hInv.nodup, ?_⟩
  intro t T hNow
  constructor
  · intro hAccepts
    obtain ⟨entry, hIn, hLive, rfl⟩ := Inner.acceptsAt_iff.mp hAccepts
    obtain ⟨newer, older, hSplit, hNewer⟩ := split_of_mem_recent (hInv.mem_recent hIn)
    obtain ⟨newer, rest, hLog, rfl, hRest⟩ := List.map_eq_append_iff.mp hSplit
    obtain ⟨i, older, rfl, rfl, -⟩ := List.map_eq_cons_iff.mp hRest
    refine ⟨newer, i, older, hLog, rfl, ?_, hLive⟩
    intro x hx
    exact hNewer x.entry (List.mem_map_of_mem hx)
  · intro newer i older hLog hToken hNewer hLive hFew
    have hOthers : ∀ y ∈ newer.map Insertion.entry, y.token ≠ i.entry.token := by
      intro y hy
      obtain ⟨x, hx, rfl⟩ := List.mem_map.mp hy
      show x.token ≠ i.token
      rw [hToken]
      exact hNewer x hx
    obtain ⟨rest, hRecent⟩ : ∃ rest, recent TokenEntry.token (m.log.map Insertion.entry) =
        recent TokenEntry.token (newer.map Insertion.entry) ++ i.entry :: rest := by
      rw [hLog, List.map_append, List.map_cons]
      exact recent_split hOthers
    -- its place is the number of other tokens since
    have hPlace : (recent TokenEntry.token (newer.map Insertion.entry)).length < maxLiveTokens := by
      rw [length_recent, List.map_map]
      exact hFew
    have hGet : (recent TokenEntry.token (m.log.map Insertion.entry))[
        (recent TokenEntry.token (newer.map Insertion.entry)).length]? = some i.entry := by
      rw [hRecent, List.getElem?_append_right (Nat.le_refl _), Nat.sub_self]
      rfl
    have hIn := hInv.complete _ _ hGet hPlace (Nat.lt_of_le_of_lt hNow hLive)
    exact Inner.acceptsAt_iff.mpr ⟨i.entry, hIn, hLive, hToken⟩

theorem relay_token_mirror_lease :
    ∃ m : Mirror, Path mirror Fits mirror.init m ∧
      m.log = [⟨[2], fromSecs 10, fromSecs 60⟩, ⟨[1], 0, fromSecs 3600⟩] ∧
      (m.inner.acceptsAt [1] (fromSecs 299)).1 = true ∧
      (m.inner.acceptsAt [1] (fromSecs 300)).1 = false := by
  let actions : List MirrorAction :=
    [.insert 0 [1] (fromSecs 3600), .reap 5, .insert (fromSecs 10 - 5) [2] (fromSecs 60)]
  let check (m : Mirror) (a : MirrorAction) : Bool :=
    match a with
    | .insert elapsed token ttl =>
      decide ((Insertion.mk token (m.now + elapsed) ttl).deadline ≤ durationMax)
    | _ => true
  have hReplay : ((mirror.guard check).run mirror.init actions).map (fun m =>
      decide (m.now ≤ fromSecs 299 ∧
        m.log = [⟨[2], fromSecs 10, fromSecs 60⟩, ⟨[1], 0, fromSecs 3600⟩])) = some true := by
    decide +kernel
  obtain ⟨m, hRun, hSeen⟩ := Option.map_eq_some_iff.mp hReplay
  obtain ⟨hNow, hLog⟩ := of_decide_eq_true hSeen
  have hPath : Path mirror Fits mirror.init m := by
    refine (Path.of_run hRun).unguard fun m a hCheck => ?_
    cases a with
    | insert elapsed token ttl =>
      have hFits : (Insertion.mk token (m.now + elapsed) ttl).deadline ≤ durationMax :=
        of_decide_eq_true hCheck
      exact hFits
    | accepts | reap => trivial
  obtain ⟨-, -, hTokens⟩ := relay_token_mirror hPath
  refine ⟨m, hPath, hLog, ?_, ?_⟩
  · exact (hTokens [1] (fromSecs 299) hNow).2 [⟨[2], fromSecs 10, fromSecs 60⟩]
      ⟨[1], 0, fromSecs 3600⟩ [] hLog rfl (by simp) (by decide) (by decide)
  · have hLater : m.now ≤ fromSecs 300 := Nat.le_trans hNow (by decide)
    by_contra hAccepts
    obtain ⟨newer, i, older, hSplit, hToken, -, hLive⟩ :=
      (hTokens [1] (fromSecs 300) hLater).1 (Bool.not_eq_false _ ▸ hAccepts)
    have hIn : i ∈ m.log := hSplit ▸ List.mem_append_right _ (List.mem_cons_self ..)
    rw [hLog] at hIn
    rcases List.mem_cons.mp hIn with rfl | hIn
    · cases hToken
    · obtain rfl := List.mem_singleton.mp hIn
      exact absurd hLive (by decide)

end Forward.Browser

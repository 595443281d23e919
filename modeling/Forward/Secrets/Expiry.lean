import Forward.Lib.System
import Forward.Secrets.Grants

/-!
# When a grant is over

`lookup` and `revoke_expired` ask for an age below the `ttl`, `remaining_secs` for an age that can
be subtracted from it. At the age of exactly its `ttl` a grant is over for the first two and has
zero seconds left for the third (`zero_seconds_left`).
-/

namespace Forward.Secrets

open Lib

/-! ## Runs of the table -/

inductive GrantOp
  | insert (scope : Scope) (key : SecretName) (value : List UInt8) (origin : GrantOrigin)
      (ttl : Nat)
  | revoke (scope : Scope) (key : SecretName)
  | revokeScope (scope : Scope)
  | revokeTokens (tokens : List SessionToken)
  | revokeExpired
  | revokeAll
  | revokeMissingTtys (w : World)

namespace GrantTable

def apply (t : GrantTable) (now : Nat) : GrantOp → GrantTable
  | .insert scope key value origin ttl => t.insert ⟨scope, key, value, origin, now, ttl⟩
  | .revoke scope key => t.revoke scope key
  | .revokeScope scope => t.revokeScope scope
  | .revokeTokens tokens => t.revokeTokens tokens
  | .revokeExpired => t.revokeExpired now
  | .revokeAll => t.revokeAll
  | .revokeMissingTtys w => t.revokeMissingTtys w

end GrantTable

/-- The table and the time of the last operation. -/
structure GrantClock where
  table : GrantTable
  clock : Nat

def grantTables : System GrantClock (GrantOp × Nat) where
  init := ⟨.new, 0⟩
  step s a := if s.clock ≤ a.2 then some ⟨s.table.apply a.2 a.1, a.2⟩ else none

namespace GrantTable

variable {t : GrantTable} {scope : Scope} {key : SecretName} {now : Nat} {g : Grant}

theorem apply_unique (h : t.Unique) (op : GrantOp) : (t.apply now op).Unique := by
  cases op with
  | insert => exact insert_unique h _
  | revokeAll => exact List.Pairwise.nil
  -- everything else only takes entries out
  | _ => exact filter_unique h _

theorem unique_reachable {s : GrantClock} (h : Reachable grantTables s) : s.table.Unique := by
  refine Path.invariant (I := fun s => s.table.Unique) ?_ h List.Pairwise.nil
  intro x a y hx _ hStep
  simp only [grantTables] at hStep
  split at hStep
  · cases hStep
    exact apply_unique hx a.1
  · cases hStep

/-! ## The three comparisons -/

theorem lookup_isSome_iff : (t.lookup scope key now).isSome ↔
    ∃ g ∈ t.grants, g.scope = scope ∧ g.key = key ∧ durationSince now g.created < g.ttl := by
  simp [lookup, lookupGrant, Grant.belongs, Grant.live, and_assoc]

theorem find_of_mem (hU : t.Unique) (hMem : g ∈ t.grants) :
    t.grants.find? (fun e => e.belongs g.scope g.key) = some g := by
  refine find?_of_unique hMem (Grant.belongs_iff.mpr ⟨rfl, rfl⟩) fun g' hMem' hOwn => ?_
  obtain ⟨hScope, hKey⟩ := Grant.belongs_iff.mp hOwn
  exact hU.eq hMem' hMem hScope hKey

theorem remainingSecs_isSome_iff (hU : t.Unique) :
    (t.remainingSecs scope key now).isSome ↔
      ∃ g ∈ t.grants, g.scope = scope ∧ g.key = key ∧ durationSince now g.created ≤ g.ttl := by
  constructor
  · intro hSome
    obtain ⟨secs, hSecs⟩ := Option.isSome_iff_exists.mp hSome
    obtain ⟨g, hFind, hRest⟩ := Option.bind_eq_some_iff.mp hSecs
    obtain ⟨hScope, hKey⟩ := Grant.belongs_iff.mp (List.find?_some hFind)
    refine ⟨g, List.mem_of_find?_eq_some hFind, hScope, hKey, ?_⟩
    by_contra hOver
    simp [hOver] at hRest
  · rintro ⟨g, hMem, rfl, rfl, hLeft⟩
    -- the first entry for the scope and the key is the only one
    simp [remainingSecs, find_of_mem hU hMem, hLeft]

theorem live_iff_lookup (hU : t.Unique) (hMem : g ∈ t.grants) :
    g.live now ↔
      t.lookup g.scope g.key now = some (g.value, g.origin.source, g.origin.identity) := by
  constructor
  · intro hLive
    simp only [Grant.live, decide_eq_true_eq] at hLive
    rw [lookup, lookupGrant_of_mem hU hMem hLive]
    rfl
  · intro hLookup
    have hSome : (t.lookup g.scope g.key now).isSome := by
      rw [hLookup]
      rfl
    obtain ⟨g', hMem', hScope, hKey, hLive⟩ := lookup_isSome_iff.mp hSome
    obtain rfl := hU.eq hMem' hMem hScope hKey
    exact decide_eq_true hLive

end GrantTable

/-- **One notion of a live grant**, but for the last instant. In every run no two
grants share a scope and a key; `remaining_secs` and `lookup` agree on a scope and a
key exactly when no grant for them is as old as its `ttl`; and `revoke_expired`
keeps exactly the entries that `lookup` returns. -/
theorem one_notion_of_live (s : GrantClock) (hReach : Reachable grantTables s) :
    s.table.Unique ∧
    (∀ scope key now,
      ((s.table.remainingSecs scope key now).isSome = true ↔
        (s.table.lookup scope key now).isSome = true) ↔
      ∀ g ∈ s.table.grants, g.scope = scope → g.key = key →
        durationSince now g.created ≠ g.ttl) ∧
    ∀ now, (s.table.revokeExpired now).grants = s.table.grants.filter fun g =>
      s.table.lookup g.scope g.key now = some (g.value, g.origin.source, g.origin.identity) := by
  have hU := GrantTable.unique_reachable hReach
  refine ⟨hU, ?_, ?_⟩
  · intro scope key now
    rw [GrantTable.remainingSecs_isSome_iff hU, GrantTable.lookup_isSome_iff]
    constructor
    · rintro hAgree g hMem rfl rfl hLast
      obtain ⟨g', hMem', hScope, hKey, hLive⟩ := hAgree.mp ⟨g, hMem, rfl, rfl, Nat.le_of_eq hLast⟩
      obtain rfl := hU.eq hMem' hMem hScope hKey
      omega
    · intro hNot
      constructor
      · rintro ⟨g, hMem, hScope, hKey, hLeft⟩
        have hOther := hNot g hMem hScope hKey
        exact ⟨g, hMem, hScope, hKey, by omega⟩
      · rintro ⟨g, hMem, hScope, hKey, hLive⟩
        exact ⟨g, hMem, hScope, hKey, Nat.le_of_lt hLive⟩
  · intro now
    refine List.filter_congr fun g hMem => ?_
    rw [Bool.eq_iff_iff, decide_eq_true_eq]
    exact GrantTable.live_iff_lookup hU hMem

/-! ## The last instant -/

def apiKey : SecretName := ⟨"API_KEY", by decide⟩

def terminal : Scope := .tty "/dev/pts/1" "boot"

def fiveSeconds : GrantOp × Nat :=
  (.insert terminal apiKey [1] ⟨"store", ⟨0, 0, 0, ⟨0, 0⟩, ⟨0, 0⟩⟩⟩ (fromSecs 5), 0)

theorem one_notion_of_live_before :
    ∃ s, Reachable grantTables s ∧
      (s.table.remainingSecs terminal apiKey (fromSecs 4)).isSome = true ∧
      (s.table.lookup terminal apiKey (fromSecs 4)).isSome = true := by
  obtain ⟨s, hRun, hSeen⟩ := Option.map_eq_some_iff.mp
    (show ((grantTables.run grantTables.init [fiveSeconds]).map fun s =>
      (s.table.lookup terminal apiKey (fromSecs 4)).isSome &&
        s.table.grants.all fun g => decide (durationSince (fromSecs 4) g.created ≠ g.ttl)) =
        some true by decide +kernel)
  simp only [Bool.and_eq_true, List.all_eq_true, decide_eq_true_eq] at hSeen
  have hReach : Reachable grantTables s := Path.of_run hRun
  have hAgree := ((one_notion_of_live s hReach).2.1 terminal apiKey (fromSecs 4)).mpr
    fun g hMem _ _ => hSeen.2 g hMem
  exact ⟨s, hReach, hAgree.mpr hSeen.1, hSeen.1⟩

/-- **Zero seconds left.** Five seconds later `remaining_secs` still answers, with
zero, and `lookup` does not. -/
theorem zero_seconds_left :
    ∃ s, Reachable grantTables s ∧
      s.table.remainingSecs terminal apiKey (fromSecs 5) = some 0 ∧
      s.table.lookup terminal apiKey (fromSecs 5) = none := by
  obtain ⟨s, hRun, hSeen⟩ := Option.map_eq_some_iff.mp
    (show ((grantTables.run grantTables.init [fiveSeconds]).map fun s =>
      decide (s.table.remainingSecs terminal apiKey (fromSecs 5) = some 0) &&
        (s.table.lookup terminal apiKey (fromSecs 5)).isNone) = some true by decide +kernel)
  simp only [Bool.and_eq_true, decide_eq_true_eq, Option.isNone_iff_eq_none] at hSeen
  exact ⟨s, Path.of_run hRun, hSeen.1, hSeen.2⟩

end Forward.Secrets

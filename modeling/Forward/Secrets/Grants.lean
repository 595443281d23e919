import Mathlib.Data.List.Nodup
import Forward.Lib.Lists
import Forward.Secrets.Store

/-!
# Session registry and grant table

`grants::Registry` says which session a caller belongs to, and `grants::GrantTable` holds the
decrypted values per scope and key. Both are lists searched in insertion order.
-/

namespace Forward.Secrets

open Lib

/-! ## Registry -/

structure Registration where
  token : SessionToken
  session : String
  root : Peer

structure Registry where
  sessions : List Registration
  agentTtys : List String
  bootId : String

namespace Registry

def new (bootId : String) : Registry := ⟨[], [], bootId⟩

-- a known token is kept as it is, or refused under another session name; a
-- new token displaces whatever the session name was bound to
def register (r : Registry) (reg : Registration) : Registry × Except ErrCode (List SessionToken) :=
  if r.sessions.any fun e => e.token == reg.token then
    if r.sessions.any fun e => e.token == reg.token && e.session == reg.session then (r, .ok [])
    else (r, .error .badRequest)
  else
    let displaced := (r.sessions.filter fun e => e.session == reg.session).map (·.token)
    ({ r with sessions := r.sessions.filter (fun e => e.session != reg.session) ++ [reg] },
      .ok displaced)

def unregister (r : Registry) (session : String) : Registry × List SessionToken :=
  ({ r with sessions := r.sessions.filter fun e => e.session != session },
    (r.sessions.filter fun e => e.session == session).map (·.token))

def registration (r : Registry) (token : SessionToken) : Option Registration :=
  r.sessions.find? fun e => e.token == token

def isAgentTty (r : Registry) (tty : String) : Bool := r.agentTtys.any fun known => known == tty

/-- Determine the scope of a request, or why it has none. -/
def resolve (r : Registry) (w : World) (token : Option SessionToken) (tty : Option String)
    (caller : Option Peer) : Registry × Except ErrCode Scope :=
  match token with
  | some presented =>
    match r.registration presented with
    | none => (r, .error .unknownToken)
    | some entry =>
      if caller.any fun c => w.descendsFrom c entry.root then
        let learned :=
          match tty with
          | some tty => if r.isAgentTty tty then r.agentTtys else r.agentTtys ++ [tty]
          | none => r.agentTtys
        ({ r with agentTtys := learned }, .ok (.session presented))
      else (r, .error .foreignCaller)
  | none =>
    match tty with
    | some tty =>
      if r.isAgentTty tty then (r, .error .agentTty) else (r, .ok (.tty tty r.bootId))
    | none => (r, .error .noScope)

structure WF (r : Registry) : Prop where
  tokens : (r.sessions.map (·.token)).Nodup
  sessions : (r.sessions.map (·.session)).Nodup

variable {r : Registry}

theorem filter_wf (h : r.WF) (p : Registration → Bool) :
    ({ r with sessions := r.sessions.filter p } : Registry).WF :=
  ⟨h.tokens.sublist (List.filter_sublist.map _), h.sessions.sublist (List.filter_sublist.map _)⟩

theorem register_cases (r : Registry) (reg : Registration) :
    ((∃ e ∈ r.sessions, e.token = reg.token ∧ e.session = reg.session) ∧
      r.register reg = (r, .ok [])) ∨
    r.register reg = (r, .error .badRequest) ∨
    ((∀ e ∈ r.sessions, e.token ≠ reg.token) ∧
      r.register reg =
        ({ r with sessions := r.sessions.filter (fun e => e.session != reg.session) ++ [reg] },
          .ok ((r.sessions.filter fun e => e.session == reg.session).map (·.token)))) := by
  unfold register
  split
  · split
    · rename_i hSame
      simp only [List.any_eq_true, Bool.and_eq_true, beq_iff_eq] at hSame
      exact .inl ⟨hSame, rfl⟩
    · exact .inr (.inl rfl)
  · rename_i hNew
    refine .inr (.inr ⟨?_, rfl⟩)
    intro e he hEq
    exact hNew (List.any_eq_true.mpr ⟨e, he, by simpa using hEq⟩)

theorem register_wf (h : r.WF) (reg : Registration) : (r.register reg).1.WF := by
  rcases r.register_cases reg with ⟨_, hEq⟩ | hEq | ⟨hNew, hEq⟩
  · rw [hEq]
    exact h
  · rw [hEq]
    exact h
  · rw [hEq]
    have hFiltered := filter_wf h fun e => e.session != reg.session
    refine ⟨?_, ?_⟩
    · -- the token is new
      rw [List.map_append, List.map_singleton, ← List.concat_eq_append, List.nodup_concat]
      refine ⟨?_, hFiltered.tokens⟩
      intro hMem
      obtain ⟨e, he, hTok⟩ := List.mem_map.mp hMem
      exact hNew e (List.mem_of_mem_filter he) hTok
    · -- every other holder of the session name was dropped
      rw [List.map_append, List.map_singleton, ← List.concat_eq_append, List.nodup_concat]
      refine ⟨?_, hFiltered.sessions⟩
      intro hMem
      obtain ⟨e, he, hSes⟩ := List.mem_map.mp hMem
      have := (List.mem_filter.mp he).2
      simp [hSes] at this

theorem unregister_wf (h : r.WF) (session : String) : (r.unregister session).1.WF :=
  filter_wf h _

theorem resolve_sessions (w : World) (token : Option SessionToken) (tty : Option String)
    (caller : Option Peer) : (r.resolve w token tty caller).1.sessions = r.sessions := by
  unfold resolve
  split
  · split
    · rfl
    · split <;> rfl
  · split
    · split <;> rfl
    · rfl

theorem resolve_agentTtys (w : World) (token : Option SessionToken) (tty : Option String)
    (caller : Option Peer) :
    ∀ t ∈ r.agentTtys, t ∈ (r.resolve w token tty caller).1.agentTtys := by
  intro t ht
  unfold resolve
  split
  · split
    · exact ht
    · split
      · dsimp only
        split
        · split
          · exact ht
          · exact List.mem_append_left _ ht
        · exact ht
      · exact ht
  · split
    · split <;> exact ht
    · exact ht

theorem resolve_agent_tty {tty : String} (h : tty ∈ r.agentTtys) (w : World)
    (caller : Option Peer) :
    r.resolve w none (some tty) caller = (r, .error .agentTty) := by
  have hKnown : r.isAgentTty tty = true := List.any_eq_true.mpr ⟨tty, h, by simp⟩
  simp [resolve, hKnown]

end Registry

/-! ## Grant table -/

structure GrantOrigin where
  source : String
  identity : FileIdentity
  deriving DecidableEq

structure Grant where
  scope : Scope
  key : SecretName
  value : List UInt8
  origin : GrantOrigin
  created : Nat
  ttl : Nat
  deriving DecidableEq

structure GrantTable where
  grants : List Grant

namespace Grant

def belongs (scope : Scope) (key : SecretName) (g : Grant) : Bool :=
  g.scope == scope && g.key == key

def live (now : Nat) (g : Grant) : Bool := durationSince now g.created < g.ttl

theorem belongs_iff {scope : Scope} {key : SecretName} {g : Grant} :
    g.belongs scope key ↔ g.scope = scope ∧ g.key = key := by
  simp [belongs]

end Grant

namespace GrantTable

def new : GrantTable := ⟨[]⟩

-- the entry `lookup` hands out parts of
def lookupGrant (t : GrantTable) (scope : Scope) (key : SecretName) (now : Nat) : Option Grant :=
  t.grants.find? fun g => g.belongs scope key && g.live now

def lookup (t : GrantTable) (scope : Scope) (key : SecretName) (now : Nat) :
    Option (List UInt8 × String × FileIdentity) :=
  (t.lookupGrant scope key now).map fun g => (g.value, g.origin.source, g.origin.identity)

-- unlike `lookup`, the search itself does not look at the age
def remainingSecs (t : GrantTable) (scope : Scope) (key : SecretName) (now : Nat) : Option Nat := do
  let g ← t.grants.find? fun g => g.belongs scope key
  let age := durationSince now g.created
  if age ≤ g.ttl then some (asSecs (g.ttl - age)) else none

/-- Install a grant, replacing any existing one for the same scope and key. -/
def insert (t : GrantTable) (g : Grant) : GrantTable :=
  ⟨t.grants.filter (fun e => !e.belongs g.scope g.key) ++ [g]⟩

def revoke (t : GrantTable) (scope : Scope) (key : SecretName) : GrantTable :=
  ⟨t.grants.filter fun g => !g.belongs scope key⟩

def revokeScope (t : GrantTable) (scope : Scope) : GrantTable :=
  ⟨t.grants.filter fun g => !(g.scope == scope)⟩

def revokeTokens (t : GrantTable) (tokens : List SessionToken) : GrantTable :=
  ⟨t.grants.filter fun g =>
    match g.scope with
    | .session token => !tokens.contains token
    | .tty _ _ => true⟩

def revokeExpired (t : GrantTable) (now : Nat) : GrantTable := ⟨t.grants.filter (Grant.live now)⟩

def revokeAll (_t : GrantTable) : GrantTable := ⟨[]⟩

def revokeMissingTtys (t : GrantTable) (w : World) : GrantTable :=
  ⟨t.grants.filter fun g =>
    match g.scope with
    | .session _ => true
    | .tty tty _ => w.pathExists tty⟩

-- one line of `render`
def renderLine (now : Nat) (g : Grant) : String :=
  let scope :=
    match g.scope with
    | .session _ => "session"
    | .tty tty _ => "tty " ++ tty
  g.key.name ++ "\t" ++ scope ++ "\t" ++ toString (asSecs (durationSince now g.created)) ++ "s\n"

def render (t : GrantTable) (now : Nat) : String :=
  if t.grants.isEmpty then "no active grants\n"
  else t.grants.foldl (fun out g => out ++ renderLine now g) "KEY\tSCOPE\tAGE\n"

def Unique (t : GrantTable) : Prop :=
  t.grants.Pairwise fun a b => ¬ (a.scope = b.scope ∧ a.key = b.key)

variable {t : GrantTable} {scope : Scope} {key : SecretName} {now : Nat} {g : Grant}

theorem filter_unique (h : t.Unique) (p : Grant → Bool) : Unique ⟨t.grants.filter p⟩ :=
  List.Pairwise.filter _ h

theorem insert_unique (h : t.Unique) (g : Grant) : (t.insert g).Unique := by
  unfold Unique insert
  rw [List.pairwise_append]
  refine ⟨filter_unique h _, List.pairwise_singleton _ _, ?_⟩
  intro a ha b hb
  rw [List.mem_singleton] at hb
  subst hb
  have hNot := (List.mem_filter.mp ha).2
  rw [Bool.not_eq_true', ← Bool.not_eq_true, Grant.belongs_iff] at hNot
  exact hNot

theorem lookupGrant_some (h : t.lookupGrant scope key now = some g) :
    g ∈ t.grants ∧ g.scope = scope ∧ g.key = key ∧ durationSince now g.created < g.ttl := by
  have hMem := List.mem_of_find?_eq_some h
  have hProp := List.find?_some h
  simp only [Bool.and_eq_true, Grant.belongs_iff, Grant.live, decide_eq_true_eq] at hProp
  exact ⟨hMem, hProp.1.1, hProp.1.2, hProp.2⟩

theorem Unique.eq {g' : Grant} (hU : t.Unique) (hMem : g ∈ t.grants) (hMem' : g' ∈ t.grants)
    (hScope : g.scope = g'.scope) (hKey : g.key = g'.key) : g = g' := by
  obtain ⟨l₁, l₂, hl⟩ := List.mem_iff_append.mp hMem
  unfold Unique at hU
  rw [hl, List.pairwise_append, List.pairwise_cons] at hU
  rw [hl] at hMem'
  -- the other entry stands before it, behind it, or is the same
  rcases List.mem_append.mp hMem' with hIn | hIn
  · exact absurd ⟨hScope.symm, hKey.symm⟩ (hU.2.2 g' hIn g List.mem_cons_self)
  · rcases List.mem_cons.mp hIn with hEq | hIn
    · exact hEq.symm
    · exact absurd ⟨hScope, hKey⟩ (hU.2.1.1 g' hIn)

theorem lookupGrant_of_mem (hU : t.Unique) (hMem : g ∈ t.grants)
    (hLive : durationSince now g.created < g.ttl) :
    t.lookupGrant g.scope g.key now = some g := by
  refine find?_of_unique hMem ?_ fun g' hMem' hFound => ?_
  · simp [Grant.belongs, Grant.live, hLive]
  · obtain ⟨hScope, hKey⟩ := Grant.belongs_iff.mp (Bool.and_eq_true_iff.mp hFound).1
    exact hU.eq hMem' hMem hScope hKey

end GrantTable

/-! ## Capability grants -/

/-- Capability authority issued by receipt redemption: the deadlines. -/
structure CapabilityGrantTable where
  entries : List Nat
  deriving DecidableEq

namespace CapabilityGrantTable

def empty : CapabilityGrantTable := ⟨[]⟩

def isLive (now deadline : Nat) : Bool := now < deadline

/-- Record a redeemed capability until the broker's authoritative deadline. -/
def insert (t : CapabilityGrantTable) (deadline : Nat) : CapabilityGrantTable × Nat :=
  (⟨t.entries ++ [deadline]⟩, t.entries.length)

def remainingSecs (t : CapabilityGrantTable) (index now : Nat) : Option Nat :=
  ((t.entries[index]?).filter (isLive now)).map fun deadline => asSecs (durationSince deadline now)

def sweep (t : CapabilityGrantTable) (now : Nat) : CapabilityGrantTable :=
  ⟨t.entries.filter (isLive now)⟩

def clear (_t : CapabilityGrantTable) : CapabilityGrantTable := ⟨[]⟩

end CapabilityGrantTable

end Forward.Secrets

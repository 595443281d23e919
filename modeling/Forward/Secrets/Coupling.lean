import Forward.Secrets.Places

/-!
# Registry and grants stay coupled

UNREGISTER and the displacement of a session revoke the grants of every token they drop, in the
same critical section, and the worker inserts a grant for a session only after looking up the
registration again. So no grant outlives its token.
-/

namespace Forward.Secrets

open Lib

/-- Registrations are distinct, and every session grant has one. -/
structure Coupled (c : Core) : Prop where
  wf : c.st.registry.WF
  registered : ∀ g ∈ c.st.grants.grants, ∀ token, g.scope = .session token →
    ∃ e ∈ c.st.registry.sessions, e.token = token

namespace Coupled

variable {w : World} {role : Role} {c d : Core}

theorem shrink (h : Coupled c) (hWF : d.st.registry.WF)
    (hSessions : d.st.registry.sessions = c.st.registry.sessions)
    (hGrants : ∀ g ∈ d.st.grants.grants, g ∈ c.st.grants.grants) : Coupled d := by
  refine ⟨hWF, fun g hg token hScope => ?_⟩
  rw [hSessions]
  exact h.registered g (hGrants g hg) token hScope

theorem mem_revokeTokens {t : GrantTable} {tokens : List SessionToken} {g : Grant}
    (hg : g ∈ (t.revokeTokens tokens).grants) :
    g ∈ t.grants ∧ ∀ token, g.scope = .session token → token ∉ tokens := by
  obtain ⟨hMem, hKeep⟩ := List.mem_filter.mp hg
  refine ⟨hMem, fun token hScope hIn => ?_⟩
  rw [hScope] at hKeep
  simp [hIn] at hKeep

theorem drop (h : Coupled c) (session : String) (added : List Registration)
    (hWF : d.st.registry.WF)
    (hSessions : d.st.registry.sessions =
      c.st.registry.sessions.filter (fun e => e.session != session) ++ added)
    (hGrants : d.st.grants = c.st.grants.revokeTokens
      ((c.st.registry.sessions.filter fun e => e.session == session).map (·.token))) :
    Coupled d := by
  refine ⟨hWF, fun g hg token hScope => ?_⟩
  rw [hGrants] at hg
  obtain ⟨hOld, hKept⟩ := mem_revokeTokens hg
  obtain ⟨e, he, hToken⟩ := h.registered g hOld token hScope
  -- its registration is not of the dropped name, or the grant would be gone
  have hOther : e.session ≠ session := by
    intro hName
    refine hKept token hScope (List.mem_map.mpr ⟨e, ?_, hToken⟩)
    exact List.mem_filter.mpr ⟨he, by simpa using hName⟩
  refine ⟨e, ?_, hToken⟩
  rw [hSessions]
  exact List.mem_append_left _ (List.mem_filter.mpr ⟨he, by simpa using hOther⟩)

theorem resolve_wf (h : c.st.registry.WF) (token : Option SessionToken) (tty : Option String)
    (caller : Option Peer) : (c.st.registry.resolve w token tty caller).1.WF := by
  have hSessions := Registry.resolve_sessions (r := c.st.registry) w token tty caller
  exact ⟨by rw [hSessions]; exact h.tokens, by rw [hSessions]; exact h.sessions⟩

theorem register (h : Coupled c) {reg : Registration} {displaced : List SessionToken}
    (hReg : (c.st.registry.register reg).2 = .ok displaced)
    (hRegistry : d.st.registry = (c.st.registry.register reg).1)
    (hGrants : d.st.grants = c.st.grants.revokeTokens displaced) : Coupled d := by
  have hWF := Registry.register_wf h.wf reg
  rw [← hRegistry] at hWF
  rcases c.st.registry.register_cases reg with ⟨_, hEq⟩ | hEq | ⟨_, hEq⟩
  · -- known under this name: nothing is displaced
    rw [hEq] at hReg hRegistry
    cases hReg
    refine h.shrink hWF (by rw [hRegistry]) ?_
    intro g hg
    rw [hGrants] at hg
    exact (mem_revokeTokens hg).1
  · rw [hEq] at hReg
    cases hReg
  · rw [hEq] at hReg hRegistry
    cases hReg
    exact h.drop reg.session [reg] hWF (by rw [hRegistry]) hGrants

theorem insert (h : Coupled c) {job : Job} {file : DecryptedHumanFile} {now : Nat}
    (hActive : c.st.sessionIsActive w job.scope)
    (hRegistry : d.st.registry = c.st.registry)
    (hGrants : d.st.grants = c.st.grants.insert (job.grant c.st.config file now)) : Coupled d := by
  refine ⟨by rw [hRegistry]; exact h.wf, fun g hg token hScope => ?_⟩
  rw [hRegistry]
  rw [hGrants] at hg
  rcases List.mem_append.mp hg with hOld | hNew
  · exact h.registered g (List.mem_of_mem_filter hOld) token hScope
  · rw [List.mem_singleton] at hNew
    have hJob : job.scope = .session token := by
      rw [← hScope, hNew]
      rfl
    rw [hJob] at hActive
    unfold State.sessionIsActive at hActive
    cases hFind : c.st.registry.registration token with
    | none => simp [hFind] at hActive
    | some e =>
      have hToken := List.find?_some hFind
      exact ⟨e, List.mem_of_find?_eq_some hFind, by simpa using hToken⟩

theorem micro (h : Coupled c) (hMicro : Micro w role c d) : Coupled d := by
  cases hMicro with
  | resolve token tty caller =>
    exact h.shrink (resolve_wf h.wf token tty caller)
      (Registry.resolve_sessions w token tty caller) fun g hg => hg
  | register hRole hReg => exact h.register hReg rfl rfl
  | unregister hRole session =>
    refine h.drop session [] (Registry.unregister_wf h.wf session) ?_ rfl
    rw [List.append_nil]
    rfl
  | revoke | expire => exact h.shrink h.wf rfl fun g hg => List.mem_of_mem_filter hg
  | enqueue n scope key ttl =>
    obtain ⟨_, _, hEq⟩ := enqueue_frame c.st n scope key c.clock ttl
    rw [hEq]
    exact h.shrink h.wf rfl fun g hg => hg
  | kill id =>
    obtain ⟨_, _, hEq⟩ := killActive_frame c.st id
    rw [hEq]
    exact h.shrink h.wf rfl fun g hg => hg
  | insert hRole hJob hDone hEpoch hActive => exact h.insert hActive rfl rfl
  | lock => exact h.shrink h.wf rfl fun _ hg => by cases hg
  | _ => exact h.shrink h.wf rfl fun g hg => hg

end Coupled

/-! ## Roots and agent terminals -/

section

variable {w : World} {role : Role} {c d : Core}

theorem Micro.sessions (hRole : role ≠ .control) (h : Micro w role c d) :
    d.st.registry.sessions = c.st.registry.sessions := by
  cases h with
  | resolve token tty caller => exact Registry.resolve_sessions w token tty caller
  | register hControl | unregister hControl => exact absurd hControl hRole
  | enqueue n scope key ttl =>
    obtain ⟨_, _, hEq⟩ := enqueue_frame c.st n scope key c.clock ttl
    rw [hEq]
  | kill id =>
    obtain ⟨_, _, hEq⟩ := killActive_frame c.st id
    rw [hEq]
  | _ => rfl

theorem Chain.sessions (hRole : role ≠ .control) (h : Chain w role c d) :
    d.st.registry.sessions = c.st.registry.sessions :=
  h.invariant (I := fun x => x.st.registry.sessions = c.st.registry.sessions)
    (fun _ _ hx hMicro => (hMicro.sessions hRole).trans hx) rfl

theorem Micro.agentTtys (h : Micro w role c d) :
    ∀ tty ∈ c.st.registry.agentTtys, tty ∈ d.st.registry.agentTtys := by
  intro tty hTty
  cases h with
  | resolve token tty' caller => exact Registry.resolve_agentTtys w token tty' caller tty hTty
  | register hRole hReg =>
    rename_i reg displaced
    rcases c.st.registry.register_cases reg with ⟨_, hEq⟩ | hEq | ⟨_, hEq⟩ <;>
      simpa [State.emit, hEq] using hTty
  | enqueue n scope key ttl =>
    obtain ⟨_, _, hEq⟩ := enqueue_frame c.st n scope key c.clock ttl
    rw [hEq]
    exact hTty
  | kill id =>
    obtain ⟨_, _, hEq⟩ := killActive_frame c.st id
    rw [hEq]
    exact hTty
  | _ => exact hTty

end

section

variable {cfg : Config} {bootId instanceId : String} {w : World} {s t : Sys} {a : Action}

theorem registration_mem {r : Registry} {token : SessionToken} {e : Registration}
    (h : r.registration token = some e) : e ∈ r.sessions ∧ e.token = token := by
  have hToken := List.find?_some h
  exact ⟨List.mem_of_find?_eq_some h, by simpa using hToken⟩

theorem control_sessions (st : State) (h : Nat) (caller : Peer) (now : Nat) {request : Request}
    (hRole : request.role = .control) :
    ∀ e ∈ (st.dispatch h caller now request).1.registry.sessions,
      e ∈ st.registry.sessions ∨ ∀ e' ∈ st.registry.sessions, e'.token ≠ e.token := by
  intro e he
  cases request with
  | register tokenHex session =>
    simp only [State.dispatch, State.register] at he
    split at he
    · exact .inl he
    · rename_i token _
      rcases st.registry.register_cases ⟨token, session, caller⟩ with
        ⟨_, hEq⟩ | hEq | ⟨hNew, hEq⟩
      · exact .inl (by simpa [hEq, State.emit] using he)
      · exact .inl (by simpa [hEq, State.emit] using he)
      · rw [hEq] at he
        -- kept from before, or the new entry, whose token nobody had
        rcases List.mem_append.mp he with hOld | hAdded
        · exact .inl (List.mem_of_mem_filter hOld)
        · rw [List.mem_singleton] at hAdded
          exact .inr fun e' he' => by rw [hAdded]; exact hNew e' he'
  | unregister => exact .inl (List.mem_of_mem_filter he)
  | _ => cases hRole

theorem sessions_step (hInv : BrokerInv cfg s) (hMove : Sys.Move s a t) :
    ∀ e ∈ t.st.registry.sessions,
      e ∈ s.st.registry.sessions ∨ ∀ e' ∈ s.st.registry.sessions, e'.token ≠ e.token := by
  have hSame : t.st.registry.sessions = s.st.registry.sessions →
      ∀ e ∈ t.st.registry.sessions,
        e ∈ s.st.registry.sessions ∨ ∀ e' ∈ s.st.registry.sessions, e'.token ≠ e.token := by
    intro hEq e he
    rw [hEq] at he
    exact .inl he
  cases hMove with
  | handle hTask hClock hHandle =>
    rename_i h r reads task task' st'
    have hConclude : (st'.conclude h r.t0 task').registry = st'.registry := by
      cases task' <;> rfl
    have hSection : Chain s.world task.role s.core ⟨st', s.worker.job, r.t3⟩ :=
      handle_chain (hInv.tasks _ _ hTask) hClock hHandle
    by_cases hRole : task.role = .control
    · -- a control request is answered in its first section
      cases task with
      | received request caller =>
        simp only [State.handle, Option.some.injEq] at hHandle
        intro e he
        change e ∈ (st'.conclude h r.t0 task').registry.sessions at he
        rw [hConclude] at he
        have hControl := control_sessions s.st h caller r.t0 hRole
        rw [hHandle] at hControl
        exact hControl e he
      | _ => cases hRole
    · refine hSame ?_
      show (st'.conclude h r.t0 task').registry.sessions = s.st.registry.sessions
      rw [hConclude]
      exact hSection.sessions hRole
  | tick hWorker hClock hTick | begin hWorker hClock hTick =>
    refine hSame ?_
    have hChain := (tick_steps hWorker hClock).sessions (by simp)
    rw [hTick] at hChain
    exact hChain
  | start =>
    refine hSame ?_
    dsimp only
    unfold State.onStarted
    split <;> rfl
  | report hWorker hClock =>
    exact hSame ((report_steps hInv hWorker hClock).sessions (by simp))
  | _ => exact hSame rfl

theorem coupled_reachable (h : Reachable (broker cfg bootId instanceId w) s) : Coupled s.core := by
  refine core_invariant ?_ (fun _ _ _ _ _ hc hMicro => hc.micro hMicro) h
  exact ⟨⟨List.nodup_nil, List.nodup_nil⟩, fun _ hg => by cases hg⟩

/-- **Run lemma.** A registration is the same entry for as long as its token
stays registered. -/
theorem registration_stable {token : SessionToken} {e : Registration}
    (hReach : Reachable (broker cfg bootId instanceId w) s)
    (hPath : Path (broker cfg bootId instanceId w)
      (fun x _ => (x.st.registry.registration token).isSome = true) s t)
    (hs : s.st.registry.registration token = some e) :
    ∀ e', t.st.registry.registration token = some e' → e' = e := by
  induction hPath with
  | refl =>
    intro e' he'
    rw [hs] at he'
    exact (Option.some.inj he').symm
  | step a hBefore hHeld hStep ih =>
    rename_i x y
    intro e' he'
    obtain ⟨mid, hMid⟩ := Option.isSome_iff_exists.mp hHeld
    obtain rfl := ih mid hMid
    obtain ⟨hMidMem, hMidToken⟩ := registration_mem hMid
    obtain ⟨hNewMem, hNewToken⟩ := registration_mem he'
    have hx := hReach.path hBefore
    rcases sessions_step (brokerInv_reachable hx) (Sys.step_move hStep) e' hNewMem with hOld | hFresh
    · -- one token, one entry
      exact List.inj_on_of_nodup_map (coupled_reachable hx).wf.tokens hOld hMidMem
        (hNewToken.trans hMidToken.symm)
    · exact absurd (hMidToken.trans hNewToken.symm) (hFresh mid hMidMem)

/-- **Run lemma.** An agent terminal stays one. -/
theorem agentTtys_stable {tty : String} (hReach : Reachable (broker cfg bootId instanceId w) s)
    (hPath : Path (broker cfg bootId instanceId w) anyStep s t)
    (hs : tty ∈ s.st.registry.agentTtys) : tty ∈ t.st.registry.agentTtys := by
  induction hPath with
  | refl => exact hs
  | step a hBefore _ hStep ih =>
    have hInv := brokerInv_reachable (hReach.path hBefore)
    have hSteps := move_steps hInv (Sys.step_move hStep)
    exact hSteps.invariant (I := fun c => tty ∈ c.st.registry.agentTtys)
      (fun _ _ _ hTty hMicro => hMicro.agentTtys tty hTty) ih

/-- **Registry and grant coupling.** In every reachable state tokens and session
names are pairwise distinct; while a token stays registered its root does not
change; every grant of a session has its token registered; and a terminal
recorded as an agent's never again resolves to a scope without a token. -/
theorem registry_grant_coupling (hReach : Reachable (broker cfg bootId instanceId w) s) :
    (s.st.registry.sessions.map (·.token)).Nodup ∧
    (s.st.registry.sessions.map (·.session)).Nodup ∧
    (∀ token e t e', s.st.registry.registration token = some e →
      Path (broker cfg bootId instanceId w)
        (fun x _ => (x.st.registry.registration token).isSome = true) s t →
      t.st.registry.registration token = some e' → e'.root = e.root) ∧
    (∀ g ∈ s.st.grants.grants, ∀ token, g.scope = .session token →
      ∃ e ∈ s.st.registry.sessions, e.token = token) ∧
    (∀ tty ∈ s.st.registry.agentTtys, ∀ t,
      Path (broker cfg bootId instanceId w) anyStep s t →
      ∀ h access caller, access.tokenHex = none → access.tty = some tty →
        ∃ e, (t.st.resolveAccess t.world h access caller).2 = .error e) := by
  have hCoupled := coupled_reachable hReach
  refine ⟨hCoupled.wf.tokens, hCoupled.wf.sessions, ?_, hCoupled.registered, ?_⟩
  · intro token e t e' hs hPath ht
    rw [registration_stable hReach hPath hs e' ht]
  · intro tty hTty t hPath h access caller hToken hAccess
    have hKnown := agentTtys_stable hReach hPath hTty
    unfold State.resolveAccess
    split
    · exact ⟨_, rfl⟩
    · -- no token is presented, so the terminal decides
      have hNone : access.token = .ok none := by simp [Access.token, hToken]
      rw [hNone, hAccess]
      dsimp only
      rw [Registry.resolve_agent_tty hKnown]
      exact ⟨.agentTty, rfl⟩

end

/-- A session registers and asks with its token from a terminal; the terminal
is then an agent's, and without the token it has no scope. -/
theorem registry_grant_coupling_learned :
    ∃ s : Sys, Reachable (broker (Config.default []) "boot" "id" quietWorld) s ∧
      s.st.registry.sessions.length = 1 ∧ s.st.registry.agentTtys = ["/dev/pts/3"] ∧
      ∀ h key caller, ∃ e,
        (s.st.resolveAccess s.world h ⟨key, none, some "/dev/pts/3", none⟩ caller).2 = .error e := by
  let sys := broker (Config.default []) "boot" "id" quietWorld
  let token := "0000000000000000000000000000000000000000000000000000000000000000"
  let actions : List Action :=
    [.receive 0 (.register token "agent") ⟨1⟩, .handle 0 (.at 0) [],
     .receive 1 (.get "A" (some token) (some "/dev/pts/3") none) ⟨1⟩, .handle 1 (.at 0) [],
     .handle 1 (.at 0) []]
  have hReplay : ((sys.run sys.init actions).map fun s =>
      decide (s.st.registry.sessions.length = 1 ∧ s.st.registry.agentTtys = ["/dev/pts/3"])) =
      some true := by
    decide +kernel
  obtain ⟨s, hReach, hSeen⟩ := Reachable.of_replay hReplay
  obtain ⟨hOne, hTtys⟩ := of_decide_eq_true hSeen
  refine ⟨s, hReach, hOne, hTtys, ?_⟩
  intro h key caller
  exact (registry_grant_coupling hReach).2.2.2.2 "/dev/pts/3" (by rw [hTtys]; simp) s (.refl s) h
    ⟨key, none, some "/dev/pts/3", none⟩ caller rfl rfl

end Forward.Secrets

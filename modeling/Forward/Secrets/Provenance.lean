import Forward.Secrets.Coupling
import Forward.Secrets.Handlers

/-!
# Where a released secret comes from

A value travels from the queue to the worker, into the grant table, and to a handler, with the lock
free in between. The history ties these together: every queue entry was enqueued, every job was
started for a queue entry, every grant was inserted by a job that decrypted it, and nothing has
ended the grant since.
-/

namespace Forward.Secrets

open Lib

/-! ## The ties -/

def Event.Drops (scope : Scope) (key : SecretName) : Event → Prop
  | .revoked scope' key' => scope' = scope ∧ key' = key
  | .inserted _ g => g.scope = scope ∧ g.key = key
  | .dropped tokens => ∃ token ∈ tokens, scope = .session token
  | .locked => True
  | _ => False

def Asked (job : Job) (trail : List Event) : Prop :=
  ∃ h r, .enqueued h r ∈ trail ∧ r.id = job.id ∧ r.scope = job.scope ∧ r.key = job.key ∧
    r.requestedTtl = job.requestedTtl

-- what an event of the worker rests on
def Vouched (cfg : Config) : Event → List Event → Prop
  | .started job, before => Asked job before
  | .inserted job g, before =>
    ∃ file, g = job.grant cfg file g.created ∧ Decrypted job file before ∧ Asked job before
  | _, _ => True

/-- Queue entries, the worker's events and the grants in the table all have a
past. -/
structure Provenance (cfg : Config) (c : Core) : Prop where
  config : c.st.config = cfg
  asked : ∀ r ∈ c.st.queue.requests, ∃ h, .enqueued h r.asked ∈ c.st.trail
  vouched : Historically (Vouched cfg) c.st.trail
  held : ∀ g ∈ c.st.grants.grants,
    Since (Event.Drops g.scope g.key) (fun e _ => ∃ job, e = .inserted job g) c.st.trail

variable {job : Job} {trail : List Event}

theorem Asked.mono {trail' : List Event} (h : Asked job trail)
    (hSub : trail ⊆ trail') : Asked job trail' := by
  obtain ⟨n, r, hMem, hRest⟩ := h
  exact ⟨n, r, hSub hMem, hRest⟩

theorem InHand.started (h : InHand job trail) : .started job ∈ trail := by
  obtain ⟨mid, e, before, rfl, rfl, -⟩ := h
  simp

theorem Opened.inHand {file : OpenedHumanFile}
    (h : Opened job file trail) : InHand job trail := by
  obtain ⟨mid, e, before, rfl, ⟨rfl, hHand⟩, hMid⟩ := h
  exact Since.append (Since.cons hHand (Event.not_isStart rfl)) hMid

theorem Decrypted.inHand {file : DecryptedHumanFile}
    (h : Decrypted job file trail) : InHand job trail := by
  obtain ⟨mid, e, before, rfl, ⟨rfl, hOpened⟩, hMid⟩ := h
  exact Since.append (Since.cons hOpened.inHand (Event.not_isStart rfl)) hMid

theorem Decrypted.decrypted {file : DecryptedHumanFile}
    (h : Decrypted job file trail) : .decrypted job file ∈ trail := by
  obtain ⟨mid, e, before, rfl, ⟨rfl, -⟩, -⟩ := h
  simp

section

variable {cfg : Config} {w : World} {role : Role} {c d : Core}

theorem Micro.asked (h : Micro w role c d) :
    (d.st.queue.requests.map (·.asked)).Sublist (c.st.queue.requests.map (·.asked)) ∨
    ∃ n r, d.st.queue.requests = c.st.queue.requests ++ [r] ∧ r.asked = r ∧
      d.st.trail = .enqueued n r :: c.st.trail := by
  have hSame : ∀ l l' : List PendingRequest, l' = l → l'.Sublist l := by
    rintro l _ rfl
    exact .refl _
  cases h with
  | enqueue n scope key ttl =>
    rcases enqueue_spec c.st n scope key c.clock ttl with
      ⟨_, hEq⟩ | ⟨_, _, _, _, _, hEq⟩ | ⟨r, hr, hEq⟩
    · rw [hEq]
      exact .inl (.refl _)
    · rw [hEq]
      exact .inl (.refl _)
    · refine .inr ⟨n, r, ?_, ?_, ?_⟩
      · rw [hEq]
        rfl
      · rw [hr]
        rfl
      · rw [hEq]
        rfl
  | expel => exact .inl (hSame _ _ Queue.expel_asked)
  | sweepTimeouts => exact .inl (hSame _ _ Queue.sweepTimeouts_asked)
  | prune => exact .inl Queue.prune_asked
  | kill =>
    refine .inl ?_
    rw [killActive_queue]
  | start hRole hJob hReady hMark hDescribe =>
    rename_i queue id generation scope key ttl
    have hAsked : (c.st.queue.markDecrypting id c.clock).1.requests.map (·.asked) =
        c.st.queue.requests.map (·.asked) := Queue.markDecrypting_asked
    rw [hMark] at hAsked
    exact .inl (hSame _ _ hAsked)
  | complete | insert => exact .inl (hSame _ _ Queue.complete_asked)
  | fail => exact .inl (hSame _ _ Queue.fail_asked)
  | _ => exact .inl (.refl _)

theorem Micro.trail_subset (h : Micro w role c d) : c.st.trail ⊆ d.st.trail := by
  rcases h.trail_cases with hSame | ⟨e, _, hNew⟩
  · rw [hSame]
    exact List.Subset.refl _
  · rw [hNew]
    exact List.subset_cons_self _ _

namespace Provenance

theorem asked_micro (hP : Provenance cfg c) (h : Micro w role c d) :
    ∀ r ∈ d.st.queue.requests, ∃ n, .enqueued n r.asked ∈ d.st.trail := by
  intro r hr
  have hOld : ∀ r' ∈ c.st.queue.requests, ∃ n, .enqueued n r'.asked ∈ d.st.trail := by
    intro r' hr'
    obtain ⟨n, hn⟩ := hP.asked r' hr'
    exact ⟨n, h.trail_subset hn⟩
  rcases h.asked with hSub | ⟨n, new, hRequests, hNew, hTrail⟩
  · have hIn := hSub.subset (List.mem_map_of_mem hr)
    obtain ⟨r', hr', hEq⟩ := List.mem_map.mp hIn
    rw [← hEq]
    exact hOld r' hr'
  · rw [hRequests] at hr
    rcases List.mem_append.mp hr with hr | hr
    · exact hOld r hr
    · rw [List.mem_singleton] at hr
      rw [hr, hNew, hTrail]
      exact ⟨n, List.mem_cons_self ..⟩

theorem asked_start (hP : Provenance cfg c) {queue : Queue} {id generation : Nat} {scope : Scope}
    {key : SecretName} {ttl : Option Nat} {epoch : Nat}
    (hMark : c.st.queue.markDecrypting id c.clock = (queue, some generation))
    (hDescribe : queue.describe id = some (scope, key, ttl)) :
    Asked ⟨id, scope, key, generation, epoch, ttl⟩ c.st.trail := by
  obtain ⟨r, hFind, hSome⟩ := Queue.describe_of_mark hMark
  rw [hDescribe, Option.some.injEq, Prod.mk.injEq, Prod.mk.injEq] at hSome
  obtain ⟨rfl, rfl, rfl⟩ := hSome
  have hId := Queue.byId_iff.mp (List.find?_some hFind)
  obtain ⟨n, hn⟩ := hP.asked r (List.mem_of_find?_eq_some hFind)
  exact ⟨n, r.asked, hn, hId, rfl, rfl, rfl⟩

theorem asked_decrypted (hP : Provenance cfg c) {job : Job} {file : DecryptedHumanFile}
    (hFile : Decrypted job file c.st.trail) : Asked job c.st.trail := by
  obtain ⟨newer, older, hTrail, hAsked⟩ := hP.vouched.of_mem hFile.inHand.started
  refine Asked.mono hAsked ?_
  rw [hTrail]
  intro e he
  simp [he]

theorem vouched_micro (hP : Provenance cfg c) (h : Micro w role c d) :
    Historically (Vouched cfg) d.st.trail := by
  have hV := hP.vouched
  cases h with
  | note hOut hNote =>
    rename_i e
    refine hV.cons ?_
    cases e <;> trivial
  | enqueue n scope key ttl =>
    rcases enqueue_spec c.st n scope key c.clock ttl with
      ⟨_, hEq⟩ | ⟨_, _, _, _, _, hEq⟩ | ⟨_, _, hEq⟩
    · rw [hEq]
      exact hV
    · rw [hEq]
      exact hV.cons trivial
    · rw [hEq]
      exact hV.cons trivial
  | kill id =>
    rcases killActive_trail c.st id with hSame | ⟨_, _, hNew⟩
    · rw [hSame]
      exact hV
    · rw [hNew]
      exact hV.cons trivial
  | start hRole hJob hReady hMark hDescribe => exact hV.cons (hP.asked_start hMark hDescribe)
  | insert hRole hJob hDone hEpoch hActive hNow hFile =>
    rename_i file now
    refine hV.cons ⟨file, ?_, hFile, hP.asked_decrypted hFile⟩
    rw [hP.config]
    rfl
  | began | register | unregister | revoke | signal | fail | mint | redeem | lock | answer =>
    exact hV.cons trivial
  | _ => exact hV

theorem held_cons (hP : Provenance cfg c) {e : Event} {g : Grant} (hOld : g ∈ c.st.grants.grants)
    (he : ¬ e.Drops g.scope g.key) :
    Since (Event.Drops g.scope g.key) (fun e _ => ∃ job, e = .inserted job g)
      (e :: c.st.trail) := (hP.held g hOld).cons he

theorem held_dropped (hP : Provenance cfg c) {tokens : List SessionToken} {g : Grant}
    (hg : g ∈ (c.st.grants.revokeTokens tokens).grants) :
    Since (Event.Drops g.scope g.key) (fun e _ => ∃ job, e = .inserted job g)
      (.dropped tokens :: c.st.trail) := by
  obtain ⟨hOld, hKept⟩ := Coupled.mem_revokeTokens hg
  refine hP.held_cons hOld ?_
  rintro ⟨token, hToken, hScope⟩
  exact hKept token hScope hToken

theorem held_micro (hP : Provenance cfg c) (h : Micro w role c d) :
    ∀ g ∈ d.st.grants.grants,
      Since (Event.Drops g.scope g.key) (fun e _ => ∃ job, e = .inserted job g) d.st.trail := by
  intro g hg
  cases h with
  | note hOut hNote =>
    rename_i e
    refine hP.held_cons hg ?_
    cases e <;> first | exact id | cases hNote
  | register | unregister => exact hP.held_dropped hg
  | revoke =>
    obtain ⟨hOld, hKeep⟩ := List.mem_filter.mp hg
    refine hP.held_cons hOld ?_
    rintro ⟨rfl, rfl⟩
    simp [Grant.belongs] at hKeep
  | expire => exact hP.held g (List.mem_of_mem_filter hg)
  | enqueue n scope key ttl =>
    rcases enqueue_spec c.st n scope key c.clock ttl with
      ⟨_, hEq⟩ | ⟨_, _, _, _, _, hEq⟩ | ⟨_, _, hEq⟩
    · rw [hEq] at hg ⊢
      exact hP.held g hg
    · rw [hEq] at hg ⊢
      exact hP.held_cons hg id
    · rw [hEq] at hg ⊢
      exact hP.held_cons hg id
  | kill id =>
    have hOld : g ∈ c.st.grants.grants := by
      obtain ⟨_, _, hEq⟩ := killActive_frame c.st id
      rw [hEq] at hg
      exact hg
    rcases killActive_trail c.st id with hSame | ⟨_, _, hNew⟩
    · rw [hSame]
      exact hP.held g hOld
    · rw [hNew]
      exact hP.held_cons hOld fun hFalse => hFalse
  | insert hRole hJob hDone hEpoch hActive hNow hFile =>
    rename_i job file now
    rcases List.mem_append.mp hg with hKept | hNew
    · -- a grant for another scope or key
      obtain ⟨hOld, hOther⟩ := List.mem_filter.mp hKept
      refine hP.held_cons hOld ?_
      rintro ⟨hScope, hKey⟩
      simp [Grant.belongs, hScope, hKey] at hOther
    · rw [List.mem_singleton] at hNew
      subst hNew
      exact .now ⟨job, rfl⟩
  | lock => cases hg
  | began | signal | start | fail | mint | redeem | answer => exact hP.held_cons hg id
  | _ => exact hP.held g hg

theorem micro (hP : Provenance cfg c) (h : Micro w role c d) : Provenance cfg d :=
  ⟨h.config.1.trans hP.config, hP.asked_micro h, hP.vouched_micro h, hP.held_micro h⟩

end Provenance

end

/-! ## Whole runs -/

section

variable {cfg : Config} {bootId instanceId : String} {w : World} {s : Sys}

theorem provenance_reachable (hReach : Reachable (broker cfg bootId instanceId w) s) :
    Provenance cfg s.core := by
  refine core_invariant ?_ (fun _ _ _ _ _ hP hMicro => hP.micro hMicro) hReach
  exact ⟨rfl, (fun _ hr => by cases hr), .nil, fun _ hg => by cases hg⟩

/-- The value of a grant in force: a job for this scope and key decrypted it and
inserted the grant, nothing has ended the grant since, and it is young enough
at `time`. -/
def InForce (cfg : Config) (scope : Scope) (key : SecretName) (value : List UInt8) (time : Nat)
    (trail : List Event) : Prop :=
  ∃ job file g asker r,
    job.scope = scope ∧ job.key = key ∧ file.value = value ∧
    g = job.grant cfg file g.created ∧
    Since (Event.Drops scope key)
      (fun e before => e = .inserted job g ∧ Decrypted job file before ∧
        .enqueued asker r ∈ before) trail ∧
    r.id = job.id ∧ r.scope = scope ∧ r.key = key ∧
    durationSince time g.created < g.ttl ∧
    g.ttl = match r.requestedTtl with
      | none => cfg.maxGrant
      | some secs => min (fromSecs secs) cfg.maxRequestedGrant

theorem Provenance.inForce {c : Core} (hP : Provenance cfg c) {scope : Scope} {key : SecretName}
    {now : Nat} {g : Grant} (hLookup : c.st.grants.lookupGrant scope key now = some g) :
    InForce cfg scope key g.value now c.st.trail := by
  obtain ⟨hMem, rfl, rfl, hAge⟩ := GrantTable.lookupGrant_some hLookup
  obtain ⟨mid, e, before, hTrail, ⟨job, rfl⟩, hMid⟩ := hP.held g hMem
  obtain ⟨file, hGrant, hFile, asker, r, hAsked, hId, hScope, hKey, hTtl⟩ :=
    hP.vouched mid _ before hTrail
  have hJobScope : g.scope = job.scope := by rw [hGrant]; rfl
  have hJobKey : g.key = job.key := by rw [hGrant]; rfl
  have hValue : g.value = file.value := by rw [hGrant]; rfl
  refine ⟨job, file, g, asker, r, hJobScope.symm, hJobKey.symm, hValue.symm, hGrant,
    ⟨mid, _, before, hTrail, ⟨rfl, hFile, hAsked⟩, hMid⟩, hId, hScope.trans hJobScope.symm,
    hKey.trans hJobKey.symm, hAge, ?_⟩
  rw [hTtl, hGrant]
  rfl

/-- **Release provenance and isolation.** Whenever a handler answers with secret
bytes, it served a GET whose caller resolved to one scope and whose key is no
capability key, and the bytes are the value of a grant in force for exactly
that scope and key at the moment it was read. -/
theorem release_provenance (hReach : Reachable (broker cfg bootId instanceId w) s)
    {newer older : List Event} {h time : Nat} {decision : Decision} {value : List UInt8}
    (hAnswer : s.st.trail = newer ++ .answered h decision time :: older)
    (hBytes : decision.outcome = .bytes value) :
    ∃ text tokenHex tty ttl caller scope key,
      .received h (.get text tokenHex tty ttl) caller ∈ older ∧ .resolved h scope key ∈ older ∧
      (∀ scope' key', .resolved h scope' key' ∈ s.st.trail → scope' = scope ∧ key' = key) ∧
      key.name = text ∧ key.isCapability = false ∧ InForce cfg scope key value time older := by
  have hAll : Historically (fun e before => ∀ h decision time value,
      e = .answered h decision time → decision.outcome = .bytes value →
      ∃ text tokenHex tty ttl caller scope key,
        .received h (.get text tokenHex tty ttl) caller ∈ before ∧
        .resolved h scope key ∈ before ∧ key.name = text ∧ key.isCapability = false ∧
        InForce cfg scope key value time before) s.st.trail := by
    refine handler_invariant ?_ ?_ ?_ hReach
    · rintro e before - hNot n d t v rfl
      cases hNot
    · intro x n now reads cap epoch d id _ _ _ _ _ n' d' t v hEq
      cases hEq
    · intro x n r reads task st' d hx hTask hClock hHandle n' d' t v hEq hV
      obtain ⟨rfl, rfl, rfl⟩ := Event.answered.inj hEq
      have hPlace := (brokerInv_reachable hx).tasks n task hTask
      obtain ⟨rfl, flow, scope, key, source, rid, g, rfl, hReturn, hLookup, rfl⟩ :=
        handle_bytes hPlace hHandle hV
      have hForce := (provenance_reachable hx).inForce hLookup
      -- only a GET returns a value
      obtain ⟨⟨hFrom, hResolved, hName⟩, -⟩ := hPlace
      cases hFrom with
      | get hReceived hKey =>
        refine ⟨_, _, _, _, _, scope, key, hReceived, hResolved, hName, ?_, hForce⟩
        rw [SecretName.isCapability, hName]
        exact hKey
      | request | authorize => cases hReturn
  obtain ⟨text, tokenHex, tty, ttl, caller, scope, key, hReceived, hResolved, hName, hCap, hForce⟩ :=
    hAll newer _ older hAnswer h decision time value rfl hBytes
  refine ⟨text, tokenHex, tty, ttl, caller, scope, key, hReceived, hResolved, ?_, hName, hCap, hForce⟩
  -- a handler resolves its caller once
  intro scope' key' hOther
  have hMem : .resolved h scope key ∈ s.st.trail := by
    rw [hAnswer]
    exact List.mem_append_right _ (List.mem_cons_of_mem _ hResolved)
  have hEq := (staged_reachable hReach).unique_mem (k := h) hOther hMem rfl rfl rfl
  obtain ⟨-, rfl, rfl⟩ := Event.resolved.inj hEq
  exact ⟨rfl, rfl⟩

end

/-- The newest event is an answer of this handler at time zero, and it passes a check. -/
def lastAnswer (h : Nat) (check : Decision → List Event → Bool) : List Event → Bool
  | .answered n decision time :: older => decide (n = h ∧ time = 0) && check decision older
  | _ => false

theorem of_lastAnswer {h : Nat} {check : Decision → List Event → Bool} {trail : List Event}
    (hSeen : lastAnswer h check trail = true) :
    ∃ decision older, trail = .answered h decision 0 :: older ∧ check decision older = true := by
  unfold lastAnswer at hSeen
  split at hSeen
  · rename_i n decision time older
    rw [Bool.and_eq_true, decide_eq_true_eq] at hSeen
    obtain ⟨⟨rfl, rfl⟩, hCheck⟩ := hSeen
    exact ⟨decision, older, rfl, hCheck⟩
  · cases hSeen

theorem release_provenance_get :
    ∃ (s : Sys) (older : List Event) (decision : Decision) (scope : Scope) (key : SecretName),
      Reachable (broker (Config.default [⟨"host", "/d"⟩]) "boot" "id" (fileWorld "A.env" 1)) s ∧
      s.st.trail = .answered 0 decision 0 :: older ∧ decision.outcome = .bytes [115] ∧
      key.isCapability = false ∧ .resolved 0 scope key ∈ older ∧
      InForce (Config.default [⟨"host", "/d"⟩]) scope key [115] 0 older := by
  let sys := broker (Config.default [⟨"host", "/d"⟩]) "boot" "id" (fileWorld "A.env" 1)
  let turn : Action := .handle 0 (.at 0) []
  let actions : List Action :=
    [.receive 0 (.get "A" none (some "/dev/pts/1") none) ⟨1⟩, turn, turn, turn, .tick 0,
     .openFile true, .spawn (some 7), .start,
     .poll (.exited ⟨true, some [], some [65, 61, 115, 10]⟩), .report (.at 0), turn, turn]
  have hReplay : ((sys.run sys.init actions).map fun s =>
      lastAnswer 0 (fun decision _ => decide (decision.outcome = .bytes [115])) s.st.trail) =
      some true := by
    decide +kernel
  obtain ⟨s, hReach, hSeen⟩ := Reachable.of_replay hReplay
  obtain ⟨decision, older, hTrail, hOutcome⟩ := of_lastAnswer hSeen
  have hBytes := of_decide_eq_true hOutcome
  have hNewest : s.st.trail = [] ++ .answered 0 decision 0 :: older := hTrail
  obtain ⟨_, _, _, _, _, scope, key, -, hResolved, -, -, hCap, hForce⟩ :=
    release_provenance hReach hNewest hBytes
  exact ⟨s, older, decision, scope, key, hReach, hTrail, hBytes, hCap, hResolved, hForce⟩

end Forward.Secrets

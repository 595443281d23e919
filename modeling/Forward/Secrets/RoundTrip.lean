import Forward.Edit.Dotenv
import Forward.Lib.Threads
import Forward.Secrets.Handlers
import Forward.Secrets.Redemption
import Forward.Secrets.Replies

/-!
# Every reply of the broker comes back

A run of the broker only ever decides on clean outcomes: literals, hex and 64-bit numbers in
fields; printable messages; a secret that has passed `parse_single_assignment`; and in a listing,
terminals that existed when their grants were entered. The last needs that no path with a NUL
exists (`World.NulFree`): `Path::exists` answers false for such a path.
-/

namespace Forward.Secrets

open Lib Hygiene Proto

/-! ## Worlds -/

def World.NulFree (w : World) : Prop :=
  ∀ path, w.pathExists path = true → '\x00' ∉ path.toList

def Action.NulFree : Action → Prop
  | .world w => w.NulFree
  | _ => True

def Scope.NulFree : Scope → Prop
  | .session _ => True
  | .tty path _ => '\x00' ∉ path.toList

/-! ## The shared state -/

/-- Numbers that fit a word, and scopes that can be listed. -/
structure Fit (cfg : Config) (instanceId : String) (st : State) : Prop where
  config : st.config = cfg
  instanceId : st.instanceId = instanceId
  epoch : st.lockEpoch ≤ wordMax
  grants : ∀ g ∈ st.grants.grants, g.ttl ≤ durationMax ∧ g.scope.NulFree

section

variable {w : World} {role : Role} {c d : Core}

theorem Micro.grants_from (h : Micro w role c d) :
    ∀ g ∈ d.st.grants.grants, g ∈ c.st.grants.grants ∨
      ∃ job file now, g = Job.grant job c.st.config file now ∧ role = .report ∧
        c.st.sessionIsActive w job.scope := by
  intro g hg
  cases h
  case enqueue h scope key ttl =>
    obtain ⟨_, _, hEq⟩ := enqueue_frame c.st h scope key c.clock ttl
    rw [hEq] at hg
    exact .inl hg
  case kill id =>
    obtain ⟨_, _, hEq⟩ := killActive_frame c.st id
    rw [hEq] at hg
    exact .inl hg
  case insert job file now hRole _ _ _ hActive _ _ =>
    rcases List.mem_append.mp hg with hOld | hNew
    · exact .inl (List.mem_of_mem_filter hOld)
    · exact .inr ⟨job, file, now, List.mem_singleton.mp hNew, hRole, hActive⟩
  case lock => cases hg
  case register | unregister | revoke | expire => exact .inl (List.mem_of_mem_filter hg)
  all_goals exact .inl hg

theorem Micro.counters (h : Micro w role c d) :
    d.st.instanceId = c.st.instanceId ∧
      (d.st.lockEpoch = c.st.lockEpoch ∨ d.st.lockEpoch = satAdd c.st.lockEpoch 1) := by
  cases h
  case enqueue h scope key ttl =>
    obtain ⟨_, _, hEq⟩ := enqueue_frame c.st h scope key c.clock ttl
    rw [hEq]
    exact ⟨rfl, .inl rfl⟩
  case kill id =>
    obtain ⟨_, _, hEq⟩ := killActive_frame c.st id
    rw [hEq]
    exact ⟨rfl, .inl rfl⟩
  case lock => exact ⟨rfl, .inr rfl⟩
  all_goals exact ⟨rfl, .inl rfl⟩

theorem Scope.nulFree_of_active {st : State} {scope : Scope} (hPaths : w.NulFree)
    (hActive : st.sessionIsActive w scope) : scope.NulFree := by
  cases scope with
  | session => trivial
  | tty tty => exact hPaths tty hActive

theorem effectiveGrantTtl_le {cfg : Config} (hGrant : cfg.maxGrant ≤ durationMax)
    (hRequested : cfg.maxRequestedGrant ≤ durationMax) (requested : Option Nat) :
    effectiveGrantTtl requested cfg.maxGrant cfg.maxRequestedGrant ≤ durationMax := by
  cases requested with
  | none => exact hGrant
  | some => exact Nat.le_trans (Nat.min_le_right _ _) hRequested

theorem Fit.micro {cfg : Config} {instanceId : String} (hGrant : cfg.maxGrant ≤ durationMax)
    (hRequested : cfg.maxRequestedGrant ≤ durationMax) (hPaths : w.NulFree)
    (hFit : Fit cfg instanceId c.st) (h : Micro w role c d) : Fit cfg instanceId d.st where
  config := h.config.1.trans hFit.config
  instanceId := h.counters.1.trans hFit.instanceId
  epoch := by
    rcases h.counters.2 with hSame | hNext
    · rw [hSame]
      exact hFit.epoch
    · rw [hNext]
      exact satAdd_le _ _
  grants := by
    intro g hg
    rcases h.grants_from g hg with hOld | ⟨job, file, now, rfl, -, hActive⟩
    · exact hFit.grants g hOld
    · refine ⟨?_, Scope.nulFree_of_active hPaths hActive⟩
      rw [hFit.config]
      exact effectiveGrantTtl_le hGrant hRequested job.requestedTtl

end

/-! ## Clean decisions -/

theorem graphic_of_capability {c : Char} (h : (c.isLower || c.isDigit || c == '_')) :
    isAsciiGraphic c := by
  simp only [Bool.or_eq_true] at h
  rcases h with (hLower | hDigit) | hUnderscore
  · have hRange := isLower_iff.mp hLower
    rw [isAsciiGraphic_iff]
    omega
  · exact isAsciiGraphic_of_isDigit hDigit
  · rw [eq_of_beq hUnderscore]
    rfl

theorem plain_capability (cap : Capability) : Plain maxCapabilityLen cap.name := by
  have hValid := cap.valid
  unfold validCapability at hValid
  split at hValid
  · cases hValid
  · rename_i hChars
    simp only [Bool.and_eq_true, decide_eq_true_eq] at hValid
    obtain ⟨⟨hSize, -⟩, hAll⟩ := hValid
    rw [← hChars] at hAll
    have hGraphic : ∀ c ∈ cap.name.toList, isAsciiGraphic c := by
      intro c hc
      exact graphic_of_capability (List.all_eq_true.mp hAll c hc)
    have hHeader : HeaderText cap.name.toList := fun c hc => Or.inr (.inr (hGraphic c hc))
    refine ⟨List.all_eq_true.mpr fun c hc => ?_, ?_⟩
    · simp [printable, hGraphic c hc]
    · -- one byte for each character
      have hBytes : cap.name.toByteArray.data.toList.length = cap.name.toList.length := by
        rw [utf8_eq_flatMap, utf8_of_ascii hHeader.ascii, List.length_map]
      rw [← hBytes]
      exact hSize

theorem nul_notMem_name (key : SecretName) : '\x00' ∉ key.name.toList := by
  intro hMem
  cases SecretName.alphanum_of_mem hMem

theorem nul_notMem_decimal (n : Nat) : '\x00' ∉ Nat.toDigits 10 n := by
  intro hMem
  cases isDigit_of_mem_decimal hMem

theorem nul_notMem_renderLine {g : Grant} (now : Nat) (h : g.scope.NulFree) :
    '\x00' ∉ (GrantTable.renderLine now g).toList := by
  have hName := nul_notMem_name g.key
  have hAge := nul_notMem_decimal (asSecs (durationSince now g.created))
  unfold GrantTable.renderLine
  cases hScope : g.scope with
  | session => simp [String.toList_append, hName, hAge]
  | tty path =>
    rw [hScope] at h
    have hPath : '\x00' ∉ path.toList := h
    simp [String.toList_append, hName, hAge, hPath]

theorem nul_notMem_render {grants : GrantTable} (now : Nat)
    (h : ∀ g ∈ grants.grants, g.scope.NulFree) : '\x00' ∉ (grants.render now).toList := by
  have hFold : ∀ (list : List Grant) (out : String), (∀ g ∈ list, g.scope.NulFree) →
      '\x00' ∉ out.toList →
      '\x00' ∉ (list.foldl (fun out g => out ++ GrantTable.renderLine now g) out).toList := by
    intro list
    induction list with
    | nil => exact fun out _ hOut => hOut
    | cons g rest ih =>
      intro out hList hOut
      obtain ⟨hHead, hRest⟩ := List.forall_mem_cons.mp hList
      refine ih _ hRest ?_
      rw [String.toList_append, List.mem_append, not_or]
      exact ⟨hOut, nul_notMem_renderLine now hHead⟩
  unfold GrantTable.render
  split
  · decide
  · exact hFold _ _ h (by decide)

theorem clean_listing {grants : GrantTable} (now : Nat)
    (h : ∀ g ∈ grants.grants, g.scope.NulFree) : (Outcome.payload (grants.render now)).Clean := by
  show (0 : UInt8) ∉ textBytes _
  unfold textBytes
  rw [utf8_eq_flatMap]
  exact zero_notMem_utf8 (nul_notMem_render now h)

theorem clean_failed {code : ErrCode} {message : String} (h : Plain 100 message) :
    (Outcome.failed code message).Clean := h

def Task.Clean : Task → Prop
  | .minting _ _ decision | .done decision => decision.outcome.Clean
  | _ => True

theorem clean_refusal {code : ErrCode} {message : String} (h : Plain 100 message) :
    (Task.done (.new (.failed code message))).Clean := h

theorem Flow.finish_clean (flow : Flow) {decision : Decision} (h : decision.outcome.Clean) :
    (flow.finish decision).Clean := by
  unfold Flow.finish
  split
  · exact h
  · exact h

theorem Flow.afterAwait_clean (flow : Flow) (scope : Scope) (key : SecretName) (await : Await) :
    (flow.afterAwait scope key await).Clean := by
  cases await with
  | wait => trivial
  | settled approval =>
    cases approval with
    | granted => trivial
    | refused | incomplete => exact flow.finish_clean (clean_failed (plain_ofList rfl))

section

variable {cfg : Config} {instanceId : String} {st st' : State} {w : World} {h : Nat}
  {r : Readings} {reads : List ReceiptId} {task task' : Task} {decision : Decision}

theorem stripPrefix_len {text : List Char} {c : Char} (hHead : text.head? = some c)
    (hOther : c ≠ 'l') : stripPrefix "len=".toList text = none := by
  cases text with
  | nil => cases hHead
  | cons =>
    cases hHead
    simp [stripPrefix, List.isPrefixOf, hOther.symm]

theorem asSecs_le {d : Nat} (h : d ≤ durationMax) : asSecs d ≤ wordMax := by
  unfold asSecs nanosPerSec
  unfold durationMax nanosPerSec at h
  omega

theorem clean_redeem (hFit : Fit cfg instanceId st) (hInstance : Plain 32 instanceId)
    (hGrant : cfg.maxGrant ≤ durationMax) (receiptHex cap : String) (now : Nat) :
    (st.redeem h receiptHex cap now).2.outcome.Clean := by
  unfold State.redeem
  split
  · exact clean_failed (plain_ofList rfl)
  · split
    · exact clean_failed (plain_ofList rfl)
    · rename_i deadline hDeadline
      split
      · exact clean_failed (plain_ofList rfl)
      · rename_i got _
        have hRemaining := st.capabilityGrants.remainingSecs_insert deadline now
        obtain ⟨hSum, -⟩ := checkedAdd_eq_some.mp hDeadline
        dsimp only
        split
        · exact clean_failed (plain_ofList rfl)
        · rename_i ttl hTtl
          have hLife : ttl ≤ wordMax := by
            have hSame := hRemaining.symm.trans hTtl
            split at hSame
            · cases hSame
              refine asSecs_le ?_
              rw [hFit.config] at hSum
              unfold durationSince
              omega
            · cases hSame
          have hName := plain_capability got
          have hText : Plain 4000 ("status=redeemed cap=" ++ got.name ++ " instance=" ++ instanceId
              ++ " epoch=" ++ toString st.lockEpoch ++ " ttl=" ++ toString ttl) := by
            refine Plain.mono ?_ (show 20 + 32 + 10 + 32 + 7 + 20 + 5 + 20 ≤ 4000 by omega)
            have hStart : Plain 20 "status=redeemed cap=" := plain_ofList rfl
            have hIs : Plain 10 " instance=" := plain_ofList rfl
            have hAt : Plain 7 " epoch=" := plain_ofList rfl
            have hFor : Plain 5 " ttl=" := plain_ofList rfl
            exact ((((((hStart.append hName).append hIs).append hInstance).append hAt).append
              (plain_decimal hFit.epoch)).append hFor).append (plain_decimal hLife)
          rw [← hFit.instanceId] at hText
          refine ⟨hText, stripPrefix_len (c := 's') ?_ (by decide)⟩
          simp [String.toList_append]

theorem clean_dispatch (hFit : Fit cfg instanceId st) (hInstance : Plain 32 instanceId)
    (hGrant : cfg.maxGrant ≤ durationMax) (caller : Peer) (now : Nat) (request : Request) :
    (st.dispatch h caller now request).2.Clean := by
  cases request with
  | hello version =>
    simp only [State.dispatch]
    split
    · have hText : Plain 4000 ("version=" ++ toString protocolVersion ++ " instance=" ++ instanceId
          ++ " epoch=" ++ toString st.lockEpoch) := by
        refine Plain.mono ?_ (show 8 + 20 + 10 + 32 + 7 + 20 ≤ 4000 by omega)
        have hStart : Plain 8 "version=" := plain_ofList rfl
        have hVersion : Plain 20 (toString protocolVersion) := by decide
        have hIs : Plain 10 " instance=" := plain_ofList rfl
        have hAt : Plain 7 " epoch=" := plain_ofList rfl
        exact ((((hStart.append hVersion).append hIs).append hInstance).append hAt).append
          (plain_decimal hFit.epoch)
      rw [← hFit.instanceId] at hText
      refine ⟨hText, stripPrefix_len (c := 'v') ?_ (by decide)⟩
      simp [String.toList_append]
    · exact clean_refusal (plain_ofList rfl)
  | register =>
    simp only [State.dispatch, State.register]
    split
    · exact clean_refusal (plain_ofList rfl)
    · split
      · exact clean_refusal (plain_ofList rfl)
      · trivial
  | unregister => trivial
  | get key tokenHex tty ttlSecs | requestGrant key tokenHex tty ttlSecs | authorize =>
    simp only [State.dispatch]
    split
    · exact clean_refusal (plain_ofList rfl)
    · trivial
  | redeem receiptHex cap => exact clean_redeem hFit hInstance hGrant receiptHex cap now
  | grants => exact clean_listing now fun g hg => (hFit.grants g hg).2
  | deny =>
    simp only [State.dispatch, State.deny]
    split
    · trivial
    · exact clean_refusal (plain_ofList rfl)
  | lock =>
    simp only [State.dispatch, State.lock]
    split
    · trivial
    · trivial
  | subscribe => exact clean_refusal (plain_ofList rfl)

theorem clean_granted (hFit : Fit cfg instanceId st) (access : Access) (scope : Scope)
    (key : SecretName) (now : Nat) : (st.grantedFields access scope key now).Clean := by
  unfold State.grantedFields
  split
  · exact ⟨by decide, by decide⟩
  · rename_i ttl hTtl
    obtain ⟨-, -, hRemaining⟩ := Option.bind_eq_some_iff.mp hTtl
    unfold GrantTable.remainingSecs at hRemaining
    obtain ⟨g, hFound, hLife⟩ := Option.bind_eq_some_iff.mp hRemaining
    have hTtlMax := (hFit.grants g (List.mem_of_find?_eq_some hFound)).1
    have hWord : ttl ≤ wordMax := by
      dsimp only at hLife
      split at hLife
      · cases hLife
        exact asSecs_le (Nat.le_trans (Nat.sub_le _ _) hTtlMax)
      · cases hLife
    have hStart : Plain 19 "status=granted ttl=" := plain_ofList rfl
    refine ⟨(hStart.append (plain_decimal hWord)).mono (by omega), ?_⟩
    refine stripPrefix_len (c := 's') ?_ (by decide)
    simp [String.toList_append]

theorem clean_authorization (hDecision : decision.outcome.Clean) (cap : Capability)
    (epochBefore now : Nat) :
    (st.finishAuthorization h cap epochBefore decision now reads).2.outcome.Clean := by
  unfold State.finishAuthorization
  split
  · split
    · dsimp only
      split
      · rename_i id _
        have hHex := plain_encode id.bytes
        rw [id.length_eq] at hHex
        exact hHex
      · rename_i e _
        cases e with
        | wouldBlock | entropy => exact clean_failed (plain_ofList rfl)
    · exact clean_failed (plain_ofList rfl)
  · exact hDecision

/-- **A critical section decides on clean outcomes only.** -/
theorem handle_clean (hFit : Fit cfg instanceId st) (hInstance : Plain 32 instanceId)
    (hGrant : cfg.maxGrant ≤ durationMax)
    (hValues : ∀ g ∈ st.grants.grants, (0 : UInt8) ∉ g.value) (hTask : task.Clean)
    (hHandle : st.handle w h r reads task = some (st', task')) : task'.Clean := by
  cases task with
  | received request caller =>
    obtain rfl := congrArg Prod.snd (Option.some.inj hHandle)
    exact clean_dispatch hFit hInstance hGrant caller r.t0 request
  | resolving flow =>
    simp only [State.handle] at hHandle
    split at hHandle
    · obtain rfl := (Prod.mk.inj (Option.some.inj hHandle)).2
      trivial
    · obtain rfl := (Prod.mk.inj (Option.some.inj hHandle)).2
      exact flow.finish_clean (clean_failed (plain_ofList rfl))
  | awaiting flow scope key =>
    rw [handle_awaiting] at hHandle
    obtain rfl := (Prod.mk.inj (Option.some.inj hHandle)).2
    exact flow.afterAwait_clean scope key _
  | waiting flow scope key =>
    rw [handle_waiting] at hHandle
    obtain rfl := (Prod.mk.inj (Option.some.inj hHandle)).2
    exact flow.afterAwait_clean scope key _
  | approved flow scope key =>
    simp only [State.handle, Option.some.injEq, Prod.mk.injEq] at hHandle
    obtain ⟨-, rfl⟩ := hHandle
    refine flow.finish_clean ?_
    dsimp only
    split
    · unfold State.readValue GrantTable.lookup
      cases hLookup : st.grants.lookupGrant scope key r.t0 with
      | none => exact clean_failed (plain_ofList rfl)
      | some g => exact hValues g (GrantTable.lookupGrant_some hLookup).1
    · exact clean_granted hFit flow.access scope key r.t0
  | minting cap epochBefore =>
    simp only [State.handle, Option.some.injEq, Prod.mk.injEq] at hHandle
    obtain ⟨-, rfl⟩ := hHandle
    exact clean_authorization hTask cap epochBefore r.t0
  | done => cases hHandle

end

/-! ## Whole runs -/

theorem Exit.result_zero {exit : Exit} {key : SecretName} {file : OpenedHumanFile}
    {decrypted : DecryptedHumanFile} (h : exit.result key file = .ok decrypted) :
    (0 : UInt8) ∉ decrypted.value := by
  unfold Exit.result at h
  dsimp only at h
  split at h
  · split at h
    · cases h
    · split at h
      · rename_i hParse
        cases h
        exact (Edit.parseSingleAssignment_iff.mp hParse).2
      · cases h
  · cases h

theorem install_grants {st : State} {job : Job} {file : DecryptedHumanFile} {t t' : Nat} :
    ∀ g ∈ (st.install job file t t').grants.grants,
      g ∈ st.grants.grants ∨ g = job.grant st.config file t' := by
  intro g hg
  unfold State.install at hg
  split at hg
  · rcases List.mem_append.mp hg with hOld | hNew
    · exact .inl (List.mem_of_mem_filter hOld)
    · exact .inr (List.mem_singleton.mp hNew)
  · exact .inl hg

theorem denyStale_grants (st : State) (w : World) (job : Job) (now : Nat) :
    (st.denyStale w job now).grants = st.grants := by
  unfold State.denyStale
  split
  · rfl
  · rfl

theorem report_values {st : State} {w : World} {job : Job}
    {result : Except ErrCode DecryptedHumanFile} {r : Readings}
    (hResult : ∀ file, result = .ok file → (0 : UInt8) ∉ file.value)
    (hValues : ∀ g ∈ st.grants.grants, (0 : UInt8) ∉ g.value) :
    ∀ g ∈ (st.report w job result r).grants.grants, (0 : UInt8) ∉ g.value := by
  intro g hg
  obtain ⟨_, _, hKill⟩ := killActive_frame st job.id
  unfold State.report at hg
  rw [hKill] at hg
  cases result with
  | error => exact hValues g hg
  | ok file =>
    rcases install_grants g hg with hOld | rfl
    · rw [denyStale_grants] at hOld
      exact hValues g hOld
    · exact hResult file rfl

/-- Nothing in the broker's tables, hands or handlers that a client could not
read back. -/
structure Presentable (cfg : Config) (instanceId : String) (s : Sys) : Prop where
  world : s.world.NulFree
  state : Fit cfg instanceId s.st
  values : ∀ g ∈ s.st.grants.grants, (0 : UInt8) ∉ g.value
  worker : ∀ job file, s.worker = .reporting job (.ok file) → (0 : UInt8) ∉ file.value
  tasks : ∀ h task, s.tasks h = some task → task.Clean

section

variable {cfg : Config} {bootId instanceId : String} {w : World} {s t : Sys} {a : Action}

theorem Chain.values {w : World} {role : Role} {c d : Core} (h : Chain w role c d)
    (hRole : role ≠ .report) (hValues : ∀ g ∈ c.st.grants.grants, (0 : UInt8) ∉ g.value) :
    ∀ g ∈ d.st.grants.grants, (0 : UInt8) ∉ g.value := by
  refine Chain.invariant (I := fun c => ∀ g ∈ c.st.grants.grants, (0 : UInt8) ∉ g.value)
    ?_ h hValues
  intro x y hx hMicro g hg
  rcases hMicro.grants_from g hg with hOld | ⟨_, _, _, _, hReport, _⟩
  · exact hx g hOld
  · exact absurd hReport hRole

theorem conclude_grants (st : State) (h now : Nat) (task : Task) :
    (st.conclude h now task).grants = st.grants := by
  cases task <;> rfl

theorem values_step (hInv : BrokerInv cfg s) (hShown : Presentable cfg instanceId s)
    (hMove : Sys.Move s a t) : ∀ g ∈ t.st.grants.grants, (0 : UInt8) ∉ g.value := by
  have hValues := hShown.values
  cases hMove with
  | handle hTask hClock hHandle =>
    rename_i h r reads task task' st'
    have hSection : Chain s.world task.role s.core ⟨st', s.worker.job, r.t3⟩ :=
      handle_chain (hInv.tasks _ _ hTask) hClock hHandle
    intro g hg
    have hg' : g ∈ st'.grants.grants := by
      rw [← conclude_grants st' h r.t0 task']
      exact hg
    exact hSection.values task.role_ne.2.1 hValues g hg'
  | tick hWorker hClock hTick | begin hWorker hClock hTick =>
    have hChain := (tick_steps hWorker hClock).values (by decide) hValues
    rw [hTick] at hChain
    exact hChain
  | report hWorker =>
    exact report_values (fun file hFile => hShown.worker _ file (by rw [hWorker, hFile])) hValues
  | start hWorker =>
    rename_i job file pg child
    intro g hg
    refine hValues g ?_
    have hSame : (s.st.onStarted job pg child).grants = s.st.grants := by
      unfold State.onStarted
      split
      · rfl
      · rfl
    rw [← hSame]
    exact hg
  | _ => exact hValues

theorem worker_values_step (hShown : Presentable cfg instanceId s) (hMove : Sys.Move s a t) :
    ∀ job file, t.worker = .reporting job (.ok file) → (0 : UInt8) ∉ file.value := by
  intro job file hWorker'
  cases hMove with
  | exited hWorker hResult =>
    obtain ⟨-, hFile⟩ := Worker.reporting.inj hWorker'
    rw [← Except.ok.inj hFile]
    exact Exit.result_zero hResult
  | openFailed hWorker | spawnFailed hWorker | spawnLost hWorker _ | exitedBadly hWorker
  | deadline hWorker | abandoned hWorker => cases hWorker'
  | begin hWorker _ _ | openFile hWorker _ | spawn hWorker _ | start hWorker | report hWorker _ =>
    cases hWorker'
  | _ => exact hShown.worker job file hWorker'

theorem tasks_clean_step (hInstance : Plain 32 instanceId) (hGrant : cfg.maxGrant ≤ durationMax)
    (hShown : Presentable cfg instanceId s) (hMove : Sys.Move s a t) :
    ∀ h task, t.tasks h = some task → task.Clean := by
  intro h task hTask'
  cases hMove with
  | receive =>
    rcases update_some_cases hTask' with ⟨rfl, rfl⟩ | ⟨-, hOld⟩
    · trivial
    · exact hShown.tasks h task hOld
  | handle hTask hClock hHandle =>
    rcases update_some_cases hTask' with ⟨rfl, rfl⟩ | ⟨-, hOld⟩
    · exact handle_clean hShown.state hInstance hGrant hShown.values (hShown.tasks _ _ hTask)
        hHandle
    · exact hShown.tasks h task hOld
  | _ => exact hShown.tasks h task hTask'

theorem presentable_step (hInstance : Plain 32 instanceId) (hGrant : cfg.maxGrant ≤ durationMax)
    (hRequested : cfg.maxRequestedGrant ≤ durationMax) (hInv : BrokerInv cfg s)
    (hShown : Presentable cfg instanceId s) (hAction : a.NulFree) (hMove : Sys.Move s a t) :
    Presentable cfg instanceId t where
  world := by
    cases hMove with
    | world => exact hAction
    | _ => exact hShown.world
  state := by
    have hSteps := move_steps hInv hMove
    exact hSteps.invariant (I := fun c => Fit cfg instanceId c.st)
      (fun _ _ _ hFit hMicro => hFit.micro hGrant hRequested hShown.world hMicro) hShown.state
  values := values_step hInv hShown hMove
  worker := worker_values_step hShown hMove
  tasks := tasks_clean_step hInstance hGrant hShown hMove

theorem presentable_reachable (hInstance : Plain 32 instanceId)
    (hGrant : cfg.maxGrant ≤ durationMax) (hRequested : cfg.maxRequestedGrant ≤ durationMax)
    (hPaths : w.NulFree)
    (hRun : Path (broker cfg bootId instanceId w) (fun _ a => a.NulFree)
      (broker cfg bootId instanceId w).init s) : Presentable cfg instanceId s := by
  refine Path.strengthen (I := Presentable cfg instanceId) ?_ hRun ?_
  · intro x a y hx hAction hShown hStep
    exact presentable_step hInstance hGrant hRequested (brokerInv_reachable hx.forget) hShown
      hAction (Sys.step_move hStep)
  · exact
      { world := hPaths
        state := ⟨rfl, rfl, Nat.zero_le _, fun _ hg => by cases hg⟩
        values := fun _ hg => by cases hg
        worker := fun _ _ hWorker => by cases hWorker
        tasks := fun _ _ hTask => by cases hTask }

end

/-! ## Everything that can be written -/

def messages : List String :=
  ["invalid request frame", "unsupported protocol version",
   "capability keys hold no retrievable value", "subscription is connection-scoped",
   "token is already bound to another session", "invalid session token",
   "request is not pending", "too many outstanding receipts", "receipt entropy unavailable",
   "locked during authorization", "invalid capability name",
   "capability grant deadline is out of range", "receipt is not redeemable",
   "capability grant record missing", "request has no usable scope", "request refused",
   "approval did not complete", "grant disappeared"]

/-- The outcomes that `handle` can write: what a handler of some run has decided,
every secret that a plaintext can hold, every listing of a reachable table, every
receipt, and every error code with every message. -/
inductive Writable (cfg : Config) (bootId instanceId : String) (w : World) : Outcome → Prop
  | decided {s : Sys} {h : Nat} {decision : Decision}
      (hRun : Path (broker cfg bootId instanceId w) (fun _ a => a.NulFree)
        (broker cfg bootId instanceId w).init s)
      (hDone : s.tasks h = some (.done decision)) :
      Writable cfg bootId instanceId w decision.outcome
  | value {plaintext value : List UInt8} {key : SecretName}
      (hParse : parseSingleAssignment plaintext key = .ok value) :
      Writable cfg bootId instanceId w (.bytes value)
  | listing {s : Sys}
      (hRun : Path (broker cfg bootId instanceId w) (fun _ a => a.NulFree)
        (broker cfg bootId instanceId w).init s) (now : Nat) :
      Writable cfg bootId instanceId w (.payload (s.st.grants.render now))
  | receipt (id : ReceiptId) : Writable cfg bootId instanceId w (.receipt (encode id.bytes))
  | failed (code : ErrCode) {message : String} (hMessage : message ∈ messages) :
      Writable cfg bootId instanceId w (.failed code message)

theorem plain_message : ∀ message ∈ messages, Plain 100 message := by
  unfold messages
  repeat' refine List.forall_mem_cons.mpr ⟨plain_ofList rfl, ?_⟩
  exact List.forall_mem_nil _

def instanceLen : Nat := 16

/-- **Reply round trip.** The instance id is the hex text of random bytes and the
configured lifetimes are durations. Of everything the broker can write, a client
gets the same outcome back, from either reader, exactly when the bytes behind
the header are at most as many as a frame may have. -/
theorem reply_round_trip {cfg : Config} {bootId : String} {seed : List UInt8} {w : World}
    {outcome : Outcome} (hSeed : seed.length = instanceLen) (hGrant : cfg.maxGrant ≤ durationMax)
    (hRequested : cfg.maxRequestedGrant ≤ durationMax) (hPaths : w.NulFree)
    (hWritable : Writable cfg bootId (encode seed) w outcome) :
    (parseResponse outcome.written = outcome.reply ↔ outcome.body.length ≤ maxFrameBytes) ∧
    (readResponse outcome.written = outcome.reply ↔ outcome.body.length ≤ maxFrameBytes) := by
  have hInstance : Plain 32 (encode seed) := by
    have hHex := plain_encode seed
    rw [hSeed] at hHex
    exact hHex
  refine Outcome.clean_round_trip ?_
  cases hWritable with
  | decided hRun hDone =>
    exact (presentable_reachable hInstance hGrant hRequested hPaths hRun).tasks _ _ hDone
  | value hParse => exact (Edit.parseSingleAssignment_iff.mp hParse).2
  | listing hRun now =>
    have hFit := (presentable_reachable hInstance hGrant hRequested hPaths hRun).state
    exact clean_listing now fun g hg => (hFit.grants g hg).2
  | receipt id =>
    have hHex := plain_encode id.bytes
    rw [id.length_eq] at hHex
    exact hHex
  | failed code hMessage => exact clean_failed (plain_message _ hMessage)

/-- The machine of `fileWorld`, where one terminal is all that exists. -/
def terminalWorld : World :=
  { fileWorld "A.env" 1 with pathExists := fun path => path == "/dev/pts/1" }

theorem terminalWorld_nulFree : terminalWorld.NulFree := by
  intro path hExists
  have hPath : path = "/dev/pts/1" := eq_of_beq hExists
  subst hPath
  decide

theorem reply_round_trip_short_value :
    parseResponse (Outcome.written (.bytes [115])) = .ok (.bytes [115]) ∧
      readResponse (Outcome.written (.bytes [115])) = .ok (.bytes [115]) := by
  have hParse : parseSingleAssignment [65, 61, 115, 10] ⟨"A", by decide⟩ = .ok [115] := by
    decide +kernel
  have hWritable : Writable (Config.default [⟨"host", "/d"⟩]) "boot" (encode (List.replicate 16 0))
      terminalWorld (.bytes [115]) := .value hParse
  have hTrip := reply_round_trip rfl (by decide +kernel) (by decide +kernel) terminalWorld_nulFree
    hWritable
  exact ⟨hTrip.1.mpr (by decide), hTrip.2.mpr (by decide)⟩

/-- **A secret that is too long is lost on the way.** `parse_single_assignment`
accepts it and the broker writes it; both readers refuse the reply. -/
theorem long_value_lost :
    parseSingleAssignment (65 :: 61 :: List.replicate 4097 115) ⟨"A", by decide⟩ =
      .ok (List.replicate 4097 115) ∧
    parseResponse (Outcome.written (.bytes (List.replicate 4097 115))) = .error .invalidResponse ∧
    readResponse (Outcome.written (.bytes (List.replicate 4097 115))) =
      .error .invalidResponse := by
  have hOnly : ∀ byte : UInt8, byte ≠ 115 → byte ∉ List.replicate 4097 115 := by
    intro byte hOther hMem
    exact hOther (List.eq_of_mem_replicate hMem)
  have hAccepted : parseSingleAssignment (65 :: 61 :: List.replicate 4097 115) ⟨"A", by decide⟩ =
      .ok (List.replicate 4097 115) := by
    have hEnd : (List.replicate 4097 (115 : UInt8)).getLast? ≠ some 13 := by
      rw [List.getLast?_replicate]
      decide
    have hLines := Edit.assignmentLines_one ⟨"A", by decide⟩ (.inl rfl) (hOnly 10 (by decide)) hEnd
    rw [List.append_nil] at hLines
    exact Edit.parseSingleAssignment_iff.mpr ⟨hLines, hOnly 0 (by decide)⟩
  have hClean : (Outcome.bytes (List.replicate 4097 115)).Clean := hOnly 0 (by decide)
  have hLong : ¬ (Outcome.bytes (List.replicate 4097 115)).Fits := by
    show ¬ (List.replicate 4097 (115 : UInt8)).length ≤ maxFrameBytes
    rw [List.length_replicate]
    decide
  have hParse := Outcome.parse_written hClean
  rw [if_neg hLong] at hParse
  refine ⟨hAccepted, hParse, ?_⟩
  rw [Outcome.read_written hClean, hParse]

end Forward.Secrets

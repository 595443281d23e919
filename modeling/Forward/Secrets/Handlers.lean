import Forward.Secrets.Places

/-!
# What one handler does, in order

A handler goes through `dispatch` once: it receives, it begins an AUTHORIZE or redeems, it resolves
its caller, it enqueues or joins a request, it mints, it answers. So later modules can speak of
*the* request a handler received or *the* scope it resolved to.
-/

namespace Forward.Secrets

open Lib

/-! ## Ranks and stages -/

namespace Event

def handler : Event → Option Nat
  | received h _ _ | began h _ _ | resolved h _ _ | enqueued h _ | joined h _ | minted h _ _ _
  | redeemed h _ _ _ _ | answered h _ _ => some h
  | _ => none

/-- When in its life a handler does it. -/
@[simp] def rank : Event → Nat
  | began .. | redeemed .. => 1
  | resolved .. => 2
  | enqueued .. | joined .. => 3
  | minted .. => 4
  | answered .. => 5
  | _ => 0

end Event

/-- What a handler at this place has left behind: everything of lower rank. -/
@[simp] def Task.stage : Task → Nat
  | .received .. => 1
  | .resolving .. => 2
  | .awaiting .. => 3
  | .waiting .. | .approved .. | .minting .. => 4
  | .done .. => 5

-- between two steps the reply of a section that decided it has left as well
@[simp] def Task.past : Task → Nat
  | .done _ => 6
  | task => task.stage

def Sys.stage (s : Sys) (h : Nat) : Nat := (s.tasks h).elim 0 Task.past

/-- The history, with each handler at its stage. -/
abbrev StagedTrail (stage : Nat → Nat) (trail : List Event) : Prop :=
  Staged Event.handler Event.rank stage trail

section

variable {stage : Nat → Nat} {st st' : State} {w : World} {h n : Nat} {r : Readings}
  {reads : List ReceiptId} {task task' : Task} {trail : List Event} {e : Event}

theorem le_update (hn : stage h ≤ n) : ∀ k, stage k ≤ Function.update stage h n k := by
  intro k
  by_cases hk : k = h
  · rw [hk, Function.update_self]
    exact hn
  · rw [Function.update_of_ne hk]

theorem StagedTrail.raise (hS : StagedTrail stage trail) (hn : stage h ≤ n) :
    StagedTrail (Function.update stage h n) trail := Staged.advance hS (le_update hn)

theorem StagedTrail.own (hS : StagedTrail stage trail) (hOwn : e.handler = some h)
    (hLow : stage h ≤ e.rank) (hHigh : e.rank < n) :
    StagedTrail (Function.update stage h n) (e :: trail) := by
  refine Staged.record hS (le_update (by omega)) ?_
  intro k hk
  rw [hOwn] at hk
  cases hk
  rw [Function.update_self]
  exact ⟨hLow, hHigh⟩

theorem StagedTrail.other (hS : StagedTrail stage trail) (hOther : e.handler = none) :
    StagedTrail stage (e :: trail) := by
  refine Staged.record hS (fun _ => Nat.le_refl _) ?_
  intro k hk
  rw [hOther] at hk
  cases hk

theorem StagedTrail.kill (hS : StagedTrail stage st.trail) (id : Nat) :
    StagedTrail stage (st.killActive id).trail := by
  rcases killActive_trail st id with hSame | ⟨active, _, hNew⟩
  · rw [hSame]
    exact hS
  · rw [hNew]
    exact hS.other rfl

theorem StagedTrail.loop (hS : StagedTrail stage st.trail) (source : String)
    (id deadline t t' : Nat) :
    StagedTrail stage (st.awaitLoop source id deadline t t').1.trail := by
  obtain ⟨new, hNew, hKilled⟩ := awaitLoop_trail st source id deadline t t'
  rw [hNew]
  refine Staged.quiet hS fun e he => ?_
  obtain ⟨pg, child, rfl⟩ := hKilled e he
  rfl

theorem StagedTrail.enqueue (hS : StagedTrail stage st.trail) (hStage : stage h ≤ 3)
    (scope : Scope) (key : SecretName) (now : Nat) (ttl : Option Nat) :
    StagedTrail (Function.update stage h 4) (st.enqueue h scope key now ttl).1.trail := by
  rcases enqueue_spec st h scope key now ttl with ⟨_, hEq⟩ | ⟨_, _, _, _, _, hEq⟩ | ⟨_, _, hEq⟩
  · rw [hEq]
    exact hS.raise (by omega)
  · rw [hEq]
    exact hS.own rfl hStage (by simp)
  · rw [hEq]
    exact hS.own rfl hStage (by simp)

theorem finish_stage (flow : Flow) (decision : Decision) : 4 ≤ (flow.finish decision).stage := by
  unfold Flow.finish
  split
  · exact Nat.le_refl 4
  · exact Nat.le_succ 4

theorem afterAwait_stage (flow : Flow) (scope : Scope) (key : SecretName) (await : Await) :
    4 ≤ (flow.afterAwait scope key await).stage := by
  cases await with
  | wait => exact Nat.le_refl 4
  | settled approval =>
    cases approval with
    | granted => exact Nat.le_refl 4
    | refused | incomplete => exact finish_stage flow _

theorem dispatch_staged (hS : StagedTrail stage st.trail) (hStage : stage h = 1) (caller : Peer)
    (now : Nat) (request : Request) :
    StagedTrail (Function.update stage h (st.dispatch h caller now request).2.stage)
      (st.dispatch h caller now request).1.trail := by
  have hDone : StagedTrail (Function.update stage h 5) st.trail := hS.raise (by omega)
  have hNext : StagedTrail (Function.update stage h 2) st.trail := hS.raise (by omega)
  cases request with
  | hello =>
    simp only [State.dispatch]
    split <;> exact hDone
  | register =>
    simp only [State.dispatch, State.register]
    split
    · exact hDone
    · split
      · exact hDone
      · exact hDone.other rfl
  | unregister => exact hDone.other rfl
  | get | requestGrant =>
    simp only [State.dispatch]
    split
    · exact hDone
    · exact hNext
  | authorize =>
    simp only [State.dispatch]
    split
    · exact hDone
    · exact hS.own rfl (Nat.le_of_eq hStage) (by simp)
  | redeem receiptHex cap =>
    have hRedeemed : ∀ id cap time deadline, StagedTrail (Function.update stage h 5)
        (.redeemed h id cap time deadline :: st.trail) :=
      fun _ _ _ _ => hS.own rfl (Nat.le_of_eq hStage) (by simp)
    simp only [State.dispatch, State.redeem]
    split
    · exact hDone
    · split
      · exact hDone
      · split
        · exact hDone
        · split <;> exact hRedeemed _ _ _ _
  | grants | subscribe => exact hDone
  | deny id =>
    simp only [State.dispatch, State.deny]
    split
    · rename_i queue _
      have hDenied : StagedTrail (Function.update stage h 5) { st with queue := queue }.trail := hDone
      exact hDenied.kill id
    · exact hDone
  | lock =>
    simp only [State.dispatch, State.lock]
    split
    · exact hDone.other rfl
    · exact (hDone.other rfl).other rfl

/-- **A handler's section records what is due at its place, at most once.** -/
theorem handle_staged (hS : StagedTrail stage st.trail) (hStage : stage h = task.stage)
    (hHandle : st.handle w h r reads task = some (st', task')) :
    StagedTrail (Function.update stage h task'.stage) st'.trail := by
  cases task with
  | received request caller =>
    simp only [State.handle, Option.some.injEq] at hHandle
    have hDispatch := dispatch_staged hS hStage caller r.t0 request
    rw [hHandle] at hDispatch
    exact hDispatch
  | resolving flow =>
    simp only [State.handle] at hHandle
    split at hHandle
    · rename_i hEq
      cases hHandle
      rw [(resolveAccess_ok hEq).1]
      exact hS.own rfl (Nat.le_of_eq hStage) (by simp)
    · rename_i e hEq
      cases hHandle
      rw [resolveAccess_error hEq]
      have hFinish := finish_stage flow ⟨.failed e "request has no usable scope", none, none, none⟩
      refine hS.raise (Nat.le_trans ?_ hFinish)
      simp [hStage]
  | awaiting flow scope key =>
    rw [handle_awaiting] at hHandle
    cases hHandle
    have hCase := awaitApproval_case st w h scope key flow.forceFresh flow.access.requestedTtl r
    generalize st.awaitApproval w h scope key flow.forceFresh flow.access.requestedTtl r = result
      at hCase ⊢
    have hNext := afterAwait_stage flow scope key result.2
    have hHere : stage h = 3 := hStage
    have hBase : ∀ base, Cleared st scope key r.t0 base → StagedTrail stage base.trail := by
      rintro base (⟨rfl, -⟩ | rfl)
      · exact hS
      · exact hS.other rfl
    cases hCase with
    | cached => exact hS.raise (by omega)
    | refused hCleared => exact (hBase _ hCleared).raise (by omega)
    | queued hCleared hEnqueue =>
      rename_i stQ source id deadline
      have hQueued := (hBase _ hCleared).enqueue (Nat.le_of_eq hHere) scope key r.t1
        flow.access.requestedTtl
      rw [hEnqueue] at hQueued
      have hLoop := hQueued.loop source id deadline r.t2 r.t3
      have hRaised := hLoop.raise (h := h) (n := (flow.afterAwait scope key
        (stQ.awaitLoop source id deadline r.t2 r.t3).2).stage) (by rw [Function.update_self]; exact hNext)
      rw [Function.update_idem] at hRaised
      exact hRaised
  | waiting flow scope key source id deadline =>
    rw [handle_waiting] at hHandle
    cases hHandle
    refine (hS.loop source id deadline r.t0 r.t1).raise ?_
    rw [hStage]
    exact afterAwait_stage flow scope key _
  | approved flow =>
    cases hHandle
    refine hS.raise ?_
    rw [hStage]
    exact finish_stage flow _
  | minting =>
    have hNothing : StagedTrail (Function.update stage h 5) st.trail := hS.raise (by simp [hStage])
    simp only [State.handle, Option.some.injEq, Prod.mk.injEq] at hHandle
    obtain ⟨rfl, rfl⟩ := hHandle
    show StagedTrail (Function.update stage h 5) _
    unfold State.finishAuthorization
    split
    · split
      · dsimp only
        split
        · exact hS.own rfl (Nat.le_of_eq hStage) (by simp)
        · exact hNothing
      · exact hNothing
    · exact hNothing
  | done => cases hHandle

theorem tick_staged (hS : StagedTrail stage st.trail) (now : Nat) :
    StagedTrail stage (st.tick w now).1.trail := by
  have hKills : ∀ (ids : List Nat) (st : State), StagedTrail stage st.trail →
      StagedTrail stage (ids.foldl State.killActive st).trail := by
    intro ids
    induction ids with
    | nil => exact fun _ hst => hst
    | cons id rest ih => exact fun st hst => ih _ (hst.kill id)
  have hSwept := hKills (st.queue.sweepTimeouts now).2
    { st with queue := (st.queue.sweepTimeouts now).1 } hS
  unfold State.tick
  dsimp only
  split
  · exact hSwept
  · split
    · exact hSwept
    · split
      · exact hSwept
      · exact hSwept.other rfl

theorem report_staged (hS : StagedTrail stage st.trail) (job : Job)
    (result : Except ErrCode DecryptedHumanFile) :
    StagedTrail stage (st.report w job result r).trail := by
  have hKilled := hS.kill job.id
  unfold State.report
  cases result with
  | error => exact hKilled.other rfl
  | ok =>
    have hStale : StagedTrail stage ((st.killActive job.id).denyStale w job r.t0).trail := by
      unfold State.denyStale
      split <;> exact hKilled
    dsimp only
    unfold State.install
    split
    · exact hStale.other rfl
    · exact hStale

end

/-! ## Whole runs -/

section

variable {cfg : Config} {bootId instanceId : String} {w : World} {s t : Sys} {a : Action}

theorem conclude_staged {stage : Nat → Nat} {st : State} {h : Nat} (now : Nat) (task : Task)
    (hS : StagedTrail (Function.update stage h task.stage) st.trail) :
    StagedTrail (Function.update stage h task.past) (st.conclude h now task).trail := by
  cases task with
  | done decision =>
    have hAnswered := hS.own (e := .answered h decision now) (n := 6) rfl
      (by simp) (by simp)
    rw [Function.update_idem] at hAnswered
    exact hAnswered
  | _ => exact hS

theorem setTask_stage (h : Nat) (task : Task) :
    (s.setTask h task).stage = Function.update s.stage h task.past := by
  funext k
  unfold Sys.stage Sys.setTask
  by_cases hk : k = h
  · subst hk
    simp
  · simp [Function.update_of_ne hk]

theorem staged_step (hS : StagedTrail s.stage s.st.trail) (hMove : Sys.Move s a t) :
    StagedTrail t.stage t.st.trail := by
  cases hMove with
  | replace | openFile | exited | deadline => exact hS.other rfl
  | receive hTask =>
    rename_i h request caller
    show StagedTrail (s.setTask h (.received request caller)).stage _
    rw [setTask_stage]
    refine hS.own rfl ?_ (by simp)
    simp [Sys.stage, hTask]
  | handle hTask hClock hHandle =>
    rename_i h r reads task task' st'
    have hStage : s.stage h = task.stage := by
      unfold Sys.stage
      rw [hTask]
      cases task with
      | done => cases hHandle
      | _ => rfl
    show StagedTrail (s.setTask h task').stage _
    rw [setTask_stage]
    exact conclude_staged r.t0 task' (handle_staged hS hStage hHandle)
  | tick hWorker hClock hTick =>
    rename_i now st'
    have hTicked := tick_staged (w := s.world) hS now
    rw [hTick] at hTicked
    exact hTicked
  | begin hWorker hClock hTick =>
    rename_i now st' job
    have hTicked := tick_staged (w := s.world) hS now
    rw [hTick] at hTicked
    exact hTicked
  | start hWorker =>
    rename_i job file pg child
    have hStarted : StagedTrail s.stage (s.st.onStarted job pg child).trail := by
      unfold State.onStarted
      split
      · exact hS
      · exact hS.other rfl
    exact hStarted
  | report => exact report_staged hS _ _
  | _ => exact hS

/-- **Run lemma**: each handler does each thing at most once. -/
theorem staged_reachable (hReach : Reachable (broker cfg bootId instanceId w) s) :
    StagedTrail s.stage s.st.trail := by
  refine Path.invariant (I := fun s => StagedTrail s.stage s.st.trail) ?_ hReach .nil
  intro x a y hx _ hStep
  exact staged_step hx (Sys.step_move hStep)

theorem Chain.historically {Q : Event → List Event → Prop} {role : Role} {c d : Core}
    (hMay : ∀ e older, e.MayCome role → Q e older) (hChain : Chain w role c d)
    (hc : Historically Q c.st.trail) : Historically Q d.st.trail := by
  obtain ⟨new, hNew, hRole⟩ := hChain.trail_grows
  rw [hNew]
  refine hc.append fun newer e older hEq => hMay e _ (hRole e ?_)
  rw [hEq]
  simp

/-- The rule for what handlers mint and answer, along runs whose steps meet a condition. -/
theorem handler_invariant {Q : Event → List Event → Prop} {ok : Sys → Action → Prop}
    (hOther : ∀ e older, e.isMint = false → e.isAnswer = false → Q e older)
    (hMint : ∀ s h now reads cap epoch decision id,
      Path (broker cfg bootId instanceId w) ok (broker cfg bootId instanceId w).init s →
      s.tasks h = some (.minting cap epoch decision) →
      (∃ text, decision.outcome = .fields text) → decision.requestId.isSome →
      (s.st.receipts.mintId cap now reads).2 = .ok id →
      Q (.minted h cap id now) s.st.trail)
    (hAnswer : ∀ s h r reads task st' decision,
      Path (broker cfg bootId instanceId w) ok (broker cfg bootId instanceId w).init s →
      s.tasks h = some task → s.clock ≤ r.t0 →
      s.st.handle s.world h r reads task = some (st', .done decision) →
      Q (.answered h decision r.t0) st'.trail)
    (hPath : Path (broker cfg bootId instanceId w) ok (broker cfg bootId instanceId w).init s) :
    Historically Q s.st.trail := by
  refine Path.strengthen (I := fun s => Historically Q s.st.trail) ?_ hPath .nil
  intro x a y hx hok hQ hStep
  clear hok
  have hInv := brokerInv_reachable hx.forget
  have hQuiet : ∀ {role : Role}, role ≠ .mint → role ≠ .reply →
      ∀ e older, Event.MayCome role e → Q e older := by
    intro role hNoMint hNoReply e older hMay
    refine hOther e older ?_ ?_
    · by_contra hKind
      exact hNoMint (hMay.mint (by simpa using hKind))
    · by_contra hKind
      exact hNoReply (hMay.answer (by simpa using hKind))
  cases Sys.step_move hStep with
  | handle hTask hClock hHandle =>
    rename_i h r reads task task' st'
    have hQ' : Historically Q st'.trail := by
      by_cases hRole : task.role = .mint
      · cases task with
        | minting cap epoch decision =>
          simp only [State.handle, Option.some.injEq, Prod.mk.injEq] at hHandle
          obtain ⟨rfl, -⟩ := hHandle
          unfold State.finishAuthorization
          split
          · rename_i hText hId
            split
            · dsimp only
              split
              · rename_i id hOk
                refine hQ.cons (hMint x h r.t0 reads cap epoch decision id hx hTask ⟨_, hText⟩ ?_ hOk)
                rw [hId, Option.isSome_some]
              · exact hQ
            · exact hQ
          · exact hQ
        | received request => cases request <;> cases hRole
        | _ => cases hRole
      · have hSection : Chain x.world task.role x.core ⟨st', x.worker.job, r.t3⟩ :=
          handle_chain (hInv.tasks _ _ hTask) hClock hHandle
        exact hSection.historically (hQuiet hRole task.role_ne.2.2.1) hQ
    cases task' with
    | done decision => exact hQ'.cons (hAnswer x h r reads task st' decision hx hTask hClock hHandle)
    | _ => exact hQ'
  | tick hWorker hClock hTick | begin hWorker hClock hTick =>
    have hChain := (tick_steps hWorker hClock).historically (hQuiet (by decide) (by decide)) hQ
    rw [hTick] at hChain
    exact hChain
  | report hWorker hClock =>
    exact (report_steps hInv hWorker hClock).historically (hQuiet (by decide) (by decide)) hQ
  | start hWorker =>
    rename_i job file pg child
    have hStarted : Historically Q (x.st.onStarted job pg child).trail := by
      unfold State.onStarted
      split
      · exact hQ
      · exact hQ.cons (hOther _ _ rfl rfl)
    exact hStarted
  | replace | receive | openFile | exited | deadline => exact hQ.cons (hOther _ _ rfl rfl)
  | _ => exact hQ

end

/-! ## The section that hands out a secret -/

section

variable {st st' : State} {w : World} {h : Nat} {r : Readings} {reads : List ReceiptId}
  {task : Task} {decision : Decision} {value : List UInt8}

theorem dispatch_not_bytes {caller : Peer} {now : Nat} {request : Request}
    (hDone : (st.dispatch h caller now request).2 = .done decision) :
    decision.outcome ≠ .bytes value := by
  cases request with
  | register =>
    simp only [State.dispatch, State.register] at hDone
    split at hDone
    · obtain rfl := Task.done.inj hDone
      exact fun hBytes => by cases hBytes
    · split at hDone <;> obtain rfl := Task.done.inj hDone <;> exact fun hBytes => by cases hBytes
  | authorize =>
    simp only [State.dispatch] at hDone
    split at hDone
    · obtain rfl := Task.done.inj hDone
      exact fun hBytes => by cases hBytes
    · cases hDone
  | redeem =>
    simp only [State.dispatch, State.redeem] at hDone
    split at hDone
    · obtain rfl := Task.done.inj hDone
      exact fun hBytes => by cases hBytes
    · split at hDone
      · obtain rfl := Task.done.inj hDone
        exact fun hBytes => by cases hBytes
      · split at hDone
        · obtain rfl := Task.done.inj hDone
          exact fun hBytes => by cases hBytes
        · split at hDone <;> obtain rfl := Task.done.inj hDone <;> exact fun hBytes => by cases hBytes
  | hello version | get key tokenHex tty ttl | requestGrant key tokenHex tty ttl | deny id =>
    simp only [State.dispatch, State.deny] at hDone
    split at hDone <;> cases hDone <;> exact fun hBytes => by cases hBytes
  | lock =>
    simp only [State.dispatch, State.lock] at hDone
    split at hDone <;> cases hDone <;> exact fun hBytes => by cases hBytes
  | unregister session | grants | subscribe =>
    obtain rfl := Task.done.inj hDone
    exact fun hBytes => by cases hBytes

theorem finish_done {flow : Flow} {decision decision' : Decision}
    (hDone : flow.finish decision = .done decision') : decision = decision' := by
  unfold Flow.finish at hDone
  split at hDone
  · cases hDone
  · exact Task.done.inj hDone

theorem afterAwait_not_bytes {flow : Flow} {scope : Scope} {key : SecretName} {await : Await}
    (hDone : flow.afterAwait scope key await = .done decision) :
    decision.outcome ≠ .bytes value := by
  cases await with
  | wait => cases hDone
  | settled approval =>
    cases approval with
    | granted => cases hDone
    | refused | incomplete =>
      obtain rfl := finish_done hDone
      nofun

/-- **Only an approved GET is answered with a secret.** -/
theorem handle_bytes (hPlace : task.Place h st.trail)
    (hHandle : st.handle w h r reads task = some (st', .done decision))
    (hBytes : decision.outcome = .bytes value) :
    st' = st ∧ ∃ flow scope key source requestId g,
      task = .approved flow scope key source requestId ∧ flow.returnValue ∧
      st.grants.lookupGrant scope key r.t0 = some g ∧ g.value = value := by
  cases task with
  | received =>
    simp only [State.handle, Option.some.injEq] at hHandle
    exact absurd hBytes (dispatch_not_bytes (by rw [hHandle]))
  | resolving =>
    simp only [State.handle] at hHandle
    split at hHandle
    · cases (Prod.mk.inj (Option.some.inj hHandle)).2
    · rw [← finish_done (Prod.mk.inj (Option.some.inj hHandle)).2] at hBytes
      cases hBytes
  | awaiting =>
    rw [handle_awaiting] at hHandle
    exact absurd hBytes (afterAwait_not_bytes (Prod.mk.inj (Option.some.inj hHandle)).2)
  | waiting =>
    rw [handle_waiting] at hHandle
    exact absurd hBytes (afterAwait_not_bytes (Prod.mk.inj (Option.some.inj hHandle)).2)
  | approved flow scope key source requestId =>
    simp only [State.handle, Option.some.injEq, Prod.mk.injEq] at hHandle
    obtain ⟨rfl, hDone⟩ := hHandle
    rw [← finish_done hDone] at hBytes
    dsimp only at hBytes
    split at hBytes
    · rename_i hReturn
      unfold State.readValue GrantTable.lookup at hBytes
      cases hLookup : st.grants.lookupGrant scope key r.t0 with
      | none =>
        rw [hLookup] at hBytes
        cases hBytes
      | some g =>
        rw [hLookup] at hBytes
        exact ⟨rfl, flow, scope, key, source, requestId, g, rfl, hReturn, hLookup, Outcome.bytes.inj hBytes⟩
    · unfold State.grantedFields at hBytes
      split at hBytes <;> cases hBytes
  | minting =>
    -- AUTHORIZE never carries a secret this far
    have hNot := hPlace.2.1 value
    simp only [State.handle, Option.some.injEq, Prod.mk.injEq, Task.done.injEq] at hHandle
    obtain ⟨-, rfl⟩ := hHandle
    unfold State.finishAuthorization at hBytes
    split at hBytes
    · split at hBytes
      · dsimp only at hBytes
        split at hBytes
        · cases hBytes
        · rename_i e _
          cases e <;> cases hBytes
      · cases hBytes
    · exact absurd hBytes hNot
  | done => cases hHandle

end

end Forward.Secrets

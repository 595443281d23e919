import Forward.Harness.Anchors

/-!
# What the omp extension believes about its anchor

An UNREGISTER names a session, not a token. As long as three things hold, the current anchor's
belief is right and nothing of a retired anchor is left at the broker:

* `Own` — no message of a retired anchor is handled while the broker has the live anchor under the
  same session id, as after a re-key to another id and back (`rekey_there_and_back`).
* `Undropped` — a shutdown that completes takes no other anchor with it that is registered and not
  itself being shut down.
* `Removes` — the token file of a registered anchor that is retired can be removed.
-/

namespace Forward.Harness.Omp

open Lib Secrets

namespace Sys

/-! ## Conditions -/

def Quiet (s : Sys) : Prop := ∀ p task, s.tasks p = some task → task.done = true

def Own (s : Sys) : Action → Prop
  | .serve p => ∀ x a c b, (s.tasks p).bind Task.sender = some x → s.shared.anchors x = some a →
      s.shared.Live c → c ≠ x → s.shared.anchors c = some b →
      b.token ∉ s.broker.tokensOf a.ownerSessionId
  | _ => True

def Undropped (s : Sys) : Action → Prop
  | .turn p _ ok => ∀ x answer c b, s.tasks p = some (.closing x (.line (some answer))) →
      ok = true → s.shared.Live c → c ≠ x → s.shared.anchors c = some b → b.registered = false
  | _ => True

def Removes (s : Sys) : Action → Prop
  | .event _ _ (.reKey _ _ _ removed) _ =>
    ∀ c, s.shared.current = some c → s.shared.isRegistered c = true → removed = true
  | .turn p _ ok => ∀ x answer, s.tasks p = some (.closing x (.line (some answer))) →
      s.shared.current = some x → ok = true
  | _ => True

/-! ## Messages -/

section

variable {s : Sys} {p x : Nat} {a : Anchor} {task : Task} {root : Peer}

variable {broker : Broker}

theorem Sound.tell {account : Option Nat} (h : s.Sound none none)
    (hWF : broker.registry.WF) (hInstance : broker.instanceId = s.broker.instanceId)
    (hKept : ∀ y b, s.shared.Live y → s.shared.anchors y = some b →
      b.token ∈ s.broker.tokensOf b.ownerSessionId → b.token ∈ broker.tokensOf b.ownerSessionId)
    (hNew : ∀ session token, token ∈ broker.tokensOf session →
      token ∈ s.broker.tokensOf session ∨
        ∃ y b, s.shared.anchors y = some b ∧ b.token = token ∧ b.ownerSessionId = session ∧
          account = some y) :
    Sound { s with broker := broker } account none := by
  have hFits : ∀ task, s.Fits task → Fits { s with broker := broker } task := by
    intro task hTask
    cases task with
    | probing => exact fun id hEq => (hTask id hEq).trans hInstance.symm
    | joining | settling | settled | gating => exact hTask
    | registering y =>
      obtain ⟨hKnown, hHeard, hAnswer⟩ := hTask
      refine ⟨hKnown, fun id hEq => (hHeard id hEq).trans hInstance.symm, ?_⟩
      intro answer hCall hOk hLive b hB
      exact hKept y b hLive hB (hAnswer answer hCall hOk hLive b hB)
    | compensating | closing | rekeying =>
      exact ⟨hTask.1, fun id hEq => (hTask.2 id hEq).trans hInstance.symm⟩
    | requesting =>
      exact ⟨hTask.1, fun id hEq => (hTask.2.1 id hEq).trans hInstance.symm, hTask.2.2⟩
    | finished => trivial
  refine ⟨hWF, h.minted, h.distinct, ?_, h.current, ?_, h.promised,
    fun q task hTask => hFits task (h.tasks q task hTask), ?_, ?_⟩
  · intro session token hMem
    rcases hNew session token hMem with hOld | ⟨y, b, hB, hToken, hOwner, -⟩
    · exact h.entries session token hOld
    · exact ⟨y, b, hB, hToken, hOwner⟩
  · exact fun y b id hB hEq => (h.seen y b id hB hEq).trans hInstance.symm
  · exact fun y b hLive hB hRegistered => hKept y b hLive hB (h.held y b hLive hB hRegistered)
  · intro y b hB hMem
    rcases hNew _ _ hMem with hOld | ⟨z, b', hB', hToken, -, hAccount⟩
    · rcases h.accounted y b hB hOld with hBelieved | hNone | hTask
      · exact .inl hBelieved
      · cases hNone
      · exact .inr (.inr hTask)
    · -- tokens are told apart, so it is the anchor that is excused
      obtain rfl := h.distinct z y b' b hB' hB hToken
      exact .inr (.inl hAccount)

theorem Sound.handle {message : Message} {account : Option Nat} (h : s.Sound none none)
    (hAnchor : s.shared.anchors x = some a) (hMessage : message.session = some a.ownerSessionId)
    (hOwn : ∀ c b, s.shared.Live c → c ≠ x → s.shared.anchors c = some b →
      b.token ∉ s.broker.tokensOf a.ownerSessionId)
    (hMine : s.shared.Live x → a.token ∈ s.broker.tokensOf a.ownerSessionId →
      a.token ∈ (s.broker.handle root true message).1.tokensOf a.ownerSessionId)
    (hNew : ∀ token, token ∈ (s.broker.handle root true message).1.tokensOf a.ownerSessionId →
      token ∈ s.broker.tokensOf a.ownerSessionId ∨ (token = a.token ∧ account = some x)) :
    Sound { s with broker := (s.broker.handle root true message).1 } account none := by
  have hOther : ∀ session, session ≠ a.ownerSessionId →
      (s.broker.handle root true message).1.tokensOf session = s.broker.tokensOf session := by
    intro session hNe
    refine Broker.handle_other ?_
    rw [hMessage]
    exact fun hEq => hNe (Option.some.inj hEq).symm
  refine h.tell (Broker.handle_wf h.wf message) (Broker.handle_instanceId message) ?_ ?_
  · intro y b hLive hB hMem
    by_cases hSame : y = x
    · subst hSame
      obtain rfl := Option.mem_unique hAnchor hB
      exact hMine hLive hMem
    · rw [hOther]
      · exact hMem
      · intro hEq
        rw [hEq] at hMem
        exact hOwn y b hLive hSame hB hMem
  · intro session token hMem
    by_cases hSession : session = a.ownerSessionId
    · subst hSession
      rcases hNew token hMem with hOld | ⟨rfl, hAccount⟩
      · exact .inl hOld
      · exact .inr ⟨x, a, hAnchor, rfl, rfl, hAccount⟩
    · rw [hOther session hSession] at hMem
      exact .inl hMem

theorem Sound.unregister {old : Task} (h : s.Sound none none) (hTask : s.tasks p = some old)
    (hGone : s.Gone x) (hAnchor : s.shared.anchors x = some a)
    (hOwn : ∀ c b, s.shared.Live c → c ≠ x → s.shared.anchors c = some b →
      b.token ∉ s.broker.tokensOf a.ownerSessionId)
    (hFits : Fits { s with
      broker := (s.broker.handle root true (.unregister a.ownerSessionId)).1 } task)
    (hPromised : ∀ y, old.promised = some y → task.promised = some y)
    (hAccounts : ∀ y, old.accounts y → y = x)
    (hClosing : ∀ c call, old = .closing c call → ∃ call', task = .closing c call') :
    Sound { s with
      broker := (s.broker.handle root true (.unregister a.ownerSessionId)).1
      tasks := Function.update s.tasks p (some task) } none none := by
  have hNone : (s.broker.handle root true (.unregister a.ownerSessionId)).1.tokensOf
      a.ownerSessionId = [] := by
    rcases @Broker.handle_unregister root true s.broker a.ownerSessionId with ⟨-, hEmpty⟩ | hRefused
    · exact hEmpty
    · cases congrArg Prod.snd hRefused
  have hHandled : Sound { s with
      broker := (s.broker.handle root true (.unregister a.ownerSessionId)).1 } none none := by
    refine h.handle hAnchor rfl hOwn (fun hLive => absurd hLive hGone.2) ?_
    intro token hMem
    rw [hNone] at hMem
    cases hMem
  refine hHandled.move hFits ?_ ?_ ?_ nofun nofun
  · intro other y hOther hWho
    obtain rfl := Option.mem_unique hTask hOther
    exact hPromised y hWho
  · intro other y b hOther hWho hB hMem
    obtain rfl := Option.mem_unique hTask hOther
    obtain rfl := hAccounts y hWho
    obtain rfl := Option.mem_unique hAnchor hB
    have hEmpty : a.token ∈ ([] : List SessionToken) := hNone ▸ hMem
    cases hEmpty
  · intro c call hOther _
    obtain rfl := Option.mem_unique hTask hOther
    exact hClosing c call rfl

theorem called_cases {b : Broker} {message : Anchor → Message} {call : Call}
    {wrap : Call → Task} (h : ((s.shared.anchors x).bind fun anchor =>
      (b.serveCall root true (message anchor) call).map fun (b, call) => (b, wrap call)) =
        some (broker, task)) :
    ∃ a, s.shared.anchors x = some a ∧
      ((call = .hello none ∧ broker = b ∧ task = wrap (.hello (some b.instanceId))) ∨
        (call = .line none ∧ broker = (b.handle root true (message a)).1 ∧
          task = wrap (.line (some ⟨b.instanceId, (b.handle root true (message a)).2⟩)))) := by
  obtain ⟨a, hAnchor, hMap⟩ := Option.bind_eq_some_iff.mp h
  exact ⟨a, hAnchor, Broker.serveCall_cases hMap⟩

theorem serve_sound {task' : Task} (h : s.Sound none none)
    (hTask : s.tasks p = some task) (hOwn : s.Own (.serve p))
    (hServe : task.serve root s.shared s.broker = some (broker, task')) :
    Sound { s with broker := broker, tasks := Function.update s.tasks p (some task') }
      none none := by
  have hFits := h.tasks p task hTask
  have hOthers : ∀ x a, task.sender = some x → s.shared.anchors x = some a →
      ∀ c b, s.shared.Live c → c ≠ x → s.shared.anchors c = some b →
        b.token ∉ s.broker.tokensOf a.ownerSessionId := by
    intro x a hSender hAnchor c b
    refine hOwn x a c b ?_ hAnchor
    rw [hTask]
    exact hSender
  unfold Task.serve at hServe
  split at hServe
  · rename_i caller x
    cases hServe
    have hProbed : s.Fits (.probing caller x (some s.broker.instanceId)) :=
      fun id hEq => (Option.some.inj (Call.hello.inj hEq)).symm
    exact h.advance hTask hProbed nofun nofun nofun
  · rename_i x call
    obtain ⟨a, hAnchor, ⟨rfl, rfl, rfl⟩ | ⟨rfl, rfl, rfl⟩⟩ := called_cases hServe
    · have hHello : s.Fits (.registering x (.hello (some s.broker.instanceId))) :=
        ⟨hFits.1, fun id hEq => (Option.some.inj (Call.hello.inj hEq)).symm, nofun⟩
      exact h.advance hTask hHello (fun _ hWho => hWho) nofun nofun
    · rcases @Broker.handle_register root true s.broker a.token a.ownerSessionId h.wf with
        ⟨hOk, hTokens⟩ | hRefused
      · -- until the answer is read, its task accounts for the entry
        have hHandled : Sound { s with
            broker := (s.broker.handle root true (.register a.token a.ownerSessionId)).1 }
            (some x) none := by
          refine h.handle hAnchor rfl (hOthers x a rfl hAnchor) ?_ ?_
          · intro _ _
            rw [hTokens]
            exact List.mem_singleton_self _
          · intro token hMem
            rw [hTokens] at hMem
            exact .inr ⟨List.mem_singleton.mp hMem, rfl⟩
        refine hHandled.move ⟨hFits.1, nofun, ?_⟩ ?_ ?_ ?_ ?_ nofun
        · intro answer _ _ _ b hB
          obtain rfl := Option.mem_unique hAnchor hB
          show a.token ∈ (s.broker.handle root true _).1.tokensOf a.ownerSessionId
          rw [hTokens]
          exact List.mem_singleton_self _
        · intro other y hOther hWho
          obtain rfl := Option.mem_unique hTask hOther
          exact hWho
        · intro other y b hOther hWho
          obtain rfl := Option.mem_unique hTask hOther
          cases hWho
        · intro c call hOther
          cases hTask.symm.trans hOther
        · intro y hEq
          exact ⟨Option.some.inj hEq, hOk⟩
      · rw [hRefused]
        have hOther : s.Fits (.registering x (.line (some ⟨s.broker.instanceId, .other⟩))) := by
          refine ⟨hFits.1, nofun, ?_⟩
          intro answer hEq hOk
          obtain rfl := Option.some.inj (Call.line.inj hEq)
          cases hOk
        exact h.advance hTask hOther (fun _ hWho => hWho) nofun nofun
  · rename_i x call
    obtain ⟨a, hAnchor, ⟨rfl, rfl, rfl⟩ | ⟨rfl, rfl, rfl⟩⟩ := called_cases hServe
    · have hHello : s.Fits (.compensating x (.hello (some s.broker.instanceId))) :=
        ⟨hFits.1, fun id hEq => (Option.some.inj (Call.hello.inj hEq)).symm⟩
      exact h.advance hTask hHello (fun _ hWho => hWho) (fun y hWho => ⟨hWho.1, nofun⟩) nofun
    · exact h.unregister hTask hFits.1 hAnchor (hOthers x a rfl hAnchor) ⟨hFits.1, nofun⟩
        (fun _ hWho => hWho) (fun y hWho => hWho.1.symm) nofun
  · rename_i x again call
    obtain ⟨a, hAnchor, ⟨rfl, rfl, rfl⟩ | ⟨rfl, rfl, rfl⟩⟩ := called_cases hServe
    · have hHello : s.Fits (.requesting x again (.hello (some s.broker.instanceId))) :=
        ⟨hFits.1, fun id hEq => (Option.some.inj (Call.hello.inj hEq)).symm, nofun⟩
      exact h.advance hTask hHello nofun nofun nofun
    · have hAnswered : s.Fits (.requesting x again (.line (some ⟨s.broker.instanceId,
          (s.broker.handle root true (.request a.token)).2⟩))) := by
        refine ⟨hFits.1, nofun, ?_⟩
        intro answer hEq hUnknown hLive
        obtain rfl := Option.some.inj (Call.line.inj hEq)
        -- a live anchor is registered, and the broker has what it believes
        have hHeld := h.held x a hLive hAnchor (hFits.1.2 hLive a hAnchor)
        exact Broker.handle_request_known hUnknown _ hHeld
      rw [Broker.handle_request]
      exact h.advance hTask hAnswered nofun nofun nofun
  · rename_i x next call
    obtain ⟨a, hAnchor, ⟨rfl, rfl, rfl⟩ | ⟨rfl, rfl, rfl⟩⟩ := called_cases hServe
    · have hHello : s.Fits (.rekeying x next (.hello (some s.broker.instanceId))) :=
        ⟨hFits.1, fun id hEq => (Option.some.inj (Call.hello.inj hEq)).symm⟩
      exact h.advance hTask hHello nofun (fun y hWho => ⟨hWho.1, nofun⟩) nofun
    · exact h.unregister hTask hFits.1 hAnchor (hOthers x a rfl hAnchor) ⟨hFits.1, nofun⟩
        nofun (fun y hWho => hWho.1.symm) nofun
  · rename_i x call
    obtain ⟨a, hAnchor, ⟨rfl, rfl, rfl⟩ | ⟨rfl, rfl, rfl⟩⟩ := called_cases hServe
    · have hHello : s.Fits (.closing x (.hello (some s.broker.instanceId))) :=
        ⟨hFits.1, fun id hEq => (Option.some.inj (Call.hello.inj hEq)).symm⟩
      refine h.advance hTask hHello nofun (fun y hWho => ⟨hWho.1, nofun⟩) ?_
      intro c call hEq
      obtain ⟨rfl, -⟩ := Task.closing.inj hEq
      exact ⟨_, rfl⟩
    · refine h.unregister hTask hFits.1 hAnchor (hOthers x a rfl hAnchor) ⟨hFits.1, nofun⟩
        nofun (fun y hWho => hWho.1.symm) ?_
      intro c call hEq
      obtain ⟨rfl, -⟩ := Task.closing.inj hEq
      exact ⟨_, rfl⟩
  · cases hServe

end

/-! ## Tasks go on -/

section

variable {s : Sys} {p fresh : Nat} {task : Task}

theorem resume_sound {ok : Bool} {next : Next} (h : s.Sound none none)
    (hTask : s.tasks p = some task) (hFresh : fresh ≠ p ∧ s.tasks fresh = none)
    (hUndropped : s.Undropped (.turn p fresh ok)) (hRemoves : s.Removes (.turn p fresh ok))
    (hNext : s.shared.resume s.tasks fresh ok task = some next) :
    Sound (s.goOn p fresh next) none none := by
  have hFits := h.tasks p task hTask
  unfold Shared.resume at hNext
  split at hNext
  · -- the probe is answered
    rename_i id
    obtain rfl := Option.some.inj hNext
    obtain rfl : id = s.broker.instanceId := hFits id rfl
    exact probed_sound h.hear (idle_of_some hTask rfl nofun nofun) hFresh
  · rename_i caller x promise
    have hIdle : s.Idle p := idle_of_some hTask rfl nofun nofun
    obtain ⟨old, hOld, hWho⟩ := hFits
    split at hNext
    · rename_i y hSettled
      obtain rfl := Option.mem_unique hOld hSettled
      obtain rfl := Option.some.inj hWho
      obtain rfl := Option.some.inj hNext
      have hSure : s.Sure y := h.tasks promise _ hOld rfl
      have hFits : s.Fits (caller.resume y) := resume_fits hSure
      exact h.start hFits hIdle nofun nofun
    · obtain rfl := Option.some.inj hNext
      have hFits : s.Fits .finished := trivial
      exact h.start hFits hIdle nofun nofun
    · cases hNext
  · rename_i id
    obtain rfl := Option.some.inj hNext
    obtain rfl : id = s.broker.instanceId := hFits.2.1 id rfl
    have hKnown := (h.hear.tasks p _ hTask).1
    exact h.hear.advance hTask ⟨hKnown, nofun, nofun⟩ (fun _ hWho => hWho) nofun nofun
  · -- `then`
    rename_i x answer
    obtain ⟨hKnown, -, hAnswer⟩ := hFits
    split at hNext
    · rename_i hOk
      split at hNext
      · rename_i hLives
        have hLive := Shared.isLive_iff.mp hLives
        have hHas := hAnswer answer rfl hOk hLive
        obtain rfl := Option.some.inj hNext
        have hBelieved := h.believe hLive hHas
        obtain ⟨a, hAnchor⟩ := hKnown
        have hRegistered : ∀ b, (s.shared.update x fun a => { a with registered := true }).anchors x
            = some b → b.registered := by
          intro b hB
          rw [Shared.update_self hAnchor] at hB
          rw [← Option.some.inj hB]
        have hSure : Sure { s with
            shared := s.shared.update x fun a => { a with registered := true } } x :=
          ⟨⟨_, Shared.update_self hAnchor⟩, fun _ b hB => hRegistered b hB⟩
        have hStill : (s.shared.update x fun a => { a with registered := true }).Live x := by
          obtain ⟨hCurrent, b, hB, hAborted⟩ := hLive
          exact ⟨hCurrent, _, Shared.update_self hB, hAborted⟩
        have hSettling : Fits { s with
            shared := s.shared.update x fun a => { a with registered := true } }
            (.settling x true) := fun _ => hSure
        refine hBelieved.move hSettling ?_ ?_ ?_ nofun nofun
        · intro old y hOld hWho
          obtain rfl := Option.mem_unique hTask hOld
          exact hWho
        · intro old y b hOld hWho hB _
          obtain rfl := Option.mem_unique hTask hOld
          obtain ⟨rfl, -⟩ := hWho
          exact .inr ⟨hStill, hRegistered b hB⟩
        · intro c call hOld _
          cases hTask.symm.trans hOld
      · -- retired while REGISTER was on the wire
        rename_i hRetired
        obtain rfl := Option.some.inj hNext
        have hGone : s.Gone x := ⟨hKnown, fun hLive => hRetired (Shared.isLive_iff.mpr hLive)⟩
        have hFits : s.Fits (.compensating x (.hello none)) := ⟨hGone, nofun⟩
        exact h.advance hTask hFits (fun _ hWho => hWho) (fun y hWho => ⟨hWho.1, nofun⟩) nofun
    · rename_i hRefused
      obtain rfl := Option.some.inj hNext
      have hFits : s.Fits (.settling x false) := nofun
      exact h.advance hTask hFits (fun _ hWho => hWho)
        (fun y hWho => absurd hWho.2 hRefused) nofun
  · rename_i id
    obtain rfl := Option.some.inj hNext
    obtain rfl : id = s.broker.instanceId := hFits.2 id rfl
    have hGone := (h.hear.tasks p _ hTask).1
    exact h.hear.advance hTask ⟨hGone, nofun⟩ (fun _ hWho => hWho)
      (fun y hWho => ⟨hWho.1, nofun⟩) nofun
  · rename_i x answer
    obtain rfl := Option.some.inj hNext
    have hFits : s.Fits (.settling x false) := nofun
    exact h.advance hTask hFits (fun _ hWho => hWho) (fun y hWho => absurd rfl (hWho.2 _)) nofun
  · -- `finally`
    rename_i x result
    obtain rfl := Option.some.inj hNext
    have hCleared : Sound { s with
        shared := s.shared.update x fun anchor => { anchor with registration := none } }
        none none := h.promise nofun
    have hSettling := hCleared.tasks p _ hTask
    have hSettled : Fits { s with
        shared := s.shared.update x fun anchor => { anchor with registration := none } }
        (.settled x result) := hSettling
    exact hCleared.advance hTask hSettled (fun _ hWho => hWho) nofun nofun
  · rename_i x
    have hIdle : s.Idle p := idle_of_some hTask rfl nofun nofun
    split at hNext
    · obtain rfl := Option.some.inj hNext
      have hReq : s.Fits (.requesting x false (.hello none)) := ⟨hFits, nofun, nofun⟩
      exact h.start hReq hIdle nofun nofun
    · obtain rfl := Option.some.inj hNext
      have hDone : s.Fits .finished := trivial
      exact h.start hDone hIdle nofun nofun
  · rename_i id
    obtain rfl := Option.some.inj hNext
    obtain rfl : id = s.broker.instanceId := hFits.2.1 id rfl
    have hSure := (h.hear.tasks p _ hTask).1
    exact h.hear.advance hTask ⟨hSure, nofun, nofun⟩ nofun nofun nofun
  · -- a live anchor is not answered UNKNOWN_TOKEN
    rename_i answer
    split at hNext
    · rename_i hUnknown
      exact absurd (Shared.isLive_iff.mp hUnknown.2.2) (hFits.2.2 answer rfl hUnknown.1)
    · obtain rfl := Option.some.inj hNext
      have hDone : s.Fits .finished := trivial
      exact h.start hDone (idle_of_some hTask rfl nofun nofun) nofun nofun
  · rename_i id
    obtain rfl := Option.some.inj hNext
    obtain rfl : id = s.broker.instanceId := hFits.2 id rfl
    have hGone := (h.hear.tasks p _ hTask).1
    exact h.hear.advance hTask ⟨hGone, nofun⟩ nofun (fun y hWho => ⟨hWho.1, nofun⟩) nofun
  · rename_i answer
    obtain rfl := Option.some.inj hNext
    exact ensureRegistered_sound h
      (idle_of_some hTask rfl (fun y hWho => absurd rfl (hWho.2 answer)) nofun) hFresh
  · rename_i id
    obtain rfl := Option.some.inj hNext
    obtain rfl : id = s.broker.instanceId := hFits.2 id rfl
    have hGone := (h.hear.tasks p _ hTask).1
    refine h.hear.advance hTask ⟨hGone, nofun⟩ nofun (fun y hWho => ⟨hWho.1, nofun⟩) ?_
    intro c call hEq
    obtain ⟨rfl, -⟩ := Task.closing.inj hEq
    exact ⟨_, rfl⟩
  · -- the shutdown completes
    rename_i x answer
    split at hNext
    · rename_i hOk
      obtain rfl := Option.some.inj hNext
      have hFree : ∀ c a, s.shared.Live c → s.shared.anchors c = some a →
          a.registered = false := by
        intro c a hLive hAnchor
        refine hUndropped x answer c a hTask hOk hLive ?_ hAnchor
        rintro rfl
        exact hFits.1.2 hLive
      have hDone : Fits { s with shared := { s.shared with current := none } } .finished := trivial
      refine (h.drop hFree).start hDone ?_ nofun nofun
      intro other hOther
      obtain rfl := Option.mem_unique hTask hOther
      exact ⟨rfl, fun y hWho => absurd rfl (hWho.2 answer), fun _ _ _ => nofun⟩
    · rename_i hFailed
      obtain rfl := Option.some.inj hNext
      have hDone : s.Fits .finished := trivial
      refine h.start hDone ?_ nofun nofun
      intro other hOther
      obtain rfl := Option.mem_unique hTask hOther
      refine ⟨rfl, fun y hWho => absurd rfl (hWho.2 answer), ?_⟩
      intro c call hEq hCurrent
      obtain ⟨rfl, -⟩ := Task.closing.inj hEq
      exact hFailed (hRemoves x answer hTask hCurrent)
  · cases hNext

end

/-! ## Events -/

section

variable {s : Sys} {p fresh i x : Nat} {session : String} {file : Option SessionToken}

theorem Sound.mint {tokens : List SessionToken} (h : s.Sound none none) :
    Sound { s with minted := tokens ++ s.minted } none none :=
  ⟨h.wf, fun x a hAnchor => List.mem_append_right _ (h.minted x a hAnchor), h.distinct, h.entries,
    h.current, h.seen, h.promised, h.tasks, h.held, h.accounted⟩

theorem Sound.finish (h : s.Sound none none) (hTask : s.tasks p = none) :
    Sound { s with tasks := Function.update s.tasks p (some .finished) } none none := by
  have hDone : s.Fits .finished := trivial
  exact h.start hDone (idle_of_none hTask) nofun nofun

theorem createAnchor_sound {created : Shared} (h : s.Sound none none)
    (hNone : s.shared.current = none) (hNew : s.shared.anchors x = none)
    (hToken : ∀ token, file = some token → token ∉ s.minted)
    (hCreated : s.shared.createAnchor x session file = some created) :
    Sound { s with shared := created, minted := file.toList ++ s.minted } none none := by
  unfold Shared.createAnchor at hCreated
  split at hCreated
  · obtain ⟨token, rfl, rfl⟩ := Option.map_eq_some_iff.mp hCreated
    refine h.install _ hNew (hToken token rfl) ⟨rfl, rfl, rfl⟩ nofun ?_
    intro c a hCurrent
    cases hNone.symm.trans hCurrent
  · cases hCreated

theorem sessionStart_sound (h : s.Sound none none) (hTask : s.tasks p = none)
    (hFresh : fresh ≠ p ∧ s.tasks fresh = none) (hNew : s.shared.anchors x = none)
    (hToken : ∀ token, file = some token → token ∉ s.minted) :
    Sound ({ s with minted := file.toList ++ s.minted }.goOn p fresh
      (s.shared.sessionStart i fresh x session file)) none none := by
  unfold Shared.sessionStart
  simp only
  split
  · exact ensureRegistered_sound h.mint.instances (idle_of_none hTask) hFresh
  · rename_i hCurrent
    split
    · exact h.mint.instances.finish hTask
    · rename_i hCreated
      have hInstalled := createAnchor_sound h hCurrent hNew hToken hCreated
      exact ensureRegistered_sound hInstalled.instances (idle_of_none hTask) hFresh

theorem bash_sound (h : s.Sound none none) (hTask : s.tasks p = none)
    (hFresh : fresh ≠ p ∧ s.tasks fresh = none) :
    Sound (s.goOn p fresh (s.shared.bash fresh)) none none := by
  unfold Shared.bash
  cases s.shared.current with
  | none => exact h.finish hTask
  | some => exact ensureRegistered_sound h (idle_of_none hTask) hFresh

theorem secretsRequest_sound (h : s.Sound none none) (hTask : s.tasks p = none)
    (hFresh : fresh ≠ p ∧ s.tasks fresh = none) (hNew : s.shared.anchors x = none)
    (hToken : ∀ token, file = some token → token ∉ s.minted) :
    Sound ({ s with minted := file.toList ++ s.minted }.goOn p fresh
      (s.shared.secretsRequest i fresh x file)) none none := by
  unfold Shared.secretsRequest
  cases hCurrent : s.shared.current with
  | some => exact ensureRegistered_sound h.mint (idle_of_none hTask) hFresh
  | none =>
    simp only
    split
    · rename_i session _ _
      cases hCreated : s.shared.createAnchor x session file with
      | none => exact h.mint.finish hTask
      | some =>
        have hInstalled := createAnchor_sound h hCurrent hNew hToken hCreated
        exact ensureRegistered_sound hInstalled.instances (idle_of_none hTask) hFresh
    · exact h.mint.finish hTask

theorem rekeyed_sound (session : String) (account : Option Nat) {c : Nat} {previous : Anchor}
    {token : SessionToken} (h : s.Sound none none) (hNew : s.shared.anchors x = none) (hToken : token ∉ s.minted)
    (hCurrent : s.shared.current = some c) (hPrevious : s.shared.anchors c = some previous)
    (hAccount : previous.registered → account = some c) :
    Sound { s with
      shared := s.shared.rekeyed c x previous session token
      minted := token :: s.minted } account none ∧
    Gone { s with
      shared := s.shared.rekeyed c x previous session token
      minted := token :: s.minted } c := by
  have hNe : c ≠ x := by
    rintro rfl
    cases hNew.symm.trans hPrevious
  have hOther : ¬ some x = some c := fun hEq => hNe (Option.some.inj hEq).symm
  refine ⟨?_, ?_, ?_⟩
  · have hLeft : ∀ d a, s.shared.current = some d → s.shared.anchors d = some a →
        a.registered → account = some d := by
      intro d a hD hA hRegistered
      obtain rfl := Option.mem_unique hCurrent hD
      obtain rfl := Option.mem_unique hPrevious hA
      exact hAccount hRegistered
    have hInstalled := h.install
      { previous with
        ownerSessionId := session, token := token, registered := false, registration := none,
        aborted := false }
      hNew hToken ⟨rfl, rfl, rfl⟩ (h.seen c previous · hPrevious) hLeft
    exact hInstalled.abort account none (fun _ hEq => hEq) fun a hMine => absurd hMine hOther
  · exact ⟨_, Shared.update_self (update_some_of_ne hNe hPrevious)⟩
  · rintro ⟨hMine, -⟩
    exact hOther hMine

theorem reKey_sound {removed : Bool} (h : s.Sound none none) (hTask : s.tasks p = none)
    (hFresh : fresh ≠ p ∧ s.tasks fresh = none) (hNew : s.shared.anchors x = none)
    (hToken : ∀ token, file = some token → token ∉ s.minted)
    (hRemoves : ∀ c, s.shared.current = some c → s.shared.isRegistered c →
      removed) :
    Sound ({ s with minted := file.toList ++ s.minted }.goOn p fresh
      (s.shared.reKeyOnSessionIdChange i fresh x session file removed)) none none := by
  unfold Shared.reKeyOnSessionIdChange
  split
  · rename_i c _ hCurrent
    split
    · rename_i previous token hPrevious
      split
      · exact h.mint.finish hTask
      · have hRemoved : previous.registered = true → removed = true := fun hRegistered =>
          hRemoves c hCurrent (Shared.isRegistered_iff.mpr ⟨previous, hPrevious, hRegistered⟩)
        by_cases hRegistered : previous.registered
        · obtain ⟨hRekeyed, hGone⟩ := rekeyed_sound session (some c) h hNew (hToken token rfl)
            hCurrent hPrevious fun _ => rfl
          rw [hRemoved hRegistered, if_pos rfl, if_pos hRegistered]
          refine hRekeyed.start ⟨hGone, nofun⟩ (idle_of_none hTask) ?_ nofun
          exact fun y hEq => ⟨Option.some.inj hEq, nofun⟩
        · obtain ⟨hRekeyed, -⟩ := rekeyed_sound session none h hNew (hToken token rfl)
            hCurrent hPrevious fun hTrue => absurd hTrue hRegistered
          cases removed with
          | true =>
            rw [if_pos rfl, if_neg hRegistered]
            exact ensureRegistered_sound hRekeyed (idle_of_none hTask) hFresh
          | false => exact hRekeyed.finish hTask
    · exact h.mint.finish hTask
  · exact h.mint.finish hTask

theorem sessionShutdown_sound {removed : Bool} (h : s.Sound none none)
    (hTask : s.tasks p = none) :
    Sound (s.goOn p fresh (s.shared.sessionShutdown i removed)) none none := by
  have hEnded : Sound { s with
      shared := { s.shared with
        instances := Function.update s.shared.instances i
          { s.shared.instances i with requestAborted := true } } } none none := h.instances
  unfold Shared.sessionShutdown
  simp only
  split
  · rename_i c _ hCurrent
    split
    · -- the UNREGISTER is still to come
      rename_i hRegistered
      obtain ⟨a, hAnchor, -⟩ := Shared.isRegistered_iff.mp hRegistered
      have hAborted := hEnded.abort (x := c) (some c) (some c) nofun fun _ _ _ _ => ⟨rfl, rfl⟩
      refine hAborted.start ⟨⟨⟨_, Shared.update_self hAnchor⟩, ?_⟩, nofun⟩ (idle_of_none hTask)
        (fun y hEq => ⟨Option.some.inj hEq, nofun⟩) ?_
      · rintro ⟨-, b, hB, hLive⟩
        rcases Shared.update_cases hB with ⟨-, old, -, rfl⟩ | ⟨hNe, -⟩
        · cases hLive
        · exact hNe rfl
      · rintro y hEq
        cases hEq
        exact ⟨_, rfl⟩
    · rename_i hUnregistered
      have hFalse : ∀ d a, s.shared.current = some d → s.shared.anchors d = some a →
          ¬ a.registered := by
        intro d a hD hAnchor hTrue
        obtain rfl := Option.mem_unique hCurrent hD
        exact hUnregistered (Shared.isRegistered_iff.mpr ⟨a, hAnchor, hTrue⟩)
      split
      · have hDropped := hEnded.drop fun d a hLive hAnchor =>
          eq_false_of_ne_true (hFalse d a hLive.1 hAnchor)
        have hAborted := hDropped.abort (x := c) none none nofun nofun
        exact hAborted.finish hTask
      · have hAborted := hEnded.abort (x := c) none none nofun
          fun a hMine hAnchor hTrue => absurd hTrue (hFalse c a hMine hAnchor)
        exact hAborted.finish hTask
  · exact hEnded.finish hTask

theorem event_sound {event : Event} (h : s.Sound none none) (hTask : s.tasks p = none)
    (hFresh : fresh ≠ p ∧ s.tasks fresh = none)
    (hAnchor : ∀ x, event.anchor = some x → s.shared.anchors x = none)
    (hToken : ∀ token, file = some token → token ∉ s.minted)
    (hRemoves : s.Removes (.event p fresh event file)) :
    Sound ({ s with minted := file.toList ++ s.minted }.goOn p fresh
      (event.next s.shared fresh file)) none none := by
  cases event with
  | sessionStart i x =>
    exact sessionStart_sound h hTask hFresh (hAnchor x rfl) hToken
  | bash => exact bash_sound h.mint hTask hFresh
  | secretsRequest i x => exact secretsRequest_sound h hTask hFresh (hAnchor x rfl) hToken
  | reKey i x =>
    exact reKey_sound h hTask hFresh (hAnchor x rfl) hToken hRemoves
  | sessionShutdown => exact sessionShutdown_sound h.mint hTask

end

/-! ## Whole runs -/

section

variable {root : Peer} {s t : Sys} {a : Action}

theorem sound_step (h : s.Sound none none) (hOwn : s.Own a) (hUndropped : s.Undropped a)
    (hRemoves : s.Removes a) (hMove : s.Move root a t) : t.Sound none none := by
  cases hMove with
  | event hTask hFresh hAnchor hToken =>
    exact event_sound h hTask hFresh hAnchor hToken hRemoves
  | serve hTask hServe => exact serve_sound h hTask hOwn hServe
  | turn hTask hFresh hNext => exact resume_sound h hTask hFresh hUndropped hRemoves hNext
  | cancel hTask =>
    have hDone : s.Fits .finished := trivial
    exact h.start hDone (idle_of_some hTask rfl nofun nofun) nofun nofun

theorem sound_run {bootId : String}
    (hRun : Path (omp root bootId) (fun s a => s.Own a ∧ s.Undropped a ∧ s.Removes a)
      (omp root bootId).init s) : s.Sound none none := by
  refine Path.invariant (I := fun s => s.Sound none none) ?_ hRun ?_
  · intro x a y hx hOk hStep
    exact sound_step hx hOk.1 hOk.2.1 hOk.2.2 (omp_move hStep)
  · -- no anchor, no task, and nothing at the broker
    have hNoAnchor : ∀ {x a}, (omp root bootId).init.shared.anchors x ≠ some a := by
      intro x a hAnchor
      cases hAnchor
    refine ⟨⟨List.nodup_nil, List.nodup_nil⟩, ?_, ?_, ?_, ?_, ?_, ?_, ?_, ?_, ?_⟩
    · exact fun x a hAnchor => absurd hAnchor hNoAnchor
    · exact fun x y a b hAnchor => absurd hAnchor hNoAnchor
    · intro session token hMem
      cases hMem
    · intro c hCurrent
      cases hCurrent
    · exact fun x a id hAnchor => absurd hAnchor hNoAnchor
    · exact fun x a q hAnchor => absurd hAnchor hNoAnchor
    · intro q task hTask
      cases hTask
    · exact fun x a _ hAnchor => absurd hAnchor hNoAnchor
    · exact fun x a hAnchor => absurd hAnchor hNoAnchor

end

end Sys

/-- **The extension's belief about its anchor.** Nothing is under way. A current
anchor that is `registered` has its token at the broker, and the broker has no
token of an anchor that is not the current one. -/
theorem anchor_belief (root : Peer) (bootId : String) (s : Sys)
    (hRun : Path (omp root bootId) (fun s a => s.Own a ∧ s.Undropped a ∧ s.Removes a)
      (omp root bootId).init s) (hQuiet : s.Quiet) :
    (∀ x anchor, s.shared.current = some x → s.shared.anchors x = some anchor →
      anchor.registered = true →
      (s.broker.registry.registration anchor.token).isSome = true) ∧
    ∀ x anchor, s.shared.anchors x = some anchor → s.shared.current ≠ some x →
      s.broker.registry.registration anchor.token = none := by
  have hSound := Sys.sound_run hRun
  refine ⟨?_, ?_⟩
  · intro x anchor hCurrent hAnchor hRegistered
    have hLive : s.shared.Live x := by
      refine ⟨hCurrent, anchor, hAnchor, ?_⟩
      obtain ⟨b, hB, hLeaving⟩ := hSound.current x hCurrent
      obtain rfl := Option.mem_unique hAnchor hB
      by_contra hAborted
      rcases hLeaving (by simpa using hAborted) hRegistered with hNone | ⟨p, call, hTask⟩
      · cases hNone
      · cases hQuiet p _ hTask
    have hHeld := hSound.held x anchor hLive hAnchor hRegistered
    exact Broker.registration_isSome.mpr ⟨anchor.ownerSessionId, hHeld⟩
  · intro x anchor hAnchor hRetired
    by_contra hThere
    obtain ⟨session, hMem⟩ := Broker.registration_isSome.mp
      (Option.isSome_iff_ne_none.mpr hThere)
    obtain ⟨y, b, hB, hToken, hOwner⟩ := hSound.entries session anchor.token hMem
    obtain rfl := hSound.distinct y x b anchor hB hAnchor hToken
    obtain rfl := Option.mem_unique hAnchor hB
    rw [← hOwner] at hMem
    rcases hSound.accounted y anchor hAnchor hMem with ⟨hLive, -⟩ | hNone | ⟨p, task, hTask, hWho⟩
    · exact hRetired hLive.1
    · cases hNone
    · -- whoever accounts for the entry is not done
      have hDone := hQuiet p task hTask
      cases task with
      | settled | finished => exact hWho
      | _ => cases hDone

/-! ## A session id that changes -/

def numbered (x : UInt8) : SessionToken := ⟨List.replicate 32 x, rfl⟩

def startA : List Action :=
  [.event 0 1 (.sessionStart 0 0 "A") (some (numbered 0)), .serve 1, .turn 1 9 true, .serve 1,
    .turn 1 9 true, .turn 1 9 true, .turn 0 9 true]

/-- The session id changes, and the old one is unregistered before the new one is
registered. -/
def reKeyToB : List Action :=
  [.event 2 9 (.reKey 0 1 "B" true) (some (numbered 1)), .serve 2, .turn 2 9 true, .serve 2,
    .turn 2 3 true, .serve 3, .turn 3 9 true, .serve 3, .turn 3 9 true, .turn 3 9 true,
    .turn 2 9 true]

/-- The session id changes and changes back at once. The third anchor, whose
predecessor was never registered, does not wait for the first one's UNREGISTER. -/
def reKeyToBAndBack : List Action :=
  [.event 2 9 (.reKey 0 1 "B" true) (some (numbered 1)),
    .event 3 4 (.reKey 0 2 "A" true) (some (numbered 2)), .serve 4, .turn 4 9 true, .serve 4,
    .turn 4 9 true, .turn 4 9 true, .turn 3 9 true,
    .serve 2, .turn 2 9 true, .serve 2, .turn 2 9 true]

def Sys.Small (s : Sys) : Prop := ∀ p, 10 ≤ p → s.tasks p = none

theorem Sys.Small.step {root : Peer} {bootId : String} {s t : Sys} {a : Action} (h : s.Small)
    (hNumbers : (a.numbers.all fun p => p < 10) = true)
    (hStep : (omp root bootId).step s a = some t) : t.Small := by
  intro p hp
  refine (omp_move hStep).absent ?_ (h p hp)
  intro hMem
  have hBelow := of_decide_eq_true (List.all_eq_true.mp hNumbers p hMem)
  omega

/-- No shutdown, and no message of one anchor while the other is registered as the same
session. -/
def Sys.reKeys (s : Sys) (a : Action) : Bool :=
  (a.numbers.all fun p => p < 10) &&
    match a with
    | .event _ _ (.reKey _ _ _ removed) _ => removed
    | .turn p _ _ =>
      match s.tasks p with
      | some (.closing _ _) => false
      | _ => true
    | .serve p =>
      ((s.tasks p).bind Task.sender).all fun x => s.shared.current.all fun c =>
        decide (c = x) || (s.shared.anchors x).all fun a => (s.shared.anchors c).all fun b =>
          decide (b.token ∉ s.broker.tokensOf a.ownerSessionId)
    | _ => true

theorem anchor_belief_rekey :
    ∃ s, Path (omp ⟨0⟩ "boot") (fun s a => s.Own a ∧ s.Undropped a ∧ s.Removes a)
        (omp ⟨0⟩ "boot").init s ∧ s.Quiet ∧ s.shared.current = some 1 ∧
      (s.broker.registry.registration (numbered 1)).isSome = true ∧
      s.broker.registry.registration (numbered 0) = none := by
  let sys := omp ⟨0⟩ "boot"
  have hReplay : (((sys.guard Sys.reKeys).run sys.init (startA ++ reKeyToB)).map fun s =>
      decide (s.shared.current = some 1) &&
        ((s.shared.anchors 1).any fun a => a.registered && decide (a.token = numbered 1)) &&
        ((s.shared.anchors 0).any fun a => decide (a.token = numbered 0)) &&
        ((List.range 10).all fun p => (s.tasks p).all Task.done)) = some true := by
    decide +kernel
  obtain ⟨s, hChecked, hSeen⟩ := Path.of_replay hReplay
  simp only [Bool.and_eq_true, decide_eq_true_eq, Option.any_eq_true] at hSeen
  obtain ⟨⟨⟨hCurrent, new, hNew, hRegistered, hTokenNew⟩, old, hOld, hTokenOld⟩, hDone⟩ := hSeen
  have hSmall : s.Small := by
    refine hChecked.invariant (I := Sys.Small) ?_ fun _ _ => rfl
    intro x a y hx hCheck hStep
    simp only [Sys.reKeys, Bool.and_eq_true] at hCheck
    exact hx.step hCheck.1 hStep
  have hPath : Path sys (fun s a => s.Own a ∧ s.Undropped a ∧ s.Removes a) sys.init s := by
    refine hChecked.mono fun x a hCheck => ?_
    simp only [Sys.reKeys, Bool.and_eq_true] at hCheck
    obtain ⟨-, hCase⟩ := hCheck
    cases a with
    | event p fresh event =>
      refine ⟨trivial, trivial, ?_⟩
      cases event with
      | reKey => exact fun _ _ _ => hCase
      | _ => trivial
    | serve =>
      refine ⟨?_, trivial, trivial⟩
      intro y a c b hSender hAnchor hLive hNe hB
      simp only [hSender, hLive.1, hAnchor, hB, Option.all_some, Bool.or_eq_true,
        decide_eq_true_eq] at hCase
      exact hCase.resolve_left hNe
    | turn =>
      refine ⟨trivial, ?_, ?_⟩
      · intro y answer c b hTask
        simp only [hTask] at hCase
        cases hCase
      · intro y answer hTask
        simp only [hTask] at hCase
        cases hCase
    | cancel => exact ⟨trivial, trivial, trivial⟩
  have hQuiet : s.Quiet := forall_of_range hSmall hDone
  obtain ⟨hBelieved, hRetired⟩ := anchor_belief ⟨0⟩ "boot" s hPath hQuiet
  have hOther : s.shared.current ≠ some 0 := by
    rw [hCurrent]
    decide
  exact ⟨s, hPath, hQuiet, hCurrent, hTokenNew ▸ hBelieved 1 new hCurrent hNew hRegistered,
    hTokenOld ▸ hRetired 0 old hOld hOther⟩

/-- **There and back.** The session id changes from A to B and back while the first anchor's
UNREGISTER is on its way. It is handled after the third anchor's REGISTER, and removes it: in the
end the third anchor is `registered`, but its token is unknown to the broker. -/
theorem rekey_there_and_back :
    ∃ s anchor, Reachable (omp ⟨0⟩ "boot") s ∧ s.Quiet ∧ s.shared.current = some 2 ∧
      s.shared.anchors 2 = some anchor ∧ anchor.registered = true ∧
      s.broker.registry.registration anchor.token = none := by
  let sys := omp ⟨0⟩ "boot"
  let check : Sys → Action → Bool := fun _ a => a.numbers.all fun p => p < 10
  have hReplay : (((sys.guard check).run sys.init (startA ++ reKeyToBAndBack)).map fun s =>
      decide (s.shared.current = some 2) &&
        ((s.shared.anchors 2).any fun a =>
          a.registered && (s.broker.registry.registration a.token).isNone) &&
        ((List.range 10).all fun p => (s.tasks p).all Task.done)) = some true := by
    decide +kernel
  obtain ⟨s, hChecked, hSeen⟩ := Path.of_replay hReplay
  simp only [Bool.and_eq_true, decide_eq_true_eq, Option.any_eq_true,
    Option.isNone_iff_eq_none] at hSeen
  obtain ⟨⟨hCurrent, anchor, hAnchor, hRegistered, hUnknown⟩, hDone⟩ := hSeen
  have hSmall : s.Small := by
    refine hChecked.invariant (I := Sys.Small) ?_ fun _ _ => rfl
    exact fun x a y hx hCheck hStep => hx.step hCheck hStep
  exact ⟨s, anchor, hChecked.forget, forall_of_range hSmall hDone, hCurrent, hAnchor, hRegistered,
    hUnknown⟩

end Forward.Harness.Omp

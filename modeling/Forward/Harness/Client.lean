import Forward.Secrets.Grants

/-!
# The broker as the harness plugins reach it

`BrokerClient` of the OpenCode plugin. A command is two connections: a HELLO, whose answer names
the daemon process, and the command itself. The broker handles one message at a time on its
`Registry`; a restart is a new instance with an empty registry. An answer remembers which instance
gave it, which the plugins do not see.
-/

namespace Forward.Harness

open Lib Secrets

def validSessionID (session : String) : Bool :=
  match session.toList with
  | [] => false
  | first :: rest =>
    first.isAlphanum && decide (rest.length ≤ 127) &&
      rest.all fun c => c.isAlphanum || c == '_' || c == '-'

inductive Message
  | register (token : SessionToken) (session : String)
  | unregister (session : String)
  | request (token : SessionToken)

def Message.session : Message → Option String
  | .register _ session | .unregister session => some session
  | .request _ => none

inductive Reply
  | ok
  | unknownToken
  | other
  deriving DecidableEq

structure Answer where
  giver : Nat
  reply : Reply

/-- Where a `command` stands: each of its two lines is sent, then answered. -/
inductive Call
  | hello (answer : Option Nat)
  | line (answer : Option Answer)

/-! ## The broker -/

structure Broker where
  instanceId : Nat
  registry : Registry

namespace Broker

/-- One message; a connection may also be turned away before it is read. -/
def handle (root : Peer) (accepted : Bool) (b : Broker) : Message → Broker × Reply
  | .register token session =>
    if accepted then
      match b.registry.register ⟨token, session, root⟩ with
      | (registry, .ok _) => ({ b with registry := registry }, .ok)
      | (registry, .error _) => ({ b with registry := registry }, .other)
    else (b, .other)
  | .unregister session =>
    if accepted then ({ b with registry := (b.registry.unregister session).1 }, .ok)
    else (b, .other)
  | .request token =>
    if accepted && (b.registry.registration token).isNone then (b, .unknownToken) else (b, .other)

def restart (b : Broker) : Broker := ⟨b.instanceId + 1, Registry.new b.registry.bootId⟩

/-- The broker reads the line that a call waits on. -/
def serveCall (root : Peer) (accepted : Bool) (b : Broker) (message : Message) :
    Call → Option (Broker × Call)
  | .hello none => some (b, .hello (some b.instanceId))
  | .line none =>
    some ((b.handle root accepted message).1,
      .line (some ⟨b.instanceId, (b.handle root accepted message).2⟩))
  | _ => none

def tokensOf (b : Broker) (session : String) : List SessionToken :=
  (b.registry.sessions.filter fun e => e.session == session).map (·.token)

variable {root : Peer} {accepted : Bool} {b : Broker} {token : SessionToken} {session other : String}

theorem mem_tokensOf : token ∈ b.tokensOf session ↔
    ∃ e ∈ b.registry.sessions, e.session = session ∧ e.token = token := by
  simp only [tokensOf, List.mem_map, List.mem_filter, beq_iff_eq]
  constructor
  · rintro ⟨e, ⟨he, hSession⟩, hToken⟩
    exact ⟨e, he, hSession, hToken⟩
  · rintro ⟨e, he, hSession, hToken⟩
    exact ⟨e, ⟨he, hSession⟩, hToken⟩

theorem registration_isSome :
    (b.registry.registration token).isSome ↔ ∃ session, token ∈ b.tokensOf session := by
  simp only [Registry.registration, List.find?_isSome, beq_iff_eq, mem_tokensOf]
  constructor
  · rintro ⟨e, he, hToken⟩
    exact ⟨e.session, e, he, rfl, hToken⟩
  · rintro ⟨_, e, he, -, hToken⟩
    exact ⟨e, he, hToken⟩

/-! ### Messages -/

theorem handle_register (hWF : b.registry.WF) :
    ((b.handle root accepted (.register token session)).2 = .ok ∧
      (b.handle root accepted (.register token session)).1.tokensOf session = [token]) ∨
    b.handle root accepted (.register token session) = (b, .other) := by
  cases accepted with
  | false => exact .inr rfl
  | true =>
    rcases b.registry.register_cases ⟨token, session, root⟩ with
      ⟨⟨e, he, hToken, hSession⟩, hEq⟩ | hEq | ⟨-, hEq⟩
    · -- the token is the session's own already, and the session has one entry
      have hOnly := filter_eq_singleton hWF.sessions he
      refine .inl ?_
      simp only [handle, hEq, if_true, true_and]
      simp only at hToken hSession
      simp only [tokensOf, ← hSession, beq_eq_decide, hOnly, List.map_singleton, hToken]
    · refine .inr ?_
      simp only [handle, hEq, if_true]
    · refine .inl ?_
      simp only [handle, hEq, if_true, true_and]
      simp [tokensOf, List.filter_append, List.filter_filter]

theorem handle_unregister :
    ((b.handle root accepted (.unregister session)).2 = .ok ∧
      (b.handle root accepted (.unregister session)).1.tokensOf session = []) ∨
    b.handle root accepted (.unregister session) = (b, .other) := by
  cases accepted with
  | false => exact .inr rfl
  | true =>
    refine .inl ⟨rfl, ?_⟩
    simp [handle, tokensOf, Registry.unregister, List.filter_filter]

theorem handle_request : (b.handle root accepted (.request token)).1 = b := by
  simp only [handle]
  split <;> rfl

theorem handle_request_known (h : (b.handle root accepted (.request token)).2 = .unknownToken) :
    ∀ session, token ∉ b.tokensOf session := by
  intro session hToken
  have hSome := registration_isSome.mpr ⟨session, hToken⟩
  simp only [handle] at h
  split at h
  · rename_i hNone
    simp only [Bool.and_eq_true, Option.isNone_iff_eq_none] at hNone
    rw [hNone.2] at hSome
    cases hSome
  · cases h

theorem handle_other {message : Message} (hOther : message.session ≠ some other) :
    (b.handle root accepted message).1.tokensOf other = b.tokensOf other := by
  cases message with
  | request => rw [handle_request]
  | unregister session =>
    have hNe : session ≠ other := fun h => hOther (by rw [h]; rfl)
    cases accepted with
    | false => rfl
    | true =>
      simp only [handle, if_true, tokensOf, Registry.unregister, List.filter_filter]
      refine congrArg _ (List.filter_congr fun e _ => ?_)
      by_cases h : e.session = other
      · simp [h, Ne.symm hNe]
      · simp [h]
  | register token session =>
    have hNe : session ≠ other := fun h => hOther (by rw [h]; rfl)
    cases accepted with
    | false => rfl
    | true =>
      rcases b.registry.register_cases ⟨token, session, root⟩ with ⟨-, hEq⟩ | hEq | ⟨-, hEq⟩
      · simp only [handle, hEq, if_true]
      · simp only [handle, hEq, if_true]
      · simp only [handle, hEq, if_true, tokensOf, List.filter_append, List.filter_filter]
        have hNew : ([⟨token, session, root⟩] : List Registration).filter
            (fun e => e.session == other) = [] := by simp [hNe]
        rw [hNew, List.append_nil]
        refine congrArg _ (List.filter_congr fun e _ => ?_)
        by_cases h : e.session = other
        · simp [h, Ne.symm hNe]
        · simp [h]

theorem handle_instanceId (message : Message) :
    (b.handle root accepted message).1.instanceId = b.instanceId := by
  cases message with
  | request => rw [handle_request]
  | unregister =>
    simp only [handle]
    split <;> rfl
  | register =>
    simp only [handle]
    split
    · split <;> rfl
    · rfl

theorem handle_wf (hWF : b.registry.WF) (message : Message) :
    (b.handle root accepted message).1.registry.WF := by
  cases message with
  | request =>
    rw [handle_request]
    exact hWF
  | unregister session =>
    simp only [handle]
    split
    · exact Registry.unregister_wf hWF session
    · exact hWF
  | register token session =>
    have hStep := Registry.register_wf hWF ⟨token, session, root⟩
    simp only [handle]
    split
    · split
      · rename_i hEq
        rw [hEq] at hStep
        exact hStep
      · rename_i hEq
        rw [hEq] at hStep
        exact hStep
    · exact hWF

theorem serveCall_cases {τ : Type} {task : Call → τ} {message : Message} {b' : Broker} {call : Call}
    {task' : τ} (h : (b.serveCall root accepted message call).map (fun (b, call) => (b, task call)) =
      some (b', task')) :
    (call = .hello none ∧ b' = b ∧ task' = task (.hello (some b.instanceId))) ∨
    (call = .line none ∧ b' = (b.handle root accepted message).1 ∧
      task' = task (.line (some ⟨b.instanceId, (b.handle root accepted message).2⟩))) := by
  unfold serveCall at h
  split at h
  · cases h
    exact .inl ⟨rfl, rfl, rfl⟩
  · cases h
    exact .inr ⟨rfl, rfl, rfl⟩
  · cases h

theorem restart_wf : b.restart.registry.WF := ⟨List.nodup_nil, List.nodup_nil⟩

end Broker

end Forward.Harness

import Mathlib.Logic.Relation
import Forward.Secrets.Machine
import Forward.Secrets.SingleFlight

/-!
# What a critical section can do

Every critical section of the broker is a sequence of primitive operations on the shared state.
`Micro` lists them, each with the check the section makes before it; `Chain` is a sequence of them.
An invariant that every `Micro` keeps is kept by every step of the broker, so later modules unfold
no section.

`Micro.insert` and `Micro.mint` have premises on where their arguments come from, which the places
of the worker and the handlers remember.
-/

namespace Forward.Secrets

open Lib

/-! ## Primitive operations -/

/-- The shared state, the worker's job and the latest clock reading. -/
structure Core where
  st : State
  job : Option Job
  clock : Nat

namespace Event

def isNote : Event → Bool
  | received .. | resolved .. | opened .. | decrypted .. | replaced .. => true
  | _ => false

def isStore : Event → Bool
  | opened .. | replaced .. => true
  | _ => false

def IsStart (e : Event) : Prop := ∃ job, e = started job

def isWork : Event → Bool
  | started .. | inserted .. | failed .. => true
  | _ => false

def isMint : Event → Bool
  | minted .. => true
  | _ => false

def isAnswer : Event → Bool
  | answered .. => true
  | _ => false

theorem not_isStart {e : Event} (h : e.isWork = false) : ¬ e.IsStart := by
  rintro ⟨job, rfl⟩
  cases h

end Event

/-- The job in hand is this one: it was started, and no other since. -/
def InHand (job : Job) (trail : List Event) : Prop :=
  Since Event.IsStart (fun e _ => e = .started job) trail

def Opened (job : Job) (file : OpenedHumanFile) (trail : List Event) : Prop :=
  Since Event.IsStart (fun e before => e = .opened job file ∧ InHand job before) trail

/-- The job in hand got this plaintext out of the ciphertext it opened. -/
def Decrypted (job : Job) (file : DecryptedHumanFile) (trail : List Event) : Prop :=
  Since Event.IsStart
    (fun e before => e = .decrypted job file ∧ Opened job ⟨file.source, file.identity⟩ before) trail

/-- Who runs a section: a handler, the worker's loop, its report on a job, or
the code that runs beside a sops child. REGISTER and UNREGISTER are `control`,
`mint` is an AUTHORIZE minting its receipt, and `reply` is a handler handing
out its answer. What happens without the lock is `outside`. -/
inductive Role
  | handler
  | control
  | mint
  | worker
  | report
  | callback
  | reply
  | outside
  deriving DecidableEq

inductive Micro (w : World) (role : Role) : Core → Core → Prop
  | wait {c : Core} {now : Nat} (hNow : c.clock ≤ now) : Micro w role c { c with clock := now }
  | note {c : Core} {e : Event} (hOut : e.isStore = true → role = .outside)
      (hNote : e.isNote = true) : Micro w role c { c with st := c.st.emit e }
  | began {c : Core} (h : Nat) (cap : Capability) :
      Micro w role c { c with st := c.st.emit (.began h cap c.st.lockEpoch) }
  | resolve {c : Core} (token : Option SessionToken) (tty : Option String) (caller : Option Peer) :
      Micro w role c { c with
        st := { c.st with registry := (c.st.registry.resolve w token tty caller).1 } }
  | register {c : Core} {reg : Registration} {displaced : List SessionToken}
      (hRole : role = .control) (hReg : (c.st.registry.register reg).2 = .ok displaced) :
      Micro w role c { c with
        st := { c.st with
          registry := (c.st.registry.register reg).1
          grants := c.st.grants.revokeTokens displaced }.emit (.dropped displaced) }
  | unregister {c : Core} (hRole : role = .control) (session : String) :
      Micro w role c { c with st := (c.st.unregister session).1 }
  | revoke {c : Core} (scope : Scope) (key : SecretName) :
      Micro w role c { c with st := c.st.revoke scope key }
  | expire {c : Core} (keep : Grant → Bool) :
      Micro w role c { c with st := { c.st with grants := ⟨c.st.grants.grants.filter keep⟩ } }
  | enqueue {c : Core} (h : Nat) (scope : Scope) (key : SecretName) (ttl : Option Nat) :
      Micro w role c { c with st := (c.st.enqueue h scope key c.clock ttl).1 }
  | expel {c : Core} (id : Nat) {state : RequestState}
      (hState : state = .timedOut ∨ state = .denied) :
      Micro w role c { c with
        st := { c.st with queue := (c.st.queue.expel id state c.clock).1 } }
  | sweepTimeouts {c : Core} :
      Micro w role c { c with st := { c.st with queue := (c.st.queue.sweepTimeouts c.clock).1 } }
  | prune {c : Core} (hRole : role = .worker) :
      Micro w role c { c with st := { c.st with queue := c.st.queue.prune c.clock } }
  | failures {c : Core} (failures : List (Nat × ErrCode)) :
      Micro w role c { c with st := { c.st with failures := failures } }
  | kill {c : Core} (id : Nat) : Micro w role c { c with st := c.st.killActive id }
  | activate {c : Core} (hRole : role = .callback) (active : ActiveDecrypt) :
      Micro w role c { c with st := { c.st with activeDecrypt := some active } }
  | signal {c : Core} (hRole : role = .callback) (pg child : Nat) :
      Micro w role c { c with st := c.st.emit (.killed pg child) }
  | start {c : Core} {queue : Queue} {id generation : Nat} {scope : Scope} {key : SecretName}
      {ttl : Option Nat} (hRole : role = .worker) (hJob : c.job = none)
      (hReady : c.st.queue.nextReady c.clock = some id)
      (hMark : c.st.queue.markDecrypting id c.clock = (queue, some generation))
      (hDescribe : queue.describe id = some (scope, key, ttl)) :
      Micro w role c { c with
        st := { c.st with queue := queue }.emit
          (.started ⟨id, scope, key, generation, c.st.lockEpoch, ttl⟩)
        job := some ⟨id, scope, key, generation, c.st.lockEpoch, ttl⟩ }
  | complete {c : Core} {job : Job} (hRole : role = .report) (hJob : c.job = some job)
      (hLate : (c.st.queue.complete job.id job.generation c.clock).2 = false) :
      Micro w role c { c with
        st := { c.st with queue := (c.st.queue.complete job.id job.generation c.clock).1 }
        job := none }
  | insert {c : Core} {job : Job} {file : DecryptedHumanFile} {now : Nat}
      (hRole : role = .report) (hJob : c.job = some job)
      (hDone : (c.st.queue.complete job.id job.generation c.clock).2 = true)
      (hEpoch : c.st.lockEpoch = job.lockEpoch)
      (hActive : c.st.sessionIsActive w job.scope = true) (hNow : c.clock ≤ now)
      (hFile : Decrypted job file c.st.trail) :
      Micro w role c
        { st := { c.st with
            queue := (c.st.queue.complete job.id job.generation c.clock).1
            grants := c.st.grants.insert (job.grant c.st.config file now) }.emit
              (.inserted job (job.grant c.st.config file now))
          job := none
          clock := now }
  | fail {c : Core} {job : Job} (hRole : role = .report) (hJob : c.job = some job) (e : ErrCode) :
      Micro w role c { c with
        st := { c.st with
          queue := c.st.queue.fail job.id c.clock
          failures := c.st.failures ++ [(job.id, e)] }.emit (.failed job e)
        job := none }
  | mint {c : Core} {h : Nat} {cap : Capability} {reads : List ReceiptId} {id : ReceiptId}
      (hRole : role = .mint) (hBegan : .began h cap c.st.lockEpoch ∈ c.st.trail)
      (hMint : (c.st.receipts.mintId cap c.clock reads).2 = .ok id) :
      Micro w role c { c with
        st := { c.st with receipts := (c.st.receipts.mintId cap c.clock reads).1 }.emit
          (.minted h cap id c.clock) }
  | redeem {c : Core} {cap : Capability} {presented : List UInt8} (h : Nat) (receiptHex : String)
      (deadline : Nat)
      (hDecode : Hygiene.decodeExact receiptHex receiptLen = some presented)
      (hRedeem : (c.st.receipts.redeem receiptHex cap c.clock).2 = some cap) :
      Micro w role c { c with
        st := { c.st with
          receipts := (c.st.receipts.redeem receiptHex cap c.clock).1
          capabilityGrants := (c.st.capabilityGrants.insert deadline).1 }.emit
            (.redeemed h presented cap c.clock deadline) }
  | sweepReceipts {c : Core} :
      Micro w role c { c with st := { c.st with receipts := c.st.receipts.sweep c.clock } }
  | sweepCapabilityGrants {c : Core} :
      Micro w role c { c with
        st := { c.st with capabilityGrants := c.st.capabilityGrants.sweep c.clock } }
  | lock {c : Core} :
      Micro w role c { c with
        st := { c.st with
          grants := c.st.grants.revokeAll
          receipts := c.st.receipts.clear
          capabilityGrants := c.st.capabilityGrants.clear
          lockEpoch := satAdd c.st.lockEpoch 1 }.emit .locked }
  | answer {c : Core} (hRole : role = .reply) (h : Nat) (decision : Decision) (time : Nat) :
      Micro w role c { c with st := c.st.emit (.answered h decision time) }

abbrev Chain (w : World) (role : Role) : Core → Core → Prop :=
  Relation.ReflTransGen (Micro w role)

variable {w : World} {role : Role} {c d : Core}

theorem Chain.invariant {I : Core → Prop}
    (hMicro : ∀ c d, I c → Micro w role c d → I d) (h : Chain w role c d) (hc : I c) : I d := by
  induction h with
  | refl => exact hc
  | tail _ hLast ih => exact hMicro _ _ ih hLast

theorem enqueue_spec (st : State) (h : Nat) (scope : Scope) (key : SecretName) (now : Nat)
    (ttl : Option Nat) :
    (∃ e, st.enqueue h scope key now ttl = (st, .error e)) ∨
    (∃ r ∈ st.queue.requests, key.isCapability = false ∧ r.scope = scope ∧ r.key = key ∧
      st.enqueue h scope key now ttl = (st.emit (.joined h r.id), .ok r.id)) ∨
    ∃ r : PendingRequest, r = ⟨st.queue.nextId, scope, key, .pending, 0, now, ttl⟩ ∧
      st.enqueue h scope key now ttl =
        ({ st with
            queue := { st.queue with
              nextId := satAdd st.queue.nextId 1
              requests := st.queue.requests ++ [r] } }.emit (.enqueued h r), .ok r.id) := by
  unfold State.enqueue
  rcases st.queue.enqueue_spec scope key now ttl with
    ⟨r, hr, hCap, hScope, hKey, -, hEq⟩ | ⟨hEq, -⟩ | ⟨hEq, -⟩
  · refine .inr (.inl ⟨r, hr, hCap, hScope, hKey, ?_⟩)
    rw [hEq]
    simp
  · refine .inl ⟨.tooManyPending, ?_⟩
    rw [hEq]
  · refine .inr (.inr ⟨_, rfl, ?_⟩)
    rw [hEq]
    simp [Queue.push]

theorem killActive_trail (st : State) (id : Nat) :
    (st.killActive id).trail = st.trail ∨
    ∃ active, st.activeDecrypt = some active ∧
      (st.killActive id).trail = .killed active.processGroup active.child :: st.trail := by
  unfold State.killActive
  split
  · exact .inl rfl
  · rename_i active hActive
    split
    · exact .inr ⟨active, hActive, rfl⟩
    · exact .inl rfl

theorem enqueue_frame (st : State) (h : Nat) (scope : Scope) (key : SecretName) (now : Nat)
    (ttl : Option Nat) :
    ∃ queue trail, (st.enqueue h scope key now ttl).1 =
      { st with queue := queue, trail := trail } := by
  rcases enqueue_spec st h scope key now ttl with ⟨_, hEq⟩ | ⟨_, _, _, _, _, hEq⟩ | ⟨_, _, hEq⟩
  · exact ⟨st.queue, st.trail, by rw [hEq]⟩
  · exact ⟨st.queue, _, by rw [hEq]; rfl⟩
  · exact ⟨_, _, by rw [hEq]; rfl⟩

theorem enqueue_queue (st : State) (h : Nat) (scope : Scope) (key : SecretName) (now : Nat)
    (ttl : Option Nat) :
    (st.enqueue h scope key now ttl).1.queue = (st.queue.enqueue scope key now ttl).1 := by
  unfold State.enqueue
  dsimp only
  split
  · rfl
  · split <;> rfl

theorem killActive_frame (st : State) (id : Nat) :
    ∃ active trail, st.killActive id = { st with activeDecrypt := active, trail := trail } := by
  unfold State.killActive
  split
  · exact ⟨st.activeDecrypt, st.trail, rfl⟩
  · split
    · exact ⟨none, _, rfl⟩
    · exact ⟨st.activeDecrypt, st.trail, rfl⟩

/-- An event that this role's operations may record. -/
structure Event.MayCome (role : Role) (e : Event) : Prop where
  work : e.isWork = true → role = .worker ∨ role = .report
  mint : e.isMint = true → role = .mint
  answer : e.isAnswer = true → role = .reply
  store : e.isStore = true → role = .outside

theorem Event.MayCome.not_isStart {e : Event} (h : e.MayCome role)
    (hWorker : role ≠ .worker) (hReport : role ≠ .report) : ¬ e.IsStart := by
  rintro ⟨job, rfl⟩
  rcases h.work rfl with hRole | hRole
  · exact hWorker hRole
  · exact hReport hRole

theorem Event.MayCome.not_isStore {e : Event} (h : e.MayCome role)
    (hRole : role ≠ .outside) : e.isStore = false := by
  by_contra hStore
  exact hRole (h.store (by simpa using hStore))

theorem Micro.trail_cases (h : Micro w role c d) :
    d.st.trail = c.st.trail ∨
    ∃ e : Event, e.MayCome role ∧ d.st.trail = e :: c.st.trail := by
  cases h
  case note e hOut hNote =>
    refine .inr ⟨e, ⟨?_, ?_, ?_, hOut⟩, rfl⟩ <;> intro hKind <;> cases e <;> cases hNote <;> cases hKind
  case enqueue h scope key ttl =>
    rcases enqueue_spec c.st h scope key c.clock ttl with ⟨_, hEq⟩ | ⟨r, _, _, _, _, hEq⟩ | ⟨r, _, hEq⟩
    · exact .inl (by rw [hEq])
    · exact .inr ⟨.joined h r.id, ⟨nofun, nofun, nofun, nofun⟩, by rw [hEq]; rfl⟩
    · exact .inr ⟨.enqueued h r, ⟨nofun, nofun, nofun, nofun⟩, by rw [hEq]; rfl⟩
  case kill id =>
    rcases killActive_trail c.st id with hSame | ⟨active, _, hNew⟩
    · exact .inl hSame
    · exact .inr ⟨.killed active.processGroup active.child, ⟨nofun, nofun, nofun, nofun⟩, hNew⟩
  case start hRole _ _ _ _ =>
    refine .inr ⟨_, ?_, rfl⟩
    exact ⟨fun _ => Or.inl hRole, nofun, nofun, nofun⟩
  case insert hRole _ _ _ _ _ _ | fail hRole _ _ =>
    refine .inr ⟨_, ?_, rfl⟩
    exact ⟨fun _ => Or.inr hRole, nofun, nofun, nofun⟩
  case answer hRole _ _ _ =>
    refine .inr ⟨_, ?_, rfl⟩
    exact ⟨nofun, nofun, fun _ => hRole, nofun⟩
  case mint hRole _ _ =>
    refine .inr ⟨_, ?_, rfl⟩
    exact ⟨nofun, fun _ => hRole, nofun, nofun⟩
  case began | register | unregister | revoke | signal | redeem | lock =>
    refine .inr ⟨_, ?_, rfl⟩
    exact ⟨nofun, nofun, nofun, nofun⟩
  all_goals exact .inl rfl

theorem Chain.trail_grows (h : Chain w role c d) :
    ∃ new, d.st.trail = new ++ c.st.trail ∧ ∀ e ∈ new, e.MayCome role := by
  induction h with
  | refl => exact ⟨[], rfl, by simp⟩
  | tail _ hLast ih =>
    obtain ⟨new, hNew, hRole⟩ := ih
    rcases hLast.trail_cases with hSame | ⟨e, he, hEq⟩
    · exact ⟨new, hSame.trans hNew, hRole⟩
    · refine ⟨e :: new, by rw [hEq, hNew]; rfl, ?_⟩
      intro x hx
      rcases List.mem_cons.mp hx with rfl | hx
      · exact he
      · exact hRole x hx

/-! ## The sections as chains -/

section

variable {w : World} {role : Role} {st : State} {job : Option Job} {clock : Nat}

theorem awaitLoop_chain (source : String) (id deadline : Nat) {t t' : Nat} (ht : clock ≤ t)
    (htt : t ≤ t') :
    Chain w role ⟨st, job, clock⟩ ⟨(st.awaitLoop source id deadline t t').1, job, t'⟩ := by
  have hWait : Chain w role ⟨st, job, clock⟩ ⟨st, job, t'⟩ := .single (.wait (show clock ≤ t' by omega))
  unfold State.awaitLoop
  split
  case h_5 | h_6 =>
    split
    · -- the deadline has passed: the request times out and its child is killed
      exact (hWait.tail (.expel id (.inl rfl))).tail (.kill id)
    · exact hWait
  all_goals exact hWait

theorem awaitRequest_chain (h : Nat) (scope : Scope) (key : SecretName) (ttl : Option Nat)
    (r : Readings) (hr : clock ≤ r.t1) :
    Chain w role ⟨st, job, clock⟩ ⟨(st.awaitRequest w h scope key ttl r).1, job, r.t3⟩ := by
  have h12 := r.le12
  have h23 := r.le23
  have hEnd : Chain w role ⟨st, job, clock⟩ ⟨st, job, r.t3⟩ :=
    .single (.wait (show clock ≤ r.t3 by omega))
  unfold State.awaitRequest
  split
  · exact hEnd
  · split
    · exact hEnd
    · have hQueue : Chain w role ⟨st, job, clock⟩ ⟨(st.enqueue h scope key r.t1 ttl).1, job, r.t1⟩ :=
        (Relation.ReflTransGen.single (.wait hr)).tail (.enqueue h scope key ttl)
      split
      · rename_i hEq
        rw [hEq] at hQueue
        exact hQueue.tail (.wait (show r.t1 ≤ r.t3 by omega))
      · rename_i hEq
        rw [hEq] at hQueue
        exact hQueue.trans (awaitLoop_chain _ _ _ h12 h23)

theorem awaitApproval_chain (h : Nat) (scope : Scope) (key : SecretName) (forceFresh : Bool)
    (ttl : Option Nat) (r : Readings) (hr : clock ≤ r.t0) :
    Chain w role ⟨st, job, clock⟩ ⟨(st.awaitApproval w h scope key forceFresh ttl r).1, job, r.t3⟩ := by
  have h01 := r.le01
  have h12 := r.le12
  have h23 := r.le23
  have hFresh : ∀ st : State,
      Chain w role ⟨st, job, clock⟩ ⟨(st.awaitRequest w h scope key ttl r).1, job, r.t3⟩ :=
    fun st => awaitRequest_chain h scope key ttl r (by omega)
  have hRevoked : Chain w role ⟨st, job, clock⟩ ⟨st.revoke scope key, job, clock⟩ :=
    .single (.revoke scope key)
  unfold State.awaitApproval
  split
  · split
    · split
      · exact hRevoked.trans (hFresh _)
      · exact .single (.wait (show clock ≤ r.t3 by omega))
    · exact hRevoked.trans (hFresh _)
  · exact hFresh st

theorem resolveAccess_chain (h : Nat) (access : Access) (caller : Peer) :
    Chain w role ⟨st, job, clock⟩ ⟨(st.resolveAccess w h access caller).1, job, clock⟩ := by
  unfold State.resolveAccess
  split
  · exact .refl
  · split
    · exact .refl
    · rename_i token _
      have hResolve : Chain w role ⟨st, job, clock⟩
          ⟨{ st with registry := (st.registry.resolve w token access.tty (some caller)).1 },
            job, clock⟩ := .single (.resolve token access.tty (some caller))
      dsimp only
      split
      · exact hResolve
      · exact hResolve.tail (.note nofun rfl)

theorem register_chain (tokenHex session : String) (root : Peer) :
    Chain w .control ⟨st, job, clock⟩ ⟨(st.register tokenHex session root).1, job, clock⟩ := by
  unfold State.register
  split
  · exact .refl
  · rename_i token _
    dsimp only
    split
    · -- a refused registration leaves the registry as it was
      rename_i hErr
      have hSame : (st.registry.register ⟨token, session, root⟩).1 = st.registry := by
        rcases st.registry.register_cases ⟨token, session, root⟩ with ⟨_, hEq⟩ | hEq | ⟨_, hEq⟩
        · rw [hEq]
        · rw [hEq]
        · rw [hEq] at hErr
          cases hErr
      rw [hSame]
    · rename_i hOk
      exact .single (.register rfl hOk)

variable {now : Nat}

theorem deny_chain (id : Nat) (hNow : clock ≤ now) :
    Chain w role ⟨st, job, clock⟩ ⟨(st.deny id now).1, job, now⟩ := by
  have hDeny : Chain w role ⟨st, job, clock⟩
      ⟨{ st with queue := (st.queue.deny id now).1 }, job, now⟩ :=
    (Relation.ReflTransGen.single (.wait hNow)).tail (.expel id (.inr rfl))
  unfold State.deny
  split
  · rename_i hEq
    rw [hEq] at hDeny
    exact hDeny.tail (.kill id)
  · rename_i hEq
    rw [hEq] at hDeny
    exact hDeny

theorem lock_chain (hNow : clock ≤ now) :
    Chain w role ⟨st, job, clock⟩ ⟨(st.lock now).1, job, now⟩ := by
  have hWait : Chain w role ⟨st, job, clock⟩ ⟨st, job, now⟩ := .single (.wait hNow)
  have hLock := hWait.tail .lock
  unfold State.lock
  dsimp only
  split
  · exact hLock
  · -- the recorded decrypt is denied, then taken and signalled
    rename_i active hActive
    have hDenied := hLock.tail (.expel active.id (.inr rfl))
    have hKilled := hDenied.tail (.kill active.id)
    have hTaken : st.activeDecrypt = some active := hActive
    simp only [State.killActive, State.emit, hTaken, if_true] at hKilled
    exact hKilled

theorem redeem_chain (h : Nat) (receiptHex expectedCap : String)
    (hNow : clock ≤ now) :
    Chain w role ⟨st, job, clock⟩ ⟨(st.redeem h receiptHex expectedCap now).1, job, now⟩ := by
  have hWait : Chain w role ⟨st, job, clock⟩ ⟨st, job, now⟩ := .single (.wait hNow)
  unfold State.redeem
  split
  · exact hWait
  · split
    · exact hWait
    · rename_i deadline _
      split
      · -- a refused receipt only sweeps the table
        rename_i receipts hEq
        have hSweep := ReceiptTable.redeem_none (t := st.receipts) (by rw [hEq])
        rw [hEq] at hSweep
        dsimp only at hSweep
        rw [hSweep]
        exact hWait.tail .sweepReceipts
      · rename_i receipts cap hEq
        obtain ⟨presented, hDecode, hCap⟩ := ReceiptTable.redeem_some (by rw [hEq])
        subst hCap
        have hRedeem : (st.receipts.redeem receiptHex cap now).2 = some cap := by rw [hEq]
        have hStep := hWait.tail (.redeem h receiptHex deadline hDecode hRedeem)
        rw [hEq] at hStep
        dsimp only
        split <;> simpa [hDecode] using hStep

theorem finishAuthorization_chain {h : Nat} {cap : Capability} {epochBefore : Nat}
    (hBegan : .began h cap epochBefore ∈ st.trail) (decision : Decision)
    (hNow : clock ≤ now) (reads : List ReceiptId) :
    Chain w .mint ⟨st, job, clock⟩
      ⟨(st.finishAuthorization h cap epochBefore decision now reads).1, job, now⟩ := by
  have hWait : Chain w .mint ⟨st, job, clock⟩ ⟨st, job, now⟩ := .single (.wait hNow)
  unfold State.finishAuthorization
  split
  · split
    · rename_i hEpoch
      dsimp only
      split
      · rename_i hMint
        rw [← hEpoch] at hBegan
        exact hWait.tail (.mint rfl hBegan hMint)
      · -- no receipt: `mint` only swept
        rename_i hMint
        have hSweep : (st.receipts.mintId cap now reads).1 = st.receipts.sweep now := by
          rcases st.receipts.mintId_cases cap now reads with ⟨_, hEq⟩ | ⟨_, _, _, hEq⟩
          · rw [hEq]
          · rw [hEq] at hMint
            cases hMint
        rw [hSweep]
        exact hWait.tail .sweepReceipts
    · exact hWait
  · exact hWait

theorem killAll_chain (ids : List Nat) (st : State) :
    Chain w role ⟨st, job, clock⟩ ⟨ids.foldl State.killActive st, job, clock⟩ := by
  induction ids generalizing st with
  | nil => exact .refl
  | cons id rest ih => exact (Relation.ReflTransGen.single (.kill id)).trans (ih _)

/-- The terminal of the grant, if it is a terminal's, is still there. -/
def hasTty (w : World) (g : Grant) : Bool :=
  match g.scope with
  | .session _ => true
  | .tty tty _ => w.pathExists tty

theorem tick_chain (hNow : clock ≤ now) :
    Chain w .worker ⟨st, none, clock⟩ ⟨(st.tick w now).1, (st.tick w now).2, now⟩ := by
  -- the housekeeping, one operation after the other
  have hWait : Chain w .worker ⟨st, none, clock⟩ ⟨st, none, now⟩ := .single (.wait hNow)
  have hSweep := hWait.tail .sweepTimeouts
  have hKill := hSweep.trans (killAll_chain (st.queue.sweepTimeouts now).2 _)
  have hGrants := (hKill.tail (.expire (Grant.live now))).tail
    (.expire (hasTty w))
  have hTables := ((hGrants.tail (.prune rfl)).tail .sweepReceipts).tail .sweepCapabilityGrants
  unfold State.tick
  dsimp only
  split
  · exact hTables.tail (.failures _)
  · rename_i hReady
    split
    · -- not marked after all: the queue is unchanged
      rename_i hMark
      rw [Queue.markDecrypting_none hMark]
      exact hTables.tail (.failures _)
    · rename_i hMark
      split
      · rename_i hNone
        obtain ⟨_, _, hSome⟩ := Queue.describe_of_mark hMark
        rw [hNone] at hSome
        cases hSome
      · rename_i hDescribe
        exact (hTables.tail (.failures _)).tail (.start rfl rfl hReady hMark hDescribe)

theorem complete_after_deny {q : Queue} {id g : Nat} (hFlight : Flight q (some (id, g)))
    (now now' : Nat) : ((q.deny id now).1.complete id g now').2 = false := by
  have hDenied : Flight (q.deny id now).1 (some (id, g)) := hFlight.expel (by simp)
  have hFree : (q.deny id now).1.inflight = none := by
    rcases q.expel_cases id .denied now with ⟨r, _, _, hEq⟩ | ⟨hInactive, hEq⟩
    · -- the slot was free or the job's own
      show (q.expel id .denied now).1.inflight = none
      rw [hEq]
      rcases hFlight.slot_of_job with hSlot | hSlot
      · simp [Queue.invalidate, Queue.finish_inflight, hSlot]
      · simp [Queue.invalidate, Queue.finish_inflight, hSlot]
    · -- not active, so it does not decrypt
      show (q.expel id .denied now).1.inflight = none
      rw [hEq]
      rcases hFlight.slot_of_job with hSlot | hSlot
      · exact hSlot
      · obtain ⟨r, hFind, hState⟩ := Queue.stateOf_eq_some.mp (hFlight.slot_iff id |>.mp hSlot)
        have := hInactive r hFind
        rw [hState] at this
        cases this
  cases hDenied with
  | idle _ hNone =>
    have hNot : (q.deny id now).1.stillCurrent id g = false := by
      unfold Queue.stillCurrent
      rw [List.any_eq_false]
      intro r hr
      simp [hNone r hr]
    unfold Queue.complete
    rw [hNot]
    rfl
  | busy r pre post _ _ hSlot =>
    rw [hFree] at hSlot
    cases hSlot

@[simp] theorem killActive_queue (id : Nat) : (st.killActive id).queue = st.queue := by
  obtain ⟨_, _, hEq⟩ := killActive_frame st id
  rw [hEq]

theorem install_chain {held : Job} {file : DecryptedHumanFile} {t t' : Nat} (ht : clock ≤ t)
    (htt : t ≤ t')
    (hTaken : (st.queue.complete held.id held.generation t).2 →
      st.lockEpoch = held.lockEpoch ∧ st.sessionIsActive w held.scope ∧
        Decrypted held file st.trail) :
    Chain w .report ⟨st, some held, clock⟩ ⟨st.install held file t t', none, t'⟩ := by
  have hWait : Chain w .report ⟨st, some held, clock⟩ ⟨st, some held, t⟩ := .single (.wait ht)
  unfold State.install
  split
  · rename_i hEq
    obtain ⟨hEpoch, hActive, hFile⟩ := hTaken (by rw [hEq])
    have hDone := hWait.tail (.insert rfl rfl (by rw [hEq]) hEpoch hActive htt hFile)
    rw [hEq] at hDone
    exact hDone
  · rename_i hEq
    have hDone := (hWait.tail (.complete rfl rfl (by rw [hEq]))).tail (.wait htt)
    rw [hEq] at hDone
    exact hDone

theorem report_chain {held : Job} {result : Except ErrCode DecryptedHumanFile} (r : Readings)
    (hr : clock ≤ r.t0) (hFlight : Flight st.queue (some (held.id, held.generation)))
    (hFile : ∀ file, result = .ok file → Decrypted held file st.trail) :
    Chain w .report ⟨st, some held, clock⟩ ⟨st.report w held result r, none, r.t3⟩ := by
  have h02 : r.t0 ≤ r.t3 := by
    have := r.le01
    have := r.le12
    have := r.le23
    omega
  have hKill : Chain w .report ⟨st, some held, clock⟩ ⟨st.killActive held.id, some held, r.t0⟩ :=
    (Relation.ReflTransGen.single (.kill held.id)).tail (.wait hr)
  rw [← killActive_queue held.id] at hFlight
  unfold State.report
  cases result with
  | error e => exact (hKill.tail (.fail rfl rfl e)).tail (.wait h02)
  | ok file =>
    suffices hInstall : Chain w .report ⟨st.killActive held.id, some held, r.t0⟩
        ⟨((st.killActive held.id).denyStale w held r.t0).install held file r.t1 r.t2, none, r.t2⟩ from
      (hKill.trans hInstall).tail (.wait r.le23)
    unfold State.denyStale
    split
    · -- locked or gone: the request is denied, and completing it is late
      have hLate := complete_after_deny hFlight r.t0 r.t1
      refine (Relation.ReflTransGen.single (.expel held.id (.inr rfl))).trans ?_
      refine install_chain r.le01 r.le12 ?_
      intro hTaken
      rw [show (((st.killActive held.id).queue.expel held.id .denied r.t0).1.complete held.id
        held.generation r.t1).2 = false from hLate] at hTaken
      cases hTaken
    · rename_i hOpen
      rw [not_or, not_not, Bool.not_eq_false] at hOpen
      refine install_chain r.le01 r.le12 fun _ => ⟨hOpen.1, hOpen.2, ?_⟩
      rcases killActive_trail st held.id with hSame | ⟨active, -, hNew⟩
      · rw [hSame]
        exact hFile file rfl
      · rw [hNew]
        refine (hFile file rfl).cons ?_
        rintro ⟨job, hJob⟩
        cases hJob

end

end Forward.Secrets

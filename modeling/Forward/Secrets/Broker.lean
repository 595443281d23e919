import Forward.Secrets.Decrypt
import Forward.Secrets.Grants
import Forward.Secrets.Queue
import Forward.Secrets.Receipts

/-!
# The broker's state and its critical sections

`server::State` and every section of code that runs under the broker lock: the sections of
`approval.rs`, of the dispatch handlers and of the worker, as functions of the state, of the
`World` and of the clock readings. `trail` is not in the source: what happened, newest first.
-/

namespace Forward.Secrets

open Lib Hygiene

/-! ## Requests and answers -/

inductive Request
  | hello (version : Nat)
  | register (tokenHex session : String)
  | unregister (session : String)
  | get (key : String) (tokenHex tty : Option String) (ttlSecs : Option Nat)
  | requestGrant (key : String) (tokenHex tty : Option String) (ttlSecs : Option Nat)
  | authorize (cap : String) (tokenHex tty : Option String)
  | redeem (receiptHex cap : String)
  | grants
  | deny (id : Nat)
  | lock
  | subscribe
  deriving DecidableEq

inductive Outcome
  | ok
  | fields (text : String)
  | payload (text : String)
  | bytes (value : List UInt8)
  | receipt (hex : String)
  | failed (error : ErrCode) (message : String)
  deriving DecidableEq

structure Decision where
  outcome : Outcome
  scopeKind : Option ScopeKind
  source : Option String
  requestId : Option Nat
  deriving DecidableEq

def Decision.new (outcome : Outcome) : Decision := ⟨outcome, none, none, none⟩

def protocolVersion : Nat := 4

structure Access where
  key : String
  tokenHex : Option String
  tty : Option String
  requestedTtl : Option Nat

/-- `parse_hex` of the token, if one was presented. -/
def Access.token (access : Access) : Except ErrCode (Option SessionToken) :=
  match access.tokenHex with
  | none => .ok none
  | some hex => (SessionToken.parseHex hex).map some

inductive Approval
  | granted (source : Option String) (requestId : Option Nat)
  | refused (error : ErrCode)
  | incomplete (error : ErrCode) (requestId : Nat)

/-- How a stay in `await_approval` ends: with an approval, or asleep on the
condition variable, which releases the lock. -/
inductive Await
  | settled (approval : Approval)
  | wait (source : String) (id deadline : Nat)

/-- The work the worker carries out of the lock (`worker::Job`). -/
structure Job where
  id : Nat
  scope : Scope
  key : SecretName
  generation : Nat
  lockEpoch : Nat
  requestedTtl : Option Nat
  deriving DecidableEq

def effectiveGrantTtl (requested : Option Nat) (maxGrant maxRequestedGrant : Nat) : Nat :=
  match requested with
  | none => maxGrant
  | some secs => min (fromSecs secs) maxRequestedGrant

def Job.grant (job : Job) (cfg : Config) (file : DecryptedHumanFile) (now : Nat) : Grant where
  scope := job.scope
  key := job.key
  value := file.value
  origin := ⟨file.source, file.identity⟩
  created := now
  ttl := effectiveGrantTtl job.requestedTtl cfg.maxGrant cfg.maxRequestedGrant

/-! ## History -/

/-- What happens in a run. Handlers are numbered in `h`; `child` numbers the
sops children. -/
inductive Event
  | received (h : Nat) (request : Request) (caller : Peer)
  | began (h : Nat) (cap : Capability) (epoch : Nat)
  | resolved (h : Nat) (scope : Scope) (key : SecretName)
  | revoked (scope : Scope) (key : SecretName)
  | dropped (tokens : List SessionToken)
  | enqueued (h : Nat) (request : PendingRequest)
  | joined (h id : Nat)
  | started (job : Job)
  | opened (job : Job) (file : OpenedHumanFile)
  | decrypted (job : Job) (file : DecryptedHumanFile)
  | inserted (job : Job) (grant : Grant)
  | failed (job : Job) (error : ErrCode)
  | minted (h : Nat) (cap : Capability) (id : ReceiptId) (time : Nat)
  | redeemed (h : Nat) (id : List UInt8) (cap : Capability) (time deadline : Nat)
  | locked
  | killed (processGroup child : Nat)
  | replaced (key : SecretName) (old new : FileIdentity)
  | answered (h : Nat) (decision : Decision) (time : Nat)
  deriving DecidableEq

/-! ## State -/

-- `child` is history: which sops child the group was recorded for
structure ActiveDecrypt where
  id : Nat
  processGroup : Nat
  child : Nat

structure State where
  instanceId : String
  registry : Registry
  grants : GrantTable
  receipts : ReceiptTable
  capabilityGrants : CapabilityGrantTable
  queue : Queue
  store : HumanStore
  config : Config
  failures : List (Nat × ErrCode)
  lockEpoch : Nat
  activeDecrypt : Option ActiveDecrypt
  trail : List Event

/-- Clock readings of one critical section, in the order it takes them. -/
structure Readings where
  t0 : Nat
  t1 : Nat
  t2 : Nat
  t3 : Nat
  le01 : t0 ≤ t1
  le12 : t1 ≤ t2
  le23 : t2 ≤ t3

def Readings.at (now : Nat) : Readings := ⟨now, now, now, now, Nat.le_refl _, Nat.le_refl _, Nat.le_refl _⟩

namespace State

def new (config : Config) (bootId instanceId : String) : State where
  instanceId := instanceId
  registry := Registry.new bootId
  grants := GrantTable.new
  receipts := ReceiptTable.empty
  capabilityGrants := CapabilityGrantTable.empty
  queue := Queue.new config.queueLimits
  store := ⟨config.humanSources⟩
  config := config
  failures := []
  lockEpoch := 0
  activeDecrypt := none
  trail := []

def emit (st : State) (e : Event) : State := { st with trail := e :: st.trail }

/-- Signal the recorded process group, if it was recorded for this request. -/
def killActive (st : State) (id : Nat) : State :=
  match st.activeDecrypt with
  | none => st
  | some active =>
    if active.id = id then
      { st with activeDecrypt := none }.emit (.killed active.processGroup active.child)
    else st

/-! ### Approval -/

def resolveAccess (st : State) (w : World) (h : Nat) (access : Access) (caller : Peer) :
    State × Except ErrCode (Scope × SecretName) :=
  match SecretName.parse access.key with
  | .error e => (st, .error e)
  | .ok key =>
    match access.token with
    | .error e => (st, .error e)
    | .ok token =>
      let (registry, answer) := st.registry.resolve w token access.tty (some caller)
      let st := { st with registry := registry }
      match answer with
      | .error e => (st, .error e)
      | .ok scope => (st.emit (.resolved h scope key), .ok (scope, key))

def revoke (st : State) (scope : Scope) (key : SecretName) : State :=
  { st with grants := st.grants.revoke scope key }.emit (.revoked scope key)

-- the queue's `enqueue`, recording whether a request was added or joined
def enqueue (st : State) (h : Nat) (scope : Scope) (key : SecretName) (now : Nat)
    (ttl : Option Nat) : State × Except ErrCode Nat :=
  let (queue, answer) := st.queue.enqueue scope key now ttl
  match answer with
  | .error e => ({ st with queue := queue }, .error e)
  | .ok id =>
    match queue.requests.drop st.queue.requests.length with
    | request :: _ => ({ st with queue := queue }.emit (.enqueued h request), .ok id)
    | [] => ({ st with queue := queue }.emit (.joined h id), .ok id)

def failureOf (st : State) (id : Nat) : ErrCode :=
  match st.failures.find? fun f => f.1 == id with
  | none => .internal
  | some (_, error) => error

/-- One turn of the waiting loop, at two clock readings. -/
def awaitLoop (st : State) (source : String) (id deadline t t' : Nat) : State × Await :=
  match st.queue.stateOf id with
  | some .granted => (st, .settled (.granted (some source) (some id)))
  | some .denied => (st, .settled (.incomplete .denied id))
  | some .timedOut => (st, .settled (.incomplete .timeout id))
  | some .failed => (st, .settled (.incomplete (st.failureOf id) id))
  | some .pending | some .decrypting =>
    match checkedDurationSince deadline t with
    | none =>
      let st := { st with queue := (st.queue.timeout id t').1 }
      (st.killActive id, .settled (.incomplete .timeout id))
    | some _ => (st, .wait source id deadline)
  | none => (st, .settled (.incomplete .internal id))

/-- `await_approval` past the grant lookup: locate, enqueue, and the loop. -/
def awaitRequest (st : State) (w : World) (h : Nat) (scope : Scope) (key : SecretName)
    (requestedTtl : Option Nat) (r : Readings) : State × Await :=
  match st.store.locate w key with
  | .error e => (st, .settled (.refused e))
  | .ok source =>
    match checkedAdd r.t1 st.config.requestTtl with
    | none => (st, .settled (.refused .internal))
    | some deadline =>
      match st.enqueue h scope key r.t1 requestedTtl with
      | (st, .error e) => (st, .settled (.refused e))
      | (st, .ok id) => st.awaitLoop source id deadline r.t2 r.t3

/-- `await_approval` until it returns or first sleeps. A live grant answers
unless its file has changed or a fresh ceremony is asked for; then it is
revoked and a request takes its place. -/
def awaitApproval (st : State) (w : World) (h : Nat) (scope : Scope) (key : SecretName)
    (forceFresh : Bool) (requestedTtl : Option Nat) (r : Readings) : State × Await :=
  match st.grants.lookup scope key r.t0 with
  | some (_, source, identity) =>
    if st.store.identity w key = .ok identity then
      if forceFresh then (st.revoke scope key).awaitRequest w h scope key requestedTtl r
      else (st, .settled (.granted (some source) none))
    else (st.revoke scope key).awaitRequest w h scope key requestedTtl r
  | none => st.awaitRequest w h scope key requestedTtl r

def readValue (st : State) (scope : Scope) (key : SecretName) (now : Nat) : Outcome :=
  match st.grants.lookup scope key now with
  | some (value, _, _) => .bytes value
  | none => .failed .internal "grant disappeared"

/-- The fields of an approved REQUEST or AUTHORIZE; the lifetime only where
the caller asked for one. -/
def grantedFields (st : State) (access : Access) (scope : Scope) (key : SecretName) (now : Nat) :
    Outcome :=
  match access.requestedTtl.bind fun _ => st.grants.remainingSecs scope key now with
  | none => .fields "status=granted"
  | some ttl => .fields ("status=granted ttl=" ++ toString ttl)

/-! ### Control -/

def register (st : State) (tokenHex session : String) (root : Peer) : State × Decision :=
  match SessionToken.parseHex tokenHex with
  | .error e => (st, .new (.failed e "invalid session token"))
  | .ok token =>
    let (registry, answer) := st.registry.register ⟨token, session, root⟩
    match answer with
    | .error e =>
      ({ st with registry := registry },
        .new (.failed e "token is already bound to another session"))
    | .ok displaced =>
      ({ st with registry := registry, grants := st.grants.revokeTokens displaced }.emit
          (.dropped displaced),
        ⟨.ok, some .verifiedSession, none, none⟩)

def unregister (st : State) (session : String) : State × Decision :=
  let (registry, tokens) := st.registry.unregister session
  ({ st with registry := registry, grants := st.grants.revokeTokens tokens }.emit
      (.dropped tokens),
    .new .ok)

def deny (st : State) (id now : Nat) : State × Decision :=
  match st.queue.deny id now with
  | (queue, true) => ({ st with queue := queue }.killActive id, .new .ok)
  | (queue, false) =>
    ({ st with queue := queue }, .new (.failed .badRequest "request is not pending"))

/-- The critical section of LOCK; the publication to subscribers follows
after the lock is released. -/
def lock (st : State) (now : Nat) : State × Decision :=
  let st :=
    { st with
      grants := st.grants.revokeAll
      receipts := st.receipts.clear
      capabilityGrants := st.capabilityGrants.clear
      lockEpoch := satAdd st.lockEpoch 1 }.emit .locked
  match st.activeDecrypt with
  | none => (st, .new .ok)
  | some active =>
    ({ st with activeDecrypt := none, queue := (st.queue.deny active.id now).1 }.emit
        (.killed active.processGroup active.child),
      .new .ok)

/-! ### Capabilities -/

def receiptMintFailure : MintError → Outcome
  | .wouldBlock => .failed .tooManyPending "too many outstanding receipts"
  | .entropy => .failed .internal "receipt entropy unavailable"

/-- A receipt is minted for a completed ceremony, unless a LOCK came between. -/
def finishAuthorization (st : State) (h : Nat) (cap : Capability) (epochBefore : Nat)
    (decision : Decision) (now : Nat) (reads : List ReceiptId) : State × Decision :=
  match decision.outcome, decision.requestId with
  | .fields _, some _ =>
    if st.lockEpoch = epochBefore then
      let (receipts, minted) := st.receipts.mintId cap now reads
      let st := { st with receipts := receipts }
      match minted with
      | .ok id =>
        (st.emit (.minted h cap id now), { decision with outcome := .receipt (encode id.bytes) })
      | .error e => (st, { decision with outcome := receiptMintFailure e })
    else (st, { decision with outcome := .failed .denied "locked during authorization" })
  | _, _ => (st, decision)

def redeem (st : State) (h : Nat) (receiptHex expectedCap : String) (now : Nat) :
    State × Decision :=
  match Capability.parse expectedCap with
  | .error e => (st, .new (.failed e "invalid capability name"))
  | .ok expected =>
    match checkedAdd now st.config.maxGrant with
    | none => (st, .new (.failed .internal "capability grant deadline is out of range"))
    | some deadline =>
      match st.receipts.redeem receiptHex expected now with
      | (receipts, none) =>
        ({ st with receipts := receipts },
          .new (.failed .denied "receipt is not redeemable"))
      | (receipts, some cap) =>
        let (capabilityGrants, index) := st.capabilityGrants.insert deadline
        let presented := (decodeExact receiptHex receiptLen).getD []
        let st :=
          { st with receipts := receipts, capabilityGrants := capabilityGrants }.emit
            (.redeemed h presented cap now deadline)
        match capabilityGrants.remainingSecs index now with
        | none => (st, .new (.failed .internal "capability grant record missing"))
        | some ttl =>
          (st, .new (.fields ("status=redeemed cap=" ++ cap.name ++ " instance=" ++ st.instanceId
            ++ " epoch=" ++ toString st.lockEpoch ++ " ttl=" ++ toString ttl)))

/-! ### Worker -/

/-- The worker's housekeeping and, where the queue allows it, the next job. -/
def tick (st : State) (w : World) (now : Nat) : State × Option Job :=
  let (queue, expired) := st.queue.sweepTimeouts now
  let st := expired.foldl killActive { st with queue := queue }
  let st :=
    { st with
      grants := (st.grants.revokeExpired now).revokeMissingTtys w
      queue := st.queue.prune now
      receipts := st.receipts.sweep now
      capabilityGrants := st.capabilityGrants.sweep now }
  let st := { st with failures := st.failures.filter fun f => (st.queue.stateOf f.1).isSome }
  match st.queue.nextReady now with
  | none => (st, none)
  | some id =>
    match st.queue.markDecrypting id now with
    | (queue, none) => ({ st with queue := queue }, none)
    | (queue, some generation) =>
      match queue.describe id with
      | none => ({ st with queue := queue.fail id now }, none)
      | some (scope, key, requestedTtl) =>
        let job : Job := ⟨id, scope, key, generation, st.lockEpoch, requestedTtl⟩
        ({ st with queue := queue }.emit (.started job), some job)

def onStarted (st : State) (job : Job) (processGroup child : Nat) : State :=
  if st.queue.stateOf job.id = some .decrypting then
    { st with activeDecrypt := some ⟨job.id, processGroup, child⟩ }
  else st.emit (.killed processGroup child)

/-- Whether whoever asked can still receive the value. -/
def sessionIsActive (st : State) (w : World) : Scope → Bool
  | .session token => (st.registry.registration token).any fun entry => w.alive entry.root
  | .tty tty _ => w.pathExists tty

-- a LOCK or the end of the session since the job started rejects it
def denyStale (st : State) (w : World) (job : Job) (now : Nat) : State :=
  if st.lockEpoch ≠ job.lockEpoch ∨ st.sessionIsActive w job.scope = false then
    { st with queue := (st.queue.deny job.id now).1 }
  else st

-- the grant is inserted where the queue still takes the completion
def install (st : State) (job : Job) (file : DecryptedHumanFile) (t t' : Nat) : State :=
  match st.queue.complete job.id job.generation t with
  | (queue, true) =>
    let grant := job.grant st.config file t'
    { st with queue := queue, grants := st.grants.insert grant }.emit (.inserted job grant)
  | (queue, false) => { st with queue := queue }

def report (st : State) (w : World) (job : Job) (result : Except ErrCode DecryptedHumanFile)
    (r : Readings) : State :=
  let st := st.killActive job.id
  match result with
  | .ok file => (st.denyStale w job r.t0).install job file r.t1 r.t2
  | .error e =>
    { st with
      queue := st.queue.fail job.id r.t0
      failures := st.failures ++ [(job.id, e)] }.emit (.failed job e)

end State

end Forward.Secrets

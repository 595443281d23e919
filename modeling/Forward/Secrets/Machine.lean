import Mathlib.Logic.Function.Basic
import Forward.Secrets.Broker

/-!
# Handlers, worker and operating system

The broker as a transition system. Any number of handlers each serve one request, one worker
decrypts, and around them processes come and go, files are replaced and process-group ids are
reused. One step is one critical section under the broker lock, or one thing outside it.
-/

namespace Forward.Secrets

open Lib

/-! ## Handlers -/

/-- One call of `dispatch_access`; AUTHORIZE also carries its capability and
the epoch it read first. -/
structure Flow where
  access : Access
  returnValue : Bool
  forceFresh : Bool
  caller : Peer
  authorizing : Option (Capability × Nat)

/-- Where a handler stands; the lock is free in each of these places. -/
inductive Task
  | received (request : Request) (caller : Peer)
  | resolving (flow : Flow)
  | awaiting (flow : Flow) (scope : Scope) (key : SecretName)
  | waiting (flow : Flow) (scope : Scope) (key : SecretName) (source : String) (id deadline : Nat)
  | approved (flow : Flow) (scope : Scope) (key : SecretName) (source : Option String)
      (requestId : Option Nat)
  | minting (cap : Capability) (epochBefore : Nat) (decision : Decision)
  | done (decision : Decision)

namespace Flow

-- `dispatch_access` returns: AUTHORIZE goes on to mint
def finish (flow : Flow) (decision : Decision) : Task :=
  match flow.authorizing with
  | some (cap, epochBefore) => .minting cap epochBefore decision
  | none => .done decision

def afterAwait (flow : Flow) (scope : Scope) (key : SecretName) : Await → Task
  | .wait source id deadline => .waiting flow scope key source id deadline
  | .settled (.granted source requestId) => .approved flow scope key source requestId
  | .settled (.refused e) =>
    flow.finish ⟨.failed e "request refused", some scope.kind, none, none⟩
  | .settled (.incomplete e id) =>
    flow.finish ⟨.failed e "approval did not complete", some scope.kind, none, some id⟩

end Flow

namespace State

/-- `dispatch`, up to its first critical section; the requests that need no
approval are answered in it. -/
def dispatch (st : State) (h : Nat) (caller : Peer) (now : Nat) : Request → State × Task
  | .hello version =>
    if version = protocolVersion then
      (st, .done (.new (.fields ("version=" ++ toString protocolVersion ++ " instance="
        ++ st.instanceId ++ " epoch=" ++ toString st.lockEpoch))))
    else (st, .done (.new (.failed .versionMismatch "unsupported protocol version")))
  | .register tokenHex session =>
    let (st, decision) := st.register tokenHex session caller
    (st, .done decision)
  | .unregister session =>
    let (st, decision) := st.unregister session
    (st, .done decision)
  | .get key tokenHex tty ttlSecs =>
    if startsWith key capabilityKeyPrefix then
      (st, .done (.new (.failed .notHumanKey "capability keys hold no retrievable value")))
    else (st, .resolving ⟨⟨key, tokenHex, tty, ttlSecs⟩, true, false, caller, none⟩)
  | .requestGrant key tokenHex tty ttlSecs =>
    if startsWith key capabilityKeyPrefix then
      (st, .done (.new (.failed .notHumanKey "capability keys hold no retrievable value")))
    else (st, .resolving ⟨⟨key, tokenHex, tty, ttlSecs⟩, false, false, caller, none⟩)
  | .authorize cap tokenHex tty =>
    match Capability.parse cap with
    | .error e => (st, .done (.new (.failed e "invalid capability name")))
    | .ok cap =>
      (st.emit (.began h cap st.lockEpoch),
        .resolving ⟨⟨cap.keyName, tokenHex, tty, none⟩, false, true, caller,
          some (cap, st.lockEpoch)⟩)
  | .redeem receiptHex cap =>
    let (st, decision) := st.redeem h receiptHex cap now
    (st, .done decision)
  | .grants => (st, .done (.new (.payload (st.grants.render now))))
  | .deny id =>
    let (st, decision) := st.deny id now
    (st, .done decision)
  | .lock =>
    let (st, decision) := st.lock now
    (st, .done decision)
  | .subscribe => (st, .done (.new (.failed .badRequest "subscription is connection-scoped")))

def handle (st : State) (w : World) (h : Nat) (r : Readings) (reads : List ReceiptId) :
    Task → Option (State × Task)
  | .received request caller => some (st.dispatch h caller r.t0 request)
  | .resolving flow =>
    match st.resolveAccess w h flow.access flow.caller with
    | (st, .ok (scope, key)) => some (st, .awaiting flow scope key)
    | (st, .error e) =>
      some (st, flow.finish ⟨.failed e "request has no usable scope", none, none, none⟩)
  | .awaiting flow scope key =>
    let (st, await) := st.awaitApproval w h scope key flow.forceFresh flow.access.requestedTtl r
    some (st, flow.afterAwait scope key await)
  | .waiting flow scope key source id deadline =>
    let (st, await) := st.awaitLoop source id deadline r.t0 r.t1
    some (st, flow.afterAwait scope key await)
  | .approved flow scope key source requestId =>
    let outcome :=
      if flow.returnValue then st.readValue scope key r.t0
      else st.grantedFields flow.access scope key r.t0
    some (st, flow.finish ⟨outcome, some scope.kind, source, requestId⟩)
  | .minting cap epochBefore decision =>
    let (st, decision) := st.finishAuthorization h cap epochBefore decision r.t0 reads
    some (st, .done decision)
  | .done _ => none

-- the reply leaves the handler in the section that decided it
def conclude (st : State) (h now : Nat) : Task → State
  | .done decision => st.emit (.answered h decision now)
  | _ => st

end State

/-! ## Worker and process groups -/

/-- Where the worker stands. `file` is the ciphertext it opened, and
`processGroup` the id of the sops child `child`. -/
inductive Worker
  | idle
  | opening (job : Job)
  | spawning (job : Job) (file : OpenedHumanFile)
  | starting (job : Job) (file : OpenedHumanFile) (processGroup child : Nat)
  | polling (job : Job) (file : OpenedHumanFile) (processGroup child : Nat)
  | reporting (job : Job) (result : Except ErrCode DecryptedHumanFile)

def Worker.job : Worker → Option Job
  | .idle => none
  | .opening job => some job
  | .spawning job _ => some job
  | .starting job _ _ _ => some job
  | .polling job _ _ _ => some job
  | .reporting job _ => some job

/-- Who a process-group id belongs to: a sops child of the worker, with
`others` further processes in its group, or somebody else. -/
inductive Owner
  | child (child : Nat) (reaped : Bool) (others : Nat)
  | foreign
  deriving DecidableEq

/-- An id without an owner may be given to a new group. -/
structure Os where
  groups : Nat → Option Owner
  children : Nat

namespace Os

def setGroup (os : Os) (processGroup : Nat) (owner : Option Owner) : Os :=
  { os with groups := Function.update os.groups processGroup owner }

def spawn (os : Os) (processGroup : Nat) : Os :=
  { os.setGroup processGroup (some (.child os.children false 0)) with
    children := os.children + 1 }

/-- What is left of a group: nothing once its child is reaped and no process
of it remains. -/
def settle (child : Nat) (reaped : Bool) (others : Nat) : Option Owner :=
  if reaped && others == 0 then none else some (.child child reaped others)

def reap (os : Os) (processGroup : Nat) : Os :=
  match os.groups processGroup with
  | some (.child child _ others) => os.setGroup processGroup (settle child true others)
  | _ => os

end Os

/-- How the polling loop of `decrypt_opened_with_start` ends. -/
inductive Poll
  | exited (exit : Exit)
  | deadline
  | deadlineOverflow
  | waitError

def maxProcessId : Nat := 2 ^ 31 - 1

/-! ## The system -/

structure Sys where
  st : State
  worker : Worker
  tasks : Nat → Option Task
  world : World
  os : Os
  clock : Nat

inductive Action
  | world (w : World)
  | replace (dir fileName : String) (identity : FileIdentity)
  | receive (h : Nat) (request : Request) (caller : Peer)
  | handle (h : Nat) (r : Readings) (reads : List ReceiptId)
  | tick (now : Nat)
  | openFile (reachable : Bool)
  | spawn (processGroup : Option Nat)
  | start
  | poll (outcome : Poll)
  | report (r : Readings)
  | forkMember (processGroup : Nat)
  | memberExit (processGroup : Nat)
  | foreignStart (processGroup : Nat)
  | foreignEnd (processGroup : Nat)

/-- Rename a new regular file over the directory entry. -/
def World.replaceFile (w : World) (dir fileName : String) (identity : FileIdentity) : World :=
  { w with
    readDir := Function.update w.readDir dir
      (match w.readDir dir with
      | .entries list =>
        .entries (list.map fun e => e.map fun entry =>
          if entry.name = some fileName then { entry with node := .regular identity } else entry)
      | other => other) }

namespace Sys

def setTask (s : Sys) (h : Nat) (task : Task) : Sys :=
  { s with tasks := Function.update s.tasks h (some task) }

def step (s : Sys) : Action → Option Sys
  | .world w => some { s with world := w }
  | .replace dir fileName identity =>
    match parseHumanFileName fileName, HumanStore.nodeAt s.world dir fileName with
    | .key key _, .regular old =>
      some { s with
        world := s.world.replaceFile dir fileName identity
        st := s.st.emit (.replaced key old identity) }
    | _, _ => none
  | .receive h request caller =>
    match s.tasks h with
    | none =>
      some { s.setTask h (.received request caller) with
        st := s.st.emit (.received h request caller) }
    | some _ => none
  | .handle h r reads =>
    match s.tasks h with
    | none => none
    | some task =>
      if s.clock ≤ r.t0 then
        match s.st.handle s.world h r reads task with
        | none => none
        | some (st, task) =>
          some { s.setTask h task with st := st.conclude h r.t0 task, clock := r.t3 }
      else none
  | .tick now =>
    match s.worker with
    | .idle =>
      if s.clock ≤ now then
        match s.st.tick s.world now with
        | (st, none) => some { s with st := st, clock := now }
        | (st, some job) => some { s with st := st, worker := .opening job, clock := now }
      else none
    | _ => none
  | .openFile reachable =>
    match s.worker with
    | .opening job =>
      if reachable then
        match s.st.store.open s.world job.key with
        | .ok file =>
          some { s with st := s.st.emit (.opened job file), worker := .spawning job file }
        | .error e => some { s with worker := .reporting job (.error e) }
      else some { s with worker := .reporting job (.error .yubikeyUnreachable) }
    | _ => none
  | .spawn processGroup =>
    match s.worker with
    | .spawning job file =>
      match processGroup with
      | none => some { s with worker := .reporting job (.error .internal) }
      | some pg =>
        match s.os.groups pg with
        | some _ => none
        | none =>
          let worker : Worker :=
            if pg ≤ maxProcessId then .starting job file pg s.os.children
            else .reporting job (.error .internal)
          some { s with worker := worker, os := s.os.spawn pg }
    | _ => none
  | .start =>
    match s.worker with
    | .starting job file pg child =>
      some { s with st := s.st.onStarted job pg child, worker := .polling job file pg child }
    | _ => none
  | .poll outcome =>
    match s.worker with
    | .polling job file pg child =>
      match outcome with
      | .exited exit =>
        let result := exit.result job.key file
        let st :=
          match result with
          | .ok decrypted => s.st.emit (.decrypted job decrypted)
          | .error _ => s.st
        some { s with st := st, worker := .reporting job result, os := s.os.reap pg }
      | .deadline =>
        some { s with
          st := s.st.emit (.killed pg child)
          worker := .reporting job (.error .timeout)
          os := s.os.reap pg }
      | .deadlineOverflow | .waitError =>
        some { s with worker := .reporting job (.error .internal) }
    | _ => none
  | .report r =>
    match s.worker with
    | .reporting job result =>
      if s.clock ≤ r.t0 then
        some { s with st := s.st.report s.world job result r, worker := .idle, clock := r.t3 }
      else none
    | _ => none
  | .forkMember pg =>
    match s.os.groups pg with
    | some (.child child reaped others) =>
      some { s with os := s.os.setGroup pg (some (.child child reaped (others + 1))) }
    | _ => none
  | .memberExit pg =>
    match s.os.groups pg with
    | some (.child child reaped (others + 1)) =>
      some { s with os := s.os.setGroup pg (Os.settle child reaped others) }
    | _ => none
  | .foreignStart pg =>
    match s.os.groups pg with
    | none => some { s with os := s.os.setGroup pg (some .foreign) }
    | some _ => none
  | .foreignEnd pg =>
    match s.os.groups pg with
    | some .foreign => some { s with os := s.os.setGroup pg none }
    | _ => none

/-- What the rest of the machine can do to process groups. -/
inductive OsMove (os : Os) : Action → Os → Prop
  | forkMember {pg child others : Nat} {reaped : Bool}
      (hGroup : os.groups pg = some (.child child reaped others)) :
      OsMove os (.forkMember pg) (os.setGroup pg (some (.child child reaped (others + 1))))
  | memberExit {pg child others : Nat} {reaped : Bool}
      (hGroup : os.groups pg = some (.child child reaped (others + 1))) :
      OsMove os (.memberExit pg) (os.setGroup pg (Os.settle child reaped others))
  | foreignStart {pg : Nat} (hGroup : os.groups pg = none) :
      OsMove os (.foreignStart pg) (os.setGroup pg (some .foreign))
  | foreignEnd {pg : Nat} (hGroup : os.groups pg = some .foreign) :
      OsMove os (.foreignEnd pg) (os.setGroup pg none)

inductive Move (s : Sys) : Action → Sys → Prop
  | world (w : World) : Move s (.world w) { s with world := w }
  | replace {dir fileName : String} {identity old : FileIdentity} {key : SecretName}
      {isLocal : Bool} (hName : parseHumanFileName fileName = .key key isLocal)
      (hNode : HumanStore.nodeAt s.world dir fileName = .regular old) :
      Move s (.replace dir fileName identity)
        { s with
          world := s.world.replaceFile dir fileName identity
          st := s.st.emit (.replaced key old identity) }
  | receive {h : Nat} {request : Request} {caller : Peer} (hTask : s.tasks h = none) :
      Move s (.receive h request caller)
        { s.setTask h (.received request caller) with
          st := s.st.emit (.received h request caller) }
  | handle {h : Nat} {r : Readings} {reads : List ReceiptId} {task task' : Task} {st' : State}
      (hTask : s.tasks h = some task) (hClock : s.clock ≤ r.t0)
      (hHandle : s.st.handle s.world h r reads task = some (st', task')) :
      Move s (.handle h r reads)
        { s.setTask h task' with st := st'.conclude h r.t0 task', clock := r.t3 }
  | tick {now : Nat} {st' : State} (hWorker : s.worker = .idle) (hClock : s.clock ≤ now)
      (hTick : s.st.tick s.world now = (st', none)) :
      Move s (.tick now) { s with st := st', clock := now }
  | begin {now : Nat} {st' : State} {job : Job} (hWorker : s.worker = .idle)
      (hClock : s.clock ≤ now) (hTick : s.st.tick s.world now = (st', some job)) :
      Move s (.tick now) { s with st := st', worker := .opening job, clock := now }
  | openFile {job : Job} {file : OpenedHumanFile} (hWorker : s.worker = .opening job)
      (hOpen : s.st.store.open s.world job.key = .ok file) :
      Move s (.openFile true)
        { s with st := s.st.emit (.opened job file), worker := .spawning job file }
  | openFailed {job : Job} {reachable : Bool} {e : ErrCode} (hWorker : s.worker = .opening job) :
      Move s (.openFile reachable) { s with worker := .reporting job (.error e) }
  | spawnFailed {job : Job} {file : OpenedHumanFile} (hWorker : s.worker = .spawning job file) :
      Move s (.spawn none) { s with worker := .reporting job (.error .internal) }
  | spawn {job : Job} {file : OpenedHumanFile} {pg : Nat} (hWorker : s.worker = .spawning job file)
      (hFree : s.os.groups pg = none) :
      Move s (.spawn (some pg))
        { s with worker := .starting job file pg s.os.children, os := s.os.spawn pg }
  | spawnLost {job : Job} {file : OpenedHumanFile} {pg : Nat}
      (hWorker : s.worker = .spawning job file) (hFree : s.os.groups pg = none) :
      Move s (.spawn (some pg))
        { s with worker := .reporting job (.error .internal), os := s.os.spawn pg }
  | start {job : Job} {file : OpenedHumanFile} {pg child : Nat}
      (hWorker : s.worker = .starting job file pg child) :
      Move s .start
        { s with st := s.st.onStarted job pg child, worker := .polling job file pg child }
  | exited {job : Job} {file : OpenedHumanFile} {pg child : Nat} {exit : Exit}
      {decrypted : DecryptedHumanFile} (hWorker : s.worker = .polling job file pg child)
      (hResult : exit.result job.key file = .ok decrypted) :
      Move s (.poll (.exited exit))
        { s with
          st := s.st.emit (.decrypted job decrypted)
          worker := .reporting job (.ok decrypted)
          os := s.os.reap pg }
  | exitedBadly {job : Job} {file : OpenedHumanFile} {pg child : Nat} {exit : Exit} {e : ErrCode}
      (hWorker : s.worker = .polling job file pg child) :
      Move s (.poll (.exited exit))
        { s with worker := .reporting job (.error e), os := s.os.reap pg }
  | deadline {job : Job} {file : OpenedHumanFile} {pg child : Nat}
      (hWorker : s.worker = .polling job file pg child) :
      Move s (.poll .deadline)
        { s with
          st := s.st.emit (.killed pg child)
          worker := .reporting job (.error .timeout)
          os := s.os.reap pg }
  | abandoned {job : Job} {file : OpenedHumanFile} {pg child : Nat} {outcome : Poll}
      (hWorker : s.worker = .polling job file pg child) :
      Move s (.poll outcome) { s with worker := .reporting job (.error .internal) }
  | report {job : Job} {result : Except ErrCode DecryptedHumanFile} {r : Readings}
      (hWorker : s.worker = .reporting job result) (hClock : s.clock ≤ r.t0) :
      Move s (.report r)
        { s with st := s.st.report s.world job result r, worker := .idle, clock := r.t3 }
  | os {a : Action} {os' : Os} (hOs : OsMove s.os a os') : Move s a { s with os := os' }

theorem step_move {s t : Sys} {a : Action} (h : s.step a = some t) : Move s a t := by
  cases a with
  | world w =>
    injection h with h
    exact h ▸ .world w
  | replace =>
    rw [step] at h
    split at h
    · rename_i hName hNode
      injection h with h
      exact h ▸ .replace hName hNode
    · cases h
  | receive =>
    rw [step] at h
    split at h
    · rename_i hTask
      injection h with h
      exact h ▸ .receive hTask
    · cases h
  | handle =>
    rw [step] at h
    split at h
    · cases h
    · rename_i hTask
      split at h
      · rename_i hClock
        split at h
        · cases h
        · rename_i hHandle
          injection h with h
          exact h ▸ .handle hTask hClock hHandle
      · cases h
  | tick =>
    rw [step] at h
    split at h
    · rename_i hWorker
      split at h
      · rename_i hClock
        split at h
        · rename_i hTick
          injection h with h
          exact h ▸ .tick hWorker hClock hTick
        · rename_i hTick
          injection h with h
          exact h ▸ .begin hWorker hClock hTick
      · cases h
    · cases h
  | openFile =>
    rw [step] at h
    split at h
    · rename_i hWorker
      split at h
      · rename_i hReach
        subst hReach
        split at h
        · rename_i hOpen
          injection h with h
          exact h ▸ .openFile hWorker hOpen
        · injection h with h
          exact h ▸ .openFailed hWorker
      · injection h with h
        exact h ▸ .openFailed hWorker
    · cases h
  | spawn =>
    rw [step] at h
    split at h
    · rename_i hWorker
      split at h
      · injection h with h
        exact h ▸ .spawnFailed hWorker
      · split at h
        · cases h
        · rename_i hFree
          injection h with h
          subst h
          split
          · exact .spawn hWorker hFree
          · exact .spawnLost hWorker hFree
    · cases h
  | start =>
    rw [step] at h
    split at h
    · rename_i hWorker
      injection h with h
      exact h ▸ .start hWorker
    · cases h
  | poll =>
    rw [step] at h
    split at h
    · rename_i hWorker
      split at h
      · injection h with h
        subst h
        split
        · rename_i hResult
          rw [hResult]
          exact .exited hWorker hResult
        · rename_i hResult
          rw [hResult]
          exact .exitedBadly hWorker
      · injection h with h
        exact h ▸ .deadline hWorker
      · injection h with h
        exact h ▸ .abandoned hWorker
      · injection h with h
        exact h ▸ .abandoned hWorker
    · cases h
  | report =>
    rw [step] at h
    split at h
    · rename_i hWorker
      split at h
      · rename_i hClock
        injection h with h
        exact h ▸ .report hWorker hClock
      · cases h
    · cases h
  | forkMember =>
    rw [step] at h
    split at h
    · rename_i hGroup
      injection h with h
      exact h ▸ .os (.forkMember hGroup)
    · cases h
  | memberExit =>
    rw [step] at h
    split at h
    · rename_i hGroup
      injection h with h
      exact h ▸ .os (.memberExit hGroup)
    · cases h
  | foreignStart =>
    rw [step] at h
    split at h
    · rename_i hGroup
      injection h with h
      exact h ▸ .os (.foreignStart hGroup)
    · cases h
  | foreignEnd =>
    rw [step] at h
    split at h
    · rename_i hGroup
      injection h with h
      exact h ▸ .os (.foreignEnd hGroup)
    · cases h

end Sys

def broker (cfg : Config) (bootId instanceId : String) (w : World) : System Sys Action where
  init :=
    { st := State.new cfg bootId instanceId
      worker := .idle
      tasks := fun _ => none
      world := w
      os := ⟨fun _ => none, 0⟩
      clock := 0 }
  step := Sys.step

/-- A machine where every process runs, every path exists and every caller
descends from every root, with no human-tier files. -/
def quietWorld : World where
  alive := fun _ => true
  descendsFrom := fun _ _ => true
  pathExists := fun _ => true
  readDir := fun _ => .notFound
  openDir := fun _ => true

def fileWorld (fileName : String) (inode : Nat) : World :=
  { quietWorld with
    readDir := fun _ =>
      .entries [some ⟨some fileName, .regular ⟨0, inode, 0, ⟨0, 0⟩, ⟨0, 0⟩⟩⟩] }

end Forward.Secrets

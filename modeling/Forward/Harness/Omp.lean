import Forward.Harness.Client
import Forward.Lib.System
import Forward.Lib.Threads

/-!
# The omp extension

All instances of the extension in one process share an anchor: one token, one registration. A
re-key makes a new `Anchor`, and the tasks keep the one they started with. The handlers and the
calls of `ensureRegistered` are interleaved tasks; the broker does not restart and answers every
message. A token is taken as new whenever one is issued (`minted`).
-/

namespace Forward.Harness.Omp

open Lib Secrets

/-! ## The process -/

structure Anchor where
  ownerSessionId : String
  token : SessionToken
  brokerInstance : Option Nat
  registered : Bool
  -- the task of the registration in flight
  registration : Option Nat
  aborted : Bool

structure Instance where
  isOwner : Bool
  claimed : Bool
  ownSessionId : Option String
  requestAborted : Bool

structure Shared where
  current : Option Nat
  anchors : Nat → Option Anchor
  instances : Nat → Instance

/-- Who waits for `ensureRegistered`: a handler that returns after it, the tool,
or the tool's request after UNKNOWN_TOKEN. -/
inductive Caller
  | event
  | request
  | reregister

inductive Task
  | probing (caller : Caller) (x : Nat) (answer : Option Nat)
  | joining (caller : Caller) (x promise : Nat)
  -- the promise of a registration, up to its `finally`
  | registering (x : Nat) (call : Call)
  | compensating (x : Nat) (call : Call)
  | settling (x : Nat) (ok : Bool)
  | settled (x : Nat) (ok : Bool)
  -- the tool: the tier of the key, then the request
  | gating (x : Nat)
  | requesting (x : Nat) (again : Bool) (call : Call)
  -- the UNREGISTER of a re-key from one anchor to the next, and of a shutdown
  | rekeying (x next : Nat) (call : Call)
  | closing (x : Nat) (call : Call)
  | finished

/-- What runs until the next `await`. -/
structure Next where
  shared : Shared
  task : Task
  spawned : Option Task

def Caller.resume (x : Nat) : Caller → Task
  | .event => .finished
  | .request => .gating x
  | .reregister => .requesting x true (.hello none)

namespace Shared

def update (sh : Shared) (x : Nat) (f : Anchor → Anchor) : Shared :=
  { sh with anchors := Function.update sh.anchors x ((sh.anchors x).map f) }

def isRegistered (sh : Shared) (x : Nat) : Bool := (sh.anchors x).any (·.registered)

/-- `assertAnchorLive` does not throw. -/
def isLive (sh : Shared) (x : Nat) : Bool :=
  decide (sh.current = some x) && (sh.anchors x).any fun anchor => !anchor.aborted

/-- The callback of the client, which reads the anchor afresh. -/
def onInstance (sh : Shared) (id : Nat) : Shared :=
  match sh.current with
  | none => sh
  | some x =>
    sh.update x fun anchor =>
      { anchor with
        registered :=
          if anchor.brokerInstance ≠ none ∧ anchor.brokerInstance ≠ some id then false
          else anchor.registered
        brokerInstance := some id }

/-- `createAnchor` and `setAnchor`; `none` where the token cannot be issued. -/
def createAnchor (sh : Shared) (x : Nat) (session : String) (file : Option SessionToken) :
    Option Shared :=
  if validSessionID session then
    file.map fun token =>
      { sh with
        current := some x
        anchors := Function.update sh.anchors x (some ⟨session, token, none, false, none, false⟩) }
  else none

/-- The end of `ensureRegistered`. -/
def awaitRegistration (sh : Shared) (caller : Caller) (x fresh : Nat) : Next :=
  match (sh.anchors x).bind (·.registration) with
  | some promise => ⟨sh, .joining caller x promise, none⟩
  | none =>
    if sh.isLive x then
      ⟨sh.update x fun anchor => { anchor with registration := some fresh },
        .joining caller x fresh, some (.registering x (.hello none))⟩
    else ⟨sh, .finished, none⟩

/-- `ensureRegistered` after its probe. -/
def probed (sh : Shared) (caller : Caller) (x fresh : Nat) : Next :=
  if sh.isRegistered x then ⟨sh, caller.resume x, none⟩ else sh.awaitRegistration caller x fresh

def ensureRegistered (sh : Shared) (caller : Caller) (x fresh : Nat) : Next :=
  if sh.isLive x then
    if sh.isRegistered x then ⟨sh, .probing caller x none, none⟩
    else sh.awaitRegistration caller x fresh
  else ⟨sh, .finished, none⟩

/-! ## The handlers -/

def sessionStart (sh : Shared) (i fresh x : Nat) (session : String)
    (file : Option SessionToken) : Next :=
  let own := { sh.instances i with ownSessionId := some session }
  let started := { sh with instances := Function.update sh.instances i own }
  match sh.current with
  | some anchor =>
    -- an instance that has claimed before does not adopt again
    let adopted := if own.claimed then own else { own with isOwner := false, claimed := true }
    { sh with instances := Function.update sh.instances i adopted }.ensureRegistered
      .event anchor fresh
  | none =>
    match sh.createAnchor x session file with
    | none => ⟨started, .finished, none⟩
    | some created =>
      let owner := { own with isOwner := true, claimed := true }
      { created with instances := Function.update sh.instances i owner }.ensureRegistered
        .event x fresh

/-- `refreshBrokerIdentity`. -/
def bash (sh : Shared) (fresh : Nat) : Next :=
  match sh.current with
  | none => ⟨sh, .finished, none⟩
  | some anchor => sh.ensureRegistered .event anchor fresh

def secretsRequest (sh : Shared) (i fresh x : Nat) (file : Option SessionToken) : Next :=
  match sh.current with
  | some anchor => sh.ensureRegistered .request anchor fresh
  | none =>
    match (sh.instances i).requestAborted, (sh.instances i).ownSessionId with
    | false, some session =>
      match sh.createAnchor x session file with
      | none => ⟨sh, .finished, none⟩
      | some created =>
        let owner := { sh.instances i with isOwner := true }
        { created with instances := Function.update sh.instances i owner }.ensureRegistered
          .request x fresh
    | _, _ => ⟨sh, .finished, none⟩

def rekeyed (sh : Shared) (c x : Nat) (previous : Anchor) (session : String)
    (token : SessionToken) : Shared :=
  let next :=
    { previous with
      ownerSessionId := session, token := token, registered := false, registration := none,
      aborted := false }
  { sh with current := some x, anchors := Function.update sh.anchors x (some next) }.update c
    fun anchor => { anchor with aborted := true }

def reKeyOnSessionIdChange (sh : Shared) (i fresh x : Nat) (session : String)
    (file : Option SessionToken) (removed : Bool) : Next :=
  match (sh.instances i).isOwner, sh.current with
  | true, some c =>
    match sh.anchors c, file with
    | some previous, some token =>
      if session = "" ∨ session = previous.ownerSessionId ∨ validSessionID session = false then
        ⟨sh, .finished, none⟩
      else
        let rekeyed := sh.rekeyed c x previous session token
        -- `removeTokenFile` is outside the handler's `try`
        if removed then
          if previous.registered then ⟨rekeyed, .rekeying c x (.hello none), none⟩
          else rekeyed.ensureRegistered .event x fresh
        else ⟨rekeyed, .finished, none⟩
    | _, _ => ⟨sh, .finished, none⟩
  | _, _ => ⟨sh, .finished, none⟩

def sessionShutdown (sh : Shared) (i : Nat) (removed : Bool) : Next :=
  let own := { sh.instances i with requestAborted := true }
  let ended := { sh with instances := Function.update sh.instances i own }
  match own.isOwner, sh.current with
  | true, some c =>
    let aborted := ended.update c fun anchor => { anchor with aborted := true }
    if sh.isRegistered c then ⟨aborted, .closing c (.hello none), none⟩
    else if removed then ⟨{ aborted with current := none }, .finished, none⟩
    else ⟨aborted, .finished, none⟩
  | _, _ => ⟨ended, .finished, none⟩

/-! ## Tasks -/

/-- A task whose wait is over; `ok` says whether the key's tier lets the tool go
on, and whether a shutdown can remove the token file. -/
def resume (sh : Shared) (promises : Nat → Option Task) (fresh : Nat) (ok : Bool) :
    Task → Option Next
  | .probing caller x (some id) => some ((sh.onInstance id).probed caller x fresh)
  | .joining caller x promise =>
    match promises promise with
    | some (.settled _ true) => some ⟨sh, caller.resume x, none⟩
    | some (.settled _ false) => some ⟨sh, .finished, none⟩
    | _ => none
  | .registering x (.hello (some id)) =>
    some ⟨sh.onInstance id, .registering x (.line none), none⟩
  | .registering x (.line (some answer)) =>
    if answer.reply = .ok then
      if sh.isLive x then
        some ⟨sh.update x fun anchor => { anchor with registered := true }, .settling x true, none⟩
      else some ⟨sh, .compensating x (.hello none), none⟩
    else some ⟨sh, .settling x false, none⟩
  | .compensating x (.hello (some id)) =>
    some ⟨sh.onInstance id, .compensating x (.line none), none⟩
  | .compensating x (.line (some _)) => some ⟨sh, .settling x false, none⟩
  | .settling x result =>
    some ⟨sh.update x fun anchor => { anchor with registration := none }, .settled x result, none⟩
  | .gating x =>
    if ok then some ⟨sh, .requesting x false (.hello none), none⟩
    else some ⟨sh, .finished, none⟩
  | .requesting x again (.hello (some id)) =>
    some ⟨sh.onInstance id, .requesting x again (.line none), none⟩
  | .requesting x again (.line (some answer)) =>
    if answer.reply = .unknownToken ∧ again = false ∧ sh.isLive x = true then
      some ((sh.update x fun anchor => { anchor with registered := false }).ensureRegistered
        .reregister x fresh)
    else some ⟨sh, .finished, none⟩
  | .rekeying x next (.hello (some id)) =>
    some ⟨sh.onInstance id, .rekeying x next (.line none), none⟩
  | .rekeying _ next (.line (some _)) => some (sh.ensureRegistered .event next fresh)
  | .closing x (.hello (some id)) => some ⟨sh.onInstance id, .closing x (.line none), none⟩
  | .closing _ (.line (some _)) =>
    -- `setAnchor` comes after `removeTokenFile` in the `finally`
    if ok then some ⟨{ sh with current := none }, .finished, none⟩
    else some ⟨sh, .finished, none⟩
  | _ => none

end Shared

namespace Task

/-- The broker's side of a task; the message is made of the task's anchor. -/
def serve (root : Peer) (sh : Shared) (b : Broker) : Task → Option (Broker × Task)
  | .probing caller x none => some (b, .probing caller x (some b.instanceId))
  | .registering x call =>
    (sh.anchors x).bind fun anchor =>
      (b.serveCall root true (.register anchor.token anchor.ownerSessionId) call).map
        fun (b, call) => (b, .registering x call)
  | .compensating x call =>
    (sh.anchors x).bind fun anchor =>
      (b.serveCall root true (.unregister anchor.ownerSessionId) call).map
        fun (b, call) => (b, .compensating x call)
  | .requesting x again call =>
    (sh.anchors x).bind fun anchor =>
      (b.serveCall root true (.request anchor.token) call).map
        fun (b, call) => (b, .requesting x again call)
  | .rekeying x next call =>
    (sh.anchors x).bind fun anchor =>
      (b.serveCall root true (.unregister anchor.ownerSessionId) call).map
        fun (b, call) => (b, .rekeying x next call)
  | .closing x call =>
    (sh.anchors x).bind fun anchor =>
      (b.serveCall root true (.unregister anchor.ownerSessionId) call).map
        fun (b, call) => (b, .closing x call)
  | _ => none

def sender : Task → Option Nat
  | .registering x (.line none) | .compensating x (.line none) | .rekeying x _ (.line none)
  | .closing x (.line none) => some x
  | _ => none

def done : Task → Bool
  | .settled .. | .finished => true
  | _ => false

end Task

/-! ## The system -/

structure Sys where
  shared : Shared
  broker : Broker
  tasks : Nat → Option Task
  -- every token that has been issued
  minted : List SessionToken

/-- What happens to the process from outside: an event, for a task `p` that
handles it, and a token, in case that one is issued. -/
inductive Event
  | sessionStart (i x : Nat) (session : String)
  | bash
  | secretsRequest (i x : Nat)
  | reKey (i x : Nat) (session : String) (removed : Bool)
  | sessionShutdown (i : Nat) (removed : Bool)

inductive Action
  | event (p fresh : Nat) (event : Event) (file : Option SessionToken)
  | serve (p : Nat)
  | turn (p fresh : Nat) (ok : Bool)
  | cancel (p : Nat)

def Action.numbers : Action → List Nat
  | .event p fresh _ _ | .turn p fresh _ => [p, fresh]
  | .serve p | .cancel p => [p]

def Event.anchor : Event → Option Nat
  | .sessionStart _ x _ | .secretsRequest _ x | .reKey _ x _ _ => some x
  | .bash | .sessionShutdown _ _ => none

def Event.next (sh : Shared) (fresh : Nat) (file : Option SessionToken) : Event → Next
  | .sessionStart i x session => sh.sessionStart i fresh x session file
  | .bash => sh.bash fresh
  | .secretsRequest i x => sh.secretsRequest i fresh x file
  | .reKey i x session removed => sh.reKeyOnSessionIdChange i fresh x session file removed
  | .sessionShutdown i removed => sh.sessionShutdown i removed

namespace Sys

def unused (s : Sys) (p fresh : Nat) : Bool := fresh != p && (s.tasks fresh).isNone

def goOn (s : Sys) (p fresh : Nat) (next : Next) : Sys :=
  let tasks :=
    match next.spawned with
    | none => s.tasks
    | some task => Function.update s.tasks fresh (some task)
  { s with shared := next.shared, tasks := Function.update tasks p (some next.task) }

def step (root : Peer) (s : Sys) : Action → Option Sys
  | .event p fresh event file =>
    -- the numbers are free, and the token is new
    if (s.tasks p).isNone && s.unused p fresh &&
        (event.anchor.all fun x => (s.shared.anchors x).isNone) &&
        (file.all fun token => decide (token ∉ s.minted)) then
      some ({ s with minted := file.toList ++ s.minted }.goOn p fresh
        (event.next s.shared fresh file))
    else none
  | .serve p =>
    match (s.tasks p).bind (Task.serve root s.shared s.broker) with
    | none => none
    | some (broker, task) =>
      some { s with broker := broker, tasks := Function.update s.tasks p (some task) }
  | .turn p fresh ok =>
    match (s.tasks p).bind (s.shared.resume s.tasks fresh ok) with
    | none => none
    | some next => if s.unused p fresh then some (s.goOn p fresh next) else none
  | .cancel p =>
    -- the signals of a request: the tool's, the instance's and the anchor's
    match s.tasks p with
    | some (.requesting ..) => some { s with tasks := Function.update s.tasks p (some .finished) }
    | _ => none

inductive Move (root : Peer) (s : Sys) : Action → Sys → Prop
  | event {p fresh : Nat} {event : Event} {file : Option SessionToken}
      (hTask : s.tasks p = none) (hFresh : fresh ≠ p ∧ s.tasks fresh = none)
      (hAnchor : ∀ x, event.anchor = some x → s.shared.anchors x = none)
      (hToken : ∀ token, file = some token → token ∉ s.minted) :
      Move root s (.event p fresh event file)
        ({ s with minted := file.toList ++ s.minted }.goOn p fresh
          (event.next s.shared fresh file))
  | serve {p : Nat} {task task' : Task} {broker : Broker} (hTask : s.tasks p = some task)
      (hServe : task.serve root s.shared s.broker = some (broker, task')) :
      Move root s (.serve p)
        { s with broker := broker, tasks := Function.update s.tasks p (some task') }
  | turn {p fresh : Nat} {ok : Bool} {task : Task} {next : Next}
      (hTask : s.tasks p = some task) (hFresh : fresh ≠ p ∧ s.tasks fresh = none)
      (hNext : s.shared.resume s.tasks fresh ok task = some next) :
      Move root s (.turn p fresh ok) (s.goOn p fresh next)
  | cancel {p x : Nat} {again : Bool} {call : Call}
      (hTask : s.tasks p = some (.requesting x again call)) :
      Move root s (.cancel p) { s with tasks := Function.update s.tasks p (some .finished) }

theorem step_move {root : Peer} {s t : Sys} {a : Action} (h : s.step root a = some t) :
    Move root s a t := by
  cases a with
  | event p fresh event =>
    simp only [step] at h
    split at h
    · rename_i hGuard
      simp only [unused, Bool.and_eq_true, bne_iff_ne, Option.isNone_iff_eq_none,
        Option.all_eq_true, decide_eq_true_eq] at hGuard
      obtain ⟨⟨⟨hTask, hFresh⟩, hAnchor⟩, hToken⟩ := hGuard
      cases h
      exact .event hTask hFresh hAnchor hToken
    · cases h
  | serve =>
    simp only [step] at h
    split at h
    · cases h
    · rename_i hBind
      obtain ⟨task, hTask, hServe⟩ := Option.bind_eq_some_iff.mp hBind
      cases h
      exact .serve hTask hServe
  | turn =>
    simp only [step] at h
    split at h
    · cases h
    · rename_i hBind
      obtain ⟨task, hTask, hNext⟩ := Option.bind_eq_some_iff.mp hBind
      split at h
      · rename_i hFresh
        simp only [unused, Bool.and_eq_true, bne_iff_ne, Option.isNone_iff_eq_none] at hFresh
        cases h
        exact .turn hTask hFresh hNext
      · cases h
  | cancel =>
    simp only [step] at h
    split at h
    · rename_i hTask
      cases h
      exact .cancel hTask
    · cases h

theorem goOn_absent {s : Sys} {p fresh q : Nat} {next : Next} (hp : q ≠ p) (hFresh : q ≠ fresh)
    (hAbsent : s.tasks q = none) : (s.goOn p fresh next).tasks q = none := by
  unfold goOn
  cases next.spawned with
  | none => exact (Function.update_of_ne hp _ _).trans hAbsent
  | some =>
    exact (Function.update_of_ne hp _ _).trans ((Function.update_of_ne hFresh _ _).trans hAbsent)

theorem Move.absent {root : Peer} {s t : Sys} {a : Action} {q : Nat} (h : s.Move root a t)
    (hNot : q ∉ a.numbers) (hAbsent : s.tasks q = none) : t.tasks q = none := by
  cases h with
  | event | turn =>
    simp only [Action.numbers, List.mem_cons, List.not_mem_nil, or_false, not_or] at hNot
    exact goOn_absent hNot.1 hNot.2 hAbsent
  | serve | cancel =>
    simp only [Action.numbers, List.mem_cons, List.not_mem_nil, or_false] at hNot
    exact (Function.update_of_ne hNot _ _).trans hAbsent

end Sys

def omp (root : Peer) (bootId : String) : System Sys Action where
  init :=
    { shared :=
        { current := none
          anchors := fun _ => none
          instances := fun _ => ⟨false, false, none, false⟩ }
      broker := ⟨0, Registry.new bootId⟩
      tasks := fun _ => none
      minted := [] }
  step s a := s.step root a

theorem omp_move {root : Peer} {bootId : String} {s t : Sys} {a : Action}
    (h : (omp root bootId).step s a = some t) : s.Move root a t :=
  Sys.step_move h

end Forward.Harness.Omp

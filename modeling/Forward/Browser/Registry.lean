import Forward.Lib.System
import Forward.Lib.Table
import Forward.Lib.Threads
import Forward.Lib.Word
import Forward.Secretsd.Client

/-!
# The browser grant registry

`Grants` in `forward serve`: ceremonies insert browser grants, relays register the pipes they
serve, the reaper expires, and the subscription worker observes the broker's authority and revokes.
A step is one access under a lock; the pipes and grants locks are always taken together.

Not in the source: `trail`, what the calls have done, newest first, and the numbers of the calls
that a grant entry and a pipe carry.
-/

namespace Forward.Browser

open Lib Secretsd

structure ProcessAnchor where
  pid : Nat
  start : Nat
  deriving DecidableEq

/-- Instants count nanoseconds. -/
structure Grant where
  session : String
  anchor : ProcessAnchor
  token : List UInt8
  deadline : Nat
  endpointPort : Nat
  deriving DecidableEq

structure GrantEntry where
  grant : Grant
  control : Nat
  call : Nat
  deriving DecidableEq

structure Pipe where
  id : Nat
  client : Nat
  laptop : Nat
  call : Nat
  deriving DecidableEq

inductive Call
  | insertIfAuthority (authority : BrokerIdentity) (grant : Grant) (control : Nat)
  | observeAuthority (authority : BrokerIdentity)
  | invalidateAuthority
  | revokeAll
  | expire (id : Nat)
  | live (id : Nat)
  | snapshotLive
  | registerPipe (grantId client laptop : Nat)

inductive Answer
  | unit
  | inserted (id : Option Nat)
  | changed (changed : Bool)
  | live (grant : Option Grant)
  | snapshot (tokens : List (List UInt8 × Nat))
  | notFound
  | notCloned
  deriving DecidableEq

inductive Ending
  | observe (authority : BrokerIdentity)
  | invalidate
  | revoke
  | expire (answer : Answer)
  deriving DecidableEq

def Ending.holds : Ending → Bool
  | .observe _ | .invalidate => true
  | .revoke | .expire _ => false

def Ending.answer : Ending → Answer
  | .observe _ => .changed true
  | .invalidate | .revoke => .unit
  | .expire answer => answer

/-- Where a call stands. A `checked` call has found the authority it names; a
`severing` call has taken its grants and pipes out of the registry, and has
these pipes and control channels still to shut down; a `guarding` one has
returned the guard of its pipe. -/
inductive Task
  | inserting (authority : BrokerIdentity) (grant : Grant) (control : Nat)
  | checked (authority : BrokerIdentity) (grant : Grant) (control : Nat)
  | observing (authority : BrokerIdentity)
  | invalidating
  | draining (ending : Ending)
  | expiring (id : Nat) (answer : Answer)
  | severing (ending : Ending) (pipes : List Pipe) (controls : List Nat)
  | looking (id : Nat)
  | timing
  | listing (now : Nat)
  | registering (grantId client laptop : Nat)
  | guarding (grantId : Nat) (pipe : Pipe)
  | returned (answer : Answer)
  deriving DecidableEq

def Task.holds : Task → Bool
  | .checked _ _ _ => true
  | .draining ending | .severing ending _ _ => ending.holds
  | _ => false

def Call.start : Call → Task
  | .insertIfAuthority authority grant control => .inserting authority grant control
  | .observeAuthority authority => .observing authority
  | .invalidateAuthority => .invalidating
  | .revokeAll => .draining .revoke
  | .expire id => .expiring id .unit
  | .live id => .looking id
  | .snapshotLive => .timing
  | .registerPipe grantId client laptop => .registering grantId client laptop

/-- What the calls do: `observed` and `invalidated` when they return, with the
authority found on entry; `reported` names the calls whose grants a reader was
handed; `shut` is both directions of both sockets. -/
inductive Event
  | inserted (t id : Nat) (authority : BrokerIdentity) (grant : Grant)
  | observed (t : Nat) (authority : BrokerIdentity) (previous : Option BrokerIdentity)
  | invalidated (t : Nat)
  | reported (t : Nat) (calls : List Nat)
  | registered (t grantId : Nat) (pipe : Pipe)
  | removed (t : Nat) (ids : List Nat)
  | shut (t : Nat) (pipe : Pipe)
  deriving DecidableEq

/-- Ids are `u64`, and `fetch_add` wraps around. -/
def idSpace : Nat := 2 ^ 64

structure Registry where
  grants : Table Nat GrantEntry
  pipes : Table Nat (List Pipe)
  authority : Option BrokerIdentity
  holder : Option Nat
  nextId : Nat
  clock : Nat
  tasks : Nat → Option Task
  trail : List Event

/-- A turn is a thread's next access; `cloned` says whether duplicating
descriptors works, where it does so. -/
inductive Action
  | call (t : Nat) (call : Call)
  | tick (elapsed : Nat)
  | turn (t : Nat) (cloned : Bool)

def GrantEntry.isLive (entry : GrantEntry) (now : Nat) : Bool := decide (now < entry.grant.deadline)

/-- A token and its whole seconds left, at least one. -/
def GrantEntry.remaining (entry : GrantEntry) (now : Nat) : List UInt8 × Nat :=
  (entry.grant.token, max (asSecs (durationSince entry.grant.deadline now)) 1)

namespace Registry

def setTask (r : Registry) (t : Nat) (task : Task) : Registry :=
  { r with tasks := Function.update r.tasks t (some task) }

theorem setTask_self (r : Registry) (t : Nat) (task : Task) :
    (r.setTask t task).tasks t = some task := Function.update_self ..

def emit (r : Registry) (e : Event) : Registry := { r with trail := e :: r.trail }

def answer (r : Registry) (t : Nat) (a : Answer) : Registry := r.setTask t (.returned a)

def lock (r : Registry) (t : Nat) : Registry := { r with holder := some t }

def unlock (r : Registry) : Registry := { r with holder := none }

def insert (r : Registry) (t : Nat) (authority : BrokerIdentity) (grant : Grant)
    (control : Nat) : Registry :=
  { r with
    grants := r.grants.insert r.nextId ⟨grant, control, t⟩
    nextId := (r.nextId + 1) % idSpace }.emit (.inserted t r.nextId authority grant)

def drainAll (r : Registry) (t : Nat) : Registry :=
  { r with grants := ∅, pipes := ∅ }.emit (.removed t r.grants.keys)

def remove (r : Registry) (t id : Nat) : Registry :=
  { r with grants := r.grants.erase id, pipes := r.pipes.erase id }.emit
    (.removed t (if id ∈ r.grants then [id] else []))

def push (r : Registry) (t grantId : Nat) (pipe : Pipe) : Registry :=
  { r with
    pipes := r.pipes.insert grantId ((r.pipes.lookup grantId).getD [] ++ [pipe])
    nextId := (r.nextId + 1) % idSpace }.emit (.registered t grantId pipe)

def dropGuard (r : Registry) (grantId pipeId : Nat) : Registry :=
  match r.pipes.lookup grantId with
  | none => r
  | some entries =>
    { r with pipes := r.pipes.insert grantId (entries.filter fun pipe => pipe.id ≠ pipeId) }

/-- An ending call returns: where it has the authority locked, what it wrote is
there for others from now on. -/
def conclude (r : Registry) (t : Nat) : Ending → Registry
  | .observe authority =>
    ({ r with authority := some authority }.emit (.observed t authority r.authority)).unlock
  | .invalidate => ({ r with authority := none }.emit (.invalidated t)).unlock
  | .revoke | .expire _ => r

def turn (r : Registry) (t : Nat) (cloned : Bool) : Task → Option Registry
  | .inserting authority grant control =>
    if r.holder ≠ none then none
    else if r.authority ≠ some authority then some (r.answer t (.inserted none))
    else some ((r.lock t).setTask t (.checked authority grant control))
  | .checked authority grant control =>
    if cloned then
      some ((r.insert t authority grant control).unlock.answer t (.inserted (some r.nextId)))
    else some (r.unlock.answer t (.inserted none))
  | .observing authority =>
    if r.holder ≠ none then none
    else if r.authority.any (· ≠ authority) then
      some ((r.lock t).setTask t (.draining (.observe authority)))
    else
      some (({ r with authority := some authority }.emit
        (.observed t authority r.authority)).answer t (.changed false))
  | .invalidating =>
    if r.holder ≠ none then none
    else some ((r.lock t).setTask t (.draining .invalidate))
  | .draining ending =>
    some ((r.drainAll t).setTask t
      (.severing ending r.pipes.values.flatten (r.grants.values.map (·.control))))
  | .expiring id answer =>
    some ((r.remove t id).setTask t
      (.severing (.expire answer) ((r.pipes.lookup id).getD [])
        ((r.grants.lookup id).toList.map (·.control))))
  | .severing ending (pipe :: pipes) controls =>
    some ((r.emit (.shut t pipe)).setTask t (.severing ending pipes controls))
  | .severing ending [] (_ :: controls) => some (r.setTask t (.severing ending [] controls))
  | .severing ending [] [] => some ((r.conclude t ending).answer t ending.answer)
  | .looking id =>
    match r.grants.lookup id with
    | none => some (r.answer t (.live none))
    | some entry =>
      if entry.isLive r.clock then
        some ((r.emit (.reported t [entry.call])).answer t (.live (some entry.grant)))
      else some (r.setTask t (.expiring id (.live none)))
  | .timing => some (r.setTask t (.listing r.clock))
  | .listing now =>
    let listed := r.grants.values.filter (·.isLive now)
    some ((r.emit (.reported t (listed.map (·.call)))).answer t
      (.snapshot (listed.map (·.remaining now))))
  | .registering grantId client laptop =>
    if grantId ∉ r.grants then some (r.answer t .notFound)
    else if cloned then
      let pipe : Pipe := ⟨r.nextId, client, laptop, t⟩
      some ((r.push t grantId pipe).setTask t (.guarding grantId pipe))
    else some (r.answer t .notCloned)
  | .guarding grantId pipe => some ((r.dropGuard grantId pipe.id).answer t .unit)
  | .returned _ => none

def step (r : Registry) : Action → Option Registry
  | .call t call =>
    match r.tasks t with
    | none => some (r.setTask t call.start)
    | some _ => none
  | .tick elapsed => some { r with clock := r.clock + elapsed }
  | .turn t cloned =>
    match r.tasks t with
    | none => none
    | some task => r.turn t cloned task

inductive Move (r : Registry) : Action → Registry → Prop
  | call {t : Nat} {call : Call} (hNew : r.tasks t = none) :
      Move r (.call t call) (r.setTask t call.start)
  | tick {elapsed : Nat} : Move r (.tick elapsed) { r with clock := r.clock + elapsed }
  | insertRefused {t : Nat} {cloned : Bool} {authority : BrokerIdentity} {grant : Grant}
      {control : Nat} (hTask : r.tasks t = some (.inserting authority grant control))
      (hFree : r.holder = none) (hOther : r.authority ≠ some authority) :
      Move r (.turn t cloned) (r.answer t (.inserted none))
  | insertChecked {t : Nat} {cloned : Bool} {authority : BrokerIdentity} {grant : Grant}
      {control : Nat} (hTask : r.tasks t = some (.inserting authority grant control))
      (hFree : r.holder = none) (hSame : r.authority = some authority) :
      Move r (.turn t cloned) ((r.lock t).setTask t (.checked authority grant control))
  | insertFailed {t : Nat} {authority : BrokerIdentity} {grant : Grant} {control : Nat}
      (hTask : r.tasks t = some (.checked authority grant control)) :
      Move r (.turn t false) (r.unlock.answer t (.inserted none))
  | inserted {t : Nat} {authority : BrokerIdentity} {grant : Grant} {control : Nat}
      (hTask : r.tasks t = some (.checked authority grant control)) :
      Move r (.turn t true)
        ((r.insert t authority grant control).unlock.answer t (.inserted (some r.nextId)))
  | observedSame {t : Nat} {cloned : Bool} {authority : BrokerIdentity}
      (hTask : r.tasks t = some (.observing authority)) (hFree : r.holder = none)
      (hSame : r.authority = none ∨ r.authority = some authority) :
      Move r (.turn t cloned)
        (({ r with authority := some authority }.emit
          (.observed t authority r.authority)).answer t (.changed false))
  | observedOther {t : Nat} {cloned : Bool} {authority : BrokerIdentity}
      (hTask : r.tasks t = some (.observing authority)) (hFree : r.holder = none) :
      Move r (.turn t cloned) ((r.lock t).setTask t (.draining (.observe authority)))
  | invalidating {t : Nat} {cloned : Bool} (hTask : r.tasks t = some .invalidating)
      (hFree : r.holder = none) :
      Move r (.turn t cloned) ((r.lock t).setTask t (.draining .invalidate))
  | drained {t : Nat} {cloned : Bool} {ending : Ending}
      (hTask : r.tasks t = some (.draining ending)) :
      Move r (.turn t cloned) ((r.drainAll t).setTask t
        (.severing ending r.pipes.values.flatten (r.grants.values.map (·.control))))
  | expired {t id : Nat} {cloned : Bool} {answer : Answer}
      (hTask : r.tasks t = some (.expiring id answer)) :
      Move r (.turn t cloned) ((r.remove t id).setTask t
        (.severing (.expire answer) ((r.pipes.lookup id).getD [])
          ((r.grants.lookup id).toList.map (·.control))))
  | shut {t : Nat} {cloned : Bool} {ending : Ending} {pipe : Pipe} {pipes : List Pipe}
      {controls : List Nat} (hTask : r.tasks t = some (.severing ending (pipe :: pipes) controls)) :
      Move r (.turn t cloned)
        ((r.emit (.shut t pipe)).setTask t (.severing ending pipes controls))
  | ended {t : Nat} {cloned : Bool} {ending : Ending} {control : Nat} {controls : List Nat}
      (hTask : r.tasks t = some (.severing ending [] (control :: controls))) :
      Move r (.turn t cloned) (r.setTask t (.severing ending [] controls))
  | concluded {t : Nat} {cloned : Bool} {ending : Ending}
      (hTask : r.tasks t = some (.severing ending [] [])) :
      Move r (.turn t cloned) ((r.conclude t ending).answer t ending.answer)
  | absent {t id : Nat} {cloned : Bool} (hTask : r.tasks t = some (.looking id)) :
      Move r (.turn t cloned) (r.answer t (.live none))
  | found {t id : Nat} {cloned : Bool} {entry : GrantEntry}
      (hTask : r.tasks t = some (.looking id)) (hEntry : r.grants.lookup id = some entry) :
      Move r (.turn t cloned)
        ((r.emit (.reported t [entry.call])).answer t (.live (some entry.grant)))
  | stale {t id : Nat} {cloned : Bool} (hTask : r.tasks t = some (.looking id)) :
      Move r (.turn t cloned) (r.setTask t (.expiring id (.live none)))
  | timed {t : Nat} {cloned : Bool} (hTask : r.tasks t = some .timing) :
      Move r (.turn t cloned) (r.setTask t (.listing r.clock))
  | listed {t now : Nat} {cloned : Bool} {answer : Answer}
      (hTask : r.tasks t = some (.listing now)) :
      Move r (.turn t cloned)
        ((r.emit (.reported t ((r.grants.values.filter (·.isLive now)).map (·.call)))).answer t
          answer)
  | unregistered {t grantId client laptop : Nat} {cloned : Bool} {answer : Answer}
      (hTask : r.tasks t = some (.registering grantId client laptop)) :
      Move r (.turn t cloned) (r.answer t answer)
  | registered {t grantId client laptop : Nat}
      (hTask : r.tasks t = some (.registering grantId client laptop))
      (hGrant : grantId ∈ r.grants) :
      Move r (.turn t true) ((r.push t grantId ⟨r.nextId, client, laptop, t⟩).setTask t
        (.guarding grantId ⟨r.nextId, client, laptop, t⟩))
  | guardDropped {t grantId : Nat} {cloned : Bool} {pipe : Pipe}
      (hTask : r.tasks t = some (.guarding grantId pipe)) :
      Move r (.turn t cloned) ((r.dropGuard grantId pipe.id).answer t .unit)

theorem turn_move {r r' : Registry} {t : Nat} {cloned : Bool} {task : Task}
    (hTask : r.tasks t = some task) (h : r.turn t cloned task = some r') :
    Move r (.turn t cloned) r' := by
  cases task with
  | inserting =>
    simp only [turn] at h
    split at h
    · cases h
    · rename_i hFree
      split at h
      · rename_i hOther
        exact Option.some.inj h ▸ .insertRefused hTask (not_not.mp hFree) hOther
      · rename_i hSame
        exact Option.some.inj h ▸ .insertChecked hTask (not_not.mp hFree) (not_not.mp hSame)
  | checked =>
    cases cloned with
    | true => exact Option.some.inj h ▸ .inserted hTask
    | false => exact Option.some.inj h ▸ .insertFailed hTask
  | observing authority =>
    simp only [turn] at h
    split at h
    · cases h
    · rename_i hFree
      split at h
      · exact Option.some.inj h ▸ .observedOther hTask (not_not.mp hFree)
      · rename_i hAny
        have hSame : r.authority = none ∨ r.authority = some authority := by
          cases hSeen : r.authority with
          | none => exact .inl rfl
          | some seen =>
            have hEq : seen = authority := by simpa [hSeen] using hAny
            exact .inr (congrArg some hEq)
        exact Option.some.inj h ▸ .observedSame hTask (not_not.mp hFree) hSame
  | invalidating =>
    simp only [turn] at h
    split at h
    · cases h
    · rename_i hFree
      exact Option.some.inj h ▸ .invalidating hTask (not_not.mp hFree)
  | draining => exact Option.some.inj h ▸ .drained hTask
  | expiring => exact Option.some.inj h ▸ .expired hTask
  | severing ending pipes controls =>
    rcases pipes with - | ⟨pipe, pipes⟩
    · rcases controls with - | ⟨control, controls⟩
      · exact Option.some.inj h ▸ .concluded hTask
      · exact Option.some.inj h ▸ .ended hTask
    · exact Option.some.inj h ▸ .shut hTask
  | looking =>
    simp only [turn] at h
    split at h
    · exact Option.some.inj h ▸ .absent hTask
    · rename_i hEntry
      split at h
      · exact Option.some.inj h ▸ .found hTask hEntry
      · exact Option.some.inj h ▸ .stale hTask
  | timing => exact Option.some.inj h ▸ .timed hTask
  | listing => exact Option.some.inj h ▸ .listed hTask
  | registering =>
    simp only [turn] at h
    split at h
    · exact Option.some.inj h ▸ .unregistered hTask
    · rename_i hGrant
      split at h
      · rename_i hCloned
        subst hCloned
        exact Option.some.inj h ▸ .registered hTask (not_not.mp hGrant)
      · exact Option.some.inj h ▸ .unregistered hTask
  | guarding => exact Option.some.inj h ▸ .guardDropped hTask
  | returned => cases h

theorem step_move {r r' : Registry} {a : Action} (h : r.step a = some r') : Move r a r' := by
  cases a with
  | call t call =>
    rw [step] at h
    split at h
    · rename_i hNew
      exact Option.some.inj h ▸ .call hNew
    · cases h
  | tick => exact Option.some.inj h ▸ .tick
  | turn =>
    rw [step] at h
    split at h
    · cases h
    · rename_i hTask
      exact turn_move hTask h

end Registry

def Action.thread : Action → Option Nat
  | .call t _ | .turn t _ => some t
  | .tick _ => none

variable {r r' : Registry} {a : Action}

theorem Registry.tasks_other {t : Nat} (hMove : r.Move a r')
    (ht : a.thread ≠ some t) : r'.tasks t = r.tasks t := by
  have hOther : ∀ {t' : Nat} {new : Task}, some t' ≠ some t →
      Function.update r.tasks t' (some new) t = r.tasks t :=
    fun hNe => Function.update_of_ne (fun hEq => hNe (congrArg some hEq.symm)) ..
  cases hMove with
  | tick => rfl
  | @concluded t' cloned ending => cases ending <;> exact hOther ht
  | @guardDropped =>
    unfold dropGuard
    split <;> exact hOther ht
  | _ => exact hOther ht

theorem Registry.trail_step (hMove : r.Move a r') : ∃ new, r'.trail = new ++ r.trail := by
  cases hMove with
  | inserted | observedSame | drained | expired | shut | found | listed | registered =>
    exact ⟨[_], rfl⟩
  | @concluded t cloned ending =>
    cases ending with
    | observe | invalidate => exact ⟨[_], rfl⟩
    | revoke | expire => exact ⟨[], rfl⟩
  | @guardDropped =>
    refine ⟨[], ?_⟩
    unfold dropGuard
    split <;> rfl
  | _ => exact ⟨[], rfl⟩

def registrySystem : System Registry Action where
  init := ⟨∅, ∅, none, none, 0, 0, fun _ => none, []⟩
  step := Registry.step

theorem registrySystem_move (h : registrySystem.step r a = some r') :
    r.Move a r' := Registry.step_move h

end Forward.Browser

import Forward.Harness.Client
import Forward.Lib.System
import Forward.Lib.Threads

/-!
# The OpenCode plugin

The closure of `createSecretsdPlugin` and its hooks as interleaved tasks. A task runs from one
`await` to the next in one step. It waits for a message to the broker or for the promise of a
registration, which is a task of its own, with its `then` and its `finally` as two steps.

A wait for the broker can end in an error at any time; the message may then still be on its way
(`stray`). That the token file cannot be written or put back is an argument of the step.
-/

namespace Forward.Harness.OpenCode

open Lib Secrets

/-! ## The closure -/

structure Plugin where
  states : String → Option SessionToken
  registered : String → Bool
  registrations : String → Option Nat
  brokerInstance : Option Nat

inductive Hook
  | shellEnv
  | secretsRequest

/-- Who waits for `ensureRegistered`: a hook, or the request that was answered
UNKNOWN_TOKEN, with the state it goes on with. -/
inductive Caller
  | hook (hook : Hook)
  | reregister (token : SessionToken)

inductive Task
  | probing (caller : Caller) (session : String) (token : SessionToken) (answer : Option Nat)
  | joining (caller : Caller) (session : String) (promise : Nat)
  | registering (session : String) (token : SessionToken) (call : Call)
  | settling (session : String) (result : Option SessionToken)
  | settled (result : Option SessionToken)
  | requesting (session : String) (token : SessionToken) (again : Bool) (call : Call)
  | deleting (session : String) (call : Call)
  | finished

/-- What runs until the next `await`: the closure after it, the task's next
place, and the registration that it has started. -/
structure Next where
  plugin : Plugin
  task : Task
  spawned : Option Task

/-- After `ensureRegistered` has returned. -/
def Caller.resume (session : String) (token : SessionToken) : Caller → Task
  | .hook .shellEnv => .finished
  | .hook .secretsRequest => .requesting session token false (.hello none)
  | .reregister state => .requesting session state true (.hello none)

namespace Plugin

/-- The callback of the client on every handshake. -/
def onInstance (plugin : Plugin) (id : Nat) : Plugin :=
  { plugin with
    registered := fun session =>
      if plugin.brokerInstance ≠ none ∧ plugin.brokerInstance ≠ some id then false
      else plugin.registered session
    brokerInstance := some id }

/-- `file` is the token that is in the token file afterwards: of a known session
its own, of another one a new one; without it the hook throws. -/
def ensureState (plugin : Plugin) (session : String) (file : Option SessionToken) :
    Option (Plugin × SessionToken) :=
  match plugin.states session with
  | some token => file.map fun _ => (plugin, token)
  | none =>
    if validSessionID session then
      file.map fun token =>
        ({ plugin with states := Function.update plugin.states session (some token) }, token)
    else none

/-- The end of `ensureRegistered`: wait for the registration that is in flight,
or start one. -/
def awaitRegistration (plugin : Plugin) (caller : Caller) (session : String)
    (token : SessionToken) (fresh : Nat) : Next :=
  match plugin.registrations session with
  | some inFlight => ⟨plugin, .joining caller session inFlight, none⟩
  | none =>
    ⟨{ plugin with registrations := Function.update plugin.registrations session (some fresh) },
      .joining caller session fresh, some (.registering session token (.hello none))⟩

/-- `ensureRegistered` after its probe. -/
def probed (plugin : Plugin) (caller : Caller) (session : String) (token : SessionToken)
    (fresh : Nat) : Next :=
  if plugin.registered session then ⟨plugin, caller.resume session token, none⟩
  else plugin.awaitRegistration caller session token fresh

def ensureRegistered (plugin : Plugin) (caller : Caller) (session : String)
    (file : Option SessionToken) (fresh : Nat) : Next :=
  match plugin.ensureState session file with
  | none => ⟨plugin, .finished, none⟩
  | some (plugin, token) =>
    if plugin.registered session then ⟨plugin, .probing caller session token none, none⟩
    else plugin.awaitRegistration caller session token fresh

def removeState (plugin : Plugin) (session : String) : Plugin :=
  { plugin with
    states := Function.update plugin.states session none
    registered := Function.update plugin.registered session false
    registrations := Function.update plugin.registrations session none }

def resume (plugin : Plugin) (promises : Nat → Option Task) (file : Option SessionToken)
    (fresh : Nat) : Task → Option Next
  | .probing caller session token (some id) =>
    some ((plugin.onInstance id).probed caller session token fresh)
  | .joining caller session promise =>
    match promises promise with
    | some (.settled (some token)) => some ⟨plugin, caller.resume session token, none⟩
    | some (.settled none) => some ⟨plugin, .finished, none⟩
    | _ => none
  | .registering session token (.hello (some id)) =>
    some ⟨plugin.onInstance id, .registering session token (.line none), none⟩
  | .registering session token (.line (some answer)) =>
    if answer.reply = .ok then
      some ⟨{ plugin with registered := Function.update plugin.registered session true },
        .settling session (some token), none⟩
    else some ⟨plugin, .settling session none, none⟩
  | .settling session result =>
    some ⟨{ plugin with registrations := Function.update plugin.registrations session none },
      .settled result, none⟩
  | .requesting session token again (.hello (some id)) =>
    some ⟨plugin.onInstance id, .requesting session token again (.line none), none⟩
  | .requesting session token again (.line (some answer)) =>
    if answer.reply = .unknownToken ∧ again = false then
      some (({ plugin with registered := Function.update plugin.registered session false }
        : Plugin).ensureRegistered (.reregister token) session file fresh)
    else some ⟨plugin, .finished, none⟩
  | .deleting session (.hello (some id)) =>
    some ⟨plugin.onInstance id, .deleting session (.line none), none⟩
  | .deleting session (.line (some _)) => some ⟨plugin.removeState session, .finished, none⟩
  | _ => none

def throw (plugin : Plugin) (fresh : Nat) : Task → Option Next
  -- the probe's failure is swallowed
  | .probing caller session token _ => some (plugin.probed caller session token fresh)
  | .registering session _ _ => some ⟨plugin, .settling session none, none⟩
  | .requesting .. => some ⟨plugin, .finished, none⟩
  | .deleting session _ => some ⟨plugin.removeState session, .finished, none⟩
  | _ => none

theorem ensureState_cases {plugin plugin' : Plugin} {session : String} {token : SessionToken}
    {file : Option SessionToken}
    (h : plugin.ensureState session file = some (plugin', token)) :
    (plugin' = plugin ∧ plugin.states session = some token) ∨
    (plugin.states session = none ∧ plugin' =
      { plugin with states := Function.update plugin.states session (some token) }) := by
  unfold ensureState at h
  split at h
  · rename_i hState
    obtain ⟨_, -, hPair⟩ := Option.map_eq_some_iff.mp h
    cases hPair
    exact .inl ⟨rfl, hState⟩
  · rename_i hNone
    split at h
    · obtain ⟨state, -, hPair⟩ := Option.map_eq_some_iff.mp h
      cases hPair
      exact .inr ⟨hNone, rfl⟩
    · cases h

end Plugin

/-! ## The broker's side of a task -/

namespace Task

def serve (root : Peer) (accepted : Bool) (b : Broker) : Task → Option (Broker × Task)
  | .probing caller session token none =>
    some (b, .probing caller session token (some b.instanceId))
  | .registering session token call =>
    (b.serveCall root accepted (.register token session) call).map fun (b, call) =>
      (b, .registering session token call)
  | .requesting session token again call =>
    (b.serveCall root accepted (.request token) call).map fun (b, call) =>
      (b, .requesting session token again call)
  | .deleting session call =>
    (b.serveCall root accepted (.unregister session) call).map fun (b, call) =>
      (b, .deleting session call)
  | _ => none

def message : Task → Option Message
  | .registering session token (.line none) => some (.register token session)
  | .requesting _ token _ (.line none) => some (.request token)
  | .deleting session (.line none) => some (.unregister session)
  | _ => none

/-- The session of a hook that is under way, `session.deleted` apart. -/
def hook : Task → Option String
  | .probing _ session _ _ | .joining _ session _ | .registering session _ _
  | .settling session _ | .requesting session _ _ _ => some session
  | _ => none

def session : Task → Option String
  | .deleting session _ => some session
  | task => task.hook

end Task

/-! ## The system -/

structure Sys where
  plugin : Plugin
  broker : Broker
  tasks : Nat → Option Task
  -- sent by a task that has given up
  stray : List Message
  -- history: the session's last hook was a `session.deleted`, without broker error
  ended : String → Bool

inductive Action
  | start (p : Nat) (hook : Hook) (session : String) (file : Option SessionToken) (fresh : Nat)
  | delete (p : Nat) (session : String)
  | serve (p : Nat) (accepted : Bool)
  | serveStray (i : Nat) (accepted : Bool)
  | lose (i : Nat)
  | turn (p : Nat) (file : Option SessionToken) (fresh : Nat)
  | fail (p : Nat) (kept : Bool) (fresh : Nat)
  | restart

def Action.numbers : Action → List Nat
  | .start p _ _ _ fresh | .turn p _ fresh | .fail p _ fresh => [p, fresh]
  | .delete p _ | .serve p _ => [p]
  | .serveStray .. | .lose .. | .restart => []

namespace Sys

def unused (s : Sys) (p fresh : Nat) : Bool := fresh != p && (s.tasks fresh).isNone

def goOn (s : Sys) (p fresh : Nat) (next : Next) : Sys :=
  let tasks := Function.update s.tasks p (some next.task)
  { s with
    plugin := next.plugin
    tasks :=
      match next.spawned with
      | none => tasks
      | some task => Function.update tasks fresh (some task) }

def closes (s : Sys) (task : Task) : String → Bool :=
  match task with
  | .deleting session (.line (some answer)) =>
    Function.update s.ended session (decide (answer.reply = .ok))
  | _ => s.ended

def step (root : Peer) (s : Sys) : Action → Option Sys
  | .start p hook session file fresh =>
    if (s.tasks p).isNone && s.unused p fresh then
      some
        ({ s with ended := Function.update s.ended session false }.goOn p fresh
          (s.plugin.ensureRegistered (.hook hook) session file fresh))
    else none
  | .delete p session =>
    if (s.tasks p).isNone then
      match s.plugin.states session with
      | none =>
        some
          { s with
            tasks := Function.update s.tasks p (some .finished)
            ended := Function.update s.ended session true }
      | some _ =>
        some
          { s with
            tasks := Function.update s.tasks p (some (.deleting session (.hello none)))
            ended := Function.update s.ended session false }
    else none
  | .serve p accepted =>
    match (s.tasks p).bind (Task.serve root accepted s.broker) with
    | none => none
    | some (broker, task) =>
      some { s with broker := broker, tasks := Function.update s.tasks p (some task) }
  | .serveStray i accepted =>
    match s.stray[i]? with
    | none => none
    | some message =>
      some
        { s with
          broker := (s.broker.handle root accepted message).1
          stray := s.stray.eraseIdx i }
  | .lose i => some { s with stray := s.stray.eraseIdx i }
  | .turn p file fresh =>
    match s.tasks p with
    | none => none
    | some task =>
      match s.plugin.resume s.tasks file fresh task with
      | none => none
      | some next =>
        if s.unused p fresh then some ({ s with ended := s.closes task }.goOn p fresh next)
        else none
  | .fail p kept fresh =>
    match s.tasks p with
    | none => none
    | some task =>
      match s.plugin.throw fresh task with
      | none => none
      | some next =>
        if s.unused p fresh then
          some
            ({ s with stray := if kept then task.message.toList ++ s.stray else s.stray }.goOn
              p fresh next)
        else none
  | .restart => some { s with broker := s.broker.restart }

inductive Move (root : Peer) (s : Sys) : Action → Sys → Prop
  | start {p fresh : Nat} {hook : Hook} {session : String} {file : Option SessionToken}
      (hTask : s.tasks p = none) (hFresh : s.unused p fresh = true) :
      Move root s (.start p hook session file fresh)
        ({ s with ended := Function.update s.ended session false }.goOn p fresh
          (s.plugin.ensureRegistered (.hook hook) session file fresh))
  | nothing {p : Nat} {session : String} (hTask : s.tasks p = none)
      (hState : s.plugin.states session = none) :
      Move root s (.delete p session)
        { s with
          tasks := Function.update s.tasks p (some .finished)
          ended := Function.update s.ended session true }
  | delete {p : Nat} {session : String} (hTask : s.tasks p = none) :
      Move root s (.delete p session)
        { s with
          tasks := Function.update s.tasks p (some (.deleting session (.hello none)))
          ended := Function.update s.ended session false }
  | serve {p : Nat} {accepted : Bool} {task task' : Task} {broker : Broker}
      (hTask : s.tasks p = some task)
      (hServe : task.serve root accepted s.broker = some (broker, task')) :
      Move root s (.serve p accepted)
        { s with broker := broker, tasks := Function.update s.tasks p (some task') }
  | serveStray {i : Nat} {accepted : Bool} {message : Message} (hStray : s.stray[i]? = some message) :
      Move root s (.serveStray i accepted)
        { s with
          broker := (s.broker.handle root accepted message).1
          stray := s.stray.eraseIdx i }
  | lose {i : Nat} : Move root s (.lose i) { s with stray := s.stray.eraseIdx i }
  | turn {p fresh : Nat} {file : Option SessionToken} {task : Task} {next : Next}
      (hTask : s.tasks p = some task) (hFresh : s.unused p fresh = true)
      (hNext : s.plugin.resume s.tasks file fresh task = some next) :
      Move root s (.turn p file fresh) ({ s with ended := s.closes task }.goOn p fresh next)
  | fail {p fresh : Nat} {kept : Bool} {task : Task} {next : Next}
      (hTask : s.tasks p = some task) (hFresh : s.unused p fresh = true)
      (hNext : s.plugin.throw fresh task = some next) :
      Move root s (.fail p kept fresh)
        ({ s with stray := if kept then task.message.toList ++ s.stray else s.stray }.goOn
          p fresh next)
  | restart : Move root s .restart { s with broker := s.broker.restart }

theorem step_move {root : Peer} {s t : Sys} {a : Action} (h : s.step root a = some t) :
    Move root s a t := by
  cases a with
  | start =>
    simp only [step] at h
    split at h
    · rename_i hGuard
      simp only [Bool.and_eq_true, Option.isNone_iff_eq_none] at hGuard
      cases h
      exact .start hGuard.1 hGuard.2
    · cases h
  | delete =>
    simp only [step] at h
    split at h
    · rename_i hTask
      rw [Option.isNone_iff_eq_none] at hTask
      split at h
      · rename_i hState
        cases h
        exact .nothing hTask hState
      · cases h
        exact .delete hTask
    · cases h
  | serve =>
    simp only [step] at h
    split at h
    · cases h
    · rename_i hBind
      obtain ⟨task, hTask, hServe⟩ := Option.bind_eq_some_iff.mp hBind
      cases h
      exact .serve hTask hServe
  | serveStray =>
    simp only [step] at h
    split at h
    · cases h
    · rename_i hStray
      cases h
      exact .serveStray hStray
  | lose =>
    cases h
    exact .lose
  | turn =>
    simp only [step] at h
    split at h
    · cases h
    · rename_i hTask
      split at h
      · cases h
      · rename_i hNext
        split at h
        · rename_i hFresh
          cases h
          exact .turn hTask hFresh hNext
        · cases h
  | fail =>
    simp only [step] at h
    split at h
    · cases h
    · rename_i hTask
      split at h
      · cases h
      · rename_i hNext
        split at h
        · rename_i hFresh
          cases h
          exact .fail hTask hFresh hNext
        · cases h
  | restart =>
    cases h
    exact .restart

theorem goOn_absent {s : Sys} {p fresh q : Nat} {next : Next} (hp : q ≠ p) (hFresh : q ≠ fresh)
    (hAbsent : s.tasks q = none) : (s.goOn p fresh next).tasks q = none := by
  have hOwn : Function.update s.tasks p (some next.task) q = none :=
    (Function.update_of_ne hp _ _).trans hAbsent
  unfold goOn
  cases next.spawned with
  | none => exact hOwn
  | some => exact (Function.update_of_ne hFresh _ _).trans hOwn

theorem Move.absent {root : Peer} {s t : Sys} {a : Action} {q : Nat} (h : s.Move root a t)
    (hNot : q ∉ a.numbers) (hAbsent : s.tasks q = none) : t.tasks q = none := by
  cases h with
  | start | turn | fail =>
    simp only [Action.numbers, List.mem_cons, List.not_mem_nil, or_false, not_or] at hNot
    exact goOn_absent hNot.1 hNot.2 hAbsent
  | nothing | delete | serve =>
    simp only [Action.numbers, List.mem_cons, List.not_mem_nil, or_false] at hNot
    exact (Function.update_of_ne hNot _ _).trans hAbsent
  | serveStray | lose | restart => exact hAbsent

end Sys

/-- A plugin that has just been loaded, and a broker that has just been started. -/
def openCode (root : Peer) (bootId : String) : System Sys Action where
  init :=
    { plugin :=
        { states := fun _ => none
          registered := fun _ => false
          registrations := fun _ => none
          brokerInstance := none }
      broker := ⟨0, Registry.new bootId⟩
      tasks := fun _ => none
      stray := []
      ended := fun _ => false }
  step s a := s.step root a

theorem openCode_move {root : Peer} {bootId : String} {s t : Sys} {a : Action}
    (h : (openCode root bootId).step s a = some t) : s.Move root a t :=
  Sys.step_move h

end Forward.Harness.OpenCode

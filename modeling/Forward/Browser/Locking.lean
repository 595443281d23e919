import Forward.Browser.EventLine
import Forward.Secrets.Daemon

/-!
# From LOCK to the browser grants

The broker's daemon and `forward serve` side by side. The worker reads the event lines that the hub
wrote to its connection in full, one after the other, each as far as one read of `run_once` takes
it. A read without an event (a timeout, the end of the stream, a line that was cut off) can come at
any time; HELLO may answer anything, and all other calls on the registry are free.
-/

namespace Forward.Browser

open Lib Hygiene Proto Secretsd
open Secrets (AuthorityEvent Config Daemon DaemonAction Hub HubAction daemon)

/-- What the hub wrote to a connection in full, oldest first. -/
def sent (hub : Hub) (conn : Nat) : List AuthorityEvent :=
  ((hub.deliveries.filter fun d => d.conn == conn && d.full).map fun d => d.event).reverse

/-- What one read takes of a line. -/
def lineRead (event : AuthorityEvent) : Option String :=
  fromUtf8 ((textBytes event.line).take maxEpochLine)

/-- `conn` is the worker's connection; `taken` counts the events it has read there. -/
structure Link where
  daemon : Daemon
  serve : Serve
  conn : Nat
  taken : Nat

inductive LinkAction
  | daemon (a : DaemonAction)
  | serve (a : ServeAction)
  | attach (conn : Nat) (socket : SocketIdentity)
  | take (t : Nat)

namespace Link

/-- The step of `forward serve` attaches to the hub or reads an event from it. -/
def usesHub : ServeAction → Bool
  | .subscribe (.ok _) => true
  | .read _ line => (line.bind parseAuthorityEvent).isSome
  | _ => false

def step (timing : SubscriptionTiming) (l : Link) : LinkAction → Option Link
  | .daemon a => (l.daemon.step a).map fun daemon => { l with daemon := daemon }
  | .serve a =>
    if usesHub a then none
    else (l.serve.step timing a).map fun serve => { l with serve := serve }
  | .attach conn socket =>
    (l.serve.step timing (.subscribe (.ok socket))).map fun serve =>
      ⟨l.daemon, serve, conn, 0⟩
  | .take t =>
    match (sent l.daemon.hub l.conn)[l.taken]? with
    | none => none
    | some event =>
      (l.serve.step timing (.read t (lineRead event))).map fun serve =>
        ⟨l.daemon, serve, l.conn, l.taken + 1⟩

def last (l : Link) : Option AuthorityEvent := ((sent l.daemon.hub l.conn).take l.taken).getLast?

end Link

def link (cfg : Config) (bootId instanceId : String) (w : Secrets.World)
    (timing : SubscriptionTiming) : System Link LinkAction where
  init := ⟨(daemon cfg bootId instanceId w).init, (serve timing).init, 0, 0⟩
  step := Link.step timing

/-! ## The hub's end -/

theorem receive_lineRead {event : AuthorityEvent} {socket : SocketIdentity}
    {identity : BrokerIdentity} (hLength : event.instanceId.toList.length = 32)
    (hHex : event.instanceId.toList.all isHexDigit = true) (hEpoch : event.epoch < 2 ^ 64)
    (h : receive socket (lineRead event) = .ok identity) :
    identity = ⟨event.instanceId, event.epoch, socket⟩ := by
  obtain ⟨text, parsed, hText, hParse⟩ := event_of_receive h
  obtain ⟨front, hLine, hNewline, -⟩ := event_bytes event.epoch hLength hHex
  have hIn := newline_of_fromUtf8 hText (newline_of_parseAuthorityEvent hParse)
  -- the newline is the last byte of the line, so the read has taken all of it
  have hAll : (textBytes event.line).take maxEpochLine = textBytes event.line := by
    change textBytes event.line = _ at hLine
    rw [List.take_eq_self_iff]
    by_contra hLong
    rw [hLine, List.take_append_of_le_length (by simp [hLine] at hLong; omega)] at hIn
    exact hNewline (List.mem_of_mem_take hIn)
  have hRead : lineRead event = some event.line := fromUtf8_eq_some_iff.mpr hAll.symm
  have hInstance : event.instanceId.toList ≠ [] := by
    intro hNone
    rw [hNone] at hLength
    cases hLength
  rw [hRead] at h
  refine receive_identity h (parseAuthorityEvent_event hEpoch hInstance ?_)
  exact List.all_eq_true.mpr fun c hc => isAsciiGraphic_of_isHexDigit (List.all_eq_true.mp hHex c hc)

theorem deliveries_step {hub hub' : Hub} {a : HubAction} (hStep : hub.step a = some hub') :
    ∃ new, hub'.deliveries = new ++ hub.deliveries ∧
      ∀ d ∈ new, d.event.instanceId = hub.instanceId := by
  cases Hub.step_move hStep with
  | wrote | dropped | attached | unwritten =>
    exact ⟨[_], rfl, fun d hd => by rw [List.mem_singleton.mp hd]⟩
  | _ => exact ⟨[], rfl, fun d hd => by cases hd⟩

theorem hub_of_step {d d' : Daemon} {a : DaemonAction} (hStep : d.step a = some d') :
    d'.hub = d.hub ∨ ∃ b, d.hub.step b = some d'.hub := by
  cases a with
  | broker a =>
    unfold Daemon.step at hStep
    dsimp only at hStep
    split at hStep
    · cases hStep
    · split at hStep
      · cases hStep
        exact .inl rfl
      · obtain ⟨hub, hHub, rfl⟩ := Option.map_eq_some_iff.mp hStep
        exact .inr ⟨_, hHub⟩
  | hub a =>
    cases a with
    | lock => cases hStep
    | _ =>
      simp only [Daemon.step, Option.map_eq_some_iff] at hStep
      obtain ⟨hub, hHub, rfl⟩ := hStep
      exact .inr ⟨_, hHub⟩

theorem mem_of_sent {hub : Hub} {conn : Nat} {event : AuthorityEvent} (h : event ∈ sent hub conn) :
    ∃ d ∈ hub.deliveries, d.event = event := by
  obtain ⟨d, hd, hEq⟩ := List.mem_map.mp (List.mem_reverse.mp h)
  exact ⟨d, List.mem_of_mem_filter hd, hEq⟩

theorem sent_getLast {hub : Hub} {sub : Secrets.Subscriber} (h : Secrets.Ordered hub)
    (hTold : hub.Told sub) :
    ∃ event, (sent hub sub.conn).getLast? = some event ∧ event.epoch = hub.epoch := by
  obtain ⟨d, hIn, hConn, hEvent, hFull⟩ := hTold
  have hMem : d ∈ hub.deliveries.filter fun d => d.conn == sub.conn && d.full := by
    simp [List.mem_filter, hIn, hConn, hFull]
  have hOrder := h.order.filter fun d => d.conn == sub.conn && d.full
  unfold sent
  cases hWrites : hub.deliveries.filter fun d => d.conn == sub.conn && d.full with
  | nil =>
    rw [hWrites] at hMem
    cases hMem
  | cons newest rest =>
    have hNewest : newest ∈ hub.deliveries :=
      List.mem_of_mem_filter (hWrites ▸ List.mem_cons_self : newest ∈ _)
    rw [hWrites] at hMem hOrder
    refine ⟨newest.event, by simp, Nat.le_antisymm (h.written newest hNewest) ?_⟩
    have hEpoch : hub.epoch = d.event.epoch := by rw [hEvent]
    rw [hEpoch]
    rcases List.mem_cons.mp hMem with rfl | hRest
    · exact Nat.le_refl _
    · exact (List.pairwise_cons.mp hOrder).1 d hRest

/-! ## The worker's end -/

def Place.socket : Place → Option SocketIdentity
  | .reading socket | .observing _ _ socket => some socket
  | _ => none

/-- The authority that the worker has observed last, or is about to observe. -/
def Serve.heard (s : Serve) : Option BrokerIdentity :=
  match s.worker.place with
  | .observing _ identity _ => some identity
  | _ => s.registry.authority

section

variable {s s' : Serve} {timing : SubscriptionTiming} {socket : SocketIdentity}

theorem begin_place {t : Nat} {call : Call} {place : Place}
    (h : s.begin t call place = some s') : s'.worker.place = place := by
  obtain ⟨r, -, rfl⟩ := Option.map_eq_some_iff.mp h
  rfl

theorem handle_place {t : Nat} {failure : SubscriptionFailure}
    (h : s.handle timing t failure = some s') : s'.worker.place.socket = none := by
  unfold Serve.handle at h
  split at h
  · dsimp only at h
    split at h
    · rw [begin_place h]
      rfl
    · cases h
      rfl
  · rw [begin_place h]
    rfl

theorem heard_registry {a : Action} (hInv : Attended s)
    (hStep : s.step timing (.registry a) = some s') (hSocket : s'.worker.place.socket = some socket) :
    s.worker.place.socket = some socket ∧ s'.heard = s.heard := by
  obtain ⟨r, hRun, rfl⟩ : ∃ r, s.registry.step a = some r ∧ { s with registry := r } = s' := by
    cases a with
    | call =>
      simp only [Serve.step] at hStep
      split at hStep
      · cases hStep
      · exact Option.map_eq_some_iff.mp hStep
    | tick | turn => exact Option.map_eq_some_iff.mp hStep
  refine ⟨hSocket, ?_⟩
  unfold Serve.heard
  dsimp only at hSocket ⊢
  split
  · rfl
  · -- the worker is not inside a call, so nobody changes the authority
    rename_i hNot
    rcases Registry.authority_step (Registry.step_move hRun) with hSame | ⟨t, task, -, hTask, hTo⟩
    · exact hSame
    · obtain ⟨ending, hPending⟩ := hInv.solo t task hTask hTo
      cases hPlace : s.worker.place with
      | observing t identity socket => exact absurd hPlace (hNot t identity socket)
      | reading => rw [hPlace] at hPending; cases hPending
      | _ => rw [hPlace] at hSocket; cases hSocket

theorem heard_resume (hInv : Attended s) (hStep : s.step timing .resume = some s')
    (hSocket : s'.worker.place.socket = some socket) :
    s.worker.place.socket = some socket ∧ s'.heard = s.heard := by
  simp only [Serve.step] at hStep
  split at hStep
  · split at hStep <;> cases hStep
    cases hSocket
  · rename_i t identity socket' hPlace
    split at hStep
    · rename_i hDone
      cases hStep
      obtain ⟨answer, hTask⟩ := Serve.returned_iff.mp hDone
      have hPending : s.worker.place.pending = some (t, .observe identity) := by rw [hPlace]; rfl
      have hLeft := hInv.left hPending hTask
      unfold Serve.heard
      rw [hPlace]
      exact ⟨hSocket, hLeft⟩
    · cases hStep
  · split at hStep <;> cases hStep
    unfold Serve.closed at hSocket
    split at hSocket <;> cases hSocket
  · cases hStep

theorem heard_step {a : ServeAction} (hInv : Attended s) (hStep : s.step timing a = some s')
    (hOwn : ¬ Link.usesHub a = true) (hSocket : s'.worker.place.socket = some socket) :
    s.worker.place.socket = some socket ∧ s'.heard = s.heard := by
  cases a with
  | registry => exact heard_registry hInv hStep hSocket
  | resume => exact heard_resume hInv hStep hSocket
  -- the other steps end outside of a subscription
  | hello =>
    simp only [Serve.step] at hStep
    split at hStep
    · cases hStep
      cases hSocket
    · rw [begin_place hStep] at hSocket
      cases hSocket
    · cases hStep
  | subscribe =>
    simp only [Serve.step] at hStep
    split at hStep
    · cases hStep
      cases hSocket
    · exact absurd rfl hOwn
    · cases hStep
  | read =>
    simp only [Serve.step] at hStep
    split at hStep
    · split at hStep
      · cases hStep
        cases hSocket
      · rename_i hReceive
        obtain ⟨text, event, rfl, hParse⟩ := event_of_receive hReceive
        simp [Link.usesHub, hParse] at hOwn
    · cases hStep
  | handle =>
    simp only [Serve.step] at hStep
    split at hStep
    · rw [handle_place hStep] at hSocket
      cases hSocket
    · cases hStep
  | wake =>
    simp only [Serve.step] at hStep
    split at hStep
    · split at hStep <;> cases hStep
      cases hSocket
    · cases hStep

end

/-! ## Whole runs -/

section

variable {cfg : Config} {bootId instanceId : String} {w : Secrets.World}
  {timing : SubscriptionTiming} {l l' : Link}

/-- Both ends run as they would alone, and the worker of an attached subscription has heard
what it read last. -/
structure Linked (cfg : Config) (bootId instanceId : String) (w : Secrets.World)
    (timing : SubscriptionTiming) (l : Link) : Prop where
  daemon : Reachable (daemon cfg bootId instanceId w) l.daemon
  serve : Reachable (serve timing) l.serve
  own : ∀ d ∈ l.daemon.hub.deliveries, d.event.instanceId = instanceId
  taken : l.taken ≤ (sent l.daemon.hub l.conn).length
  heard : ∀ socket event, l.serve.worker.place.socket = some socket → l.last = some event →
    l.serve.heard = some ⟨event.instanceId, event.epoch, socket⟩

theorem Linked.ordered (h : Linked cfg bootId instanceId w timing l) :
    Secrets.Ordered l.daemon.hub :=
  (Secrets.hubInv_reachable (Secrets.Daemon.joined_reachable h.daemon).hub).ordered

theorem linked_daemon {a : DaemonAction} {d : Daemon}
    (h : Linked cfg bootId instanceId w timing l) (hStep : l.daemon.step a = some d) :
    Linked cfg bootId instanceId w timing { l with daemon := d } := by
  obtain ⟨new, hNew, hOwn⟩ : ∃ new, d.hub.deliveries = new ++ l.daemon.hub.deliveries ∧
      ∀ x ∈ new, x.event.instanceId = l.daemon.hub.instanceId := by
    rcases hub_of_step hStep with hSame | ⟨b, hHub⟩
    · exact ⟨[], by rw [hSame]; rfl, fun x hx => by cases hx⟩
    · exact deliveries_step hHub
  obtain ⟨more, hMore⟩ : ∃ more, sent d.hub l.conn = sent l.daemon.hub l.conn ++ more := by
    unfold sent
    rw [hNew, List.filter_append, List.map_append, List.reverse_append]
    exact ⟨_, rfl⟩
  refine ⟨h.daemon.step hStep, h.serve, ?_, ?_, ?_⟩
  · dsimp only
    rw [hNew, List.forall_mem_append]
    exact ⟨fun x hx => (hOwn x hx).trans (Secrets.Daemon.joined_reachable h.daemon).instanceId,
      h.own⟩
  · dsimp only
    rw [hMore, List.length_append]
    exact Nat.le_add_right_of_le h.taken
  · intro socket event hSocket hEvent
    refine h.heard socket event hSocket ?_
    rwa [Link.last, hMore, List.take_append_of_le_length h.taken] at hEvent

theorem linked_take {t : Nat} {next : AuthorityEvent} {s : Serve}
    (hLength : instanceId.toList.length = 32) (hHex : instanceId.toList.all isHexDigit = true)
    (h : Linked cfg bootId instanceId w timing l)
    (hNext : (sent l.daemon.hub l.conn)[l.taken]? = some next)
    (hStep : l.serve.step timing (.read t (lineRead next)) = some s) :
    Linked cfg bootId instanceId w timing ⟨l.daemon, s, l.conn, l.taken + 1⟩ := by
  refine ⟨h.daemon, h.serve.step (a := .read t (lineRead next)) hStep, h.own,
    (List.getElem?_eq_some_iff.mp hNext).choose, ?_⟩
  intro socket event hSocket hEvent
  obtain rfl : next = event := by
    simpa [Link.last, List.take_add_one, hNext] using hEvent
  obtain ⟨d, hIn, rfl⟩ := mem_of_sent (List.mem_of_getElem? hNext)
  have hEpoch : d.event.epoch < 2 ^ 64 :=
    Nat.lt_of_le_of_lt ((h.ordered.written d hIn).trans h.ordered.word) (by decide)
  simp only [Serve.step] at hStep
  split at hStep
  · split at hStep
    · cases hStep
      cases hSocket
    · rename_i hReceive
      obtain ⟨r, -, rfl⟩ := Option.map_eq_some_iff.mp hStep
      cases hSocket
      rw [receive_lineRead (h.own d hIn ▸ hLength) (h.own d hIn ▸ hHex) hEpoch hReceive]
      rfl
  · cases hStep

theorem linked_step {a : LinkAction} (hLength : instanceId.toList.length = 32)
    (hHex : instanceId.toList.all isHexDigit = true) (h : Linked cfg bootId instanceId w timing l)
    (hStep : l.step timing a = some l') : Linked cfg bootId instanceId w timing l' := by
  cases a with
  | daemon =>
    obtain ⟨d, hDaemon, rfl⟩ := Option.map_eq_some_iff.mp hStep
    exact linked_daemon h hDaemon
  | serve a =>
    simp only [Link.step] at hStep
    split at hStep
    · cases hStep
    · rename_i hOwn
      obtain ⟨s, hServe, rfl⟩ := Option.map_eq_some_iff.mp hStep
      refine ⟨h.daemon, h.serve.step hServe, h.own, h.taken, ?_⟩
      intro socket event hSocket hEvent
      obtain ⟨hWas, hSame⟩ := heard_step (attended_reachable h.serve) hServe hOwn hSocket
      exact hSame.trans (h.heard socket event hWas hEvent)
  | attach conn socket =>
    obtain ⟨s, hServe, rfl⟩ := Option.map_eq_some_iff.mp hStep
    have hReach : Reachable (serve timing) s := h.serve.step (a := .subscribe (.ok socket)) hServe
    exact ⟨h.daemon, hReach, h.own, Nat.zero_le _, fun _ _ _ hEvent => by cases hEvent⟩
  | take =>
    simp only [Link.step] at hStep
    split at hStep
    · cases hStep
    · rename_i hNext
      obtain ⟨s, hServe, rfl⟩ := Option.map_eq_some_iff.mp hStep
      exact linked_take hLength hHex h hNext hServe

theorem linked_reachable (hLength : instanceId.toList.length = 32)
    (hHex : instanceId.toList.all isHexDigit = true)
    (h : Reachable (link cfg bootId instanceId w timing) l) :
    Linked cfg bootId instanceId w timing l := by
  refine h.invariant (I := Linked cfg bootId instanceId w timing)
    (fun _ _ _ hl _ hStep => linked_step hLength hHex hl hStep)
    ⟨.init, .init, (fun d hd => by cases hd), Nat.zero_le _, ?_⟩
  intro socket event hSocket
  cases hSocket

/-- **LOCK reaches the browser grants.** Once no LOCK is being published and the worker has read
what the hub wrote to it, the registry's authority is the broker's instance and current epoch, and
every browser grant was inserted under it: those from before the last LOCK are gone. -/
theorem lock_reaches_grants {sub : Secrets.Subscriber} {socket : SocketIdentity}
    (hLength : instanceId.toList.length = 32) (hHex : instanceId.toList.all isHexDigit = true)
    (h : Reachable (link cfg bootId instanceId w timing) l) (hQuiet : ¬ l.daemon.hub.Locking)
    (hSub : sub ∈ l.daemon.hub.subscribers) (hConn : sub.conn = l.conn)
    (hRead : l.taken = (sent l.daemon.hub l.conn).length)
    (hPlace : l.serve.worker.place = .reading socket) :
    l.serve.registry.authority = some ⟨instanceId, l.daemon.sys.st.lockEpoch, socket⟩ ∧
    ∀ id entry, l.serve.registry.grants.lookup id = some entry →
      l.serve.registry.InsertedUnder entry ⟨instanceId, l.daemon.sys.st.lockEpoch, socket⟩ := by
  have hInv := linked_reachable hLength hHex h
  have hJoined := Secrets.Daemon.joined_reachable hInv.daemon
  have hTold : l.daemon.hub.Told sub := by
    obtain ⟨j, hGet⟩ := List.mem_iff_getElem?.mp hSub
    refine ((Secrets.hubInv_reachable hJoined.hub).covered.told j sub hGet).resolve_right ?_
    rintro ⟨n, task, hTask, hWill⟩
    refine hQuiet ⟨n, task, hTask, ?_⟩
    rintro rfl
    exact hWill
  obtain ⟨event, hNewest, hEpoch⟩ := sent_getLast hInv.ordered hTold
  rw [hConn] at hNewest
  have hLast : l.last = some event := by
    rw [Link.last, hRead, List.take_length, hNewest]
  obtain ⟨d, hIn, rfl⟩ := mem_of_sent (List.mem_of_getLast? hNewest)
  have hAuthority := hInv.heard socket d.event (by rw [hPlace]; rfl) hLast
  rw [Serve.heard, hPlace, hInv.own d hIn, hEpoch, hJoined.epoch] at hAuthority
  refine ⟨hAuthority, ?_⟩
  intro id entry hEntry
  obtain ⟨a, hSome, hUnder⟩ := (attended_reachable hInv.serve).authorized.under id entry hEntry
  rw [Option.mem_unique hAuthority hSome]
  exact hUnder

end

def LinkAction.firstHandles : LinkAction → Bool
  | .daemon a => Secrets.firstHandles a
  | _ => true

theorem Link.step_absent {timing : SubscriptionTiming} {l l' : Link} {a : LinkAction} {n : Nat}
    (hFirst : a.firstHandles = true) (hn : n ≠ 0) (hStep : l.step timing a = some l')
    (hAbsent : l.daemon.hub.tasks (.handler n) = none) :
    l'.daemon.hub.tasks (.handler n) = none := by
  cases a with
  | daemon =>
    obtain ⟨d, hDaemon, rfl⟩ := Option.map_eq_some_iff.mp hStep
    refine Secrets.Daemon.step_absent hDaemon ?_ hAbsent
    rintro r reads rfl
    exact hn (eq_of_beq hFirst)
  | attach =>
    obtain ⟨s, -, rfl⟩ := Option.map_eq_some_iff.mp hStep
    exact hAbsent
  | serve | take =>
    simp only [Link.step] at hStep
    split at hStep
    · cases hStep
    · obtain ⟨s, -, rfl⟩ := Option.map_eq_some_iff.mp hStep
      exact hAbsent

theorem grant_gone_after_lock :
    ∃ l : Link, Reachable (link (Config.default [⟨"host", "/d"⟩]) "boot" zeroInstance
        Secrets.quietWorld .standard) l ∧ l.daemon.sys.st.lockEpoch = 1 ∧
      (∃ t a grant, .inserted t 0 a grant ∈ l.serve.registry.trail) ∧
      l.serve.registry.grants.lookup 0 = none ∧
      l.serve.registry.authority = some ⟨zeroInstance, 1, ⟨1, 2⟩⟩ := by
  let sys := link (Config.default [⟨"host", "/d"⟩]) "boot" zeroInstance Secrets.quietWorld .standard
  let socket : SocketIdentity := ⟨1, 2⟩
  let authority : BrokerIdentity := ⟨zeroInstance, 0, socket⟩
  let grant : Grant := ⟨"session", ⟨10, 20⟩, [7], 100, 9000⟩
  let turn (t : Nat) : LinkAction := .serve (.registry (.turn t true))
  let hub (t : Secrets.HubThread) : LinkAction := .daemon (.hub (.turn t (some 50)))
  let attach : List LinkAction :=
    [.daemon (.hub (.subscribe 0 ⟨5, 0⟩)), .daemon (.hub (.acquire (.connection 0))),
     hub (.connection 0), hub (.connection 0), hub (.connection 0), hub (.connection 0),
     .serve (.hello 0 (.ok authority)), turn 0, .serve .resume, .attach 0 socket,
     .take 1, turn 1, .serve .resume,
     .serve (.registry (.call 2 (.insertIfAuthority authority grant 0))), turn 2, turn 2]
  let lock : List LinkAction :=
    [.daemon (.broker (.receive 0 .lock ⟨1⟩)), .daemon (.broker (.handle 0 (.at 0) [])),
     .daemon (.hub (.acquire (.handler 0))), hub (.handler 0), hub (.handler 0), hub (.handler 0),
     hub (.handler 0), .take 3, turn 3, turn 3, turn 3, turn 3, .serve .resume]
  have hReplay : ((sys.guard fun _ => LinkAction.firstHandles).run sys.init (attach ++ lock)).map
      (fun l => decide (l.daemon.sys.st.lockEpoch = 1 ∧ l.taken = (sent l.daemon.hub l.conn).length ∧
        l.daemon.hub.tasks (.handler 0) = some .done ∧ ⟨l.conn, ⟨5, 0⟩⟩ ∈ l.daemon.hub.subscribers ∧
        l.serve.worker.place = .reading socket ∧ l.serve.registry.grants.lookup 0 = none ∧
        .inserted 2 0 authority grant ∈ l.serve.registry.trail)) = some true := by
    decide +kernel
  obtain ⟨l, hPath, hSeen⟩ := Path.of_replay hReplay
  obtain ⟨hEpoch, hTaken, hDone, hSub, hPlace, hGone, hWas⟩ := of_decide_eq_true hSeen
  have hQuiet : ¬ l.daemon.hub.Locking := by
    rintro ⟨n, task, hTask, hNot⟩
    by_cases hn : n = 0
    · subst hn
      exact hNot (Option.mem_unique hTask hDone)
    · have hNone : l.daemon.hub.tasks (.handler n) = none :=
        hPath.invariant (I := fun l => l.daemon.hub.tasks (.handler n) = none)
          (fun _ _ _ hAbsent hFirst hStep => Link.step_absent hFirst hn hStep hAbsent) rfl
      cases hNone.symm.trans hTask
  obtain ⟨hAuthority, -⟩ :=
    lock_reaches_grants (by decide) (by decide) hPath.forget hQuiet hSub rfl hTaken hPlace
  rw [hEpoch] at hAuthority
  exact ⟨l, hPath.forget, hEpoch, ⟨2, _, _, hWas⟩, hGone, hAuthority⟩

end Forward.Browser

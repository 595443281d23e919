import Forward.Callback.Call
import Forward.Net.Localhost

/-!
# The callbacks of a URL

`forward_url` leases the loopback ports that a URL names, one by one. It gives up at a port that
another peer has and, if it is strict, at any port that it cannot serve; the leases that it has
made by then stay.
-/

namespace Forward.Daemon

open Lib Net Callback

structure Call where
  port : Nat
  before : Leases
  answer : Except ServeError Nat

structure Forwarding where
  result : Except ServeError Unit
  leases : Leases
  calls : List Call

variable (parseIp : String → Option IpAddr) (parseUrl : String → Option Url)
variable (cfg : Config) (outcomes : Nat → Outcomes) (strict : Bool)

/-- The loop of `forward_url`. `outcomes` is what the call for each port meets;
no port comes twice. -/
def forwardFrom : List Nat → Nat → Leases → Option Forwarding
  | [], _, l => some ⟨.ok (), l, []⟩
  | port :: ports, forwarded, l =>
    if isDynamicPort cfg port then
      if forwarded = maxDynamicForwards then forwardFrom ports forwarded l
      else
        match serveOn parseIp cfg l port (fromSecs cfg.forwardTtlSecs) (outcomes port) with
        | none => none
        | some (answer, l') =>
          let call : Call := ⟨port, l, answer⟩
          let go := (forwardFrom ports (forwarded + 1) l').map fun r =>
            { r with calls := call :: r.calls }
          match answer with
          | .error (.owned p owner) => some ⟨.error (.owned p owner), l', [call]⟩
          | .error e => if strict then some ⟨.error e, l', [call]⟩ else go
          | .ok _ => go
    else if strict then some ⟨.error (.reserved port), l, []⟩
    else forwardFrom ports forwarded l

def forwardUrl (url : Url) (l : Leases) : Option Forwarding :=
  let ports := forwardPorts parseUrl url
  if strict && maxDynamicForwards < ports.length then some ⟨.error .tooMany, l, []⟩
  else forwardFrom parseIp cfg outcomes strict ports 0 l

/-! ## One port -/

variable {parseIp parseUrl cfg outcomes strict} {l : Leases} {ports : List Nat} {r : Forwarding}
variable {port forwarded : Nat}

/-- What the loop does at its first port: it stops there without a call, passes
it over, stops after a call that failed, or goes on after a call. -/
inductive Turn (parseIp : String → Option IpAddr) (cfg : Config) (outcomes : Nat → Outcomes)
    (strict : Bool) (port : Nat) (ports : List Nat) (forwarded : Nat) (l : Leases) (r : Forwarding) :
    Prop
  | reserved (hStatic : isDynamicPort cfg port = false) (hStrict : strict = true)
      (hEnd : r = ⟨.error (.reserved port), l, []⟩)
  | skipped (hStatic : isDynamicPort cfg port = false) (hLax : strict = false)
      (hNext : forwardFrom parseIp cfg outcomes strict ports forwarded l = some r)
  | dropped (hDynamic : isDynamicPort cfg port = true) (hFull : forwarded = maxDynamicForwards)
      (hNext : forwardFrom parseIp cfg outcomes strict ports forwarded l = some r)
  | failed {e : ServeError} {l' : Leases} (hDynamic : isDynamicPort cfg port = true)
      (hServe : serveOn parseIp cfg l port (fromSecs cfg.forwardTtlSecs) (outcomes port) =
        some (.error e, l'))
      (hEnd : r = ⟨.error e, l', [⟨port, l, .error e⟩]⟩)
  | served {answer : Except ServeError Nat} {l' : Leases} {r' : Forwarding}
      (hDynamic : isDynamicPort cfg port = true) (hRoom : forwarded ≠ maxDynamicForwards)
      (hServe : serveOn parseIp cfg l port (fromSecs cfg.forwardTtlSecs) (outcomes port) =
        some (answer, l'))
      (hAnswer : strict = true → answer.isOk = true)
      (hNext : forwardFrom parseIp cfg outcomes strict ports (forwarded + 1) l' = some r')
      (hEnd : r = { r' with calls := ⟨port, l, answer⟩ :: r'.calls })

theorem forwardFrom_turn
    (h : forwardFrom parseIp cfg outcomes strict (port :: ports) forwarded l = some r) :
    Turn parseIp cfg outcomes strict port ports forwarded l r := by
  unfold forwardFrom at h
  split at h
  · rename_i hDynamic
    split at h
    · rename_i hFull
      exact .dropped hDynamic hFull h
    · rename_i hRoom
      split at h
      · cases h
      · rename_i hServe
        dsimp only at h
        split at h
        · exact .failed hDynamic hServe (Option.some.inj h).symm
        · rename_i e _
          split at h
          · exact .failed hDynamic hServe (Option.some.inj h).symm
          · rename_i hLax
            obtain ⟨r', hNext, hEnd⟩ := Option.map_eq_some_iff.mp h
            exact .served hDynamic hRoom hServe (fun hStrict => absurd hStrict hLax) hNext hEnd.symm
        · obtain ⟨r', hNext, hEnd⟩ := Option.map_eq_some_iff.mp h
          exact .served hDynamic hRoom hServe (fun _ => rfl) hNext hEnd.symm
  · rename_i hStatic
    rw [Bool.not_eq_true] at hStatic
    split at h
    · rename_i hStrict
      exact .reserved hStatic hStrict (Option.some.inj h).symm
    · rename_i hLax
      exact .skipped hStatic (Bool.not_eq_true _ ▸ hLax) h

theorem ne_zero_of_dynamic (h : isDynamicPort cfg port) : port ≠ 0 :=
  (isDynamicPort_iff.mp h).1

/-! ## A refused URL -/

theorem forwardFrom_lookup
    (h : forwardFrom parseIp cfg outcomes strict ports forwarded l = some r) {p : Nat}
    (hNot : p ∉ ports) : r.leases.entries.lookup p = l.entries.lookup p := by
  induction ports generalizing forwarded l r with
  | nil => exact Option.some.inj h ▸ rfl
  | cons port ports ih =>
    obtain ⟨hNe, hRest⟩ := List.ne_and_not_mem_of_not_mem_cons hNot
    cases forwardFrom_turn h with
    | reserved _ _ hEnd => exact hEnd ▸ rfl
    | skipped _ _ hNext | dropped _ _ hNext => exact ih hNext hRest
    | failed hDynamic hServe hEnd =>
      subst hEnd
      exact (serveOn_spec parseIp hServe (ne_zero_of_dynamic hDynamic)).1 p hNe
    | served hDynamic _ hServe _ hNext hEnd =>
      subst hEnd
      exact (ih hNext hRest).trans
        ((serveOn_spec parseIp hServe (ne_zero_of_dynamic hDynamic)).1 p hNe)

/-- The call left the lease of its port as it was. -/
def Call.Spares (parseIp : String → Option IpAddr) (cfg : Config) (outcomes : Nat → Outcomes)
    (call : Call) : Prop :=
  Callback.Spares (bridgeOf parseIp cfg) call.before call.port (fromSecs cfg.forwardTtlSecs)
    (outcomes call.port) call.answer

theorem holding_of_lookup {l l' : Leases} {p : Nat}
    (h : l'.entries.lookup p = l.entries.lookup p) : l'.holding p = l.holding p :=
  congrArg (Option.map _) h

theorem forwardFrom_spares (hNodup : ports.Nodup)
    (h : forwardFrom parseIp cfg outcomes strict ports forwarded l = some r) :
    (∀ p, r.leases.holding p = l.holding p) ↔
      ∀ call ∈ r.calls, call.Spares parseIp cfg outcomes := by
  induction ports generalizing forwarded l r with
  | nil =>
    cases h
    exact iff_of_true (fun _ => rfl) nofun
  | cons port ports ih =>
    obtain ⟨hNot, hRest⟩ := List.nodup_cons.mp hNodup
    cases forwardFrom_turn h with
    | reserved _ _ hEnd =>
      subst hEnd
      exact iff_of_true (fun _ => rfl) nofun
    | skipped _ _ hNext | dropped _ _ hNext => exact ih hRest hNext
    | failed hDynamic hServe hEnd =>
      subst hEnd
      obtain ⟨hOthers, hOwn, -⟩ := serveOn_spec parseIp hServe (ne_zero_of_dynamic hDynamic)
      rw [List.forall_mem_singleton]
      refine Iff.trans ⟨fun hSame => hSame port, fun hSame p => ?_⟩ hOwn
      by_cases hEq : p = port
      · exact hEq ▸ hSame
      · exact holding_of_lookup (hOthers p hEq)
    | @served answer l' r' hDynamic _ hServe _ hNext hEnd =>
      subst hEnd
      obtain ⟨hOthers, hOwn, -⟩ := serveOn_spec parseIp hServe (ne_zero_of_dynamic hDynamic)
      have hKept : r'.leases.holding port = l'.holding port :=
        holding_of_lookup (forwardFrom_lookup hNext hNot)
      have hElse : ∀ p, p ≠ port → l'.holding p = l.holding p :=
        fun p hNe => holding_of_lookup (hOthers p hNe)
      rw [List.forall_mem_cons, ← ih hRest hNext]
      refine Iff.trans ?_ (and_congr_left' hOwn)
      constructor
      · intro hSame
        refine ⟨hKept.symm.trans (hSame port), fun p => ?_⟩
        by_cases hEq : p = port
        · exact hEq ▸ hKept
        · exact (hSame p).trans (hElse p hEq).symm
      · rintro ⟨hHere, hSame⟩ p
        by_cases hEq : p = port
        · exact hEq ▸ hKept.trans hHere
        · exact (hSame p).trans (hElse p hEq)

/-- A laptop with one devbox, and what its calls meet where nothing fails. -/
def laptop : Config := ⟨300, "10.0.0.9", "10.0.0.1", none, 12801, 12803, 12804, 12805, 12806⟩

def allOk (port : Nat) : Outcomes := ⟨0, .ok, true, 0, .ok, 0, true, true, port⟩

theorem forwardFrom_calls
    (h : forwardFrom parseIp cfg outcomes strict ports forwarded l = some r)
    (hRoom : forwarded ≤ maxDynamicForwards) (hOk : r.result = .ok ()) :
    r.calls.map (·.port) =
      (ports.filter (isDynamicPort cfg)).take (maxDynamicForwards - forwarded) := by
  induction ports generalizing forwarded l r with
  | nil =>
    cases h
    exact (List.take_nil ..).symm
  | cons port ports ih =>
    cases forwardFrom_turn h with
    | reserved _ _ hEnd | failed _ _ hEnd =>
      subst hEnd
      cases hOk
    | skipped hStatic _ hNext =>
      rw [List.filter_cons_of_neg (by rw [hStatic]; decide)]
      exact ih hNext hRoom hOk
    | dropped _ hFull hNext =>
      -- the count is at the cap, and the rest of the list adds nothing
      have hNone := ih hNext hRoom hOk
      rw [hFull, Nat.sub_self, List.take_zero] at hNone ⊢
      exact hNone
    | @served answer l' r' hDynamic hNotFull hServe _ hNext hEnd =>
      subst hEnd
      have hLeft : maxDynamicForwards - forwarded = maxDynamicForwards - (forwarded + 1) + 1 := by
        omega
      have hRest := ih hNext (by omega) hOk
      rw [List.filter_cons_of_pos hDynamic, hLeft, List.take_succ_cons, ← hRest]
      rfl

theorem forwardFrom_strict
    (h : forwardFrom parseIp cfg outcomes true ports forwarded l = some r)
    (hOk : r.result = .ok ()) :
    (∀ port ∈ ports, isDynamicPort cfg port) ∧
      ∀ call ∈ r.calls, call.answer = .ok call.port := by
  induction ports generalizing forwarded l r with
  | nil =>
    cases h
    exact ⟨nofun, nofun⟩
  | cons port ports ih =>
    cases forwardFrom_turn h with
    | reserved _ _ hEnd | failed _ _ hEnd =>
      subst hEnd
      cases hOk
    | skipped _ hLax => cases hLax
    | dropped hDynamic _ hNext =>
      obtain ⟨hPorts, hCalls⟩ := ih hNext hOk
      exact ⟨List.forall_mem_cons.mpr ⟨hDynamic, hPorts⟩, hCalls⟩
    | served hDynamic _ hServe hAnswer hNext hEnd =>
      subst hEnd
      obtain ⟨hPorts, hCalls⟩ := ih hNext hOk
      have hServed := (serveOn_spec parseIp hServe (ne_zero_of_dynamic hDynamic)).2.2
      exact ⟨List.forall_mem_cons.mpr ⟨hDynamic, hPorts⟩,
        List.forall_mem_cons.mpr ⟨hServed (hAnswer rfl), hCalls⟩⟩

/-- **Devbox and laptop agree.** Let the two configurations have the same service ports. When
`forward_url` on the laptop returns, it has called `serve_on` for the ports that `callback_ports`
finds on the devbox; if it is strict, these are all the loopback ports of the URL, and each is
served. They are at most four, none of them 0 or a service port. -/
theorem callback_ports_agree {cfg' : Config} (url : Url)
    (hSame : ∀ port, port ∈ servicePorts cfg ↔ port ∈ servicePorts cfg') :
    (∀ outcomes strict l r, forwardUrl parseIp parseUrl cfg outcomes strict url l = some r →
      r.result = .ok () →
      r.calls.map (·.port) = callbackPorts parseUrl cfg' url ∧
        (strict = true → callbackPorts parseUrl cfg' url = forwardPorts parseUrl url ∧
          ∀ call ∈ r.calls, call.answer = .ok call.port)) ∧
    (callbackPorts parseUrl cfg' url).Nodup ∧
    (callbackPorts parseUrl cfg' url).length ≤ maxDynamicForwards ∧
    ∀ port ∈ callbackPorts parseUrl cfg' url, port ≠ 0 ∧ port ∉ servicePorts cfg' := by
  have hDynamic : isDynamicPort cfg = isDynamicPort cfg' := funext (isDynamicPort_congr hSame)
  refine ⟨?_, ?_, ?_, ?_⟩
  · intro outcomes strict l r h hOk
    unfold forwardUrl at h
    dsimp only at h
    split at h
    · cases h
      cases hOk
    · rename_i hFew
      refine ⟨?_, ?_⟩
      · rw [forwardFrom_calls h (Nat.zero_le _) hOk, callbackPorts_eq_take, hDynamic]
        rfl
      · rintro rfl
        obtain ⟨hAll, hServed⟩ := forwardFrom_strict h hOk
        refine ⟨?_, hServed⟩
        have hLength : (forwardPorts parseUrl url).length ≤ maxDynamicForwards := by
          simpa using hFew
        rw [callbackPorts_eq_take, ← hDynamic, List.filter_eq_self.mpr hAll,
          List.take_of_length_le hLength]
  · rw [callbackPorts_eq_take]
    exact ((forwardPorts_nodup parseUrl url).filter _).take
  · rw [callbackPorts_eq_take]
    exact List.length_take_le ..
  · intro port hIn
    rw [callbackPorts_eq_take] at hIn
    exact isDynamicPort_iff.mp (List.of_mem_filter (List.mem_of_mem_take hIn))

theorem callback_ports_agree_two :
    let url : Url := ⟨some "localhost", some 8400, [("redirect_uri", "http://[::1]:9000/")]⟩
    let parseUrl : String → Option Url := fun _ => some ⟨some "[::1]", some 9000, []⟩
    let devbox : Config := { laptop with listen := "10.0.0.1", peer := "10.0.0.9" }
    ∃ r, forwardUrl (fun _ => some (.v4 0x0a000001#32)) parseUrl laptop allOk true url .empty =
        some r ∧ r.calls.map (·.port) = [8400, 9000] ∧
      callbackPorts parseUrl devbox url = [8400, 9000] := by
  intro url parseUrl devbox
  have hReplay : ((forwardUrl (fun _ => some (.v4 0x0a000001#32)) parseUrl laptop allOk true url
      .empty).map fun r => decide (r.result = .ok () ∧ r.calls.map (·.port) = [8400, 9000])) =
      some true := by
    decide +kernel
  obtain ⟨r, hRun, hSeen⟩ := Option.map_eq_some_iff.mp hReplay
  obtain ⟨hResult, hPorts⟩ := of_decide_eq_true hSeen
  have hSame : ∀ port, port ∈ servicePorts laptop ↔ port ∈ servicePorts devbox := fun _ => Iff.rfl
  obtain ⟨hAgree, -⟩ := callback_ports_agree url hSame
  exact ⟨r, hRun, hPorts, (hAgree allOk true .empty r hRun hResult).1.symm.trans hPorts⟩

end Forward.Daemon

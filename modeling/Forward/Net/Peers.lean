import Mathlib.Data.List.Nodup
import Forward.Net.Config

/-!
# The readings of the peer settings

`peer` and `peers` are read three times: as the list of all peers, as the one peer of a single-peer
machine, and as the test of a remote address. All three stop at the first value that is no address.
-/

namespace Forward.Net

variable (parse : String → Option IpAddr)

/-- The loop of `peer_ips`: canonical addresses, each once. -/
def Config.peerIpsAmong (field : String) : List String → List IpAddr →
    Except ConfigError (List IpAddr)
  | [], peers => .ok peers
  | value :: values, peers => do
    let ip ← Net.peerIp parse field value
    peerIpsAmong field values (if ip ∈ peers then peers else peers ++ [ip])

def Config.peerIps (cfg : Config) : Except ConfigError (List IpAddr) := do
  let (field, values) ← cfg.peerValues
  Config.peerIpsAmong parse field values []

/-- A routable listen address needs a peer, and no listen address is a wildcard. -/
def Config.validate (cfg : Config) : Except ConfigError Unit := do
  let listen ← cfg.listenIp parse
  if listen.isUnspecified then throw (.address "listen" cfg.listen)
  let peers ← cfg.peerIps parse
  if !listen.isLoopback && peers.isEmpty then throw .peerRequired

/-! ## What the values are read as -/

def readPeers (field : String) : List String → Except ConfigError (List IpAddr)
  | [] => .ok []
  | value :: values =>
    match peerIp parse field value with
    | .error e => .error e
    | .ok ip => (readPeers field values).map (ip :: ·)

def addPeers (peers ips : List IpAddr) : List IpAddr :=
  ips.foldl (fun peers ip => if ip ∈ peers then peers else peers ++ [ip]) peers

def differs : Option IpAddr → List IpAddr → Bool
  | _, [] => false
  | peer, ip :: ips => (peer.any fun previous => previous ≠ ip) || differs (some ip) ips

variable {parse} {field value : String} {values : List String} {ips peers : List IpAddr}
  {ip remote : IpAddr} {peer : Option IpAddr} {e : ConfigError}

theorem peerIpsAmong_eq (values : List String) (peers : List IpAddr) :
    Config.peerIpsAmong parse field values peers =
      (readPeers parse field values).map (addPeers peers) := by
  induction values generalizing peers with
  | nil => rfl
  | cons value values ih =>
    rw [Config.peerIpsAmong, readPeers]
    cases peerIp parse field value with
    | error => rfl
    | ok =>
      show Config.peerIpsAmong parse field values _ = _
      rw [ih]
      cases readPeers parse field values with
      | error | ok => rfl

theorem admitsAmong_eq (values : List String) (found : Bool) :
    Config.admitsAmong parse field remote values found =
      match readPeers parse field values with
      | .error _ => false
      | .ok ips => found || ips.contains remote.toCanonical := by
  induction values generalizing found with
  | nil => simp [Config.admitsAmong, readPeers]
  | cons value values ih =>
    rw [Config.admitsAmong, readPeers]
    cases peerIp parse field value with
    | error => rfl
    | ok ip =>
      show Config.admitsAmong parse field remote values _ = _
      rw [ih]
      cases readPeers parse field values with
      | error => rfl
      | ok ips =>
        show (found || decide (ip = remote.toCanonical) || ips.contains remote.toCanonical) =
          (found || (ip :: ips).contains remote.toCanonical)
        rw [List.contains_cons, Bool.or_assoc, beq_eq_decide]
        simp only [eq_comm]

theorem singleAmong_eq (values : List String) (peer : Option IpAddr) (multiple : Bool) :
    Config.singleAmong parse field values peer multiple =
      match readPeers parse field values with
      | .error e => .error e
      | .ok ips =>
        if multiple || differs peer ips then .error .multiplePeers
        else .ok (ips.getLast?.or peer) := by
  induction values generalizing peer multiple with
  | nil => simp [Config.singleAmong, readPeers, differs]
  | cons value values ih =>
    rw [Config.singleAmong, readPeers]
    cases peerIp parse field value with
    | error => rfl
    | ok ip =>
      show Config.singleAmong parse field values (some ip) _ = _
      rw [ih]
      cases readPeers parse field values with
      | error => rfl
      | ok ips =>
        have hLast : (ip :: ips).getLast?.or peer = ips.getLast?.or (some ip) := by
          cases hRest : ips.getLast? with
          | none => rw [List.getLast?_eq_none_iff.mp hRest]; rfl
          | some => rw [List.getLast?_cons, hRest]; rfl
        show (if (multiple || peer.any _) || differs (some ip) ips then _ else _) =
          if multiple || ((peer.any _) || differs (some ip) ips) then _ else _
        rw [Bool.or_assoc, hLast]

/-! ## The list of peers -/

theorem mem_addPeers {x : IpAddr} (peers ips : List IpAddr) :
    x ∈ addPeers peers ips ↔ x ∈ peers ∨ x ∈ ips := by
  induction ips generalizing peers with
  | nil => simp [addPeers]
  | cons ip ips ih =>
    show x ∈ addPeers (if ip ∈ peers then peers else peers ++ [ip]) ips ↔ _
    rw [ih, List.mem_cons]
    split
    · rename_i hOld
      constructor
      · exact Or.imp id Or.inr
      · rintro (hPeer | rfl | hRest)
        · exact .inl hPeer
        · exact .inl hOld
        · exact .inr hRest
    · rw [List.mem_append, List.mem_singleton, or_assoc]

theorem nodup_addPeers (h : peers.Nodup) (ips : List IpAddr) : (addPeers peers ips).Nodup := by
  induction ips generalizing peers with
  | nil => exact h
  | cons ip ips ih =>
    refine ih ?_
    dsimp only
    split
    · exact h
    · rename_i hNew
      refine List.nodup_append.mpr ⟨h, List.nodup_singleton ip, ?_⟩
      rintro x hx y hy rfl
      exact hNew (List.mem_singleton.mp hy ▸ hx)

theorem differs_eq_false_iff : differs (some ip) ips = false ↔ ∀ x ∈ ips, x = ip := by
  induction ips generalizing ip with
  | nil => simp [differs]
  | cons x ips ih =>
    rw [differs, Bool.or_eq_false_iff, ih, List.forall_mem_cons]
    simp only [Option.any_some, decide_eq_false_iff_not, ne_eq, not_not]
    constructor
    · rintro ⟨rfl, hRest⟩
      exact ⟨rfl, hRest⟩
    · rintro ⟨rfl, hRest⟩
      exact ⟨rfl, hRest⟩

theorem addPeers_cases (ips : List IpAddr) :
    (ips = [] ∧ addPeers [] ips = []) ∨
    (∃ p, differs none ips = false ∧ ips.getLast? = some p ∧ addPeers [] ips = [p]) ∨
    (differs none ips ∧ 2 ≤ (addPeers [] ips).length) := by
  cases ips with
  | nil => exact .inl ⟨rfl, rfl⟩
  | cons p rest =>
    have hNodup := nodup_addPeers List.nodup_nil (p :: rest)
    have hMem : ∀ x, x ∈ addPeers [] (p :: rest) ↔ x ∈ [] ∨ x ∈ p :: rest :=
      fun _ => mem_addPeers [] (p :: rest)
    have hFirst : p ∈ addPeers [] (p :: rest) := (hMem p).mpr (.inr List.mem_cons_self)
    have hDiffers : differs none (p :: rest) = differs (some p) rest := rfl
    rw [hDiffers]
    right
    cases hSame : differs (some p) rest with
    | false =>
      have hAll := differs_eq_false_iff.mp hSame
      have hOnly : ∀ x ∈ p :: rest, x = p := List.forall_mem_cons.mpr ⟨rfl, hAll⟩
      refine .inl ⟨p, rfl, ?_, ?_⟩
      · obtain ⟨last, hLast⟩ : ∃ last, (p :: rest).getLast? = some last :=
          ⟨_, List.getLast?_eq_some_getLast (List.cons_ne_nil p rest)⟩
        rw [hLast, hOnly last (List.mem_of_getLast? hLast)]
      · have hEach : ∀ x ∈ addPeers [] (p :: rest), x = p := fun x hx =>
          hOnly x (((hMem x).mp hx).resolve_left List.not_mem_nil)
        match hList : addPeers [] (p :: rest), hNodup, hFirst, hEach with
        | [x], _, hFirst, _ => rw [List.mem_singleton.mp hFirst]
        | x :: y :: _, hNodup, _, hEach =>
          have hx := hEach x List.mem_cons_self
          have hy := hEach y (List.mem_cons_of_mem _ List.mem_cons_self)
          rw [hx, hy] at hNodup
          simp at hNodup
    | true =>
      refine .inr ⟨rfl, ?_⟩
      obtain ⟨q, hq, hOther⟩ : ∃ q ∈ rest, q ≠ p := by
        by_contra hNone
        push Not at hNone
        rw [differs_eq_false_iff.mpr hNone] at hSame
        cases hSame
      have hSecond : q ∈ addPeers [] (p :: rest) :=
        (hMem q).mpr (.inr (List.mem_cons_of_mem _ hq))
      match addPeers [] (p :: rest), hFirst, hSecond with
      | [x], hFirst, hSecond =>
        exact absurd ((List.mem_singleton.mp hSecond).trans (List.mem_singleton.mp hFirst).symm)
          hOther
      | _ :: _ :: _, _, _ => simp

/-! ## One address -/

theorem peerIp_ok (h : peerIp parse field value = .ok ip) :
    ip.toCanonical = ip ∧ ip.isUnspecified = false ∧ ip.isMulticast = false ∧
      ip ≠ IpAddr.broadcast := by
  unfold peerIp at h
  cases hParse : parseIp parse field value with
  | error =>
    rw [hParse] at h
    cases h
  | ok found =>
    rw [hParse] at h
    simp only [bind, Except.bind, pure, Except.pure, throw, throwThe, MonadExceptOf.throw] at h
    split at h
    · cases h
    · rename_i hFit
      cases h
      simp only [Bool.or_eq_true, decide_eq_true_eq, not_or, Bool.not_eq_true] at hFit
      exact ⟨IpAddr.toCanonical_toCanonical found, hFit.1.1, hFit.1.2, hFit.2⟩

theorem peerIp_error (h : peerIp parse field value = .error e) : e = .address field value := by
  unfold peerIp parseIp at h
  cases hParse : parse value with
  | none =>
    rw [hParse] at h
    exact (Except.error.inj h).symm
  | some =>
    rw [hParse] at h
    simp only [bind, Except.bind, pure, Except.pure, throw, throwThe, MonadExceptOf.throw] at h
    split at h
    · exact (Except.error.inj h).symm
    · cases h

theorem mem_readPeers (h : readPeers parse field values = .ok ips) (hIn : ip ∈ ips) :
    ∃ value ∈ values, peerIp parse field value = .ok ip := by
  induction values generalizing ips with
  | nil =>
    cases h
    cases hIn
  | cons value values ih =>
    rw [readPeers] at h
    cases hFirst : peerIp parse field value with
    | error =>
      rw [hFirst] at h
      cases h
    | ok =>
      cases hRest : readPeers parse field values with
      | error =>
        rw [hFirst, hRest] at h
        cases h
      | ok =>
        rw [hFirst, hRest] at h
        cases h
        rcases List.mem_cons.mp hIn with rfl | hIn
        · exact ⟨value, List.mem_cons_self, hFirst⟩
        · obtain ⟨other, hOther, hRead⟩ := ih hRest hIn
          exact ⟨other, List.mem_cons_of_mem _ hOther, hRead⟩

theorem readPeers_error (h : readPeers parse field values = .error e) : e ≠ .multiplePeers := by
  induction values with
  | nil => cases h
  | cons value values ih =>
    rw [readPeers] at h
    cases hFirst : peerIp parse field value with
    | error =>
      rw [hFirst] at h
      rw [← Except.error.inj h, peerIp_error hFirst]
      nofun
    | ok =>
      cases hRest : readPeers parse field values with
      | error =>
        rw [hFirst, hRest] at h
        exact ih (hRest.trans (congrArg _ (Except.error.inj h)))
      | ok =>
        rw [hFirst, hRest] at h
        cases h

theorem peerValues_error {cfg : Config} (h : cfg.peerValues = .error e) : e ≠ .multiplePeers := by
  unfold Config.peerValues at h
  split at h
  · split at h
    · rw [← Except.error.inj h]
      nofun
    · split at h
      · rw [← Except.error.inj h]
        nofun
      · cases h
  · split at h <;> cases h

/-! ## The three readings -/

theorem readings (parse : String → Option IpAddr) (cfg : Config) (remote : IpAddr) :
    (∃ e, e ≠ .multiplePeers ∧ cfg.peerIps parse = .error e ∧ cfg.singlePeerIp parse = .error e ∧
      cfg.admitsPeer parse remote = false) ∨
    ∃ ips, cfg.peerIps parse = .ok (addPeers [] ips) ∧
      cfg.singlePeerIp parse =
        (if differs none ips then .error .multiplePeers else .ok ips.getLast?) ∧
      cfg.admitsPeer parse remote = ips.contains remote.toCanonical ∧
      ∀ ip ∈ ips, ∃ field value, peerIp parse field value = .ok ip := by
  unfold Config.peerIps Config.singlePeerIp Config.admitsPeer
  cases hValues : cfg.peerValues with
  | error e => exact .inl ⟨e, peerValues_error hValues, rfl, rfl, rfl⟩
  | ok both =>
    obtain ⟨field, values⟩ := both
    have hList : (do
        let (field, values) ← (Except.ok (field, values) : Except ConfigError _)
        Config.peerIpsAmong parse field values []) = Config.peerIpsAmong parse field values [] := rfl
    have hOne : (do
        let (field, values) ← (Except.ok (field, values) : Except ConfigError _)
        Config.singleAmong parse field values none false) =
          Config.singleAmong parse field values none false := rfl
    rw [hList, hOne, peerIpsAmong_eq, singleAmong_eq]
    dsimp only
    rw [admitsAmong_eq]
    cases hRead : readPeers parse field values with
    | error e => exact .inl ⟨e, readPeers_error hRead, rfl, rfl, rfl⟩
    | ok ips =>
      refine .inr ⟨ips, rfl, ?_, ?_, fun ip hIn => ?_⟩
      · simp
      · simp
      · obtain ⟨value, -, hValue⟩ := mem_readPeers hRead hIn
        exact ⟨field, value, hValue⟩

theorem admitsPeer_iff (parse : String → Option IpAddr) (cfg : Config) (remote : IpAddr) :
    cfg.admitsPeer parse remote ↔
      ∃ ips, cfg.peerIps parse = .ok ips ∧ remote.toCanonical ∈ ips := by
  rcases readings parse cfg remote with ⟨e, -, hList, -, hAdmits⟩ | ⟨ips, hList, -, hAdmits, -⟩
  · rw [hList, hAdmits]
    simp
  · rw [hAdmits, hList, List.contains_iff_mem]
    simp [mem_addPeers]

/-- **The three readings of the peer configuration agree.** -/
theorem peer_readings_agree (parse : String → Option IpAddr) (cfg : Config) (remote : IpAddr) :
    (cfg.admitsPeer parse remote = true ↔
      ∃ ips, cfg.peerIps parse = .ok ips ∧ remote.toCanonical ∈ ips) ∧
    (∀ p, cfg.singlePeerIp parse = .ok (some p) ↔ cfg.peerIps parse = .ok [p]) ∧
    (cfg.singlePeerIp parse = .ok none ↔ cfg.peerIps parse = .ok []) ∧
    (cfg.singlePeerIp parse = .error .multiplePeers ↔
      ∃ ips, cfg.peerIps parse = .ok ips ∧ 2 ≤ ips.length) ∧
    (∀ e, e ≠ .multiplePeers →
      (cfg.singlePeerIp parse = .error e ↔ cfg.peerIps parse = .error e)) ∧
    cfg.peerIps parse ≠ .error .multiplePeers ∧
    ∀ ips, cfg.peerIps parse = .ok ips → ips.Nodup ∧ ∀ ip ∈ ips,
      ip.toCanonical = ip ∧ ip.isUnspecified = false ∧ ip.isMulticast = false ∧
        ip ≠ IpAddr.broadcast := by
  refine ⟨admitsPeer_iff parse cfg remote, ?_⟩
  rcases readings parse cfg remote with
    ⟨e, hKind, hList, hOne, -⟩ | ⟨ips, hList, hOne, -, hIps⟩
  · rw [hList, hOne]
    refine ⟨by simp, by simp, ?_, fun _ _ => by simp, ?_, nofun⟩
    · simp [hKind]
    · exact fun h => hKind (Except.error.inj h)
  · have hMem : ∀ x, x ∈ addPeers [] ips ↔ x ∈ ips := fun x => by simp [mem_addPeers]
    rw [hList, hOne]
    have hShape : ∀ others, (Except.ok (addPeers [] ips) : Except ConfigError _) = .ok others →
        others.Nodup ∧ ∀ ip ∈ others, ip.toCanonical = ip ∧ ip.isUnspecified = false ∧
          ip.isMulticast = false ∧ ip ≠ IpAddr.broadcast := by
      intro others hSame
      cases hSame
      refine ⟨nodup_addPeers List.nodup_nil ips, fun ip hIn => ?_⟩
      obtain ⟨field, value, hValue⟩ := hIps ip ((hMem ip).mp hIn)
      exact peerIp_ok hValue
    rcases addPeers_cases ips with ⟨rfl, hNone⟩ | ⟨p, hSame, hLast, hPeer⟩ | ⟨hDiffer, hTwo⟩
    · refine ⟨?_, ?_, ?_, ?_, nofun, hShape⟩ <;> simp [hNone, differs]
    · refine ⟨?_, ?_, ?_, ?_, nofun, hShape⟩ <;> simp [hSame, hLast, hPeer, eq_comm]
    · have hNot : ∀ others : List IpAddr, others.length < 2 → addPeers [] ips ≠ others := by
        rintro others hShort rfl
        omega
      refine ⟨?_, ?_, ?_, ?_, nofun, hShape⟩
      · intro p
        simp [hDiffer, hNot [p] (by simp)]
      · simp [hDiffer, hNot [] (by simp)]
      · simp [hDiffer, hTwo]
      · intro e hKind
        simp [hDiffer, hKind.symm]

end Forward.Net

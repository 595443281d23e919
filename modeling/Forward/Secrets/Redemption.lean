import Forward.Secrets.Broker

/-!
# Redemptions that fail

`redeem` takes the receipt out of its table before it enters the capability grant and asks how long
the grant lasts. Where `max_grant` is nothing, the answer is a failure, and the receipt is gone.
`fromEnv` takes any number of seconds, and `validate` accepts it.
-/

namespace Forward.Secrets

open Lib

/-! ## The configuration from the environment -/

inductive EnvValue
  | notPresent
  | notUnicode
  | text (value : String)

-- the closure `var`: a variable that is set to something
def envVar (env : String → EnvValue) (name : String) : Option String :=
  match env name with
  | .text value => if value = "" then none else some value
  | .notPresent | .notUnicode => none

def envSecs (env : String → EnvValue) (name : String) (fallback : Nat) : Nat :=
  fromSecs (((envVar env name).bind fun value => parseU64 value.toList).getD fallback)

def requestedGrantError : String := "SECRETSD_MAX_REQUESTED_GRANT_SECS must be a number of seconds"

def touchPolicyError : String := "SECRETSD_TOUCH_POLICY must be cached (default) or always"

/-- `Config::from_env`; `sources` is what `Sources::load` returns. -/
def Config.fromEnv (sources : Except String (List HumanSource)) (env : String → EnvValue) :
    Except String Config := do
  let humanSources ← sources
  -- an operator's ceiling that does not parse is no reason to take the default
  let maxRequestedGrant ←
    match env "SECRETSD_MAX_REQUESTED_GRANT_SECS" with
    | .text raw =>
      match parseU64 raw.toList with
      | some secs => pure (fromSecs secs)
      | none => throw requestedGrantError
    | .notPresent => pure (fromSecs 86400)
    | .notUnicode => throw requestedGrantError
  let touchPolicy ←
    match envVar env "SECRETSD_TOUCH_POLICY" with
    | none => pure TouchPolicy.cached
    | some value =>
      if value = "cached" then pure TouchPolicy.cached
      else if value = "always" then pure TouchPolicy.always
      else throw touchPolicyError
  return {
    humanSources := humanSources
    touchPolicy := touchPolicy
    maxGrant := envSecs env "SECRETSD_MAX_GRANT_SECS" 43200
    maxRequestedGrant := maxRequestedGrant
    cooldown := envSecs env "SECRETSD_COOLDOWN_SECS" 16
    requestTtl := envSecs env "SECRETSD_REQUEST_TTL_SECS" 90
    maxPendingPerScope :=
      ((envVar env "SECRETSD_MAX_PENDING").bind fun value => parseU64 value.toList).getD 3 }

/-! ## What a redemption changes -/

namespace ReceiptTable

theorem sweep_sweep (t : ReceiptTable) (now : Nat) : (t.sweep now).sweep now = t.sweep now := by
  unfold sweep
  rw [List.filter_filter]
  simp

end ReceiptTable

theorem CapabilityGrantTable.remainingSecs_insert (t : CapabilityGrantTable) (deadline now : Nat) :
    (t.insert deadline).1.remainingSecs (t.insert deadline).2 now =
      if now < deadline then some (asSecs (durationSince deadline now)) else none := by
  unfold remainingSecs insert
  rw [List.getElem?_concat_length]
  simp only [Option.filter_some, isLive, decide_eq_true_eq]
  split <;> rfl

namespace State

def Redeemable (st : State) (receiptHex cap : String) (now : Nat) : Prop :=
  ∃ expected, Capability.parse cap = .ok expected ∧
    (checkedAdd now st.config.maxGrant).isSome = true ∧
    (st.receipts.redeem receiptHex expected now).2.isSome = true

/-- Nothing but expired receipts is gone. -/
def KeepsTables (st st' : State) (now : Nat) : Prop :=
  st'.receipts.sweep now = st.receipts.sweep now ∧ st'.capabilityGrants = st.capabilityGrants

variable {st : State} {receiptHex cap : String} {h now : Nat}

theorem redeem_of_redeemable (hTakes : st.Redeemable receiptHex cap now) :
    ((∃ code message, (st.redeem h receiptHex cap now).2.outcome = .failed code message) ↔
      st.config.maxGrant = 0) ∧
    ∃ deadline, (st.redeem h receiptHex cap now).1.capabilityGrants.entries =
      st.capabilityGrants.entries ++ [deadline] := by
  obtain ⟨expected, hParse, hDeadline, hRedeem⟩ := hTakes
  obtain ⟨deadline, hDeadline⟩ := Option.isSome_iff_exists.mp hDeadline
  obtain ⟨got, hGot⟩ := Option.isSome_iff_exists.mp hRedeem
  obtain ⟨hSum, -⟩ := checkedAdd_eq_some.mp hDeadline
  rcases hTable : st.receipts.redeem receiptHex expected now with ⟨receipts, answer⟩
  rw [hTable] at hGot
  obtain rfl : answer = some got := hGot
  have hRemaining := st.capabilityGrants.remainingSecs_insert deadline now
  simp only [redeem, hParse, hDeadline, hTable]
  by_cases hLasts : now < deadline
  · rw [if_pos hLasts] at hRemaining
    rw [hRemaining]
    refine ⟨iff_of_false ?_ (by omega), deadline, rfl⟩
    rintro ⟨code, message, hFailed⟩
    cases hFailed
  · rw [if_neg hLasts] at hRemaining
    rw [hRemaining]
    exact ⟨iff_of_true ⟨_, _, rfl⟩ (by omega), deadline, rfl⟩

theorem redeem_of_not_redeemable (hNot : ¬ st.Redeemable receiptHex cap now) :
    st.KeepsTables (st.redeem h receiptHex cap now).1 now := by
  unfold redeem
  cases hParse : Capability.parse cap with
  | error => exact ⟨rfl, rfl⟩
  | ok expected =>
    dsimp only
    cases hDeadline : checkedAdd now st.config.maxGrant with
    | none => exact ⟨rfl, rfl⟩
    | some =>
      dsimp only
      rcases hTable : st.receipts.redeem receiptHex expected now with ⟨receipts, _ | got⟩
      · have hSwept := ReceiptTable.redeem_none (congrArg Prod.snd hTable)
        rw [hTable] at hSwept
        refine ⟨?_, rfl⟩
        show receipts.sweep now = _
        rw [show receipts = _ from hSwept, ReceiptTable.sweep_sweep]
      · refine absurd ⟨expected, hParse, ?_, ?_⟩ hNot
        · rw [hDeadline]
          rfl
        · rw [hTable]
          rfl

/-- **A failed redemption.** If `redeem` answers a failure, the receipts that have
not expired and the capability grants are as before, just if `max_grant` is not
zero or the receipt is none that the broker would take. -/
theorem failed_redeem_keeps_tables (st : State) (h : Nat) (receiptHex cap : String) (now : Nat) :
    ((∃ code message, (st.redeem h receiptHex cap now).2.outcome = .failed code message) →
      st.KeepsTables (st.redeem h receiptHex cap now).1 now) ↔
    (st.config.maxGrant ≠ 0 ∨ ¬ st.Redeemable receiptHex cap now) := by
  by_cases hTakes : st.Redeemable receiptHex cap now
  · obtain ⟨hFails, deadline, hGrants⟩ := redeem_of_redeemable (h := h) hTakes
    -- a grant has been entered, so the tables are not as before
    have hChanged : ¬ st.KeepsTables (st.redeem h receiptHex cap now).1 now := by
      rintro ⟨-, hSame⟩
      rw [hSame] at hGrants
      simpa using congrArg List.length hGrants
    constructor
    · exact fun hKeeps => Or.inl fun hZero => hChanged (hKeeps (hFails.mpr hZero))
    · rintro (hLasts | hNot)
      · exact fun hFailed => absurd (hFails.mp hFailed) hLasts
      · exact absurd hTakes hNot
  · exact iff_of_true (fun _ => redeem_of_not_redeemable hTakes) (.inr hTakes)

/-- A daemon that was given no lifetime for grants has minted a receipt. A second
later it is redeemed: the answer is a failure, and the receipt is gone. -/
theorem failed_redeem_takes_receipt :
    let env : String → EnvValue := fun name =>
      if name = "SECRETSD_MAX_GRANT_SECS" then .text "0" else .notPresent
    let id : ReceiptId := ⟨List.replicate 32 7, by decide⟩
    let cap : Capability := ⟨"browser", by decide⟩
    ∃ cfg, Config.fromEnv (.ok []) env = .ok cfg ∧ cfg.validate = .ok () ∧
      let st : State := { State.new cfg "boot" "instance" with
        receipts := (ReceiptTable.empty.mintId cap 0 [id]).1 }
      let redeemed := st.redeem 1 (Hygiene.encode id.bytes) "browser" (fromSecs 1)
      redeemed.2.outcome = .failed .internal "capability grant record missing" ∧
        (st.receipts.sweep (fromSecs 1)).entries = [⟨id, cap, 0⟩] ∧
        redeemed.1.receipts.entries = [] ∧
        redeemed.1.capabilityGrants ≠ st.capabilityGrants := by
  intro env id cap
  have hReplay : ((Config.fromEnv (.ok []) env).toOption.map fun cfg =>
      let st : State := { State.new cfg "boot" "instance" with
        receipts := (ReceiptTable.empty.mintId cap 0 [id]).1 }
      let redeemed := st.redeem 1 (Hygiene.encode id.bytes) "browser" (fromSecs 1)
      decide (cfg.validate = .ok () ∧
        redeemed.2.outcome = .failed .internal "capability grant record missing" ∧
        (st.receipts.sweep (fromSecs 1)).entries = [⟨id, cap, 0⟩] ∧
        redeemed.1.receipts.entries = [] ∧
        redeemed.1.capabilityGrants ≠ st.capabilityGrants)) = some true := by
    decide +kernel
  obtain ⟨cfg, hLoad, hSeen⟩ := Option.map_eq_some_iff.mp hReplay
  cases hEnv : Config.fromEnv (.ok []) env with
  | error =>
    rw [hEnv] at hLoad
    cases hLoad
  | ok loaded =>
    rw [hEnv] at hLoad
    obtain rfl := Option.some.inj hLoad
    exact ⟨loaded, rfl, of_decide_eq_true hSeen⟩

end State

end Forward.Secrets

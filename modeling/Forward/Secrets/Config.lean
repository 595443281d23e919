import Forward.Lib.Word
import Forward.Secrets.Names

/-!
# Daemon configuration

The fields of `daemon::Config` that the broker's logic reads, and the check
that refuses settings under which one touch could authorize two decrypts.
-/

namespace Forward.Secrets

open Lib

inductive TouchPolicy
  | cached
  | always
  deriving DecidableEq

structure HumanSource where
  label : String
  dir : String

-- durations are nanoseconds
structure Config where
  humanSources : List HumanSource
  touchPolicy : TouchPolicy
  maxGrant : Nat
  maxRequestedGrant : Nat
  cooldown : Nat
  requestTtl : Nat
  maxPendingPerScope : Nat

/-- What `from_env` builds when no knob is set. -/
def Config.default (sources : List HumanSource) : Config where
  humanSources := sources
  touchPolicy := .cached
  maxGrant := fromSecs 43200
  maxRequestedGrant := fromSecs 86400
  cooldown := fromSecs 16
  requestTtl := fromSecs 90
  maxPendingPerScope := 3

/-- The `YubiKey` PIV touch cache `validate` checks the cooldown against. -/
def touchCache : Nat := fromSecs 15

def cooldownError : String :=
  "SECRETSD_COOLDOWN_SECS must exceed the 15s PIV touch cache; a shorter " ++
    "cooldown is safe only with SECRETSD_TOUCH_POLICY=always hardware"

def Config.validate (cfg : Config) : Except String Unit :=
  if cfg.touchPolicy = .cached ∧ cfg.cooldown ≤ touchCache then .error cooldownError else .ok ()

theorem Config.validate_cached {cfg : Config} (h : cfg.validate = .ok ())
    (hPolicy : cfg.touchPolicy = .cached) : touchCache < cfg.cooldown := by
  unfold Config.validate at h
  by_cases hc : cfg.cooldown ≤ touchCache
  · rw [if_pos ⟨hPolicy, hc⟩] at h
    injection h
  · omega

end Forward.Secrets

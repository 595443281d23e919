import Mathlib.Data.List.Infix
import Forward.Secrets.Store

/-!
# What a finished sops child means

How the exit status, the stderr and the stdout of the sops child become a decrypted file or an
error code. How the child is started, killed and reaped is part of the broker's steps.
-/

namespace Forward.Secrets

open Hygiene

/-! ## Single assignments -/

-- `strip_suffix(b"\r")`
def stripCarriageReturn (line : List UInt8) : List UInt8 :=
  if line.getLast? = some 13 then line.dropLast else line

def parseAssignmentLines (expected : List UInt8) :
    List (List UInt8) → Option (List UInt8) → Except ErrCode (List UInt8)
  | [], none => .error .internal
  | [], some value => .ok value
  | line :: rest, found =>
    let line := stripCarriageReturn line
    -- blank lines and comments
    if line = [] ∨ line.head? = some 35 then parseAssignmentLines expected rest found
    else
      match line.findIdx? (· == 61) with
      | none => .error .internal
      | some split =>
        let name := line.take split
        let value := line.drop (split + 1)
        if name ≠ expected ∨ found.isSome ∨ value.contains 0 then .error .internal
        else parseAssignmentLines expected rest (some value)

def parseSingleAssignment (plaintext : List UInt8) (expected : SecretName) :
    Except ErrCode (List UInt8) :=
  parseAssignmentLines (textBytes expected.name) (plaintext.splitOn 10) none

/-! ## Failure labels -/

def sopsStderrSignatures : List (String × String) :=
  [("failed to decrypt yubikey stanza", "yubikey-stanza-undecryptable"),
   ("yubikey plugin", "yubikey-plugin-error"),
   ("pc/sc error", "pcsc-communication-error"),
   ("no identity matched", "no-matching-identity"),
   ("sops metadata not found", "missing-sops-metadata"),
   ("no such file or directory", "input-unreadable"),
   ("permission denied", "input-permission-denied"),
   ("failed to get the data key", "data-key-unavailable")]

def containsSubslice (haystack needle : List UInt8) : Bool :=
  haystack.tails.any needle.isPrefixOf

-- `to_ascii_lowercase` on one byte
def asciiLower (byte : UInt8) : UInt8 :=
  if 65 ≤ byte ∧ byte ≤ 90 then byte + 32 else byte

def classifySopsStderr (stderr : List UInt8) : String :=
  let lowered := stderr.map asciiLower
  match sopsStderrSignatures.find? fun s => containsSubslice lowered (textBytes s.1) with
  | none => "unclassified"
  | some (_, label) => label

def unreachableFailureLabels : List String := ["yubikey-plugin-error", "pcsc-communication-error"]

def untouchedFailureLabels : List String := ["yubikey-stanza-undecryptable"]

def failureCode (label : String) : ErrCode :=
  if unreachableFailureLabels.contains label then .yubikeyUnreachable
  else if untouchedFailureLabels.contains label then .timeout
  else .internal

/-! ## The result of an exited child -/

structure DecryptedHumanFile where
  source : String
  identity : FileIdentity
  value : List UInt8
  deriving DecidableEq

/-- What `try_wait` and the two pipes yield once the child has exited; a pipe
that cannot be read has no bytes. -/
structure Exit where
  success : Bool
  stderr : Option (List UInt8)
  stdout : Option (List UInt8)

def maxSopsStderrBytes : Nat := 300

/-- The `Ok(Some(status))` arm of the polling loop. -/
def Exit.result (exit : Exit) (key : SecretName) (file : OpenedHumanFile) :
    Except ErrCode DecryptedHumanFile :=
  let failure :=
    match exit.stderr with
    | some bytes => classifySopsStderr (bytes.take maxSopsStderrBytes)
    | none => "stderr-unreadable"
  if exit.success then
    match exit.stdout with
    | none => .error .internal
    | some stdout =>
      match parseSingleAssignment stdout key with
      | .ok value => .ok ⟨file.label, file.identity, value⟩
      | .error e => .error e
  else .error (failureCode failure)

theorem Exit.result_ok {exit : Exit} {key : SecretName} {file : OpenedHumanFile}
    {decrypted : DecryptedHumanFile} (h : exit.result key file = .ok decrypted) :
    decrypted.source = file.label ∧ decrypted.identity = file.identity := by
  unfold Exit.result at h
  dsimp only at h
  split at h
  · split at h
    · cases h
    · split at h
      · injection h with h
        subst h
        exact ⟨rfl, rfl⟩
      · cases h
  · cases h

end Forward.Secrets

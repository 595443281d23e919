import Forward.Hygiene.Hex

/-!
# Names, tokens and scopes of the secrets broker

The vocabulary of `crates/secrets`: error codes, key names and the human-tier file names built from
them, capability names, session tokens, and scopes. Each validated text carries the proof of its
own check.
-/

namespace Forward.Secrets

open Lib Hygiene

inductive ErrCode
  | badRequest
  | unknownOp
  | versionMismatch
  | unknownToken
  | noScope
  | agentTty
  | foreignCaller
  | notHumanKey
  | ambiguousKey
  | denied
  | timeout
  | yubikeyUnreachable
  | tooManyPending
  | internal
  deriving DecidableEq

def startsWith (text start : String) : Bool := start.toList.isPrefixOf text.toList

def stripSuffix (text suffix : List Char) : Option (List Char) :=
  if suffix.isSuffixOf text then some (text.take (text.length - suffix.length)) else none

/-! ## Key names -/

def maxNameLen : Nat := 128

/-- The check of `SecretName::parse`: `[A-Za-z_][A-Za-z0-9_]*`, at most
`maxNameLen` bytes. -/
def validName (raw : String) : Bool :=
  match raw.toList with
  | [] => false
  | first :: rest =>
    decide (raw.utf8ByteSize ≤ maxNameLen) && (first.isAlpha || first == '_') &&
      rest.all fun c => c.isAlphanum || c == '_'

structure SecretName where
  name : String
  valid : validName name = true
  deriving DecidableEq

def SecretName.parse (raw : String) : Except ErrCode SecretName :=
  if h : validName raw = true then .ok ⟨raw, h⟩ else .error .badRequest

theorem SecretName.parse_ok {raw : String} {key : SecretName}
    (h : SecretName.parse raw = .ok key) : key.name = raw := by
  unfold SecretName.parse at h
  split at h
  · injection h with h
    rw [← h]
  · injection h

theorem SecretName.alphanum_of_mem {key : SecretName} {c : Char} (h : c ∈ key.name.toList) :
    (c.isAlphanum || c == '_') := by
  have hValid := key.valid
  unfold validName at hValid
  split at hValid
  · cases hValid
  · rename_i hChars
    simp only [Bool.and_eq_true] at hValid
    obtain ⟨⟨-, hFirst⟩, hRest⟩ := hValid
    rw [hChars] at h
    rcases List.mem_cons.mp h with rfl | hMem
    · rcases Bool.or_eq_true_iff.mp hFirst with hAlpha | hUnderscore
      · simp [Char.isAlphanum, hAlpha]
      · simp [hUnderscore]
    · exact List.all_eq_true.mp hRest c hMem

theorem SecretName.isAscii_of_mem {key : SecretName} {c : Char} (h : c ∈ key.name.toList) :
    isAscii c := by
  have hName : (c.isUpper || c.isLower || c.isDigit || c == '_') = true :=
    SecretName.alphanum_of_mem h
  simp only [Bool.or_eq_true, isUpper_iff, isLower_iff, beq_iff_eq] at hName
  rw [isAscii, decide_eq_true_eq]
  rcases hName with ((hUpper | hLower) | hDigit) | rfl
  · omega
  · omega
  · have hRange := isAsciiGraphic_iff.mp (isAsciiGraphic_of_isDigit hDigit)
    omega
  · decide

theorem SecretName.plain_of_mem_textBytes {key : SecretName} {byte : UInt8}
    (h : byte ∈ textBytes key.name) : byte ∉ [10, 13, 35, 61] := by
  rw [textBytes_ascii fun _ hc => isAscii_of_mem hc] at h
  obtain ⟨c, hc, rfl⟩ := List.mem_map.mp h
  exact forall_ascii (P := fun c => (c.isAlphanum || c == '_') = true →
    asciiByte c ∉ [10, 13, 35, 61]) (by decide) (isAscii_of_mem hc) (alphanum_of_mem hc)

def capabilityKeyPrefix : String := "CAP_"

def SecretName.isCapability (key : SecretName) : Bool :=
  startsWith key.name capabilityKeyPrefix

inductive HumanFileName
  | ignored
  | key (name : SecretName) (isLocal : Bool)
  | invalid
  deriving DecidableEq

def parseHumanFileName (fileName : String) : HumanFileName :=
  match stripSuffix fileName.toList ".env".toList with
  | none => .ignored
  | some stem =>
    let (rawName, isLocal) :=
      match stripSuffix stem ".local".toList with
      | none => (stem, false)
      | some rawName => (rawName, true)
    match SecretName.parse (String.ofList rawName) with
    | .ok name => .key name isLocal
    | .error _ => .invalid

/-! ## Capabilities -/

def maxCapabilityLen : Nat := 32

/-- The check of `Capability::parse`: `[a-z][a-z0-9_]*`, at most
`maxCapabilityLen` bytes. -/
def validCapability (raw : String) : Bool :=
  match raw.toList with
  | [] => false
  | first :: rest =>
    decide (raw.utf8ByteSize ≤ maxCapabilityLen) && first.isLower &&
      (first :: rest).all fun c => c.isLower || c.isDigit || c == '_'

structure Capability where
  name : String
  valid : validCapability name = true
  deriving DecidableEq

def Capability.parse (raw : String) : Except ErrCode Capability :=
  if h : validCapability raw = true then .ok ⟨raw, h⟩ else .error .badRequest

def Capability.keyName (cap : Capability) : String :=
  String.ofList (capabilityKeyPrefix.toList ++ cap.name.toList.map Char.toUpper)

theorem Capability.keyName_startsWith (cap : Capability) :
    startsWith cap.keyName capabilityKeyPrefix := by
  simp [startsWith, Capability.keyName]

/-! ## Tokens and scopes -/

def tokenLen : Nat := 32

structure SessionToken where
  bytes : List UInt8
  length_eq : bytes.length = tokenLen
  deriving DecidableEq

/-- `SessionToken::parse_hex`: each two-byte slice goes through
`u8::from_str_radix`. A slice that does not lie on character boundaries holds
a byte that is no digit, so it is refused by the same error. -/
def SessionToken.parseHex (text : String) : Except ErrCode SessionToken :=
  if (textBytes text).length ≠ tokenLen * 2 then .error .badRequest
  else
    match decodePairs (textBytes text) with
    | none => .error .badRequest
    | some bytes => if h : bytes.length = tokenLen then .ok ⟨bytes, h⟩ else .error .badRequest

inductive Scope
  | session (token : SessionToken)
  | tty (tty bootId : String)
  deriving DecidableEq

inductive ScopeKind
  | verifiedSession
  | tokenlessTty
  deriving DecidableEq

def Scope.kind : Scope → ScopeKind
  | .session _ => .verifiedSession
  | .tty _ _ => .tokenlessTty

end Forward.Secrets

import Forward.Hygiene.Hex

/-!
# The broker as `forward` sees it

The identity of a broker, the errors of talking to it, and the reading of its replies to AUTHORIZE
and REDEEM: lists of exactly the expected fields.
-/

namespace Forward.Secretsd

open Lib Hygiene

structure SocketIdentity where
  device : Nat
  inode : Nat
  deriving DecidableEq

structure BrokerIdentity where
  instanceId : String
  epoch : Nat
  socket : SocketIdentity
  deriving DecidableEq

structure RedeemedGrant where
  authority : BrokerIdentity
  ttlSecs : Nat
  deriving DecidableEq

inductive BrokerError
  | connect
  | untrustedPeer
  | subscriptionClosed
  | subscriberCapacity
  | protocol (reason : String)
  | unknownOp
  | denied
  | timeout
  | yubikeyUnreachable
  | notProvisioned (capability file : String)
  | noScope
  | receiptRejected
  | tooManyPending
  deriving DecidableEq

def capBrowser : String := "browser"

def validField (text : List Char) : Bool :=
  !text.isEmpty && text.all isAscii && !text.any isAsciiControl

def validHexBytes (bytes : List UInt8) (length : Nat) : Bool :=
  bytes.length == length &&
    bytes.all fun byte => (48 ≤ byte && byte ≤ 57) || (97 ≤ byte && byte ≤ 102)

def readField (expected : List String) (parsed : List (List Char × List Char))
    (field : List Char) : Except BrokerError (List (List Char × List Char)) :=
  match splitOnce ['='] field with
  | none => .error (.protocol "malformed broker success reply")
  | some (name, value) =>
    if name.isEmpty || value.isEmpty || !expected.contains (String.ofList name) ||
        parsed.any (fun seen => seen.1 == name) then
      .error (.protocol "unexpected or duplicate broker success field")
    else .ok (parsed ++ [(name, value)])

def expectedFields (fields : String) (expected : List String) :
    Except BrokerError (List (List Char × List Char)) := do
  let parsed ← (fields.toList.splitOn ' ').foldlM (readField expected) []
  if parsed.length = expected.length then .ok parsed
  else .error (.protocol "broker success reply is missing a field")

def fieldValue (fields : List (List Char × List Char)) (name : String) : Option (List Char) :=
  (fields.find? fun field => field.1 == name.toList).map (·.2)

def authorizedReceipt (fields : String) : Except BrokerError String := do
  let parsed ← expectedFields fields ["status", "receipt"]
  let refused : BrokerError := .protocol "broker did not return an authorized receipt"
  match fieldValue parsed "status", fieldValue parsed "receipt" with
  | some status, some receipt =>
    if status = "authorized".toList && validHexBytes (textBytes (String.ofList receipt)) 64 then
      .ok (String.ofList receipt)
    else .error refused
  | _, _ => .error refused

def redeemedCap (fields cap : String) (socket : SocketIdentity) :
    Except BrokerError RedeemedGrant := do
  let parsed ← expectedFields fields ["status", "cap", "instance", "epoch", "ttl"]
  let value := fieldValue parsed
  let usable (what : String) : BrokerError :=
    .protocol ("broker redeem reply has no usable " ++ what)
  match value "status", value "cap", value "instance", value "epoch", value "ttl" with
  | some status, some returned, some instanceId, some epoch, some ttl =>
    if status = "redeemed".toList && returned = cap.toList then
      if !validField instanceId then .error (usable "instance")
      else
        match parseU64 epoch, (parseU64 ttl).filter (0 < ·) with
        | none, _ => .error (usable "epoch")
        | some _, none => .error (usable "ttl")
        | some epoch, some ttlSecs => .ok ⟨⟨String.ofList instanceId, epoch, socket⟩, ttlSecs⟩
    else if status ≠ "redeemed".toList then
      .error (.protocol "broker success reply has an unexpected status")
    else .error .receiptRejected
  | some status, _, _, _, _ =>
    if status ≠ "redeemed".toList then
      .error (.protocol "broker success reply has an unexpected status")
    else .error .receiptRejected
  | none, _, _, _, _ => .error .receiptRejected

/-- `redeem`: the reply of the broker, with the socket that carried it, as a
redeemed grant. -/
def redeem (receipt : List UInt8) (cap : String)
    (reply : Except BrokerError (String × SocketIdentity)) : Except BrokerError RedeemedGrant :=
  if !validHexBytes receipt 64 then .error (.protocol "receipt is not lowercase ASCII hex")
  else if !validField cap.toList then
    .error (.protocol "redeem request contains an invalid capability")
  else
    match reply with
    | .error e => .error e
    | .ok (fields, socket) => redeemedCap fields cap socket

end Forward.Secretsd

import Forward.Net.Address

/-!
# The daemon's configuration

The fields that the modelled parts read, which remote addresses are admitted, and on which local
address. `parse` is the standard library's parser of literal addresses.
-/

namespace Forward.Net

structure Config where
  forwardTtlSecs : Nat
  listen : String
  peer : String
  peers : Option (List String)
  bridgePort : Nat
  relayPort : Nat
  pcscPort : Nat
  grantPort : Nat
  pulsePort : Nat

inductive ConfigError
  | address (field value : String)
  | peerRequired
  | peerConflict
  | emptyPeers
  | multiplePeers

variable (parse : String → Option IpAddr)

def parseIp (field value : String) : Except ConfigError IpAddr :=
  match parse value with
  | some ip => .ok ip
  | none => .error (.address field value)

def peerIp (field value : String) : Except ConfigError IpAddr := do
  let ip := (← parseIp parse field value).toCanonical
  if ip.isUnspecified || ip.isMulticast || ip = IpAddr.broadcast then
    throw (.address field value)
  return ip

namespace Config

def isMultiPeer (cfg : Config) : Bool := cfg.peers.isSome

def listenIp (cfg : Config) : Except ConfigError IpAddr :=
  (parseIp parse "listen" cfg.listen).map IpAddr.toCanonical

def peerValues (cfg : Config) : Except ConfigError (String × List String) :=
  match cfg.peers with
  | some values =>
    if cfg.peer ≠ "" then .error .peerConflict
    else if values = [] then .error .emptyPeers
    else .ok ("peers", values)
  | none => if cfg.peer = "" then .ok ("peer", []) else .ok ("peer", [cfg.peer])

/-- The loop of `admits_peer`: a value that does not parse refuses everyone. -/
def admitsAmong (field : String) (remote : IpAddr) : List String → Bool → Bool
  | [], found => found
  | value :: values, found =>
    match peerIp parse field value with
    | .error _ => false
    | .ok peer => admitsAmong field remote values (found || peer = remote.toCanonical)

def admitsPeer (cfg : Config) (remote : IpAddr) : Bool :=
  match cfg.peerValues with
  | .error _ => false
  | .ok (field, values) => admitsAmong parse field remote values false

def singleAmong (field : String) : List String → Option IpAddr → Bool →
    Except ConfigError (Option IpAddr)
  | [], peer, multiple => if multiple then .error .multiplePeers else .ok peer
  | value :: values, peer, multiple => do
    let ip ← Net.peerIp parse field value
    singleAmong field values (some ip) (multiple || peer.any fun previous => previous ≠ ip)

def singlePeerIp (cfg : Config) : Except ConfigError (Option IpAddr) := do
  let (field, values) ← cfg.peerValues
  singleAmong parse field values none false

def peerIp (cfg : Config) : Except ConfigError (Option IpAddr) := cfg.singlePeerIp parse

end Config

def authorizedRemote (cfg : Config) (remote : IpAddr) : Bool := cfg.admitsPeer parse remote

def authorizedSensitive (cfg : Config) (remote localAddress : IpAddr) : Bool :=
  authorizedRemote parse cfg remote &&
    match cfg.listenIp parse with
    | .ok listen => listen.toCanonical = localAddress.toCanonical
    | .error _ => false

theorem admitsAmong_toCanonical (field : String) (remote : IpAddr) (values : List String)
    (found : Bool) :
    Config.admitsAmong parse field remote.toCanonical values found =
      Config.admitsAmong parse field remote values found := by
  induction values generalizing found with
  | nil => rfl
  | cons value values ih => simp only [Config.admitsAmong, IpAddr.toCanonical_toCanonical, ih]

theorem authorizedSensitive_toCanonical (cfg : Config) (remote localAddress : IpAddr) :
    authorizedSensitive parse cfg remote.toCanonical localAddress =
      authorizedSensitive parse cfg remote localAddress := by
  simp only [authorizedSensitive, authorizedRemote, Config.admitsPeer, admitsAmong_toCanonical]

end Forward.Net

import Forward.Net.Config

/-!
# Which ports may be forwarded

The laptop leases no callback listener on one of forward's own ports; the devbox's bridge dials
none of them, no privileged port and none of a list of development services.
-/

namespace Forward.Net

def channelPort : Nat := 12800

def filesPort : Nat := 12802

def servicePorts (cfg : Config) : List Nat :=
  [channelPort, filesPort, cfg.bridgePort, cfg.relayPort, cfg.pcscPort, cfg.grantPort,
    cfg.pulsePort]

def isDynamicPort (cfg : Config) (port : Nat) : Bool :=
  port ≠ 0 && !(servicePorts cfg).contains port

def lowestCallbackPort : Nat := 1024

def lethalDevelopmentPorts : List Nat :=
  [2345, 2375, 2376, 3306, 5432, 5678, 6379, 8001, 9229]

def globallyDenied (cfg : Config) (port : Nat) : Bool :=
  port = 0 || decide (port < lowestCallbackPort) || (servicePorts cfg).contains port ||
    lethalDevelopmentPorts.contains port

def canArm (cfg : Config) (port : Nat) : Bool := !globallyDenied cfg port

end Forward.Net

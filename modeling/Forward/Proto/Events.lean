import Forward.Lib.Text

/-!
# Authority events on the wire

What a subscriber reads from the broker: one line per event, or the refusal of
a subscription beyond the broker's capacity.
-/

namespace Forward.Proto

open Lib

def subscriberCapacityResponse : String := "ERR SUBSCRIBER_CAPACITY\n"

def authorityEvent (instanceId : String) (epoch : Nat) : String :=
  "EPOCH " ++ toString epoch ++ " instance=" ++ instanceId ++ "\n"

/-- `parse_authority_event`: exactly one complete event, with its instance and
its epoch. -/
def parseAuthorityEvent (line : String) : Option (String × Nat) := do
  let body ← stripPrefix "EPOCH ".toList line.toList
  let (epoch, tail) ← splitOnce " instance=".toList body
  let instanceId ← stripSuffix '\n' tail
  if epoch.isEmpty || !epoch.all Char.isDigit || instanceId.isEmpty ||
      !instanceId.all isAsciiGraphic then none
  else
    let value ← parseU64 epoch
    some (String.ofList instanceId, value)

end Forward.Proto

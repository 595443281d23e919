import Forward.Net.Ports

/-!
# The loopback ports of a URL

An OAuth login comes back to a port of the devbox's loopback, which the URL names itself or in a
`redirect_uri`. The laptop forwards these ports and the devbox arms them; both take them from the
URL. A URL is what the `url` crate (`parse`) makes of a text.
-/

namespace Forward.Net

structure Url where
  host : Option String
  port : Option Nat
  queryPairs : List (String × String)

def maxDynamicForwards : Nat := 4

def loopbackPort (url : Url) : Option Nat :=
  match url.host with
  | none => none
  | some host =>
    if host = "localhost" ∨ host = "127.0.0.1" ∨ host = "[::1]" then url.port else none

variable (parse : String → Option Url)

def redirectPort (pair : String × String) : Option Nat :=
  if pair.1 = "redirect_uri" then (parse pair.2).bind loopbackPort else none

def redirectPorts : List (String × String) → List Nat → List Nat
  | [], ports => ports
  | pair :: pairs, ports =>
    match redirectPort parse pair with
    | some port => redirectPorts pairs (if port ∈ ports then ports else ports ++ [port])
    | none => redirectPorts pairs ports

def forwardPorts (url : Url) : List Nat :=
  redirectPorts parse url.queryPairs (loopbackPort url).toList

def callbackPorts (cfg : Config) (url : Url) : List Nat :=
  let ports := (forwardPorts parse url).filter (isDynamicPort cfg)
  if maxDynamicForwards < ports.length then ports.take maxDynamicForwards else ports

/-! ## What the ports are -/

theorem redirectPorts_nodup (pairs : List (String × String)) {ports : List Nat}
    (h : ports.Nodup) : (redirectPorts parse pairs ports).Nodup := by
  -- each pair adds one port that is not there
  induction pairs generalizing ports with
  | nil => exact h
  | cons pair pairs ih =>
    unfold redirectPorts
    split
    · split
      · exact ih h
      · rename_i port _ hNew
        exact ih (List.nodup_append.mpr ⟨h, List.nodup_singleton port, by
          rintro a hIn b hPort rfl
          exact hNew (List.mem_singleton.mp hPort ▸ hIn)⟩)
    · exact ih h

theorem forwardPorts_nodup (url : Url) : (forwardPorts parse url).Nodup := by
  refine redirectPorts_nodup parse _ ?_
  cases loopbackPort url with
  | none => exact List.nodup_nil
  | some port => exact List.nodup_singleton port

theorem callbackPorts_eq_take (cfg : Config) (url : Url) :
    callbackPorts parse cfg url =
      ((forwardPorts parse url).filter (isDynamicPort cfg)).take maxDynamicForwards := by
  dsimp only [callbackPorts]
  split
  · rfl
  · rename_i hFew
    exact (List.take_of_length_le (Nat.not_lt.mp hFew)).symm

theorem isDynamicPort_iff {cfg : Config} {port : Nat} :
    isDynamicPort cfg port ↔ port ≠ 0 ∧ port ∉ servicePorts cfg := by
  simp [isDynamicPort]

theorem isDynamicPort_congr {cfg cfg' : Config}
    (hSame : ∀ port, port ∈ servicePorts cfg ↔ port ∈ servicePorts cfg') (port : Nat) :
    isDynamicPort cfg port = isDynamicPort cfg' port := by
  rw [Bool.eq_iff_iff, isDynamicPort_iff, isDynamicPort_iff, hSame port]

end Forward.Net

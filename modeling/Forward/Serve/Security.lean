import Forward.Lib.Fields
import Forward.Net.Peers

/-!
# Who may read a preview

The file server answers the configured peer, and only under a `Host` that names its own address.
The one exception is the health probe of a loopback client.
-/

namespace Forward.Serve

open Lib Net

inductive Method
  | get
  | head
  | other (name : String)
  deriving DecidableEq

structure Request where
  remoteAddr : Option IpAddr
  method : Method
  headers : List (String × String)
  url : String

def healthPath : String := "/.well-known/forward/health"

def asciiLower (text : List Char) : List Char := text.map Char.toLower

/-- The host of a `Host` value, without its brackets. A port is whatever `u16` parses. -/
def hostPart (value : List Char) : Option (List Char) :=
  match stripPrefix ['['] value with
  | some rest =>
    match splitOnce [']'] rest with
    | none => none
    | some (host, tail) =>
      if tail.isEmpty || (stripPrefix [':'] tail).any fun port => (parseU16 port).isSome then
        some host
      else none
  | none =>
    match splitOnce [':'] value with
    | some (host, port) => if (parseU16 port).isSome then some host else none
    | none => some value

section

variable (parse : String → Option IpAddr) (cfg : Config)

def listensOnLoopback : Bool :=
  match cfg.listenIp parse with
  | .ok listen => listen.isLoopback
  | .error _ => false

def hostValueAllowed (value : Option String) : Bool :=
  match value with
  | none => false
  | some value =>
    match hostPart (asciiLower value.toList) with
    | none => false
    | some host =>
      if host = asciiLower cfg.listen.toList then true
      else listensOnLoopback parse cfg &&
        ["localhost".toList, "127.0.0.1".toList, "::1".toList].contains host

def loopbackHealthProbe (request : Request) : Bool :=
  request.url == healthPath &&
    request.remoteAddr.any fun remote => remote.toCanonical.isLoopback

def peerAllowed (request : Request) : Bool :=
  loopbackHealthProbe request || request.remoteAddr.any fun remote =>
    authorizedRemote parse cfg remote

/-- The value of the first `Host` header, under any spelling of its name. -/
def hostHeader (request : Request) : Option String :=
  (request.headers.find? fun header =>
    asciiLower header.1.toList = asciiLower "Host".toList).map Prod.snd

def hostAllowed (request : Request) : Bool :=
  if loopbackHealthProbe request then true
  else hostValueAllowed parse cfg (hostHeader request)

end

/-! ## Hosts with an optional port -/

def IsPort (port : List Char) : Prop := ∃ n, parseU16 port = some n

inductive HostPort : List Char → List Char → Prop
  | bracketed {host : List Char} (hHost : ']' ∉ host) : HostPort ('[' :: (host ++ [']'])) host
  | bracketedPort {host port : List Char} (hHost : ']' ∉ host) (hPort : IsPort port) :
      HostPort ('[' :: (host ++ ']' :: ':' :: port)) host
  | bare {host : List Char} (hFirst : host.head? ≠ some '[') (hHost : ':' ∉ host) :
      HostPort host host
  | withPort {host port : List Char} (hFirst : (host ++ ':' :: port).head? ≠ some '[')
      (hHost : ':' ∉ host) (hPort : IsPort port) : HostPort (host ++ ':' :: port) host

variable {value host port : List Char}

theorem isSome_parseU16_iff : (parseU16 port).isSome ↔ IsPort port :=
  Option.isSome_iff_exists

theorem tail_iff {tail : List Char} :
    (tail.isEmpty || (stripPrefix [':'] tail).any fun port => (parseU16 port).isSome) = true ↔
      tail = [] ∨ ∃ port, tail = ':' :: port ∧ IsPort port := by
  rw [Bool.or_eq_true, List.isEmpty_iff, Option.any_eq_true]
  refine or_congr Iff.rfl ⟨?_, ?_⟩
  · rintro ⟨port, hStrip, hPort⟩
    exact ⟨port, eq_of_stripPrefix hStrip, isSome_parseU16_iff.mp hPort⟩
  · rintro ⟨port, rfl, hPort⟩
    exact ⟨port, stripPrefix_append [':'] port, isSome_parseU16_iff.mpr hPort⟩

theorem hostPart_sound (h : hostPart value = some host) : HostPort value host := by
  unfold hostPart at h
  split at h
  · rename_i hBracket
    split at h
    · cases h
    · rename_i hSplit
      have hFound := notMem_of_splitOnce hSplit
      rw [eq_of_stripPrefix hBracket, eq_of_splitOnce (List.cons_ne_nil _ _) hSplit]
      split at h
      · rename_i hTail
        cases h
        rcases tail_iff.mp hTail with rfl | ⟨port, rfl, hPort⟩
        · exact .bracketed hFound
        · exact .bracketedPort hFound hPort
      · cases h
  · rename_i hBare
    have hFirst := stripPrefix_char_eq_none.mp hBare
    split at h
    · rename_i hSplit
      split at h
      · rename_i hPort
        cases h
        rw [eq_of_splitOnce (List.cons_ne_nil _ _) hSplit] at hFirst ⊢
        exact .withPort hFirst (notMem_of_splitOnce hSplit) (isSome_parseU16_iff.mp hPort)
      · cases h
    · rename_i hNone
      cases h
      exact .bare hFirst (notMem_of_splitOnce_none hNone)

theorem hostPart_complete (h : HostPort value host) : hostPart value = some host := by
  -- behind a bracket, up to the next one
  have hBracket : ∀ {host tail : List Char}, ']' ∉ host →
      (tail = [] ∨ ∃ port, tail = ':' :: port ∧ IsPort port) →
      hostPart ('[' :: (host ++ ']' :: tail)) = some host := by
    intro host tail hHost hTail
    have hStrip : stripPrefix ['['] ('[' :: (host ++ ']' :: tail)) = some (host ++ ']' :: tail) :=
      stripPrefix_append ['['] _
    unfold hostPart
    simp only [hStrip, splitOnce_char hHost, if_pos (tail_iff.mpr hTail)]
  cases h with
  | bracketed hHost => exact hBracket hHost (.inl rfl)
  | bracketedPort hHost hPort => exact hBracket hHost (.inr ⟨_, rfl, hPort⟩)
  | bare hFirst hHost =>
    unfold hostPart
    simp only [stripPrefix_char_eq_none.mpr hFirst, splitOnce_eq_none hHost]
  | withPort hFirst hHost hPort =>
    unfold hostPart
    simp only [stripPrefix_char_eq_none.mpr hFirst, splitOnce_char hHost,
      if_pos (isSome_parseU16_iff.mpr hPort)]

/-! ## The checks -/

variable {parse : String → Option IpAddr} {cfg : Config} {request : Request}

/-- A host, in lower case, names the listen address, or the loopback on a loopback one. -/
def NamesListen (parse : String → Option IpAddr) (cfg : Config) (host : List Char) : Prop :=
  host = asciiLower cfg.listen.toList ∨
    (∃ listen, cfg.listenIp parse = .ok listen ∧ listen.isLoopback = true) ∧
      (host = "localhost".toList ∨ host = "127.0.0.1".toList ∨ host = "::1".toList)

theorem listensOnLoopback_iff : listensOnLoopback parse cfg ↔
    ∃ listen, cfg.listenIp parse = .ok listen ∧ listen.isLoopback := by
  unfold listensOnLoopback
  cases cfg.listenIp parse with
  | error | ok => simp

theorem namesListen_iff {host : List Char} :
    (if host = asciiLower cfg.listen.toList then true
      else listensOnLoopback parse cfg &&
        ["localhost".toList, "127.0.0.1".toList, "::1".toList].contains host) ↔
      NamesListen parse cfg host := by
  unfold NamesListen
  rw [← listensOnLoopback_iff]
  by_cases hListen : host = asciiLower cfg.listen.toList
  · simp [hListen]
  · simp [hListen]

theorem hostValueAllowed_iff {value : Option String} :
    hostValueAllowed parse cfg value ↔ ∃ text host, value = some text ∧
      HostPort (asciiLower text.toList) host ∧ NamesListen parse cfg host := by
  unfold hostValueAllowed
  constructor
  · intro h
    split at h
    · cases h
    · rename_i text
      split at h
      · cases h
      · rename_i host hPart
        exact ⟨text, host, rfl, hostPart_sound hPart, namesListen_iff.mp h⟩
  · rintro ⟨text, host, rfl, hHost, hNames⟩
    simp only [hostPart_complete hHost]
    exact namesListen_iff.mpr hNames

theorem peerAllowed_iff :
    peerAllowed parse cfg request ↔ loopbackHealthProbe request ∨
      ∃ remote ips, request.remoteAddr = some remote ∧ cfg.peerIps parse = .ok ips ∧
        remote.toCanonical ∈ ips := by
  unfold peerAllowed
  rw [Bool.or_eq_true, Option.any_eq_true]
  refine or_congr Iff.rfl (exists_congr fun remote => ?_)
  rw [authorizedRemote, admitsPeer_iff]
  simp

theorem hostAllowed_iff :
    hostAllowed parse cfg request ↔ loopbackHealthProbe request ∨
      ∃ text host, hostHeader request = some text ∧
        HostPort (asciiLower text.toList) host ∧ NamesListen parse cfg host := by
  unfold hostAllowed
  by_cases hProbe : loopbackHealthProbe request
  · simp [hProbe]
  · rw [if_neg hProbe, hostValueAllowed_iff]
    simp [hProbe]

end Forward.Serve

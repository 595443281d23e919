import Forward.Net.IpText
import Forward.Net.Ports
import Forward.Serve.Paths
import Forward.Serve.Security

/-!
# The host of the server's own preview URLs

A preview URL is made of the listen address as it is configured. The browser sends the host as the
URL serialises it (`CanonicalHost`), and the file server compares that with the configured text. Of
the texts of an IPv6 address one is serialised.
-/

namespace Forward.Serve

open Lib Net
open Hygiene (textBytes)

/-- The host of a preview URL is serialised from the address that the listen text is read
as. The port is not the default one, so it is serialised too. -/
def CanonicalHost (parse : List UInt8 → Option Url) (listen : String) : Prop :=
  ∀ ip path url, IpAddr.fromStr listen = some ip →
    parse (textBytes ("http://" ++ urlHost ipv6FromStr listen ++ ":" ++ toString filesPort ++
      "/") ++ path) = some url →
    url.authority = String.ofList ip.hostText ++ ":" ++ toString filesPort

variable {parse : List UInt8 → Option Url} {canonicalize : Path → Except IoErrorKind Path}
  {cfg : Config} {url : Url}

/-! ## The host that is sent -/

theorem authority_of_toUrl {arg : String} {path : Path} {fragment : Option String} {ip : IpAddr}
    (hCanonical : CanonicalHost parse cfg.listen) (hListen : IpAddr.fromStr cfg.listen = some ip)
    (hFile : target parse arg = .ok (.inr (path, fragment)))
    (hUrl : toUrl parse ipv6FromStr canonicalize arg cfg.listen filesPort = .ok url) :
    url.authority = String.ofList ip.hostText ++ ":" ++ toString filesPort := by
  unfold toUrl at hUrl
  rw [hFile] at hUrl
  simp only [bind, Except.bind] at hUrl
  split at hUrl
  · cases hUrl
  · cases hUrl
  · unfold preview at hUrl
    dsimp only at hUrl
    split at hUrl
    · cases hUrl
    · rename_i parsed hParsed
      cases hUrl
      exact hCanonical ip _ parsed hListen hParsed

theorem isPort_filesPort : IsPort (toString filesPort).toList := ⟨12802, by decide +kernel⟩

theorem asciiLower_authority (host : List Char) :
    asciiLower (String.ofList host ++ ":" ++ toString filesPort).toList =
      asciiLower host ++ ':' :: (toString filesPort).toList := by
  have hPort : asciiLower (':' :: (toString filesPort).toList) =
      ':' :: (toString filesPort).toList := by decide +kernel
  rw [String.toList_append, String.toList_append, String.toList_ofList, List.append_assoc]
  show (host ++ (':' :: (toString filesPort).toList)).map Char.toLower = _
  rw [List.map_append]
  exact congrArg _ hPort

theorem hostValueAllowed_of_host {parseIp : String → Option IpAddr} {text : String}
    {host : List Char} (h : HostPort (asciiLower text.toList) host) :
    hostValueAllowed parseIp cfg (some text) ↔ NamesListen parseIp cfg host := by
  rw [hostValueAllowed_iff]
  constructor
  · rintro ⟨other, found, hText, hFound, hNames⟩
    cases hText
    have hSame := (hostPart_complete hFound).symm.trans (hostPart_complete h)
    rwa [Option.some.inj hSame] at hNames
  · exact fun hNames => ⟨text, host, rfl, h, hNames⟩

/-! ## The listen address that it names -/

theorem hostPort_v4 {bits : BitVec 32} (h : IpAddr.fromStr cfg.listen = some (.v4 bits)) :
    HostPort (asciiLower cfg.listen.toList ++ ':' :: (toString filesPort).toList)
      (asciiLower cfg.listen.toList) := by
  -- digits and dots
  have hPlain : ∀ c ∈ asciiLower cfg.listen.toList, c ≠ '[' ∧ c ≠ ':' := by
    intro c hc
    obtain ⟨d, hd, rfl⟩ := List.mem_map.mp hc
    rw [(fromStr_v4 h).1] at hd
    rcases mem_separated hd with rfl | ⟨part, hPart, hDigit⟩
    · decide
    · obtain ⟨octet, -, rfl⟩ := List.mem_map.mp hPart
      obtain ⟨n, hn, rfl⟩ := mem_toDigits (by omega) hDigit
      obtain ⟨-, hOthers, hLower⟩ := digitChar_hex ⟨n, by omega⟩
      rw [hLower]
      simp only [List.mem_cons, List.not_mem_nil, or_false, not_or] at hOthers
      exact ⟨hOthers.2.2.1, hOthers.2.1⟩
  refine .withPort ?_ (fun hColon => (hPlain _ hColon).2 rfl) isPort_filesPort
  cases hText : asciiLower cfg.listen.toList with
  | nil => simp
  | cons c =>
    have hFirst := (hPlain c (by rw [hText]; exact List.mem_cons_self)).1
    simpa using hFirst

theorem asciiLower_ipv6Text (groups : List Nat) :
    asciiLower (ipv6Text groups) = ipv6Text groups := by
  calc asciiLower (ipv6Text groups) = (ipv6Text groups).map id :=
        List.map_congr_left fun c hc => (plain_of_mem_ipv6Text hc).2
    _ = ipv6Text groups := List.map_id _

theorem hostPort_v6 (groups : List Nat) :
    HostPort (asciiLower ('[' :: (ipv6Text groups ++ [']'])) ++
      ':' :: (toString filesPort).toList) (ipv6Text groups) := by
  have hLower :
      asciiLower ('[' :: (ipv6Text groups ++ [']'])) = '[' :: (ipv6Text groups ++ [']']) := by
    show Char.toLower '[' :: (ipv6Text groups ++ [']']).map Char.toLower = _
    rw [List.map_append]
    exact congrArg (fun text => '[' :: (text ++ [']'])) (asciiLower_ipv6Text groups)
  have hBracket : ']' ∉ ipv6Text groups := fun h => (plain_of_mem_ipv6Text h).1 (by decide)
  rw [hLower]
  have hPort := HostPort.bracketedPort hBracket isPort_filesPort
  simpa using hPort

theorem eq_one_of_loopbackName {bits : BitVec 128}
    (h : ipv6Text (segments bits) = "localhost".toList ∨
      ipv6Text (segments bits) = "127.0.0.1".toList ∨ ipv6Text (segments bits) = "::1".toList) :
    bits = 1 := by
  -- the other names have characters that no IPv6 address has
  have hOther : ∀ c ∈ ['.', 'l'], c ∉ ipv6Text (segments bits) := by
    intro c hc hMem
    rcases mem_ipv6Text hMem with rfl | ⟨d, rfl⟩
    · exact absurd hc (by decide)
    · have hNone : ∀ d : Fin 16, Nat.digitChar d ∉ ['.', 'l'] := by decide
      exact hNone d hc
  rcases h with hText | hText | hText
  · exact absurd (by rw [hText]; decide) (hOther 'l' (by decide))
  · exact absurd (by rw [hText]; decide) (hOther '.' (by decide))
  · exact eq_one_of_segments hText

theorem namesListen_v6_iff {bits : BitVec 128} (h : IpAddr.fromStr cfg.listen = some (.v6 bits)) :
    NamesListen IpAddr.fromStr cfg (ipv6Text (segments bits)) ↔
      asciiLower cfg.listen.toList = ipv6Text (segments bits) ∨ bits = 1 := by
  have hListen : cfg.listenIp IpAddr.fromStr = .ok (IpAddr.v6 bits).toCanonical := by
    unfold Config.listenIp parseIp
    rw [h]
    rfl
  unfold NamesListen
  constructor
  · rintro (hText | ⟨-, hName⟩)
    · exact .inl hText.symm
    · exact .inr (eq_one_of_loopbackName hName)
  · rintro (hText | rfl)
    · exact .inl hText.symm
    · refine .inr ⟨⟨_, hListen, by decide +kernel⟩, .inr (.inr ?_)⟩
      decide +kernel

/-! ## The URLs that are answered -/

/-- **The server's own preview URLs.** A browser that follows one is answered if the listen
address is an IPv4 address, or the one text of its IPv6 address that URLs serialise, in any
case of its letters, or any text of `::1`; and refused otherwise. -/
theorem own_host_accepted_iff (parse : List UInt8 → Option Url)
    (canonicalize : Path → Except IoErrorKind Path) (cfg : Config) (arg : String) (path : Path)
    (fragment : Option String) (url : Url) (hCanonical : CanonicalHost parse cfg.listen)
    (hValid : cfg.validate IpAddr.fromStr = .ok ())
    (hFile : target parse arg = .ok (.inr (path, fragment)))
    (hUrl : toUrl parse ipv6FromStr canonicalize arg cfg.listen filesPort = .ok url) :
    hostValueAllowed IpAddr.fromStr cfg (some url.authority) = true ↔
      (∃ bits, IpAddr.fromStr cfg.listen = some (.v4 bits)) ∨
      ∃ bits, IpAddr.fromStr cfg.listen = some (.v6 bits) ∧
        (asciiLower cfg.listen.toList = ipv6Text (segments bits) ∨ bits = 1) := by
  obtain ⟨ip, hListen⟩ : ∃ ip, IpAddr.fromStr cfg.listen = some ip := by
    cases hRead : IpAddr.fromStr cfg.listen with
    | some ip => exact ⟨ip, rfl⟩
    | none =>
      simp [Config.validate, Config.listenIp, parseIp, hRead, Except.map, bind, Except.bind]
        at hValid
  have hSent := authority_of_toUrl hCanonical hListen hFile hUrl
  have hText := asciiLower_authority ip.hostText
  rw [← hSent] at hText
  cases ip with
  | v4 bits =>
    have hHost := hostPort_v4 hListen
    rw [(fromStr_v4 hListen).1] at hHost
    rw [hostValueAllowed_of_host (hText ▸ hHost)]
    refine iff_of_true (.inl ?_) (.inl ⟨bits, hListen⟩)
    rw [(fromStr_v4 hListen).1]
  | v6 bits =>
    rw [hostValueAllowed_of_host (hText ▸ hostPort_v6 (segments bits)), namesListen_v6_iff hListen,
      hListen]
    simp

/-! ### One address, written in two ways -/

/-- A configuration that `validate` accepts, with the default ports. -/
def listening (listen : String) : Config :=
  ⟨300, listen, "fd00::2", none, 12801, 12803, 12804, 12805, 12806⟩

def parseOneHost (text : List UInt8) : Option Url :=
  (bareParse text).map fun url => { url with authority := "[fd00::1]:12802" }

theorem canonicalHost_parseOneHost {listen : String}
    (h : IpAddr.fromStr listen = some (.v6 0xfd000000000000000000000000000001#128)) :
    CanonicalHost parseOneHost listen := by
  intro ip path url hIp hUrl
  obtain rfl := Option.mem_unique h hIp
  obtain ⟨bare, -, rfl⟩ := Option.map_eq_some_iff.mp hUrl
  show "[fd00::1]:12802" = _
  decide +kernel

/-- The server refuses the host of the URL it is configured to hand out. -/
theorem long_spelling_refused :
    (listening "fd00:0:0:0:0:0:0:1").validate IpAddr.fromStr = .ok () ∧
    CanonicalHost parseOneHost "fd00:0:0:0:0:0:0:1" ∧
    ∃ url, toUrl parseOneHost ipv6FromStr .ok "/srv/notes.md" "fd00:0:0:0:0:0:0:1" filesPort =
        .ok url ∧
      hostValueAllowed IpAddr.fromStr (listening "fd00:0:0:0:0:0:0:1") (some url.authority) =
        false := by
  refine ⟨by rfl, canonicalHost_parseOneHost (by decide +kernel), _, by rfl, ?_⟩
  decide +kernel

theorem own_host_accepted_iff_serialised :
    ∃ url, toUrl parseOneHost ipv6FromStr .ok "/srv/notes.md" "fd00::1" filesPort = .ok url ∧
      hostValueAllowed IpAddr.fromStr (listening "fd00::1") (some url.authority) = true := by
  refine ⟨_, by rfl, (own_host_accepted_iff parseOneHost .ok (listening "fd00::1") "/srv/notes.md"
    (textBytes "/srv/notes.md") none _ (canonicalHost_parseOneHost (by decide +kernel)) (by rfl)
    (by rfl) (by rfl)).mpr (.inr ⟨0xfd000000000000000000000000000001#128, ?_, .inl ?_⟩)⟩
  · decide +kernel
  · decide +kernel

end Forward.Serve

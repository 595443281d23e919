import Mathlib.Data.List.DropRight
import Forward.Secrets.Requests

/-!
# The frames of the human client

`HumanClient` writes a GET or REQUEST frame from the key, the token of its token file, its terminal
and a lifetime, and `write_request` refuses what may not stand on the wire. Neither looks for a
tab, which is what the broker splits a frame at.
-/

namespace Forward.Secrets

open Lib Hygiene Proto

def isWhiteSpace (c : Char) : Bool :=
  let n := c.toNat
  (9 ≤ n && n ≤ 13) || n == 0x20 || n == 0x85 || n == 0xa0 || n == 0x1680 ||
    (0x2000 ≤ n && n ≤ 0x200a) || n == 0x2028 || n == 0x2029 || n == 0x202f || n == 0x205f ||
    n == 0x3000

def trim (text : List Char) : List Char := (text.dropWhile isWhiteSpace).rdropWhile isWhiteSpace

/-- A token that `read_token_file` returns: some text, with nothing to trim. -/
structure TokenText where
  text : String
  usable : text ≠ "" ∧ trim text.toList = text.toList

def readTokenFile (bytes : List UInt8) : Option TokenText :=
  match fromUtf8 bytes with
  | none => none
  | some value => if h : value ≠ "" ∧ trim value.toList = value.toList then some ⟨value, h⟩ else none

structure HumanClient where
  token : Option TokenText
  tty : Option String

inductive Operation
  | get
  | request

def Operation.verb : Operation → String
  | .get => "GET"
  | .request => "REQUEST"

def Operation.meant (op : Operation) (key : String) (tokenHex tty : Option String)
    (ttlSecs : Option Nat) : Request :=
  match op with
  | .get => .get key tokenHex tty ttlSecs
  | .request => .requestGrant key tokenHex tty ttlSecs

def pushOption (name : String) : Option String → String
  | none => ""
  | some value => "\t" ++ name ++ "=" ++ value

def HumanClient.scopedFrame (client : HumanClient) (operation : String) (key : SecretName)
    (ttlSecs : Option Nat) : String :=
  operation ++ "\tkey=" ++ key.name ++ pushOption "token" (client.token.map (·.text)) ++
    pushOption "tty" client.tty ++ pushOption "ttl" (ttlSecs.map toString)

def requestIsValid (request : String) : Bool :=
  !request.toList.isEmpty && decide ((textBytes request).length ≤ maxFrameBytes) &&
    request.toList.all isAscii && !request.toList.any fun c => c == '\n' || c == '\r' || c == '\x00'

def writeRequest (request : String) : Option (List UInt8) :=
  if requestIsValid request then some (textBytes request ++ [10]) else none

def optionField (name : String) (value : Option String) : List Field :=
  value.toList.map fun v => (name.toList, v.toList)

def HumanClient.scopedFields (client : HumanClient) (key : SecretName) (ttlSecs : Option Nat) :
    List Field :=
  ("key".toList, key.name.toList) :: (optionField "token" (client.token.map (·.text)) ++
    (optionField "tty" client.tty ++ optionField "ttl" (ttlSecs.map toString)))

theorem toList_pushOption (name : String) (value : Option String) :
    (pushOption name value).toList =
      ((optionField name value).map fun f => '\t' :: f.text).flatten := by
  cases value with
  | none => rfl
  | some => simp [pushOption, optionField, Field.text, String.toList_append]

theorem toList_scopedFrame (client : HumanClient) (op : Operation) (key : SecretName)
    (ttlSecs : Option Nat) :
    (client.scopedFrame op.verb key ttlSecs).toList =
      frameText op.verb.toList (client.scopedFields key ttlSecs) := by
  rw [frameText_eq]
  simp only [HumanClient.scopedFrame, HumanClient.scopedFields, String.toList_append,
    toList_pushOption, List.map_cons, List.map_append, List.flatten_cons, List.flatten_append,
    Field.text, List.append_assoc]
  rfl

theorem owned_optionField (name other : String) (value : Option String) :
    owned (optionField name value) other = if name = other then value else none := by
  cases value with
  | none => simp [optionField, owned, field]
  | some value => exact owned_cons name value other []

theorem mem_optionField {name : String} {value : Option String} {f : Field}
    (h : f ∈ optionField name value) : ∃ v, value = some v ∧ f = (name.toList, v.toList) := by
  obtain ⟨v, hv, rfl⟩ := List.mem_map.mp h
  exact ⟨v, Option.mem_toList.mp hv, rfl⟩

section

variable {client : HumanClient} {key : SecretName} {ttlSecs : Option Nat}

theorem owned_scoped (name : String) :
    owned (client.scopedFields key ttlSecs) name =
      if "key" = name then some key.name
      else (if "token" = name then client.token.map (·.text) else none).or
        ((if "tty" = name then client.tty else none).or
          (if "ttl" = name then ttlSecs.map toString else none)) := by
  unfold HumanClient.scopedFields
  rw [owned_cons, owned_append, owned_append, owned_optionField, owned_optionField,
    owned_optionField]

theorem requestOf_scoped (op : Operation) (hTtl : ∀ n ∈ ttlSecs, 1 ≤ n ∧ n < 2 ^ 64) :
    requestOf op.verb (client.scopedFields key ttlSecs) =
      .ok (op.meant key.name (client.token.map (·.text)) client.tty ttlSecs) := by
  have hKey : required (client.scopedFields key ttlSecs) "key" = .ok key.name :=
    required_ok_iff.mpr ((owned_scoped "key").trans (by simp))
  have hToken : owned (client.scopedFields key ttlSecs) "token" = client.token.map (·.text) :=
    (owned_scoped "token").trans (by simp)
  have hTty : owned (client.scopedFields key ttlSecs) "tty" = client.tty :=
    (owned_scoped "tty").trans (by simp)
  have hLifetime : Secrets.ttlSecs (client.scopedFields key ttlSecs) "ttl" = .ok ttlSecs := by
    have hField : owned (client.scopedFields key ttlSecs) "ttl" = ttlSecs.map toString :=
      (owned_scoped "ttl").trans (by simp)
    unfold Secrets.ttlSecs
    rw [field_eq_owned, hField]
    cases ttlSecs with
    | none => rfl
    | some n =>
      obtain ⟨hPositive, hWord⟩ := hTtl n rfl
      have hParse : parseU64 (toString n).toList = some n := by
        rw [toList_toString, parseU64_decimal, if_pos hWord]
      simp only [Option.map_some, hParse]
      -- a lifetime of zero is the one number that is refused
      match n, hPositive with
      | n + 1, _ => rfl
  cases op with
  | get | request =>
    simp only [Operation.verb, requestOf, hKey, hToken, hTty, hLifetime]
    rfl

theorem names_optionField (name : String) (value : Option String) :
    ((optionField name value).map Prod.fst).Sublist [name.toList] := by
  cases value with
  | none => exact List.nil_sublist _
  | some => exact List.Sublist.refl _

theorem names_scoped : ((client.scopedFields key ttlSecs).map Prod.fst).Nodup := by
  have hAll : ["key".toList, "token".toList, "tty".toList, "ttl".toList].Nodup := by decide
  refine hAll.sublist ?_
  simp only [HumanClient.scopedFields, List.map_cons, List.map_append]
  exact ((names_optionField "token" _).append ((names_optionField "tty" _).append
    (names_optionField "ttl" _))).cons_cons _

theorem mem_scopedFields {f : Field} (h : f ∈ client.scopedFields key ttlSecs) :
    f = ("key".toList, key.name.toList) ∨
    (∃ t, client.token = some t ∧ f = ("token".toList, t.text.toList)) ∨
    (∃ t, client.tty = some t ∧ f = ("tty".toList, t.toList)) ∨
    ∃ n, ttlSecs = some n ∧ f = ("ttl".toList, (toString n).toList) := by
  rcases List.mem_cons.mp h with rfl | h
  · exact .inl rfl
  refine .inr ?_
  rcases List.mem_append.mp h with hToken | h
  · obtain ⟨_, hSome, rfl⟩ := mem_optionField hToken
    obtain ⟨t, hClient, rfl⟩ := Option.map_eq_some_iff.mp hSome
    exact .inl ⟨t, hClient, rfl⟩
  rcases List.mem_append.mp h with hTty | hTtl
  · obtain ⟨t, hSome, rfl⟩ := mem_optionField hTty
    exact .inr (.inl ⟨t, hSome, rfl⟩)
  · obtain ⟨_, hSome, rfl⟩ := mem_optionField hTtl
    obtain ⟨n, hClient, rfl⟩ := Option.map_eq_some_iff.mp hSome
    exact .inr (.inr ⟨n, hClient, rfl⟩)

theorem tab_notMem_scoped (hToken : ∀ t ∈ client.token, '\t' ∉ t.text.toList)
    (hTty : ∀ t ∈ client.tty, '\t' ∉ t.toList) :
    ∀ f ∈ client.scopedFields key ttlSecs, '=' ∉ f.1 ∧ '\t' ∉ f.text := by
  intro f hf
  rcases mem_scopedFields hf with rfl | ⟨t, hSome, rfl⟩ | ⟨t, hSome, rfl⟩ | ⟨n, -, rfl⟩
  · refine ⟨show '=' ∉ "key".toList by decide, tab_notMem_text (by decide) fun hTab => ?_⟩
    cases SecretName.alphanum_of_mem hTab
  · exact ⟨show '=' ∉ "token".toList by decide, tab_notMem_text (by decide) (hToken t hSome)⟩
  · exact ⟨show '=' ∉ "tty".toList by decide, tab_notMem_text (by decide) (hTty t hSome)⟩
  · refine ⟨show '=' ∉ "ttl".toList by decide, tab_notMem_text (by decide) fun hTab => ?_⟩
    rw [toList_toString] at hTab
    cases isDigit_of_mem_decimal hTab

end

/-! ## Frames that are sent -/

theorem bounds_of_writeRequest {request : String} {sent : List UInt8}
    (h : writeRequest request = some sent) :
    textBytes request ≠ [] ∧ (textBytes request).length ≤ maxFrameBytes := by
  unfold writeRequest at h
  split at h
  · rename_i hValid
    simp only [requestIsValid, Bool.and_eq_true, Bool.not_eq_true', decide_eq_true_eq] at hValid
    obtain ⟨⟨⟨hNe, hLength⟩, hAscii⟩, -⟩ := hValid
    refine ⟨?_, hLength⟩
    rw [textBytes_ascii (List.all_eq_true.mp hAscii)]
    intro hNil
    rw [List.map_eq_nil_iff.mp hNil] at hNe
    cases hNe
  · cases h

/-- **Frames mean what was meant.** Of a frame that `write_request` sends, the broker
reads exactly the operation, the key, the token, the terminal and the lifetime, and no
other field, if and only if there is no tab in the token and the terminal. -/
theorem client_frames (client : HumanClient) (op : Operation) (key : SecretName)
    (ttlSecs : Option Nat) (hTtl : ∀ n ∈ ttlSecs, 1 ≤ n ∧ n < 2 ^ 64) (sent : List UInt8)
    (hSent : writeRequest (client.scopedFrame op.verb key ttlSecs) = some sent) :
    (requestFields (textBytes (client.scopedFrame op.verb key ttlSecs)) =
        .ok (op.verb.toList, client.scopedFields key ttlSecs) ∧
      parseRequest (textBytes (client.scopedFrame op.verb key ttlSecs)) =
        .ok (op.meant key.name (client.token.map (·.text)) client.tty ttlSecs)) ↔
    (∀ t ∈ client.token, '\t' ∉ t.text.toList) ∧ ∀ t ∈ client.tty, '\t' ∉ t.toList := by
  have hFrame : client.scopedFrame op.verb key ttlSecs =
      String.ofList (frameText op.verb.toList (client.scopedFields key ttlSecs)) := by
    rw [← toList_scopedFrame, String.ofList_toList]
  constructor
  · rintro ⟨-, hParse⟩
    have hTexts := parseRequest_notMem_tab hParse
    refine ⟨fun t hToken => hTexts t.text ?_, fun t hTty => hTexts t ?_⟩
    · cases op <;> simp [Operation.meant, Request.texts, Option.mem_def.mp hToken]
    · cases op <;> simp [Operation.meant, Request.texts, Option.mem_def.mp hTty]
  · rintro ⟨hToken, hTty⟩
    obtain ⟨hNe, hLength⟩ := bounds_of_writeRequest hSent
    have hFields : requestFields (textBytes (client.scopedFrame op.verb key ttlSecs)) =
        .ok (op.verb.toList, client.scopedFields key ttlSecs) :=
      requestFields_iff.mpr ⟨hNe, hLength, congrArg textBytes hFrame, by cases op <;> decide,
        names_scoped, tab_notMem_scoped hToken hTty⟩
    refine ⟨hFields, ?_⟩
    rw [hFrame] at hFields ⊢
    rw [parseRequest_frame hFields, String.ofList_toList, requestOf_scoped op hTtl]

/-! ## A tab in a token -/

theorem validName_someKey : validName "API_KEY" = true := by
  decide

def someKey : SecretName := ⟨"API_KEY", validName_someKey⟩

def plainClient : HumanClient := ⟨some ⟨"00ff", by decide +kernel⟩, some "/dev/pts/1"⟩

theorem client_frames_plain :
    parseRequest (textBytes (plainClient.scopedFrame "GET" someKey (some 60))) =
      .ok (.get "API_KEY" (some "00ff") (some "/dev/pts/1") (some 60)) := by
  have hTtl : ∀ n ∈ some 60, 1 ≤ n ∧ n < 2 ^ 64 := by decide
  have hSent : writeRequest (plainClient.scopedFrame Operation.get.verb someKey (some 60)) =
      some (textBytes (plainClient.scopedFrame "GET" someKey (some 60)) ++ [10]) :=
    if_pos (by decide +kernel)
  exact ((client_frames plainClient .get someKey (some 60) hTtl _ hSent).mpr
    ⟨by decide +kernel, by decide +kernel⟩).2

def tabbedToken : TokenText := ⟨"00ff\ttty=/dev/pts/9", by decide +kernel⟩

/-- **A token that names a terminal.** The token file is accepted and the frame is sent;
the broker reads a shorter token, and a terminal that the client did not mean. -/
theorem token_with_tab :
    readTokenFile (textBytes tabbedToken.text) = some tabbedToken ∧
    (writeRequest ((HumanClient.mk (some tabbedToken) none).scopedFrame "GET" someKey none)).isSome =
      true ∧
    parseRequest (textBytes
        ((HumanClient.mk (some tabbedToken) none).scopedFrame "GET" someKey none)) =
      .ok (.get "API_KEY" (some "00ff") (some "/dev/pts/9") none) := by
  refine ⟨?_, by decide +kernel, ?_⟩
  · have hText : fromUtf8 (textBytes tabbedToken.text) = some tabbedToken.text :=
      fromUtf8_eq_some_iff.mpr rfl
    unfold readTokenFile
    rw [hText]
    exact dif_pos tabbedToken.usable
  · let other := HumanClient.mk (some ⟨"00ff", by decide +kernel⟩) (some "/dev/pts/9")
    have hSame : (HumanClient.mk (some tabbedToken) none).scopedFrame "GET" someKey none =
        String.ofList (frameText Operation.get.verb.toList (other.scopedFields someKey none)) := by
      decide +kernel
    have hFields : requestFields (textBytes (String.ofList (frameText Operation.get.verb.toList
        (other.scopedFields someKey none)))) =
          .ok (Operation.get.verb.toList, other.scopedFields someKey none) :=
      requestFields_iff.mpr ⟨by decide +kernel, by decide +kernel, rfl, by decide, names_scoped,
        tab_notMem_scoped (by decide +kernel) (by decide +kernel)⟩
    rw [hSame, parseRequest_frame hFields, String.ofList_toList]
    exact requestOf_scoped .get (by simp)

end Forward.Secrets

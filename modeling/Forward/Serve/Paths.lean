import Mathlib.Data.List.Forall2
import Forward.Hygiene.Hex
import Forward.Lib.Fields
import Forward.Lib.Percent

/-!
# Paths in preview URLs

`forward url` turns a file into a preview URL, and the file server turns a request target back into
a path; directory listings have an encoder of their own. Paths and URLs are bytes. The `url` crate
is a parameter, `parse`, that keeps the escapes of a path and may escape further bytes
(`KeepsPaths`).
-/

namespace Forward.Serve

open Lib Lib.Percent
open Hygiene (textBytes textBytes_append textBytes_ascii asciiByte
  toNat_asciiByte plain_of_mem_decimal)

abbrev Path := List UInt8

/-- What is read of a parsed URL: `authority` is its host and port as they are serialised,
`filePath` is `to_file_path`. -/
structure Url where
  scheme : String
  cannotBeABase : Bool
  authority : String
  path : List UInt8
  queryPairs : List (String × String)
  fragment : Option String
  filePath : Option Path

inductive IoErrorKind
  | notFound
  | other

inductive InvalidTarget
  | notLocal (arg : String)
  | io (path : Path)
  | url

inductive TargetError
  | notFound (path : Path)
  | invalid (why : InvalidTarget)
  | unsupportedScheme (scheme : String)

def components (path : Path) : List (List UInt8) :=
  (path.splitOn 47).filter fun c => c ≠ [] && c ≠ [46]

/-- `PATH_SEGMENT`: control characters, bytes that are not ASCII, and some others. -/
def pathSegment (byte : UInt8) : Bool :=
  byte < 32 || byte == 127 || 128 ≤ byte ||
    [32, 34, 35, 37, 60, 62, 63, 92, 96, 123, 125].contains byte

def nonAlphanumeric (byte : UInt8) : Bool :=
  !((48 ≤ byte && byte ≤ 57) || (65 ≤ byte && byte ≤ 90) || (97 ≤ byte && byte ≤ 122))

def Target.encodePath (path : Path) : List UInt8 :=
  [47].intercalate ((components path).map (encode pathSegment))

def Render.encodePath (path : Path) : List UInt8 :=
  [47].intercalate ((path.splitOn 47).map (encode nonAlphanumeric))

def urlHost (parseIpv6 : String → Option (BitVec 128)) (host : String) : String :=
  if (parseIpv6 host).isSome then "[" ++ host ++ "]" else host

section

variable (parse : List UInt8 → Option Url) (parseIpv6 : String → Option (BitVec 128))
  (canonicalize : Path → Except IoErrorKind Path)

/-- The first half of `to_url`: another URL, or a path to preview. -/
def target (arg : String) : Except TargetError (Url ⊕ Path × Option String) :=
  match parse (textBytes arg) with
  | none => .ok (.inr (textBytes arg, none))
  | some url =>
    if url.cannotBeABase then .error (.unsupportedScheme url.scheme)
    else if url.scheme ≠ "file" then .ok (.inl url)
    else
      match url.filePath with
      | none => .error (.invalid (.notLocal arg))
      | some path => .ok (.inr (path, url.fragment))

def preview (abs : Path) (fragment : Option String) (host : String) (filesPort : Nat) :
    Except TargetError Url :=
  let start := "http://" ++ urlHost parseIpv6 host ++ ":" ++ toString filesPort ++ "/"
  match parse (textBytes start ++ Target.encodePath abs) with
  | none => .error (.invalid .url)
  | some url => .ok { url with fragment := fragment }

def toUrl (arg host : String) (filesPort : Nat) : Except TargetError Url := do
  match ← target parse arg with
  | .inl url => .ok url
  | .inr (path, fragment) =>
    match canonicalize path with
    | .error .notFound => .error (.notFound path)
    | .error .other => .error (.invalid (.io path))
    | .ok abs => preview parse parseIpv6 abs fragment host filesPort

/-- The path of a request, and whether it asks for the raw file. -/
def requestPath (target : List UInt8) : Option (Path × Bool) := do
  let parsed ← parse (textBytes "http://forward.invalid/" ++ target)
  match parsed.path with
  | 47 :: encoded =>
    let path := decode encoded
    if path.head? = some 47 then
      some (path, parsed.queryPairs.any fun pair => pair.1 = "raw" && pair.2 = "1")
    else none
  | _ => none

end

/-! ## Absolute paths -/

/-- An absolute path without empty, `.` or `..` components. -/
structure AbsPath where
  components : List (List UInt8)
  wellFormed : ∀ c ∈ components, c ≠ [] ∧ 47 ∉ c ∧ 0 ∉ c ∧ c ≠ [46] ∧ c ≠ [46, 46]

namespace AbsPath

def segments (p : AbsPath) : List (List UInt8) := if p.components = [] then [[]] else p.components

def bytes (p : AbsPath) : Path := p.segments.flatMap fun c => 47 :: c

end AbsPath

variable {p : AbsPath}

theorem mem_segments {c : List UInt8} (h : c ∈ p.segments) :
    47 ∉ c ∧ c ≠ [46] ∧ c ≠ [46, 46] := by
  unfold AbsPath.segments at h
  split at h
  · rw [List.mem_singleton.mp h]
    simp
  · obtain ⟨-, hSlash, -, hDot, hDots⟩ := p.wellFormed c h
    exact ⟨hSlash, hDot, hDots⟩

theorem segments_ne_nil (p : AbsPath) : p.segments ≠ [] := by
  unfold AbsPath.segments
  split
  · simp
  · assumption

theorem intercalate_cons (first : List UInt8) (parts : List (List UInt8)) :
    [47].intercalate (first :: parts) = first ++ parts.flatMap fun c => 47 :: c := by
  induction parts generalizing first with
  | nil => simp
  | cons next parts ih =>
    have hNext := ih next
    simp only [List.intercalate, List.intersperse_cons_cons, List.flatten_cons] at hNext ⊢
    rw [hNext]
    rfl

theorem splitOn_bytes (p : AbsPath) : p.bytes.splitOn 47 = [] :: p.segments := by
  have hText : p.bytes = [47].intercalate ([] :: p.segments) := (intercalate_cons [] _).symm
  rw [hText, List.splitOn_intercalate 47 _ (List.cons_ne_nil _ _)]
  rintro c hc
  rcases List.mem_cons.mp hc with rfl | hc
  · exact List.not_mem_nil
  · exact (mem_segments hc).1

theorem components_bytes (p : AbsPath) : components p.bytes = p.components := by
  unfold components
  rw [splitOn_bytes, List.filter_cons_of_neg (by simp)]
  unfold AbsPath.segments
  split
  · rename_i hRoot
    rw [hRoot]
    rfl
  · refine List.filter_eq_self.mpr fun c hc => ?_
    obtain ⟨hSome, -, -, hDot, -⟩ := p.wellFormed c hc
    simp [hSome, hDot]

/-! ## Path texts -/

def pathText (segments : List (List Token)) : List UInt8 :=
  segments.flatMap fun segment => 47 :: segment.flatMap Token.text

def pathBytes (segments : List (List Token)) : Path :=
  segments.flatMap fun segment => 47 :: segment.map Token.byte

def Ordinary (byte : UInt8) : Prop := 33 ≤ byte ∧ byte ≤ 126 ∧ byte ∉ [35, 37, 47, 63, 92]

/-- Segments that a URL can have as they are: none of them spells `.` or `..`. -/
structure PlainPath (segments : List (List Token)) : Prop where
  ordinary : ∀ segment ∈ segments, ∀ byte, .plain byte ∈ segment → Ordinary byte
  noDots : ∀ segment ∈ segments,
    segment.map Token.byte ≠ [46] ∧ segment.map Token.byte ≠ [46, 46]

/-- Some bare bytes are escaped. -/
def Further : List (List Token) → List (List Token) → Prop :=
  List.Forall₂ (List.Forall₂ fun t t' => t' = t ∨ ∃ byte, t = .plain byte ∧ t' = .escape byte)

/-- What is assumed of the `url` crate: the path of a URL is the one that was written, up
to further escapes, and a plain path parses on a host of its own. -/
structure KeepsPaths (parse : List UInt8 → Option Url) : Prop where
  kept : ∀ {authority : List UInt8} {segments : List (List Token)} {url : Url},
    (∀ byte ∈ authority, byte ∉ [35, 47, 63, 92]) → segments ≠ [] → PlainPath segments →
    parse (textBytes "http://" ++ authority ++ pathText segments) = some url →
    ∃ segments', Further segments segments' ∧ url.path = pathText segments'
  parses : ∀ {segments : List (List Token)}, segments ≠ [] → PlainPath segments →
    ∃ url, parse (textBytes "http://forward.invalid" ++ pathText segments) = some url

variable {segments segments' : List (List Token)}

theorem further_bytes (h : Further segments segments') :
    segments'.map (List.map Token.byte) = segments.map (List.map Token.byte) := by
  induction h with
  | nil => rfl
  | cons hSegment _ ih =>
    rw [List.map_cons, List.map_cons, ih]
    congr 1
    induction hSegment with
    | nil => rfl
    | cons hToken _ ihTokens =>
      rw [List.map_cons, List.map_cons, ihTokens]
      rcases hToken with rfl | ⟨byte, rfl, rfl⟩ <;> rfl

theorem plain_of_further {segment segment' : List Token} {byte : UInt8}
    (h : List.Forall₂ (fun t t' => t' = t ∨ ∃ byte, t = .plain byte ∧ t' = .escape byte)
      segment segment') (hByte : .plain byte ∈ segment') : .plain byte ∈ segment := by
  induction h with
  | nil => cases hByte
  | cons hToken _ ih =>
    rcases List.mem_cons.mp hByte with rfl | hByte
    · rcases hToken with hSame | ⟨other, -, hEscape⟩
      · exact hSame ▸ List.mem_cons_self
      · cases hEscape
    · exact List.mem_cons_of_mem _ (ih hByte)

theorem further_plain (h : Further segments segments') {segment' : List Token}
    (hIn : segment' ∈ segments') {byte : UInt8} (hByte : .plain byte ∈ segment') :
    ∃ segment ∈ segments, .plain byte ∈ segment := by
  induction h with
  | nil => cases hIn
  | cons hSegment _ ih =>
    rcases List.mem_cons.mp hIn with rfl | hIn
    · exact ⟨_, List.mem_cons_self, plain_of_further hSegment hByte⟩
    · obtain ⟨segment, hSegment, hPlain⟩ := ih hIn
      exact ⟨segment, List.mem_cons_of_mem _ hSegment, hPlain⟩

theorem PlainPath.further (h : PlainPath segments) (hFurther : Further segments segments') :
    PlainPath segments' where
  ordinary segment' hIn byte hByte := by
    obtain ⟨segment, hSegment, hPlain⟩ := further_plain hFurther hIn hByte
    exact h.ordinary segment hSegment byte hPlain
  noDots segment' hIn := by
    have hBytes : segment'.map Token.byte ∈ segments'.map (List.map Token.byte) :=
      List.mem_map_of_mem hIn
    rw [further_bytes hFurther] at hBytes
    obtain ⟨segment, hSegment, hSame⟩ := List.mem_map.mp hBytes
    rw [← hSame]
    exact h.noDots segment hSegment

theorem pathBytes_eq (segments : List (List Token)) :
    pathBytes segments = (segments.map (List.map Token.byte)).flatMap fun c => 47 :: c := by
  rw [List.flatMap_map]
  rfl

theorem decode_pathText (h : PlainPath segments) :
    decode (pathText segments) = pathBytes segments := by
  -- the slashes are tokens too
  let tokens := segments.flatMap fun segment => Token.plain 47 :: segment
  have hText : pathText segments = tokens.flatMap Token.text := by
    rw [List.flatMap_assoc]
    rfl
  have hBytes : pathBytes segments = tokens.map Token.byte := by
    rw [List.map_flatMap]
    rfl
  have hPlain : Token.plain 37 ∉ tokens := by
    intro hIn
    obtain ⟨segment, hSegment, hToken⟩ := List.mem_flatMap.mp hIn
    rcases List.mem_cons.mp hToken with hSlash | hToken
    · cases hSlash
    · exact (h.ordinary segment hSegment 37 hToken).2.2 (by decide)
  have hDecode := decode_text hPlain []
  rwa [List.append_nil, decode, List.append_nil, ← hText, ← hBytes] at hDecode

/-! ## Requests -/

variable {parse : List UInt8 → Option Url}

theorem PlainPath.root (h : PlainPath segments) : PlainPath ([] :: segments) where
  ordinary segment hIn byte hByte := by
    rcases List.mem_cons.mp hIn with rfl | hIn
    · cases hByte
    · exact h.ordinary segment hIn byte hByte
  noDots segment hIn := by
    rcases List.mem_cons.mp hIn with rfl | hIn
    · exact ⟨nofun, nofun⟩
    · exact h.noDots segment hIn

theorem forwardInvalid_plain : ∀ byte ∈ textBytes "forward.invalid", byte ∉ [35, 47, 63, 92] := by
  decide +kernel

theorem forwardInvalid_split :
    textBytes "http://forward.invalid" = textBytes "http://" ++ textBytes "forward.invalid" :=
  textBytes_append "http://" "forward.invalid"

theorem requestPath_pathText (hParse : KeepsPaths parse) (hNe : segments ≠ [])
    (hPlain : PlainPath segments) :
    ∃ raw, requestPath parse (pathText segments) = some (pathBytes segments, raw) := by
  -- the server puts one more slash before the target
  have hUrl : textBytes "http://forward.invalid/" ++ pathText segments =
      textBytes "http://forward.invalid" ++ pathText ([] :: segments) := by
    have hHost : "http://forward.invalid/" = "http://forward.invalid" ++ "/" := rfl
    rw [hHost, textBytes_append, List.append_assoc]
    rfl
  obtain ⟨url, hFound⟩ := hParse.parses (List.cons_ne_nil [] segments) hPlain.root
  obtain ⟨found, hFurther, hPath⟩ := hParse.kept forwardInvalid_plain
    (List.cons_ne_nil [] segments) hPlain.root (by rw [← forwardInvalid_split]; exact hFound)
  cases hFurther with
  | cons hFirst hRest =>
    cases hFirst
    rename_i rest
    have hBytes : pathBytes rest = pathBytes segments := by
      rw [pathBytes_eq, pathBytes_eq, further_bytes hRest]
    have hDecode : decode (pathText rest) = pathBytes segments := by
      rw [decode_pathText (hPlain.further hRest), hBytes]
    have hAbsolute : (pathBytes segments).head? = some 47 := by
      cases segments with
      | nil => exact absurd rfl hNe
      | cons => rfl
    have hStrip : url.path = 47 :: pathText rest := hPath
    refine ⟨url.queryPairs.any fun pair => pair.1 = "raw" && pair.2 = "1", ?_⟩
    unfold requestPath
    rw [hUrl, hFound]
    simp only [Option.bind_eq_bind, Option.bind_some, hStrip, hDecode, hAbsolute, if_true]

/-! ## The two encoders -/

def encodedSegments (escaped : UInt8 → Bool) (segments : List (List UInt8)) : List (List Token) :=
  segments.map (List.map (token escaped))

theorem pathText_encodedSegments (escaped : UInt8 → Bool) (segments : List (List UInt8)) :
    pathText (encodedSegments escaped segments) =
      segments.flatMap fun c => 47 :: encode escaped c := by
  rw [pathText, encodedSegments, List.flatMap_map]
  rfl

theorem pathBytes_encodedSegments (escaped : UInt8 → Bool) (p : AbsPath) :
    pathBytes (encodedSegments escaped p.segments) = p.bytes := by
  have hBytes : Token.byte ∘ token escaped = id := funext (byte_token escaped)
  rw [pathBytes_eq, encodedSegments, List.map_map]
  have hSame : (List.map Token.byte ∘ List.map (token escaped)) = id := by
    funext c
    rw [Function.comp, List.map_map, hBytes, List.map_id]
    rfl
  rw [hSame, List.map_id]
  rfl

theorem plainPath_encodedSegments {escaped : UInt8 → Bool}
    (h : ∀ byte, escaped byte = false → byte ≠ 47 → Ordinary byte) (p : AbsPath) :
    PlainPath (encodedSegments escaped p.segments) where
  ordinary segment hIn byte hByte := by
    obtain ⟨c, hc, rfl⟩ := List.mem_map.mp hIn
    obtain ⟨other, hOther, hToken⟩ := List.mem_map.mp hByte
    unfold token at hToken
    split at hToken
    · cases hToken
    · rename_i hBare
      obtain rfl := Token.plain.inj hToken
      refine h other (Bool.eq_false_iff.mpr hBare) ?_
      rintro rfl
      exact (mem_segments hc).1 hOther
  noDots segment hIn := by
    obtain ⟨c, hc, rfl⟩ := List.mem_map.mp hIn
    have hBytes : Token.byte ∘ token escaped = id := funext (byte_token escaped)
    rw [List.map_map, hBytes, List.map_id]
    exact (mem_segments hc).2

theorem ordinary_of_pathSegment (byte : UInt8) (h : pathSegment byte = false) (hSlash : byte ≠ 47) :
    Ordinary byte := by
  simp only [pathSegment, Bool.or_eq_false_iff, decide_eq_false_iff_not, beq_eq_false_iff_ne,
    List.contains_eq_mem, List.mem_cons, List.not_mem_nil, or_false, not_or] at h
  simp only [Ordinary, List.mem_cons, List.not_mem_nil, or_false, not_or]
  grind

theorem ordinary_of_alphanumeric (byte : UInt8) (h : nonAlphanumeric byte = false) :
    Ordinary byte := by
  simp only [nonAlphanumeric, Bool.not_eq_false', Bool.or_eq_true, Bool.and_eq_true,
    decide_eq_true_eq] at h
  simp only [Ordinary, List.mem_cons, List.not_mem_nil, or_false, not_or]
  grind

theorem render_encodePath (p : AbsPath) :
    Render.encodePath p.bytes = pathText (encodedSegments nonAlphanumeric p.segments) := by
  unfold Render.encodePath
  rw [splitOn_bytes, List.map_cons, intercalate_cons, List.flatMap_map, pathText_encodedSegments]
  rfl

theorem target_encodePath (p : AbsPath) :
    47 :: Target.encodePath p.bytes = pathText (encodedSegments pathSegment p.segments) := by
  unfold Target.encodePath
  rw [components_bytes]
  unfold AbsPath.segments
  split
  · rename_i hRoot
    rw [hRoot]
    rfl
  · rename_i hSome
    obtain ⟨c, rest, hComponents⟩ := List.exists_cons_of_ne_nil hSome
    rw [hComponents, List.map_cons, intercalate_cons, List.flatMap_map, pathText_encodedSegments,
      List.flatMap_cons]
    rfl

/-! ## The links -/

def authority (parseIpv6 : String → Option (BitVec 128)) (host : String) (filesPort : Nat) :
    List UInt8 :=
  textBytes (urlHost parseIpv6 host ++ ":" ++ toString filesPort)

theorem notMem_of_isDigit {c : Char} (hAscii : isAscii c) (hDigit : c.isDigit) :
    asciiByte c ∉ [35, 47, 63, 92] := by
  simp only [Char.isDigit, Bool.and_eq_true, decide_eq_true_eq] at hDigit
  have hLow : 48 ≤ c.toNat := UInt32.le_iff_toNat_le.mp hDigit.1
  have hHigh : c.toNat ≤ 57 := UInt32.le_iff_toNat_le.mp hDigit.2
  have hByte := toNat_asciiByte hAscii
  simp only [List.mem_cons, List.not_mem_nil, or_false, not_or, ← UInt8.toNat_inj, hByte]
  refine ⟨?_, ?_, ?_, ?_⟩ <;> rintro hEq <;> rw [hEq] at hLow hHigh <;> simp at hLow hHigh

theorem authority_plain {parseIpv6 : String → Option (BitVec 128)} {host : String}
    {filesPort : Nat} (hHost : ∀ byte ∈ textBytes host, byte ∉ [35, 47, 63, 92]) :
    ∀ byte ∈ authority parseIpv6 host filesPort, byte ∉ [35, 47, 63, 92] := by
  have hBracket : ∀ text ∈ ["[", "]", ":"], ∀ byte ∈ textBytes text, byte ∉ [35, 47, 63, 92] := by
    decide +kernel
  have hPort : ∀ byte ∈ textBytes (toString filesPort), byte ∉ [35, 47, 63, 92] := by
    have hDigits : ∀ c ∈ (toString filesPort).toList, c ∈ Nat.toDigits 10 filesPort := by
      rw [toList_toString]
      exact fun _ hc => hc
    rw [textBytes_ascii fun c hc => (plain_of_mem_decimal (hDigits c hc)).1]
    intro byte hByte
    obtain ⟨c, hc, rfl⟩ := List.mem_map.mp hByte
    have hAscii := (plain_of_mem_decimal (hDigits c hc)).1
    exact notMem_of_isDigit hAscii (isDigit_of_mem_decimal (hDigits c hc))
  unfold authority urlHost
  split
  · simp only [textBytes_append, List.forall_mem_append]
    exact ⟨⟨⟨⟨hBracket "[" (by simp), hHost⟩, hBracket "]" (by simp)⟩, hBracket ":" (by simp)⟩,
      hPort⟩
  · simp only [textBytes_append, List.forall_mem_append]
    exact ⟨⟨hHost, hBracket ":" (by simp)⟩, hPort⟩

theorem path_of_preview (hParse : KeepsPaths parse) {parseIpv6 : String → Option (BitVec 128)}
    {fragment : Option String} {host : String} {filesPort : Nat} {url : Url}
    (hHost : ∀ byte ∈ textBytes host, byte ∉ [35, 47, 63, 92])
    (hUrl : preview parse parseIpv6 p.bytes fragment host filesPort = .ok url) :
    ∃ segments, Further (encodedSegments pathSegment p.segments) segments ∧
      url.path = pathText segments := by
  have hText : textBytes
      ("http://" ++ urlHost parseIpv6 host ++ ":" ++ toString filesPort ++ "/") ++
        Target.encodePath p.bytes = textBytes "http://" ++ authority parseIpv6 host filesPort ++
          pathText (encodedSegments pathSegment p.segments) := by
    rw [← target_encodePath, authority]
    simp only [textBytes_append, List.append_assoc]
    rfl
  simp only [preview, hText] at hUrl
  split at hUrl
  · cases hUrl
  · rename_i hFound
    cases hUrl
    have hNe : encodedSegments pathSegment p.segments ≠ [] := by
      simp [encodedSegments, segments_ne_nil]
    have hKept := hParse.kept (authority_plain hHost) hNe
      (plainPath_encodedSegments ordinary_of_pathSegment p) hFound
    exact hKept

def bareParse (text : List UInt8) : Option Url :=
  if textBytes "http://" <+: text then
    some ⟨"http", false, "", (text.drop 7).dropWhile (· ≠ 47), [], none, none⟩
  else none

theorem keepsPaths_bareParse : KeepsPaths bareParse := by
  have hParse : ∀ (authority : List UInt8) (segments : List (List Token)),
      (∀ byte ∈ authority, byte ∉ [35, 47, 63, 92]) → segments ≠ [] →
      bareParse (textBytes "http://" ++ authority ++ pathText segments) =
        some ⟨"http", false, "", pathText segments, [], none, none⟩ := by
    intro authority segments hAuthority hNe
    have hLength : (textBytes "http://").length = 7 := by decide +kernel
    have hDrop : (textBytes "http://" ++ authority ++ pathText segments).drop 7 =
        authority ++ pathText segments := by
      rw [List.append_assoc, ← hLength, List.drop_left]
    unfold bareParse
    rw [if_pos (List.append_assoc .. ▸ List.prefix_append _ _), hDrop,
      List.dropWhile_append_of_pos]
    · cases segments with
      | nil => exact absurd rfl hNe
      | cons => rfl
    · intro byte hByte
      rw [decide_eq_true_eq]
      rintro rfl
      exact hAuthority 47 hByte (by decide)
  refine ⟨?_, ?_⟩
  · intro authority segments url hAuthority hNe hPlain hUrl
    rw [hParse authority segments hAuthority hNe] at hUrl
    cases hUrl
    refine ⟨segments, ?_, rfl⟩
    exact List.forall₂_same.mpr fun _ _ => List.forall₂_same.mpr fun _ _ => .inl rfl
  · intro segments hNe _
    rw [forwardInvalid_split]
    exact ⟨_, hParse _ segments forwardInvalid_plain hNe⟩

end Forward.Serve

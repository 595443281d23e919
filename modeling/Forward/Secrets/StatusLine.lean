import Forward.Lib.Json
import Forward.Secrets.Names

/-!
# The status line

The client says in one line of JSON where the value of a key comes from. The line is written by
hand: the name as it is, and a label or a path with its quotes, backslashes and control
characters escaped. A path is a text here, the one that `to_string_lossy` gives.
-/

namespace Forward.Secrets.Client

open Lib Hygiene

inductive Provenance
  | agent (source path : List Char)
  | human (source socket : List Char) (grantActive : Bool) (ttlSecs : Option Nat)

/-- What `push_json_string` writes for one character. -/
def jsonPiece (c : Char) : List Char :=
  if c = '"' then ['\\', '"']
  else if c = '\\' then ['\\', '\\']
  else if c = '\n' then ['\\', 'n']
  else if c = '\r' then ['\\', 'r']
  else if c = '\t' then ['\\', 't']
  else if isControl c then '\\' :: 'u' :: hexDigits c.toNat
  else [c]

def pushJsonString (text : List Char) : List Char := '"' :: (text.flatMap jsonPiece ++ ['"'])

def statusJson (name : SecretName) (origin : Provenance) : List Char :=
  "\x7b\"key\":\"".toList ++ name.name.toList ++
    (match origin with
    | .agent source path =>
      "\",\"tier\":\"agent\",\"store\":\"sops file\",\"source\":".toList ++
        pushJsonString source ++ ",\"path\":".toList ++ pushJsonString path
    | .human source socket grantActive ttlSecs =>
      "\",\"tier\":\"human\",\"store\":\"secretsd daemon\",\"source\":".toList ++
        pushJsonString source ++ ",\"socket\":".toList ++ pushJsonString socket ++
        ",\"grant\":".toList ++ (toString grantActive).toList ++
        ",\"ttl\":".toList ++ (ttlSecs.elim "null" toString).toList) ++ ['\x7d']

/-! ## Reading back -/

theorem readString_jsonPiece (c : Char) (fuel : Nat) (rest : List Char) :
    Json.readString (fuel + 1) (jsonPiece c ++ rest) =
      (Json.readString fuel rest).map fun (more, rest) => (c :: more, rest) := by
  by_cases hSpecial : c ∈ ['"', '\\', '\n', '\r', '\t']
  · simp only [List.mem_cons, List.not_mem_nil, or_false] at hSpecial
    rcases hSpecial with rfl | rfl | rfl | rfl | rfl <;> rfl
  · simp only [List.mem_cons, List.not_mem_nil, or_false, not_or] at hSpecial
    obtain ⟨hQuote, hBackslash, hNewline, hReturn, hTab⟩ := hSpecial
    rw [jsonPiece, if_neg hQuote, if_neg hBackslash, if_neg hNewline, if_neg hReturn, if_neg hTab]
    split
    · rename_i hControl
      have hSmall : c.toNat < 160 := by
        simp [isControl] at hControl
        omega
      have hRead : Json.readEscape ('u' :: (hexDigits c.toNat ++ rest)) = some (c, rest) := by
        rw [Json.readEscape, Json.readUnicode_hexDigits (by omega), Char.ofNat_toNat]
      rw [List.cons_append, List.cons_append, Json.readString]
      simp [hRead]
    · rename_i hControl
      have hLarge : 32 ≤ c.toNat := by
        simp [isControl] at hControl
        omega
      exact Json.readString_plain ⟨hQuote, hBackslash, hLarge⟩ fuel rest

theorem jsonPiece_ne_nil (c : Char) : jsonPiece c ≠ [] := by
  unfold jsonPiece
  repeat' split
  all_goals exact List.cons_ne_nil _ _

def members (name : SecretName) : Provenance → List (List Char × Json)
  | .agent source path =>
    [("key".toList, .string name.name.toList), ("tier".toList, .string "agent".toList),
      ("store".toList, .string "sops file".toList), ("source".toList, .string source),
      ("path".toList, .string path)]
  | .human source socket grantActive ttlSecs =>
    [("key".toList, .string name.name.toList), ("tier".toList, .string "human".toList),
      ("store".toList, .string "secretsd daemon".toList), ("source".toList, .string source),
      ("socket".toList, .string socket), ("grant".toList, .bool grantActive),
      ("ttl".toList, ttlSecs.elim .null fun ttl => .number false ttl 0)]

theorem reads_pushJsonString (text : List Char) : Json.Reads (pushJsonString text) (.string text) :=
  Json.reads_string jsonPiece_ne_nil fun c _ => readString_jsonPiece c

theorem plain_of_mem_name {name : SecretName} {c : Char} (h : c ∈ name.name.toList) :
    Json.Plain c :=
  forall_ascii (P := fun c => (c.isAlphanum || c == '_') = true → Json.Plain c) (by decide)
    (SecretName.isAscii_of_mem h) (SecretName.alphanum_of_mem h)

theorem reads_ttl (ttlSecs : Option Nat) :
    Json.Reads (ttlSecs.elim "null" toString).toList
      (ttlSecs.elim .null fun ttl => .number false ttl 0) := by
  cases ttlSecs with
  | none => exact Json.reads_null
  | some ttl => exact (toList_toString ttl).symm ▸ Json.reads_number ttl

theorem plain_text (text : String) (h : (text.toList.all fun c => decide (Json.Plain c)) = true) :
    ∀ c ∈ text.toList, Json.Plain c :=
  forall_mem_of_all h

theorem reads_text (text : String) (h : (text.toList.all fun c => decide (Json.Plain c)) = true) :
    Json.Reads ('"' :: (text.toList ++ ['"'])) (.string text.toList) :=
  Json.reads_plain (plain_text text h)

theorem readsMembers (name : SecretName) (origin : Provenance) : ∃ tail,
    statusJson name origin = '\x7b' :: '"' :: tail ∧
      Json.ReadsMembers ('"' :: tail) (members name origin) := by
  have hKey := Json.reads_plain fun c => @plain_of_mem_name name c
  -- the members from the last to the first
  cases origin with
  | agent source path =>
    have hTier := reads_text "agent" (by decide)
    have hStore := reads_text "sops file" (by decide)
    have hPath := Json.ReadsMembers.one (plain_text "path" (by decide)) (reads_pushJsonString path)
    have hSource := hPath.cons (plain_text "source" (by decide)) (reads_pushJsonString source)
    refine ⟨_, ?_, ((hSource.cons (plain_text "store" (by decide)) hStore).cons
      (plain_text "tier" (by decide)) hTier).cons (plain_text "key" (by decide)) hKey⟩
    unfold statusJson
    simp
  | human source socket grantActive ttlSecs =>
    have hTier := reads_text "human" (by decide)
    have hStore := reads_text "secretsd daemon" (by decide)
    have hTtl := Json.ReadsMembers.one (plain_text "ttl" (by decide)) (reads_ttl ttlSecs)
    have hGrant := hTtl.cons (plain_text "grant" (by decide)) (Json.reads_bool grantActive)
    have hSocket := hGrant.cons (plain_text "socket" (by decide)) (reads_pushJsonString socket)
    have hSource := hSocket.cons (plain_text "source" (by decide)) (reads_pushJsonString source)
    refine ⟨_, ?_, ((hSource.cons (plain_text "store" (by decide)) hStore).cons
      (plain_text "tier" (by decide)) hTier).cons (plain_text "key" (by decide)) hKey⟩
    unfold statusJson
    simp

theorem newline_notMem_pushJsonString (text : List Char) : '\n' ∉ pushJsonString text := by
  have hHex : ∀ d < 16, Nat.digitChar d ≠ '\n' := by decide
  have hPiece : ∀ c, '\n' ∉ jsonPiece c := by
    intro c
    unfold jsonPiece
    repeat' split
    all_goals try decide
    · simp [hexDigits, (hHex _ (Nat.mod_lt _ (Nat.succ_pos 15))).symm]
    · rw [List.mem_singleton]
      exact Ne.symm ‹¬ c = '\n'›
  simp [pushJsonString, hPiece]

/-- **A status line is one line of JSON,** which says the key, the label, the path or the socket,
and what is known of the grant. -/
theorem status_line_read_back (name : SecretName) (origin : Provenance) :
    '\n' ∉ statusJson name origin ∧
    Json.decode (statusJson name origin) = some (.object (members name origin)) := by
  constructor
  · have hName : '\n' ∉ name.name.toList := fun h => by cases SecretName.alphanum_of_mem h
    have hDigits : ∀ n : Nat, '\n' ∉ Nat.toDigits 10 n := fun n h => by
      cases isDigit_of_mem_decimal h
    have hBool : ∀ value : Bool, '\n' ∉ (toString value).toList := by decide
    unfold statusJson
    rcases origin with ⟨source, path⟩ | ⟨source, socket, grantActive, ttlSecs⟩
    · simp [hName, newline_notMem_pushJsonString]
    · cases ttlSecs <;> simp [hName, newline_notMem_pushJsonString, hDigits, hBool]
  · obtain ⟨tail, hText, hRead⟩ := readsMembers name origin
    rw [hText]
    exact Json.decode_object hRead

end Forward.Secrets.Client

import Forward.Lib.Fields
import Forward.Proto.Response
import Forward.Secrets.Broker

/-!
# The request grammar of the broker

`parse_request`: a verb and named fields, separated by tabs, in one line of at most `maxFrameBytes`
bytes. A field may not come twice; fields that the verb does not know are ignored.
-/

namespace Forward.Secrets

open Lib Hygiene Proto

def field (fields : List Field) (name : List Char) : Option (List Char) :=
  (fields.find? fun f => f.1 == name).map (·.2)

def required (fields : List Field) (name : String) : Except ErrCode String :=
  match field fields name.toList with
  | none => .error .badRequest
  | some value => .ok (String.ofList value)

/-- `owned`, and `credential` of a request's secrets. -/
def owned (fields : List Field) (name : String) : Option String :=
  (field fields name.toList).map String.ofList

def ttlSecs (fields : List Field) (name : String) : Except ErrCode (Option Nat) :=
  match field fields name.toList with
  | none => .ok none
  | some raw =>
    match parseU64 raw with
    | none | some 0 => .error .badRequest
    | some secs => .ok (some secs)

def parsed {α : Type} (parse : List Char → Option α) (raw : String) : Except ErrCode α :=
  match parse raw.toList with
  | none => .error .badRequest
  | some value => .ok value

def pushField (fields : List Field) (part : List Char) : Except ErrCode (List Field) :=
  match splitOnce ['='] part with
  | none => .error .badRequest
  | some (key, value) =>
    if (field fields key).isSome then .error .badRequest else .ok (fields ++ [(key, value)])

def requestFields (line : List UInt8) : Except ErrCode (List Char × List Field) :=
  if line.isEmpty || decide (maxFrameBytes < line.length) then .error .badRequest
  else
    match fromUtf8 line with
    | none => .error .badRequest
    | some text =>
      match text.toList.splitOn '\t' with
      | [] => .error .badRequest
      | op :: parts => do
        let fields ← parts.foldlM pushField []
        .ok (op, fields)

def requestOf (op : String) (fields : List Field) : Except ErrCode Request :=
  match op with
  | "HELLO" => do
    let version ← parsed parseU32 (← required fields "version")
    .ok (.hello version)
  | "REGISTER" => do
    let token ← required fields "token"
    let session ← required fields "session"
    -- the process id must be a number, but nothing reads it
    let _ ← parsed parseI32 (← required fields "pid")
    .ok (.register token session)
  | "UNREGISTER" => do
    .ok (.unregister (← required fields "session"))
  | "GET" => do
    let key ← required fields "key"
    .ok (.get key (owned fields "token") (owned fields "tty") (← ttlSecs fields "ttl"))
  | "REQUEST" => do
    let key ← required fields "key"
    .ok (.requestGrant key (owned fields "token") (owned fields "tty") (← ttlSecs fields "ttl"))
  | "AUTHORIZE" => do
    .ok (.authorize (← required fields "cap") (owned fields "token") (owned fields "tty"))
  | "REDEEM" => do
    let receipt ← required fields "receipt"
    .ok (.redeem receipt (← required fields "cap"))
  | "GRANTS" => .ok .grants
  | "DENY" => do
    .ok (.deny (← parsed parseU64 (← required fields "id")))
  | "LOCK" => .ok .lock
  | "SUBSCRIBE" => if fields.isEmpty then .ok .subscribe else .error .badRequest
  | _ => .error .unknownOp

def parseRequest (line : List UInt8) : Except ErrCode Request := do
  let (op, fields) ← requestFields line
  requestOf (String.ofList op) fields

variable {fields : List Field} {name : List Char}

theorem field_isSome_iff : (field fields name).isSome ↔ name ∈ fields.map Prod.fst := by
  simp [field, List.find?_isSome]

theorem field_of_mem {f : Field} (hNames : (fields.map Prod.fst).Nodup)
    (h : f ∈ fields) : field fields f.1 = some f.2 := by
  rw [field, find?_of_nodup hNames h]
  rfl

theorem mem_of_field {value : List Char}
    (h : field fields name = some value) : (name, value) ∈ fields := by
  obtain ⟨f, hFind, rfl⟩ := Option.map_eq_some_iff.mp h
  have hName : f.1 = name := by simpa using List.find?_some hFind
  rw [← hName]
  exact List.mem_of_find?_eq_some hFind

theorem field_eq_owned (fields : List Field) (name : String) :
    field fields name.toList = (owned fields name).map String.toList := by
  unfold owned
  cases field fields name.toList with
  | none => rfl
  | some => simp

theorem owned_cons (name value other : String) (fields : List Field) :
    owned ((name.toList, value.toList) :: fields) other =
      if name = other then some value else owned fields other := by
  by_cases h : name = other
  · simp [owned, field, h]
  · have hList : name.toList ≠ other.toList := fun hEq => h (String.toList_inj.mp hEq)
    simp [owned, field, h, hList]

theorem owned_append (front back : List Field) (name : String) :
    owned (front ++ back) name = (owned front name).or (owned back name) := by
  simp [owned, field, List.find?_append, Option.map_or]

theorem pushField_reads : ReadsFields pushField fun _ => True := by
  intro seen part out
  unfold pushField
  constructor
  · intro h
    split at h
    · cases h
    · rename_i key value hSplit
      split at h
      · cases h
      · rename_i hNew
        obtain ⟨rfl, hName⟩ := splitOnce_equals_iff.mp hSplit
        rw [field_isSome_iff] at hNew
        exact ⟨(key, value), rfl, hName, hNew, trivial, (Except.ok.inj h).symm⟩
  · rintro ⟨f, rfl, hName, hNew, -, rfl⟩
    rw [splitOnce_text hName]
    rw [← field_isSome_iff] at hNew
    exact if_neg hNew

theorem tab_notMem_text {value : List Char} (hName : '\t' ∉ name) (hValue : '\t' ∉ value) :
    '\t' ∉ Field.text (name, value) := by
  simp [Field.text, hName, hValue]

def frameText (op : List Char) (fields : List Field) : List Char :=
  ['\t'].intercalate (op :: fields.map Field.text)

theorem frameText_eq (op : List Char) (fields : List Field) :
    frameText op fields = op ++ (fields.map fun f => '\t' :: f.text).flatten := by
  unfold frameText
  induction fields generalizing op with
  | nil => simp [List.intercalate]
  | cons f fields ih =>
    have hStep : ['\t'].intercalate (op :: (f :: fields).map Field.text) =
        op ++ '\t' :: ['\t'].intercalate (f.text :: fields.map Field.text) := by
      simp [List.intercalate]
    rw [hStep, ih]
    simp

variable {line : List UInt8} {op : List Char}

theorem requestFields_iff :
    requestFields line = .ok (op, fields) ↔
      line ≠ [] ∧ line.length ≤ maxFrameBytes ∧
      line = textBytes (String.ofList (frameText op fields)) ∧
      '\t' ∉ op ∧ (fields.map Prod.fst).Nodup ∧
      ∀ f ∈ fields, '=' ∉ f.1 ∧ '\t' ∉ f.text := by
  unfold requestFields
  constructor
  · intro h
    split at h
    · cases h
    rename_i hSize
    simp only [Bool.or_eq_true, List.isEmpty_iff, decide_eq_true_eq, not_or, Nat.not_lt] at hSize
    split at h
    · cases h
    rename_i text hText
    have hNoTab : ∀ part ∈ text.toList.splitOn '\t', '\t' ∉ part := fun part hPart =>
      notMem_of_mem_splitOn hPart
    have hJoin : ['\t'].intercalate (text.toList.splitOn '\t') = text.toList :=
      List.intercalate_splitOn '\t'
    split at h
    · cases h
    rename_i hParts
    rw [hParts] at hNoTab hJoin
    obtain ⟨hOp, hRest⟩ := List.forall_mem_cons.mp hNoTab
    obtain ⟨found, hFold, hFound⟩ := bind_eq_ok_iff.mp h
    obtain ⟨rfl, rfl⟩ := Prod.mk.inj (Except.ok.inj hFound)
    obtain ⟨all, rfl, hAll, hNodup, hNames⟩ :=
      (pushField_reads.foldlM_iff (by simp)).mp hFold
    rw [List.nil_append] at hAll
    subst hAll
    refine ⟨hSize.1, hSize.2, ?_, hOp, hNodup, ?_⟩
    · rw [frameText, hJoin, String.ofList_toList]
      exact (fromUtf8_eq_some_iff.mp hText).symm
    · intro f hf
      exact ⟨(hNames f hf).1, hRest _ (List.mem_map_of_mem hf)⟩
  · rintro ⟨hNe, hLength, rfl, hOp, hNodup, hAll⟩
    have hSize : ¬ ((textBytes (String.ofList (frameText op fields))).isEmpty ||
        decide (maxFrameBytes < (textBytes (String.ofList (frameText op fields))).length)) := by
      simp only [Bool.or_eq_true, List.isEmpty_iff, decide_eq_true_eq, not_or, Nat.not_lt]
      exact ⟨hNe, hLength⟩
    have hNoTab : ∀ part ∈ op :: fields.map Field.text, '\t' ∉ part := by
      intro part hPart
      rcases List.mem_cons.mp hPart with rfl | hField
      · exact hOp
      · obtain ⟨f, hf, rfl⟩ := List.mem_map.mp hField
        exact (hAll f hf).2
    have hSplit : (frameText op fields).splitOn '\t' = op :: fields.map Field.text :=
      List.splitOn_intercalate '\t' hNoTab (List.cons_ne_nil _ _)
    have hFold : (fields.map Field.text).foldlM pushField [] = .ok fields :=
      (pushField_reads.foldlM_iff (by simp)).mpr
        ⟨fields, rfl, rfl, hNodup, fun f hf => ⟨(hAll f hf).1, trivial⟩⟩
    have hText : fromUtf8 (textBytes (String.ofList (frameText op fields))) =
        some (String.ofList (frameText op fields)) := fromUtf8_eq_some_iff.mpr rfl
    rw [if_neg hSize, hText]
    simp only [String.toList_ofList, hSplit, hFold]
    rfl

theorem parseRequest_frame
    (h : requestFields (textBytes (String.ofList (frameText op fields))) = .ok (op, fields)) :
    parseRequest (textBytes (String.ofList (frameText op fields))) =
      requestOf (String.ofList op) fields := by
  unfold parseRequest
  rw [h]
  rfl

variable {request : Request}

theorem length_le_of_parseRequest
    (h : parseRequest line = .ok request) : line.length ≤ maxFrameBytes := by
  obtain ⟨⟨op, fields⟩, hFields, -⟩ := bind_eq_ok_iff.mp h
  exact (requestFields_iff.mp hFields).2.1

/-! ## Texts of a request -/

def Request.texts : Request → List String
  | .hello _ | .grants | .deny _ | .lock | .subscribe => []
  | .register tokenHex session => [tokenHex, session]
  | .unregister session => [session]
  | .get key tokenHex tty _ | .requestGrant key tokenHex tty _ =>
    key :: (tokenHex.toList ++ tty.toList)
  | .authorize cap tokenHex tty => cap :: (tokenHex.toList ++ tty.toList)
  | .redeem receiptHex cap => [receiptHex, cap]

theorem required_ok_iff {name value : String} :
    required fields name = .ok value ↔ owned fields name = some value := by
  unfold required owned
  cases field fields name.toList <;> simp

theorem scoped_texts {subject : String} (name : String)
    (h : owned fields name = some subject) :
    ∀ text ∈ subject :: ((owned fields "token").toList ++ (owned fields "tty").toList),
      ∃ name, owned fields name = some text := by
  intro text hText
  rcases List.mem_cons.mp hText with rfl | hScope
  · exact ⟨name, h⟩
  · rcases List.mem_append.mp hScope with hToken | hTty
    · exact ⟨"token", Option.mem_toList.mp hToken⟩
    · exact ⟨"tty", Option.mem_toList.mp hTty⟩

theorem requestOf_texts {op : String}
    (h : requestOf op fields = .ok request) :
    ∀ text ∈ request.texts, ∃ name, owned fields name = some text := by
  unfold requestOf at h
  split at h
  · -- HELLO
    obtain ⟨_, -, h⟩ := bind_eq_ok_iff.mp h
    obtain ⟨_, -, h⟩ := bind_eq_ok_iff.mp h
    cases h
    simp [Request.texts]
  · -- REGISTER
    obtain ⟨token, hToken, h⟩ := bind_eq_ok_iff.mp h
    obtain ⟨session, hSession, h⟩ := bind_eq_ok_iff.mp h
    obtain ⟨_, -, h⟩ := bind_eq_ok_iff.mp h
    obtain ⟨_, -, h⟩ := bind_eq_ok_iff.mp h
    cases h
    rintro text (_ | ⟨_, _ | ⟨_, ⟨⟩⟩⟩)
    · exact ⟨"token", required_ok_iff.mp hToken⟩
    · exact ⟨"session", required_ok_iff.mp hSession⟩
  · -- UNREGISTER
    obtain ⟨session, hSession, h⟩ := bind_eq_ok_iff.mp h
    cases h
    rintro text (_ | ⟨_, ⟨⟩⟩)
    exact ⟨"session", required_ok_iff.mp hSession⟩
  · -- GET
    obtain ⟨key, hKey, h⟩ := bind_eq_ok_iff.mp h
    obtain ⟨_, -, h⟩ := bind_eq_ok_iff.mp h
    cases h
    exact scoped_texts "key" (required_ok_iff.mp hKey)
  · -- REQUEST
    obtain ⟨key, hKey, h⟩ := bind_eq_ok_iff.mp h
    obtain ⟨_, -, h⟩ := bind_eq_ok_iff.mp h
    cases h
    exact scoped_texts "key" (required_ok_iff.mp hKey)
  · -- AUTHORIZE
    obtain ⟨cap, hCap, h⟩ := bind_eq_ok_iff.mp h
    cases h
    exact scoped_texts "cap" (required_ok_iff.mp hCap)
  · -- REDEEM
    obtain ⟨receipt, hReceipt, h⟩ := bind_eq_ok_iff.mp h
    obtain ⟨cap, hCap, h⟩ := bind_eq_ok_iff.mp h
    cases h
    rintro text (_ | ⟨_, _ | ⟨_, ⟨⟩⟩⟩)
    · exact ⟨"receipt", required_ok_iff.mp hReceipt⟩
    · exact ⟨"cap", required_ok_iff.mp hCap⟩
  · cases h
    simp [Request.texts]
  · -- DENY
    obtain ⟨_, -, h⟩ := bind_eq_ok_iff.mp h
    obtain ⟨_, -, h⟩ := bind_eq_ok_iff.mp h
    cases h
    simp [Request.texts]
  · cases h
    simp [Request.texts]
  · -- SUBSCRIBE
    split at h
    · cases h
      simp [Request.texts]
    · cases h
  · cases h

theorem mem_frameText {f : Field} {c : Char}
    (hf : f ∈ fields) (hc : c ∈ f.2) : c ∈ frameText op fields := by
  rw [frameText_eq, List.mem_append]
  refine .inr (List.mem_flatten.mpr ⟨'\t' :: f.text, List.mem_map_of_mem hf, ?_⟩)
  simp [Field.text, hc]

theorem parseRequest_mem (h : parseRequest line = .ok request) :
    ∃ whole, fromUtf8 line = some whole ∧
      ∀ text ∈ request.texts, ∀ c ∈ text.toList, c ∈ whole.toList := by
  obtain ⟨⟨op, fields⟩, hFields, hRequest⟩ := bind_eq_ok_iff.mp h
  obtain ⟨-, -, hLine, -⟩ := requestFields_iff.mp hFields
  refine ⟨_, fromUtf8_eq_some_iff.mpr hLine.symm, ?_⟩
  intro text hText c hc
  obtain ⟨name, hName⟩ := requestOf_texts hRequest text hText
  obtain ⟨value, hField, rfl⟩ := Option.map_eq_some_iff.mp hName
  rw [String.toList_ofList] at hc ⊢
  exact mem_frameText (mem_of_field hField) hc

/-- **No text of a parsed request has a tab.** -/
theorem parseRequest_notMem_tab
    (h : parseRequest line = .ok request) : ∀ text ∈ request.texts, '\t' ∉ text.toList := by
  obtain ⟨⟨op, fields⟩, hFields, hRequest⟩ := bind_eq_ok_iff.mp h
  obtain ⟨-, -, -, -, -, hTabs⟩ := requestFields_iff.mp hFields
  intro text hText hTab
  obtain ⟨name, hName⟩ := requestOf_texts hRequest text hText
  obtain ⟨value, hField, rfl⟩ := Option.map_eq_some_iff.mp hName
  rw [String.toList_ofList] at hTab
  refine (hTabs _ (mem_of_field hField)).2 ?_
  simp [Field.text, hTab]

end Forward.Secrets

import Forward.Secrets.Decrypt

/-!
# The names of a dotenv file

`AgentStore::names_of`: the names on the assignment lines of a dotenv body, without sops' own. sops
leaves names in the clear, so it reads a plaintext and a ciphertext. `dotenvNames` is what a file
holds whether or not all of its lines can be read.
-/

namespace Forward.Edit

open Lib Hygiene Secrets

inductive DotenvError
  | invalidDotenv
  | invalidSecretName
  deriving DecidableEq

/-- The non-empty, non-comment lines of a dotenv body, CR stripped. -/
def assignmentLines (dotenv : List UInt8) : List (List UInt8) :=
  ((dotenv.splitOn 10).map stripCarriageReturn).filter fun line =>
    line ≠ [] ∧ line.head? ≠ some 35

-- `from_utf8`
def utf8Text (bytes : List UInt8) : Option String :=
  if bytes.all (· < 128) then some (String.ofList (asciiChars bytes))
  else String.fromUTF8? ⟨bytes.toArray⟩

def parseAssignmentLine (line : List UInt8) : Except DotenvError SecretName :=
  match line.findIdx? (· == 61) with
  | none => .error .invalidDotenv
  | some separator =>
    match utf8Text (line.take separator) with
    | none => .error .invalidDotenv
    | some name =>
      match SecretName.parse name with
      | .error _ => .error .invalidSecretName
      | .ok name => .ok name

def isMetadata (name : SecretName) : Bool := startsWith name.name "sops_"

def namesOfLines : List (List UInt8) → Except DotenvError (List SecretName)
  | [] => .ok []
  | line :: rest =>
    match parseAssignmentLine line with
    | .error e => .error e
    | .ok name =>
      match namesOfLines rest with
      | .error e => .error e
      | .ok names => .ok (if isMetadata name then names else name :: names)

/-- Non-metadata key names in dotenv bytes, ciphertext or plaintext. -/
def namesOf (dotenv : List UInt8) : Except DotenvError (List SecretName) :=
  namesOfLines (assignmentLines dotenv)

/-! ## What a file holds -/

-- the name of a line that can be read and is no metadata
def lineName (line : List UInt8) : Option SecretName :=
  match parseAssignmentLine line with
  | .error _ => none
  | .ok name => if isMetadata name then none else some name

def dotenvNames (dotenv : List UInt8) : List SecretName :=
  (assignmentLines dotenv).filterMap lineName

theorem namesOfLines_ok {lines : List (List UInt8)} {names : List SecretName}
    (h : namesOfLines lines = .ok names) : names = lines.filterMap lineName := by
  induction lines generalizing names with
  | nil =>
    obtain rfl := Except.ok.inj h
    rfl
  | cons line rest ih =>
    unfold namesOfLines at h
    split at h
    · cases h
    · rename_i name hName
      split at h
      · cases h
      · rename_i hMore
        obtain rfl := Except.ok.inj h
        have hRest := ih hMore
        by_cases hMeta : isMetadata name
        · have hLine : lineName line = none := by simp [lineName, hName, hMeta]
          rw [List.filterMap_cons_none hLine, if_pos hMeta]
          exact hRest
        · have hLine : lineName line = some name := by simp [lineName, hName, hMeta]
          rw [List.filterMap_cons_some hLine, if_neg hMeta, hRest]

theorem namesOf_ok {dotenv : List UInt8} {names : List SecretName}
    (h : namesOf dotenv = .ok names) : names = dotenvNames dotenv := namesOfLines_ok h

example : dotenvNames "A=1\r\n# note\nsops_mac=x\nB=".toByteArray.data.toList =
    [⟨"A", by decide⟩, ⟨"B", by decide⟩] := by decide +kernel

/-! ## One assignment -/

section

variable {expected name value : List UInt8} {lines : List (List UInt8)}

-- the lines that `assignmentLines` keeps
def isAssignment (line : List UInt8) : Bool := line ≠ [] ∧ line.head? ≠ some 35

theorem isAssignment_iff {line : List UInt8} :
    isAssignment line ↔ ¬ (line = [] ∨ line.head? = some 35) := by
  rw [isAssignment, decide_eq_true_eq, not_or]

theorem findIdx?_none (h : 61 ∉ name) : name.findIdx? (· == 61) = none := by
  refine List.findIdx?_eq_none_iff.mpr fun byte hByte => ?_
  exact beq_eq_false_iff_ne.mpr (ne_of_mem_of_not_mem hByte h)

theorem findIdx?_equals (h : 61 ∉ name) (rest : List UInt8) :
    (name ++ 61 :: rest).findIdx? (· == 61) = some name.length := by
  have hHere : (61 :: rest).findIdx? (· == 61) = some 0 := rfl
  rw [List.findIdx?_append, findIdx?_none h, hHere, Option.none_or, Option.map_some, Nat.zero_add]

theorem assignment_inj {other rest more : List UInt8} (h : 61 ∉ name) (hOther : 61 ∉ other) :
    name ++ 61 :: rest = other ++ 61 :: more ↔ name = other ∧ rest = more := by
  constructor
  · intro hText
    have hFirst := findIdx?_equals h rest
    rw [hText, findIdx?_equals hOther more] at hFirst
    obtain ⟨hName, hRest⟩ := List.append_inj hText (Option.some.inj hFirst).symm
    exact ⟨hName, (List.cons.inj hRest).2⟩
  · rintro ⟨rfl, rfl⟩
    rfl

theorem parseAssignmentLines_some {found : List UInt8} :
    parseAssignmentLines expected lines (some found) = .ok value ↔
      (lines.map stripCarriageReturn).filter isAssignment = [] ∧ found = value := by
  induction lines with
  | nil => simp [parseAssignmentLines]
  | cons line rest ih =>
    rw [parseAssignmentLines, List.map_cons]
    dsimp only
    by_cases hLine : isAssignment (stripCarriageReturn line)
    · rw [List.filter_cons_of_pos hLine, if_neg (isAssignment_iff.mp hLine)]
      split <;> simp
    · rw [List.filter_cons_of_neg hLine, if_pos (not_not.mp (mt isAssignment_iff.mpr hLine)), ih]

theorem parseAssignmentLines_none (hName : 61 ∉ expected) :
    parseAssignmentLines expected lines none = .ok value ↔
      (lines.map stripCarriageReturn).filter isAssignment = [expected ++ 61 :: value] ∧
      0 ∉ value := by
  induction lines with
  | nil => simp [parseAssignmentLines]
  | cons line rest ih =>
    rw [parseAssignmentLines, List.map_cons]
    dsimp only
    by_cases hLine : isAssignment (stripCarriageReturn line)
    · rw [List.filter_cons_of_pos hLine, if_neg (isAssignment_iff.mp hLine), List.cons_eq_cons]
      by_cases hMem : 61 ∈ stripCarriageReturn line
      · obtain ⟨name, found, hText, hFirst⟩ := List.eq_append_cons_of_mem hMem
        have hDrop : (name ++ 61 :: found).drop (name.length + 1) = found := by simp
        rw [hText, findIdx?_equals hFirst, assignment_inj hFirst hName]
        simp only [List.take_left, hDrop]
        by_cases hRefused : name ≠ expected ∨ found.contains 0
        · rw [if_pos (by simpa using hRefused)]
          refine iff_of_false (by simp) ?_
          rintro ⟨⟨⟨hSame, rfl⟩, -⟩, hZero⟩
          exact hRefused.elim (absurd hSame) fun h => hZero (List.contains_iff_mem.mp h)
        · rw [if_neg (by simpa using hRefused), parseAssignmentLines_some]
          rw [not_or, not_not, List.contains_iff_mem] at hRefused
          constructor
          · rintro ⟨hRest, rfl⟩
            exact ⟨⟨⟨hRefused.1, rfl⟩, hRest⟩, hRefused.2⟩
          · rintro ⟨⟨⟨-, hValue⟩, hRest⟩, -⟩
            exact ⟨hRest, hValue⟩
      · rw [findIdx?_none hMem]
        refine iff_of_false (by simp) ?_
        rintro ⟨⟨hText, -⟩, -⟩
        exact hMem (by simp [hText])
    · rw [List.filter_cons_of_neg hLine, if_pos (not_not.mp (mt isAssignment_iff.mpr hLine)), ih]

theorem equals_notMem_name (key : SecretName) : 61 ∉ textBytes key.name :=
  fun h => SecretName.plain_of_mem_textBytes h (by decide)

theorem parseSingleAssignment_iff {plaintext : List UInt8} {key : SecretName} :
    parseSingleAssignment plaintext key = .ok value ↔
      assignmentLines plaintext = [textBytes key.name ++ 61 :: value] ∧ 0 ∉ value :=
  parseAssignmentLines_none (equals_notMem_name key)

theorem assignmentLines_one (key : SecretName) {rest : List UInt8}
    (hRest : rest = [] ∨ rest = [10]) (hLine : 10 ∉ value) (hEnd : value.getLast? ≠ some 13) :
    assignmentLines (textBytes key.name ++ 61 :: value ++ rest) =
      [textBytes key.name ++ 61 :: value] := by
  have hPlain : ∀ byte ∈ [10, 13, 35, 61], byte ∉ textBytes key.name :=
    fun byte hByte hMem => SecretName.plain_of_mem_textBytes hMem hByte
  have hOne : 10 ∉ textBytes key.name ++ 61 :: value := by
    simp [hLine, hPlain 10 (by decide)]
  -- the lines of the body: the assignment, and after a newline an empty one
  have hSplit : (textBytes key.name ++ 61 :: value ++ rest).splitOn 10 =
      (textBytes key.name ++ 61 :: value) :: rest.map fun _ => [] := by
    rcases hRest with rfl | rfl
    · simpa using (List.splitOn_intercalate 10 (by simpa using hOne) nofun :
        ([10].intercalate [textBytes key.name ++ 61 :: value]).splitOn 10 = _)
    · simpa [List.intercalate] using (List.splitOn_intercalate 10 (by simpa using hOne) nofun :
        ([10].intercalate [textBytes key.name ++ 61 :: value, []]).splitOn 10 = _)
  have hKeep : stripCarriageReturn (textBytes key.name ++ 61 :: value) =
      textBytes key.name ++ 61 :: value := by
    refine if_neg ?_
    cases hLast : value.getLast? with
    | none => simp [List.getLast?_append, List.getLast?_cons, hLast]
    | some =>
      rw [hLast] at hEnd
      simpa [List.getLast?_append, List.getLast?_cons, hLast] using hEnd
  have hStart : isAssignment (textBytes key.name ++ 61 :: value) := by
    refine isAssignment_iff.mpr ?_
    cases hName : textBytes key.name with
    | nil => simp
    | cons =>
      have hHash := hPlain 35 (by decide)
      rw [hName] at hHash
      rintro (hNil | hHead)
      · cases hNil
      · exact hHash (Option.some.inj hHead ▸ List.mem_cons_self)
  have hKept : assignmentLines (textBytes key.name ++ 61 :: value ++ rest) =
      (((textBytes key.name ++ 61 :: value) :: rest.map fun _ => []).map
        stripCarriageReturn).filter isAssignment := by
    rw [← hSplit]
    rfl
  rw [hKept, List.map_cons, hKeep, List.filter_cons_of_pos hStart]
  rcases hRest with rfl | rfl <;> rfl

end

end Forward.Edit

import Forward.Edit.Dotenv

/-!
# Where an agent key is found

`locate` looks for a key among the names of the ciphertexts, and stops at the first file that
has it. `resolve` decrypts all files and keeps, for each key, the first value that comes. sops
leaves names in the clear, and adds names of its own.
-/

namespace Forward.Edit

open Lib Secrets

structure AgentFile where
  label : String
  path : String
  deriving DecidableEq

inductive AgentError
  | sops (path : String)
  | agentKeySet (path : String)
  | dotenv (e : DotenvError) (path : String)
  | missingSecret (name : SecretName) (searched : String)
  deriving DecidableEq

/-- The files, and what sops makes of them; `none` is a failure. -/
structure Vault where
  isFile : String → Bool
  read : String → Option (List UInt8)
  decrypt : String → Option (List UInt8)

structure ResolvedAgent where
  value : List UInt8
  file : AgentFile
  deriving DecidableEq

def orInsert {α : Type} (values : List (SecretName × α)) (name : SecretName) (value : α) :
    List (SecretName × α) :=
  if (values.lookup name).isSome then values else values ++ [(name, value)]

-- what stands behind the first equals sign
def assignmentValue (line : List UInt8) : List UInt8 := (line.dropWhile (· ≠ 61)).drop 1

def parseDotenvLines : List (List UInt8) → List (SecretName × List UInt8) →
    Except DotenvError (List (SecretName × List UInt8))
  | [], values => .ok values
  | line :: rest, values =>
    match parseAssignmentLine line with
    | .error e => .error e
    | .ok name =>
      if (assignmentValue line).contains 0 then .error .invalidDotenv
      else parseDotenvLines rest (orInsert values name (assignmentValue line))

namespace Vault

def decryptAll (vault : Vault) (path : String) :
    Except AgentError (List (SecretName × List UInt8)) :=
  match vault.decrypt path with
  | none => .error (.sops path)
  | some plaintext =>
    match parseDotenvLines (assignmentLines plaintext) [] with
    | .error e => .error (.dotenv e path)
    | .ok values => .ok values

def resolveFrom (vault : Vault) : List AgentFile → List (SecretName × ResolvedAgent) →
    Except AgentError (List (SecretName × ResolvedAgent))
  | [], values => .ok values
  | file :: rest, values =>
    if vault.isFile file.path then
      match vault.decryptAll file.path with
      | .error e => .error e
      | .ok found => vault.resolveFrom rest
          (found.foldl (fun values (name, value) => orInsert values name ⟨value, file⟩) values)
    else vault.resolveFrom rest values

def resolveAll (vault : Vault) (files : List AgentFile) :
    Except AgentError (List (SecretName × ResolvedAgent)) := vault.resolveFrom files []

def searched (files : List AgentFile) : String :=
  if files = [] then "no configured agent-tier files"
  else "agent-tier files " ++
    ", ".intercalate (files.map fun file => file.label ++ " (" ++ file.path ++ ")")

def resolve (vault : Vault) (files : List AgentFile) (name : SecretName) :
    Except AgentError ResolvedAgent :=
  match vault.resolveAll files with
  | .error e => .error e
  | .ok values =>
    match values.lookup name with
    | none => .error (.missingSecret name (searched files))
    | some found => .ok found

def namesIn (vault : Vault) (path : String) : Except AgentError (List SecretName) :=
  match vault.read path with
  | none => .error (.agentKeySet path)
  | some encrypted =>
    match namesOf encrypted with
    | .error e => .error (.dotenv e path)
    | .ok names => .ok names

def locate (vault : Vault) (name : SecretName) :
    List AgentFile → Except AgentError (Option AgentFile)
  | [] => .ok none
  | file :: rest =>
    if vault.isFile file.path then
      match vault.namesIn file.path with
      | .error e => .error e
      | .ok names => if name ∈ names then .ok (some file) else vault.locate name rest
    else vault.locate name rest

/-- The value of the first assignment to the name, in a file that is there. -/
def valueIn (vault : Vault) (name : SecretName) (file : AgentFile) : Option (List UInt8) :=
  if vault.isFile file.path then
    (vault.decrypt file.path).bind fun plaintext =>
      ((assignmentLines plaintext).find? (parseAssignmentLine · = .ok name)).map assignmentValue
  else none

end Vault

section

variable {α : Type} {values : List (SecretName × α)} {name other : SecretName} {value : α}

theorem lookup_cons_eq (rest : List (SecretName × α)) :
    ((other, value) :: rest).lookup name =
      (if name = other then some value else none).or (rest.lookup name) := by
  by_cases hSame : name = other
  · simp [hSame]
  · simp [List.lookup_cons, hSame, beq_false_of_ne hSame]

theorem lookup_orInsert : (orInsert values other value).lookup name =
    (values.lookup name).or (if name = other then some value else none) := by
  unfold orInsert
  split
  · rename_i hSome
    split
    · rename_i hSame
      subst hSame
      obtain ⟨found, hFound⟩ := Option.isSome_iff_exists.mp hSome
      rw [hFound, Option.some_or]
    · rw [Option.or_none]
  · rw [List.lookup_append, lookup_cons_eq]
    simp

theorem lineName_eq_some {line : List UInt8} (hName : isMetadata name = false) :
    lineName line = some name ↔ parseAssignmentLine line = .ok name := by
  unfold lineName
  split
  · simp [*]
  · rename_i assigned hLine
    rw [hLine, Except.ok.injEq]
    by_cases hSame : assigned = name
    · simp [hSame, hName]
    · split <;> simp [hSame]

theorem parseDotenvLines_ok {lines : List (List UInt8)}
    {before values : List (SecretName × List UInt8)}
    (h : parseDotenvLines lines before = .ok values) :
    namesOfLines lines = .ok (lines.filterMap lineName) ∧ ∀ name, values.lookup name =
      (before.lookup name).or
        ((lines.find? (parseAssignmentLine · = .ok name)).map assignmentValue) := by
  induction lines generalizing before with
  | nil =>
    cases h
    exact ⟨rfl, fun name => by simp⟩
  | cons line rest ih =>
    unfold parseDotenvLines at h
    split at h
    · cases h
    · rename_i assigned hLine
      split at h
      · cases h
      · obtain ⟨hNames, hValues⟩ := ih h
        refine ⟨?_, fun name => ?_⟩
        · rw [namesOfLines, hLine, hNames, List.filterMap_cons, lineName, hLine]
          cases hMeta : isMetadata assigned <;> simp only [hMeta] <;> rfl
        · rw [hValues, lookup_orInsert, Option.or_assoc]
          congr 1
          by_cases hSame : name = assigned
          · simp [hSame, hLine]
          · simp [hSame, hLine, Ne.symm hSame]

end

namespace Vault

variable {vault : Vault} {name : SecretName} {files : List AgentFile} {file : AgentFile}

theorem lookup_found {found : List (SecretName × List UInt8)}
    {values : List (SecretName × ResolvedAgent)} :
    (found.foldl (fun values (name, value) => orInsert values name ⟨value, file⟩) values).lookup
      name = (values.lookup name).or ((found.lookup name).map (⟨·, file⟩)) := by
  induction found generalizing values with
  | nil => simp
  | cons entry found ih =>
    obtain ⟨other, value⟩ := entry
    rw [List.foldl_cons, ih, lookup_orInsert, Option.or_assoc, lookup_cons_eq]
    by_cases hSame : name = other <;> simp [hSame]

theorem decryptAll_ok {found : List (SecretName × List UInt8)}
    (hFile : vault.isFile file.path = true) (h : vault.decryptAll file.path = .ok found) :
    ∃ plaintext, vault.decrypt file.path = some plaintext ∧
      namesOf plaintext = .ok (dotenvNames plaintext) ∧
      ∀ name, found.lookup name = vault.valueIn name file := by
  unfold decryptAll at h
  split at h
  · cases h
  · rename_i plaintext hPlain
    split at h
    · cases h
    · rename_i hParse
      cases h
      obtain ⟨hNames, hValues⟩ := parseDotenvLines_ok hParse
      refine ⟨plaintext, hPlain, hNames, fun name => ?_⟩
      rw [hValues, valueIn, if_pos hFile, hPlain]
      rfl

theorem resolveFrom_ok {before values : List (SecretName × ResolvedAgent)}
    (h : vault.resolveFrom files before = .ok values) :
    values.lookup name = (before.lookup name).or
      ((files.find? fun file => (vault.valueIn name file).isSome).bind fun file =>
        (vault.valueIn name file).map (⟨·, file⟩)) := by
  induction files generalizing before with
  | nil =>
    cases h
    simp
  | cons file rest ih =>
    unfold resolveFrom at h
    split at h
    · rename_i hFile
      split at h
      · cases h
      · rename_i found hFound
        obtain ⟨-, -, -, hValues⟩ := decryptAll_ok hFile hFound
        rw [ih h, lookup_found, hValues, Option.or_assoc, List.find?_cons]
        cases hValue : vault.valueIn name file <;> simp [hValue]
    · rename_i hFile
      have hNone : vault.valueIn name file = none := if_neg hFile
      rw [ih h, List.find?_cons, hNone]
      rfl

/-- The ciphertext has the names of its decrypted text, in their order; `namesOf` leaves out the
metadata that sops adds. -/
def KeepsNames (vault : Vault) (path : String) : Prop :=
  vault.isFile path → ∀ plaintext names, vault.decrypt path = some plaintext →
    namesOf plaintext = .ok names → ∃ encrypted,
      vault.read path = some encrypted ∧ namesOf encrypted = .ok names

theorem locate_eq {before values : List (SecretName × ResolvedAgent)}
    (hKeeps : ∀ file ∈ files, vault.KeepsNames file.path) (hName : isMetadata name = false)
    (h : vault.resolveFrom files before = .ok values) :
    vault.locate name files = .ok (files.find? fun file => (vault.valueIn name file).isSome) := by
  induction files generalizing before with
  | nil => rfl
  | cons file rest ih =>
    obtain ⟨hKept, hRest⟩ := List.forall_mem_cons.mp hKeeps
    unfold resolveFrom at h
    rw [locate, List.find?_cons]
    split at h
    · rename_i hFile
      split at h
      · cases h
      · rename_i found hFound
        obtain ⟨plaintext, hPlain, hNames, -⟩ := decryptAll_ok hFile hFound
        obtain ⟨encrypted, hRead, hSame⟩ := hKept hFile plaintext _ hPlain hNames
        have hHas : name ∈ dotenvNames plaintext ↔ (vault.valueIn name file).isSome = true := by
          simp [dotenvNames, lineName_eq_some hName, valueIn, hFile, hPlain]
        rw [if_pos hFile, namesIn, hRead]
        dsimp only
        rw [hSame]
        dsimp only
        by_cases hIn : name ∈ dotenvNames plaintext
        · rw [if_pos hIn, hHas.mp hIn]
        · rw [if_neg hIn, eq_false_of_ne_true (mt hHas.mpr hIn), ih hRest h]
    · rename_i hFile
      have hNone : vault.valueIn name file = none := if_neg hFile
      rw [if_neg hFile, hNone, ih hRest h]
      rfl

end Vault

/-- **Locating a key agrees with resolving it.** Where all files can be resolved, a key that is
no metadata is located in the file that its value comes from, or nowhere if it is missing; and
its value is that of the first assignment, in the first file that has one. -/
theorem locating_agrees (vault : Vault) (files : List AgentFile) (name : SecretName)
    (values : List (SecretName × ResolvedAgent))
    (hKeeps : ∀ file ∈ files, vault.KeepsNames file.path)
    (hAll : vault.resolveAll files = .ok values) (hName : isMetadata name = false) :
    (∀ file, vault.locate name files = .ok (some file) ↔
      ∃ value, vault.resolve files name = .ok ⟨value, file⟩) ∧
    (vault.locate name files = .ok none ↔
      vault.resolve files name = .error (.missingSecret name (Vault.searched files))) ∧
    ∀ value file, vault.resolve files name = .ok ⟨value, file⟩ →
      files.find? (fun file => (vault.valueIn name file).isSome) = some file ∧
      vault.valueIn name file = some value := by
  have hLocate := Vault.locate_eq hKeeps hName hAll
  have hLookup := @Vault.resolveFrom_ok vault name files [] values hAll
  unfold Vault.resolve
  rw [hLocate, hAll]
  dsimp only
  rw [hLookup]
  cases hFind : files.find? fun file => (vault.valueIn name file).isSome with
  | none => simp
  | some file =>
    have hSome := List.find?_some hFind
    obtain ⟨value, hValue⟩ := Option.isSome_iff_exists.mp hSome
    simp [hValue]

theorem located_beside_metadata :
    let key : SecretName := ⟨"A", by decide⟩
    let vault : Vault := ⟨fun _ => true, fun _ => some "A=x\nsops_mac=y\n".toUTF8.toList,
      fun _ => some "A=1\n".toUTF8.toList⟩
    vault.locate key [⟨"a", "a.env"⟩] = .ok (some ⟨"a", "a.env"⟩) := by
  intro key vault
  have hKeeps : ∀ path, vault.KeepsNames path := by
    intro path _ plaintext names hPlain hNames
    cases hPlain
    have hSame : namesOf "A=x\nsops_mac=y\n".toUTF8.toList = namesOf "A=1\n".toUTF8.toList := by
      decide +kernel
    exact ⟨_, rfl, hSame.trans hNames⟩
  have hAgree := locating_agrees vault [⟨"a", "a.env"⟩] key [(key, ⟨[49], "a", "a.env"⟩)]
    (fun _ _ => hKeeps _) (by decide +kernel) (by decide +kernel)
  exact (hAgree.1 _).mpr ⟨[49], by decide +kernel⟩

end Forward.Edit

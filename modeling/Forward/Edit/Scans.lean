import Forward.Edit.KeyFiles

/-!
# What a scan of the human directories knows

A scan that gets through a root knows every key with a file there, if `is_dir` saw the directory,
and each location it gives for a key is a file of that key.
-/

namespace Forward.Edit

open Lib Secrets

def HumanAt (disk : Disk) (root : Root) (key : SecretName) : Prop :=
  ∃ files name bytes isLocal, disk.human root.source.dir = some files ∧
    files.lookup (.text name) = some bytes ∧ parseHumanFileName name = .key key isLocal

def FileAt (disk : Disk) (dir fileName : String) (key : SecretName) : Prop :=
  ∃ files bytes isLocal, disk.human dir = some files ∧
    files.lookup (.text fileName) = some bytes ∧ parseHumanFileName fileName = .key key isLocal

variable {key : SecretName}

theorem humanAt_iff {disk : Disk} {root : Root} :
    HumanAt disk root key ↔ ∃ name, FileAt disk root.source.dir name key := by
  constructor
  · rintro ⟨files, name, bytes, isLocal, hDir, hFile, hParse⟩
    exact ⟨name, files, bytes, isLocal, hDir, hFile, hParse⟩
  · rintro ⟨name, files, bytes, isLocal, hDir, hFile, hParse⟩
    exact ⟨files, name, bytes, isLocal, hDir, hFile, hParse⟩

/-- Every entry of the names is a file of its key. -/
def Named (names : HumanNames) : Prop :=
  ∀ key location, names.lookup key = some location →
    ∃ isLocal, parseHumanFileName location.fileName = .key key isLocal

/-! ## Effects on files -/

section

variable {disk : Disk} {key : SecretName} {dir fileName : String}

theorem FileAt.keep (h : FileAt disk dir fileName key) (effect : Effect) :
    FileAt (effect.onDisk disk) dir fileName key := by
  obtain ⟨files, bytes, isLocal, hDir, hFile, hParse⟩ := h
  cases effect with
  | makeDir made =>
    by_cases hHere : dir = made
    · subst hHere
      refine ⟨files, bytes, isLocal, ?_, hFile, hParse⟩
      show Function.update disk.human dir _ dir = some files
      rw [Function.update_self, hDir]
      rfl
    · refine ⟨files, bytes, isLocal, ?_, hFile, hParse⟩
      show Function.update disk.human made _ dir = some files
      rw [Function.update_of_ne hHere, hDir]
  | put there name bytes' =>
    by_cases hHere : dir = there
    · subst hHere
      have hSet : ((Effect.put dir name bytes').onDisk disk).human dir =
          some (files.insert (.text name) bytes') := by
        show Function.update disk.human dir _ dir = _
        rw [Function.update_self, hDir]
        rfl
      by_cases hName : fileName = name
      · subst hName
        exact ⟨_, bytes', isLocal, hSet, AList.lookup_insert _, hParse⟩
      · refine ⟨_, bytes, isLocal, hSet, ?_, hParse⟩
        rw [AList.lookup_insert_ne (by simpa using hName)]
        exact hFile
    · refine ⟨files, bytes, isLocal, ?_, hFile, hParse⟩
      show Function.update disk.human there _ dir = some files
      rw [Function.update_of_ne hHere, hDir]
  | quiet | lock _ | unlock | publish _ _ => exact ⟨files, bytes, isLocal, hDir, hFile, hParse⟩

theorem FileAt.old {effect : Effect} (h : FileAt (effect.onDisk disk) dir fileName key) :
    FileAt disk dir fileName key ∨ ∃ bytes, effect = .put dir fileName bytes := by
  obtain ⟨files, bytes, isLocal, hDir, hFile, hParse⟩ := h
  cases effect with
  | makeDir made =>
    by_cases hHere : dir = made
    · subst hHere
      have hSet : ((Effect.makeDir dir).onDisk disk).human dir =
          some ((disk.human dir).getD ∅) := Function.update_self ..
      rw [hSet] at hDir
      have hFiles := Option.some.inj hDir
      cases hHuman : disk.human dir with
      | none =>
        rw [hHuman] at hFiles
        rw [← hFiles] at hFile
        cases hFile
      | some old =>
        rw [hHuman] at hFiles
        rw [← hFiles] at hFile
        exact .inl ⟨old, bytes, isLocal, hHuman, hFile, hParse⟩
    · refine .inl ⟨files, bytes, isLocal, ?_, hFile, hParse⟩
      rw [← hDir]
      exact (Function.update_of_ne hHere _ _).symm
  | put there name bytes' =>
    by_cases hHere : dir = there
    · subst hHere
      have hSet : ((Effect.put dir name bytes').onDisk disk).human dir =
          some (((disk.human dir).getD ∅).insert (.text name) bytes') := Function.update_self ..
      rw [hSet] at hDir
      rw [← Option.some.inj hDir] at hFile
      rcases Table.lookup_insert_cases hFile with ⟨hName, -⟩ | ⟨-, hOld⟩
      · injection hName with hName
        rw [← hName]
        exact .inr ⟨bytes', rfl⟩
      · cases hHuman : disk.human dir with
        | none =>
          rw [hHuman] at hOld
          cases hOld
        | some old =>
          rw [hHuman] at hOld
          exact .inl ⟨old, bytes, isLocal, hHuman, hOld, hParse⟩
    · refine .inl ⟨files, bytes, isLocal, ?_, hFile, hParse⟩
      rw [← hDir]
      exact (Function.update_of_ne hHere _ _).symm
  | quiet | lock _ | unlock | publish _ _ =>
    exact .inl ⟨files, bytes, isLocal, hDir, hFile, hParse⟩

end

/-! ## One root -/

section

variable {before : Option String → Option String → Prop} [DecidableRel before]
  {disk : Disk} {reply : Reply} {root : Root} {names names' : HumanNames}

theorem mem_keyFiles_of_humanAt (hSeen : reply.seen)
    (hOk : reply.ok) (hAt : HumanAt disk root key) :
    ∃ location, ⟨key, location⟩ ∈ (disk.scan reply root).keyFiles root.source := by
  obtain ⟨files, name, bytes, isLocal, hDir, hFile, hParse⟩ := hAt
  refine ⟨root.source.location name isLocal, ?_⟩
  have hScan : disk.scan reply root = .listed (files.keys.map FileName.toStr) := by
    simp [Disk.scan, hDir, hSeen, hOk]
  rw [hScan]
  refine List.mem_filterMap.mpr ⟨some name, ?_, by simp [HumanSource.keyFile, hParse]⟩
  refine List.mem_map.mpr ⟨.text name, ?_, rfl⟩
  rw [← AList.mem_keys, ← AList.lookup_isSome, hFile]
  rfl

theorem lookup_of_humanAt
    (hLoad : HumanNames.addRoot before root.source (disk.scan reply root) names = .ok names')
    (hSeen : disk.human root.source.dir ≠ none → reply.seen)
    (hAt : HumanAt disk root key) : (names'.lookup key).isSome := by
  obtain ⟨hAccepts, hExtends⟩ := HumanNames.addRoot_extends hLoad
  have hThere := hAt
  obtain ⟨files, -, -, -, hDir, -, -⟩ := hThere
  have hLooked : reply.seen = true := hSeen (by rw [hDir]; simp)
  have hOk : reply.ok := by
    by_contra hFailed
    simp only [Bool.not_eq_true] at hFailed
    rw [show disk.scan reply root = .unreadable by simp [Disk.scan, hDir, hLooked, hFailed]]
      at hAccepts
    exact hAccepts
  obtain ⟨location, hFile⟩ := mem_keyFiles_of_humanAt hLooked hOk hAt
  rw [(hExtends.lookup_iff key location).mpr (.inr hFile)]
  rfl

theorem lookup_of_lookup
    (hLoad : HumanNames.addRoot before root.source (disk.scan reply root) names = .ok names')
    (hOld : (names.lookup key).isSome) : (names'.lookup key).isSome := by
  obtain ⟨-, hExtends⟩ := HumanNames.addRoot_extends hLoad
  obtain ⟨location, hLocation⟩ := Option.isSome_iff_exists.mp hOld
  rw [(hExtends.lookup_iff key location).mpr (.inl hLocation)]
  rfl

-- whatever a scan lists, it lists a key file under its own key
theorem parse_of_mem_keyFiles {source : HumanSource} {scan : DirScan} {file : KeyFile}
    (h : file ∈ scan.keyFiles source) :
    ∃ isLocal, parseHumanFileName file.location.fileName = .key file.name isLocal := by
  cases scan with
  | notDir | unreadable => cases h
  | listed =>
    obtain ⟨entry, -, hFile⟩ := List.mem_filterMap.mp h
    cases entry with
    | none => cases hFile
    | some =>
      simp only [HumanSource.keyFile] at hFile
      split at hFile
      · rename_i isLocal hParse
        cases hFile
        exact ⟨isLocal, hParse⟩
      all_goals cases hFile

theorem Named.addRoot (hNamed : Named names)
    (hLoad : HumanNames.addRoot before root.source (disk.scan reply root) names = .ok names') :
    Named names' := by
  obtain ⟨-, hExtends⟩ := HumanNames.addRoot_extends hLoad
  intro key location hLookup
  rcases (hExtends.lookup_iff key location).mp hLookup with hOld | hNew
  · exact hNamed key location hOld
  · -- the file's own name and key first: against the goal Lean would run the parser
    have hParse := parse_of_mem_keyFiles hNew
    exact hParse

end

end Forward.Edit

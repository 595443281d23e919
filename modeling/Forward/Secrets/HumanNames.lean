import Mathlib.Data.List.Sort
import Forward.Lib.Lists
import Forward.Lib.Table
import Forward.Secrets.Store

/-!
# The client's reading of the human tier

`HumanNames::load` walks the `secrets.human.d` of every source root and maps each key to the one
file that backs it. The broker's own scan (`HumanStore::candidates`) keeps only the files of the
key it was asked about. Both are compared with one list, `keyFiles`.
-/

namespace Forward.Secrets

open Lib

/-! ## The client's scan -/

/-- A configured human-tier key file; its path is `fileName` below `dir`. -/
structure HumanLocation where
  label : String
  dir : String
  fileName : String
  deriving DecidableEq

inductive LoadError
  | humanDirectory (dir : String)
  | invalidHumanFile
  | duplicateHumanKey (name : SecretName) (first second : String)

-- what `is_dir` and then `read_dir` answer; a name that is not UTF-8 has no text
inductive DirScan
  | notDir
  | unreadable
  | listed (names : List (Option String))

abbrev HumanNames := Table SecretName HumanLocation

def HumanSource.location (root : HumanSource) (fileName : String) (isLocal : Bool) :
    HumanLocation where
  label := if isLocal then root.label ++ ".local" else root.label
  dir := root.dir
  fileName := fileName

namespace HumanNames

/-- The inner loop of `load`: one directory's entries, already sorted. -/
def addEntries (root : HumanSource) :
    List (Option String) → HumanNames → Except LoadError HumanNames
  | [], names => .ok names
  | none :: _, _ => .error .invalidHumanFile
  | some text :: rest, names =>
    match parseHumanFileName text with
    | .ignored => addEntries root rest names
    | .invalid => .error .invalidHumanFile
    | .key name isLocal =>
      match names.lookup name with
      | none => addEntries root rest (names.insert name (root.location text isLocal))
      | some first =>
        .error (.duplicateHumanKey name first.label (root.location text isLocal).label)

section

-- the order of file names that `sort_by_key` uses
variable (before : Option String → Option String → Prop) [DecidableRel before]

def addRoot (root : HumanSource) (scan : DirScan) (names : HumanNames) :
    Except LoadError HumanNames :=
  match scan with
  | .notDir => .ok names
  | .unreadable => .error (.humanDirectory root.dir)
  | .listed entries => addEntries root (entries.insertionSort before) names

def addRoots (scan : HumanSource → DirScan) :
    List HumanSource → HumanNames → Except LoadError HumanNames
  | [], names => .ok names
  | root :: rest, names =>
    match addRoot before root (scan root) names with
    | .error e => .error e
    | .ok names => addRoots scan rest names

def load (scan : HumanSource → DirScan) (roots : List HumanSource) :
    Except LoadError HumanNames :=
  addRoots before scan roots ∅

end

end HumanNames

/-! ## Key files -/

structure KeyFile where
  name : SecretName
  location : HumanLocation

def HumanSource.keyFile (root : HumanSource) : Option String → Option KeyFile
  | none => none
  | some text =>
    match parseHumanFileName text with
    | .key name isLocal => some ⟨name, root.location text isLocal⟩
    | .ignored | .invalid => none

def DirScan.keyFiles (root : HumanSource) : DirScan → List KeyFile
  | .listed entries => entries.filterMap root.keyFile
  | .notDir | .unreadable => []

def keyFiles (scan : HumanSource → DirScan) (roots : List HumanSource) : List KeyFile :=
  roots.flatMap fun root => (scan root).keyFiles root

/-! ## What a load does to its map -/

/-- `out` is `names` with the files added, and no key was met twice. -/
structure Extends (names : HumanNames) (files : List KeyFile) (out : HumanNames) : Prop where
  distinct : (files.map KeyFile.name).Nodup
  fresh : ∀ file ∈ files, names.lookup file.name = none
  lookup_iff : ∀ key location, out.lookup key = some location ↔
    names.lookup key = some location ∨ ⟨key, location⟩ ∈ files

namespace Extends

theorem nil (names : HumanNames) : Extends names [] names where
  distinct := List.nodup_nil
  fresh := by simp
  lookup_iff := by simp

variable {names : HumanNames}

theorem single {file : KeyFile} (hFresh : names.lookup file.name = none) :
    Extends names [file] (names.insert file.name file.location) where
  distinct := List.nodup_singleton _
  fresh := by
    intro other hOther
    rw [List.mem_singleton] at hOther
    rw [hOther]
    exact hFresh
  lookup_iff := by
    intro key location
    by_cases hKey : key = file.name
    · subst hKey
      rw [AList.lookup_insert, hFresh]
      constructor
      · intro h
        cases h
        exact .inr (List.mem_singleton.mpr rfl)
      · rintro (h | h)
        · cases h
        · rw [← List.mem_singleton.mp h]
    · rw [AList.lookup_insert_ne hKey]
      constructor
      · exact .inl
      · rintro (h | h)
        · exact h
        · exact absurd (congrArg KeyFile.name (List.mem_singleton.mp h)) hKey

theorem append {mid out : HumanNames} {files more : List KeyFile}
    (hFiles : Extends names files mid) (hMore : Extends mid more out) :
    Extends names (files ++ more) out where
  distinct := by
    rw [List.map_append]
    refine List.nodup_append.mpr ⟨hFiles.distinct, hMore.distinct, ?_⟩
    -- a key of the second part is not in the map the first part left
    intro key hKey other hOther hSame
    obtain ⟨file, hFile, hName⟩ := List.mem_map.mp hKey
    obtain ⟨later, hLater, hLaterName⟩ := List.mem_map.mp hOther
    have hAbsent : mid.lookup file.name = none := by
      rw [hName, hSame, ← hLaterName]
      exact hMore.fresh later hLater
    have hPresent : mid.lookup file.name = some file.location :=
      (hFiles.lookup_iff _ _).mpr (.inr hFile)
    rw [hAbsent] at hPresent
    cases hPresent
  fresh := by
    intro file hFile
    rcases List.mem_append.mp hFile with hFile | hFile
    · exact hFiles.fresh file hFile
    · have hMid := hMore.fresh file hFile
      cases hOld : names.lookup file.name with
      | none => rfl
      | some =>
        rw [(hFiles.lookup_iff _ _).mpr (.inl hOld)] at hMid
        cases hMid
  lookup_iff := by
    intro key location
    rw [hMore.lookup_iff, hFiles.lookup_iff, List.mem_append, or_assoc]

theorem perm {out : HumanNames} {files files' : List KeyFile} (hPerm : files.Perm files')
    (h : Extends names files out) : Extends names files' out where
  distinct := (hPerm.map KeyFile.name).nodup_iff.mp h.distinct
  fresh file hFile := h.fresh file (hPerm.mem_iff.mpr hFile)
  lookup_iff key location := by rw [h.lookup_iff, hPerm.mem_iff]

end Extends

def Wellformed (entries : List (Option String)) : Prop :=
  ∀ entry ∈ entries, ∃ text, entry = some text ∧ parseHumanFileName text ≠ .invalid

namespace HumanNames

variable {names out : HumanNames}

theorem addEntries_extends {root : HumanSource} {entries : List (Option String)}
    (h : addEntries root entries names = .ok out) :
    Wellformed entries ∧ Extends names (entries.filterMap root.keyFile) out := by
  induction entries generalizing names with
  | nil =>
    cases h
    exact ⟨by simp [Wellformed], Extends.nil _⟩
  | cons entry rest ih =>
    cases entry with
    | none => cases h
    | some text =>
      unfold addEntries at h
      cases hParse : parseHumanFileName text with
      | ignored =>
        rw [hParse] at h
        obtain ⟨hValid, hRest⟩ := ih h
        refine ⟨List.forall_mem_cons.mpr ⟨⟨text, rfl, by rw [hParse]; simp⟩, hValid⟩, ?_⟩
        have hHead : root.keyFile (some text) = none := by simp [HumanSource.keyFile, hParse]
        rw [List.filterMap_cons_none hHead]
        exact hRest
      | invalid =>
        rw [hParse] at h
        cases h
      | key name isLocal =>
        rw [hParse] at h
        dsimp only at h
        split at h
        · rename_i hFresh
          obtain ⟨hValid, hRest⟩ := ih h
          refine ⟨List.forall_mem_cons.mpr ⟨⟨text, rfl, by rw [hParse]; simp⟩, hValid⟩, ?_⟩
          have hHead : root.keyFile (some text) = some ⟨name, root.location text isLocal⟩ := by
            simp [HumanSource.keyFile, hParse]
          rw [List.filterMap_cons_some hHead]
          -- the entry was inserted, the rest was added to what that left
          have hSingle : Extends names [⟨name, root.location text isLocal⟩]
              (names.insert name (root.location text isLocal)) := Extends.single hFresh
          exact hSingle.append hRest
        · cases h

variable {before : Option String → Option String → Prop} [DecidableRel before]

/-- A scan the client could use: nothing there, or a listing it accepts. -/
def Accepts : DirScan → Prop
  | .notDir => True
  | .unreadable => False
  | .listed entries => Wellformed entries

theorem addRoot_extends {root : HumanSource} {scan : DirScan}
    (h : addRoot before root scan names = .ok out) :
    Accepts scan ∧ Extends names (scan.keyFiles root) out := by
  cases scan with
  | notDir =>
    cases h
    exact ⟨trivial, Extends.nil _⟩
  | unreadable => cases h
  | listed entries =>
    obtain ⟨hValid, hAdded⟩ := addEntries_extends h
    have hPerm := List.perm_insertionSort before entries
    refine ⟨?_, hAdded.perm (hPerm.filterMap _)⟩
    intro entry hEntry
    exact hValid entry (hPerm.mem_iff.mpr hEntry)

theorem addRoots_extends {scan : HumanSource → DirScan} {roots : List HumanSource}
    (h : addRoots before scan roots names = .ok out) :
    (∀ root ∈ roots, Accepts (scan root)) ∧ Extends names (keyFiles scan roots) out := by
  induction roots generalizing names with
  | nil =>
    cases h
    exact ⟨by simp, Extends.nil _⟩
  | cons root rest ih =>
    unfold addRoots at h
    split at h
    · cases h
    · rename_i hMid
      obtain ⟨hHead, hFirst⟩ := addRoot_extends hMid
      obtain ⟨hTail, hRest⟩ := ih h
      exact ⟨List.forall_mem_cons.mpr ⟨hHead, hTail⟩, hFirst.append hRest⟩

theorem load_extends {scan : HumanSource → DirScan} {roots : List HumanSource}
    (h : load before scan roots = .ok names) :
    (∀ root ∈ roots, Accepts (scan root)) ∧ Extends ∅ (keyFiles scan roots) names :=
  addRoots_extends h

end HumanNames

/-! ## The broker's scan -/

-- `collect::<Result<Vec<_>, _>>` over what `read_dir` yields
def listedNames : List (Option DirEntry) → Option (List (Option String))
  | [] => some []
  | none :: _ => none
  | some entry :: rest => (listedNames rest).map (entry.name :: ·)

/-- What the client's two calls answer in a world, for any `is_dir`. -/
def World.scan (w : World) (isDir : String → Bool) (root : HumanSource) : DirScan :=
  if isDir root.dir then
    match w.readDir root.dir with
    | .entries list =>
      match listedNames list with
      | some names => .listed names
      | none => .unreadable
    | .notFound | .failed => .unreadable
  else .notDir

/-- A human directory is absent, or it is a directory that can be read. -/
def World.Readable (w : World) (isDir : String → Bool) (dir : String) : Prop :=
  (w.readDir dir = .notFound ∧ isDir dir = false) ∨
    ∃ entries : List DirEntry, w.readDir dir = .entries (entries.map some) ∧ isDir dir = true

theorem listedNames_map_some (entries : List DirEntry) :
    listedNames (entries.map some) = some (entries.map DirEntry.name) := by
  induction entries with
  | nil => rfl
  | cons entry rest ih =>
    rw [List.map_cons, listedNames, ih]
    rfl

def KeyFile.candidate (file : KeyFile) : Candidate :=
  { label := file.location.label, dir := file.location.dir, fileName := file.location.fileName }

-- the files of one key, as the broker's scan returns them
def candidatesOf (requested : SecretName) (files : List KeyFile) : List Candidate :=
  (files.filter fun file => file.name = requested).map KeyFile.candidate

theorem candidatesOf_append (requested : SecretName) (files more : List KeyFile) :
    candidatesOf requested (files ++ more) =
      candidatesOf requested files ++ candidatesOf requested more := by
  simp [candidatesOf]

namespace HumanStore

variable {requested : SecretName} {entries : List DirEntry}

theorem entryCandidates_ok {source : HumanSource}
    {out : List Candidate}
    (h : entryCandidates source requested (entries.map some) = .ok out) :
    out = candidatesOf requested ((entries.map DirEntry.name).filterMap source.keyFile) := by
  induction entries generalizing out with
  | nil =>
    cases h
    rfl
  | cons entry rest ih =>
    rw [List.map_cons, entryCandidates] at h
    rw [List.map_cons]
    cases hName : entry.name with
    | none =>
      rw [hName] at h
      rw [List.filterMap_cons_none rfl]
      exact ih h
    | some text =>
      rw [hName] at h
      dsimp only at h
      cases hParse : parseHumanFileName text with
      | ignored =>
        rw [hParse] at h
        rw [List.filterMap_cons_none (by simp [HumanSource.keyFile, hParse])]
        exact ih h
      | invalid =>
        rw [hParse] at h
        cases h
      | key name isLocal =>
        rw [hParse] at h
        have hHead : source.keyFile (some text) = some ⟨name, source.location text isLocal⟩ := by
          simp [HumanSource.keyFile, hParse]
        rw [List.filterMap_cons_some hHead]
        cases hMore : entryCandidates source requested (rest.map some) with
        | error =>
          rw [hMore] at h
          cases h
        | ok =>
          rw [hMore] at h
          have hRest := ih hMore
          subst hRest
          -- the entry is kept exactly when its key is the requested one
          by_cases hKey : name = requested
          · have hOut := Except.ok.inj ((if_pos hKey).symm.trans h)
            rw [← hOut]
            simp [candidatesOf, hKey, KeyFile.candidate, HumanSource.location]
          · have hOut := Except.ok.inj ((if_neg hKey).symm.trans h)
            rw [← hOut]
            simp [candidatesOf, hKey]

theorem entryCandidates_of_wellformed {source : HumanSource}
    (hValid : Wellformed (entries.map DirEntry.name)) :
    ∃ out, entryCandidates source requested (entries.map some) = .ok out := by
  induction entries with
  | nil => exact ⟨[], rfl⟩
  | cons entry rest ih =>
    rw [List.map_cons] at hValid
    obtain ⟨⟨text, hName, hParse⟩, hRest⟩ := List.forall_mem_cons.mp hValid
    obtain ⟨more, hMore⟩ := ih hRest
    rw [List.map_cons, entryCandidates, hName]
    dsimp only
    split
    · exact ⟨more, hMore⟩
    · contradiction
    · rw [hMore]
      split
      · exact ⟨_, rfl⟩
      · exact ⟨_, rfl⟩

variable {w : World} {isDir : String → Bool}

theorem scan_of_absent {root : HumanSource} (hIs : isDir root.dir = false) :
    w.scan isDir root = .notDir := by
  simp [World.scan, hIs]

theorem scan_of_entries {root : HumanSource}
    (hRead : w.readDir root.dir = .entries (entries.map some)) (hIs : isDir root.dir) :
    w.scan isDir root = .listed (entries.map DirEntry.name) := by
  simp [World.scan, hIs, hRead, listedNames_map_some]

variable {roots : List HumanSource}

theorem sourceCandidates_ok
    {out : List Candidate} (hReadable : ∀ root ∈ roots, w.Readable isDir root.dir)
    (h : sourceCandidates w requested roots = .ok out) :
    out = candidatesOf requested (keyFiles (w.scan isDir) roots) := by
  induction roots generalizing out with
  | nil =>
    cases h
    rfl
  | cons root rest ih =>
    obtain ⟨hRoot, hRest⟩ := List.forall_mem_cons.mp hReadable
    have hSplit : keyFiles (w.scan isDir) (root :: rest) =
        (w.scan isDir root).keyFiles root ++ keyFiles (w.scan isDir) rest := rfl
    rw [hSplit, candidatesOf_append]
    unfold sourceCandidates at h
    rcases hRoot with ⟨hRead, hIs⟩ | ⟨entries, hRead, hIs⟩
    · rw [hRead] at h
      rw [scan_of_absent hIs, ih hRest h]
      rfl
    · rw [hRead] at h
      rw [scan_of_entries hRead hIs]
      cases hHere : entryCandidates root requested (entries.map some) with
      | error =>
        simp only [hHere] at h
        cases h
      | ok here =>
        cases hMore : sourceCandidates w requested rest with
        | error =>
          simp only [hHere, hMore] at h
          cases h
        | ok more =>
          simp only [hHere, hMore] at h
          have hOut : here ++ more = out := Except.ok.inj h
          rw [← hOut, entryCandidates_ok hHere, ih hRest hMore]
          rfl

theorem sourceCandidates_of_accepts (hReadable : ∀ root ∈ roots, w.Readable isDir root.dir)
    (hAccepts : ∀ root ∈ roots, HumanNames.Accepts (w.scan isDir root)) :
    ∃ out, sourceCandidates w requested roots = .ok out := by
  induction roots with
  | nil => exact ⟨[], rfl⟩
  | cons root rest ih =>
    obtain ⟨hRoot, hRest⟩ := List.forall_mem_cons.mp hReadable
    obtain ⟨hHead, hTail⟩ := List.forall_mem_cons.mp hAccepts
    obtain ⟨more, hMore⟩ := ih hRest hTail
    unfold sourceCandidates
    rcases hRoot with ⟨hRead, hIs⟩ | ⟨entries, hRead, hIs⟩
    · rw [hRead]
      exact ⟨more, hMore⟩
    · rw [scan_of_entries hRead hIs] at hHead
      have hEntries : ∃ here, entryCandidates root requested (entries.map some) = .ok here :=
        entryCandidates_of_wellformed hHead
      obtain ⟨here, hHere⟩ := hEntries
      rw [hRead]
      simp only [hHere, hMore]
      exact ⟨here ++ more, rfl⟩

theorem locate_ok {key : SecretName} {label : String}
    (hReadable : ∀ root ∈ roots, w.Readable isDir root.dir)
    (h : locate ⟨roots⟩ w key = .ok label) :
    ∃ file, (keyFiles (w.scan isDir) roots).filter (fun file => file.name = key) = [file] ∧
      file.location.label = label := by
  unfold locate candidates at h
  split at h
  · cases h
  · cases h
  · rename_i hOne
    have hFiles := sourceCandidates_ok hReadable hOne
    obtain ⟨file, hFilter, hFile⟩ := List.map_eq_singleton_iff.mp hFiles.symm
    refine ⟨file, hFilter, ?_⟩
    rw [← Except.ok.inj h, ← hFile]
    rfl
  · cases h

end HumanStore

/-! ## Client and broker agree -/

theorem filter_of_lookup {files : List KeyFile} {names : HumanNames}
    (hExtends : Extends ∅ files names) (key : SecretName) :
    files.filter (fun file => file.name = key) =
      ((names.lookup key).map fun location => ⟨key, location⟩).toList := by
  have hLookup : ∀ location, names.lookup key = some location ↔ ⟨key, location⟩ ∈ files := by
    intro location
    rw [hExtends.lookup_iff]
    simp
  cases hName : names.lookup key with
  | none =>
    refine List.filter_eq_nil_iff.mpr fun file hFile hKey => ?_
    have hPresent := (hLookup file.location).mpr (by
      rw [← of_decide_eq_true hKey]
      exact hFile)
    rw [hName] at hPresent
    cases hPresent
  | some location =>
    exact filter_eq_singleton hExtends.distinct ((hLookup location).mp hName)

/-- **Client and broker resolve human keys identically.** Where every human directory is absent or
readable, a load that succeeds maps a key to a location exactly when the broker locates the key
under that location's label. In every case the broker locates a key only if one file backs it. -/
theorem locate_agrees (before : Option String → Option String → Prop) [DecidableRel before]
    (w : World) (isDir : String → Bool) (roots : List HumanSource)
    (hReadable : ∀ root ∈ roots, w.Readable isDir root.dir) :
    (∀ names, HumanNames.load before (w.scan isDir) roots = .ok names → ∀ key,
      (∀ label, HumanStore.locate ⟨roots⟩ w key = .ok label ↔
        ∃ location, names.lookup key = some location ∧ location.label = label) ∧
      (HumanStore.locate ⟨roots⟩ w key = .error .notHumanKey ↔ names.lookup key = none)) ∧
    ∀ key label, HumanStore.locate ⟨roots⟩ w key = .ok label →
      ∃ file, (keyFiles (w.scan isDir) roots).filter (fun file => file.name = key) = [file] ∧
        file.location.label = label := by
  refine ⟨?_, fun key label h => HumanStore.locate_ok hReadable h⟩
  intro names hLoad key
  obtain ⟨hAccepts, hExtends⟩ := HumanNames.load_extends hLoad
  have hScan : ∃ out, HumanStore.sourceCandidates w key roots = .ok out :=
    HumanStore.sourceCandidates_of_accepts hReadable hAccepts
  obtain ⟨out, hOut⟩ := hScan
  have hCandidates := HumanStore.sourceCandidates_ok hReadable hOut
  rw [candidatesOf, filter_of_lookup hExtends] at hCandidates
  -- the broker's candidates are the map's entry for the key
  have hLocate : HumanStore.locate ⟨roots⟩ w key =
      match names.lookup key with
      | none => .error .notHumanKey
      | some location => .ok location.label := by
    unfold HumanStore.locate HumanStore.candidates
    rw [hOut, hCandidates]
    cases names.lookup key with
    | none | some => rfl
  rw [hLocate]
  cases names.lookup key with
  | none | some => simp

-- one root with a machine-local file of a key, a second root without a directory
def twoRoots : List HumanSource :=
  [{ label := "work", dir := "/w" }, { label := "home", dir := "/h" }]

def oneLocalFile : World where
  alive _ := false
  descendsFrom _ _ := false
  pathExists _ := false
  readDir dir :=
    if dir = "/w" then
      .entries [some ⟨some "K.local.env", .irregular⟩, some ⟨some "notes", .irregular⟩]
    else .notFound
  openDir _ := false

def workIsDir (dir : String) : Bool := dir = "/w"

theorem oneLocalFile_readable : ∀ root ∈ twoRoots, oneLocalFile.Readable workIsDir root.dir := by
  intro root hRoot
  rcases List.mem_pair.mp hRoot with rfl | rfl
  · exact .inr ⟨[⟨some "K.local.env", .irregular⟩, ⟨some "notes", .irregular⟩],
      by decide, by decide⟩
  · exact .inl ⟨by decide, by decide⟩

theorem locate_agrees_local_file :
    ∃ names, HumanNames.load (fun _ _ => True) (oneLocalFile.scan workIsDir) twoRoots = .ok names ∧
      names.lookup ⟨"K", by decide⟩ = some ⟨"work.local", "/w", "K.local.env"⟩ ∧
      HumanStore.locate ⟨twoRoots⟩ oneLocalFile ⟨"K", by decide⟩ = .ok "work.local" := by
  have hLoad :
      ((HumanNames.load (fun _ _ => True) (oneLocalFile.scan workIsDir) twoRoots).toOption.map
        fun names => names.lookup ⟨"K", by decide⟩) =
      some (some ⟨"work.local", "/w", "K.local.env"⟩) := by
    decide +kernel
  cases hNames : HumanNames.load (fun _ _ => True) (oneLocalFile.scan workIsDir) twoRoots with
  | error =>
    rw [hNames] at hLoad
    cases hLoad
  | ok names =>
    rw [hNames] at hLoad
    have hLookup := Option.some.inj hLoad
    obtain ⟨hAgree, -⟩ := locate_agrees (fun _ _ => True) oneLocalFile workIsDir twoRoots
      oneLocalFile_readable
    exact ⟨names, rfl, hLookup, ((hAgree names hNames _).1 _).mpr ⟨_, hLookup, rfl⟩⟩

end Forward.Secrets

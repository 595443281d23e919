import Forward.Edit.Tiers

/-!
# How many files a human-tier key has

The human door takes the place of an existing key, and that there is none, from the names its
process loaded when it started, before it had the write lock. A key that another process has given
a file in between may get a second one (`stale_names_second_file`). `Current` asks that names
without the key are not behind the disk.
-/

namespace Forward.Edit

open Lib Secrets

/-! ## Files of a key -/

/-- Each key has at most one file, over all roots and both of its names. -/
def OneFile (roots : List Root) (disk : Disk) : Prop :=
  ∀ key, ∀ root ∈ roots, ∀ root' ∈ roots, ∀ name name',
    FileAt disk root.source.dir name key → FileAt disk root'.source.dir name' key →
    root.source.dir = root'.source.dir ∧ name = name'

/-- The locations of loaded names are files of their keys, below the roots. -/
def Sited (roots : List Root) (disk : Disk) (names : HumanNames) : Prop :=
  ∀ key location, names.lookup key = some location →
    (∃ root ∈ roots, root.source.dir = location.dir) ∧
      FileAt disk location.dir location.fileName key

def Sole (roots : List Root) (disk : Disk) (dir fileName : String) : Prop :=
  ∀ key isLocal, parseHumanFileName fileName = .key key isLocal →
    ∀ root ∈ roots, ∀ name, FileAt disk root.source.dir name key →
      root.source.dir = dir ∧ name = fileName

/-! ## Effects -/

section

variable {roots : List Root} {disk : Disk} {key : SecretName} {dir fileName : String}

theorem Sited.keep {names : HumanNames} (h : Sited roots disk names) (effect : Effect) :
    Sited roots (effect.onDisk disk) names := by
  intro key location hKnown
  obtain ⟨hRoot, hFile⟩ := h key location hKnown
  exact ⟨hRoot, hFile.keep effect⟩

theorem OneFile.put {bytes : Bytes} (h : OneFile roots disk)
    (hSole : Sole roots disk dir fileName) :
    OneFile roots ((Effect.put dir fileName bytes).onDisk disk) := by
  intro key root hRoot root' hRoot' name name' hFile hFile'
  -- a file of the key is the one that was put, or it is old and the key's only one
  have hPlace : ∀ root ∈ roots, ∀ name, (∃ bytes', Effect.put dir fileName bytes =
      .put root.source.dir name bytes') → root.source.dir = dir ∧ name = fileName := by
    rintro root - name ⟨bytes', hPut⟩
    injection hPut with hDir hName
    exact ⟨hDir.symm, hName.symm⟩
  rcases hFile.old with hOld | hNew
  · rcases hFile'.old with hOld' | hNew'
    · exact h key root hRoot root' hRoot' name name' hOld hOld'
    · obtain ⟨hDir', hName'⟩ := hPlace root' hRoot' name' hNew'
      obtain ⟨-, -, isLocal, -, -, hParse⟩ := hFile'
      rw [hName'] at hParse
      obtain ⟨hDir, hName⟩ := hSole key isLocal hParse root hRoot name hOld
      exact ⟨hDir.trans hDir'.symm, hName.trans hName'.symm⟩
  · obtain ⟨hDir, hName⟩ := hPlace root hRoot name hNew
    rcases hFile'.old with hOld' | hNew'
    · obtain ⟨-, -, isLocal, -, -, hParse⟩ := hFile
      rw [hName] at hParse
      obtain ⟨hDir', hName'⟩ := hSole key isLocal hParse root' hRoot' name' hOld'
      exact ⟨hDir.trans hDir'.symm, hName.trans hName'.symm⟩
    · obtain ⟨hDir', hName'⟩ := hPlace root' hRoot' name' hNew'
      exact ⟨hDir.trans hDir'.symm, hName.trans hName'.symm⟩

theorem OneFile.makeDir (h : OneFile roots disk) :
    OneFile roots ((Effect.makeDir dir).onDisk disk) := by
  intro key root hRoot root' hRoot' name name' hFile hFile'
  rcases hFile.old with hOld | ⟨bytes, hPut⟩
  · rcases hFile'.old with hOld' | ⟨bytes', hPut'⟩
    · exact h key root hRoot root' hRoot' name name' hOld hOld'
    · cases hPut'
  · cases hPut

theorem Sole.makeDir {made : String} (h : Sole roots disk dir fileName) :
    Sole roots ((Effect.makeDir made).onDisk disk) dir fileName := by
  intro key isLocal hParse root hRoot name hFile
  rcases hFile.old with hOld | ⟨bytes, hPut⟩
  · exact h key isLocal hParse root hRoot name hOld
  · cases hPut

theorem OneFile.sole {names : HumanNames} {location : HumanLocation} (h : OneFile roots disk)
    (hSited : Sited roots disk names) (hKnown : names.lookup key = some location) :
    Sole roots disk location.dir location.fileName := by
  obtain ⟨⟨root', hRoot', hDir'⟩, hThere⟩ := hSited key location hKnown
  have hOwn := hThere
  obtain ⟨-, -, isLocal', -, -, hParse'⟩ := hOwn
  intro other isLocal hParse root hRoot name hFile
  rw [hParse'] at hParse
  injection hParse with hSame
  subst hSame
  rw [← hDir'] at hThere
  obtain ⟨hDir, hName⟩ := h key root hRoot root' hRoot' name location.fileName hFile hThere
  exact ⟨hDir.trans hDir', hName⟩

theorem Sole.new {isLocal : Bool} (hNew : ¬ InHuman roots disk key) :
    Sole roots disk dir (fileNameOf key isLocal) := by
  intro other isLocal' hParse root hRoot name hFile
  rw [parseHumanFileName_of] at hParse
  injection hParse with hSame
  subst hSame
  exact absurd ⟨root, hRoot, humanAt_iff.mpr ⟨name, hFile⟩⟩ hNew

end

/-! ## Loading -/

section

variable {before : Option String → Option String → Prop} [DecidableRel before]
  {roots : List Root} {disk : Disk} {reply : Reply} {root : Root} {names names' : HumanNames}

theorem fileAt_of_mem_keyFiles {file : KeyFile}
    (h : file ∈ (disk.scan reply root).keyFiles root.source) :
    file.location.dir = root.source.dir ∧
      FileAt disk root.source.dir file.location.fileName file.name := by
  cases hHuman : disk.human root.source.dir with
  | none =>
    rw [show disk.scan reply root = .notDir by simp [Disk.scan, hHuman]] at h
    cases h
  | some files =>
    cases hScan : disk.scan reply root with
    | notDir | unreadable =>
      rw [hScan] at h
      cases h
    | listed entries =>
      have hEntries : entries = files.keys.map FileName.toStr := by
        simp only [Disk.scan, hHuman] at hScan
        split at hScan
        · split at hScan
          · exact (DirScan.listed.inj hScan).symm
          · cases hScan
        · cases hScan
      rw [hScan, hEntries] at h
      obtain ⟨entry, hEntry, hFile⟩ := List.mem_filterMap.mp h
      obtain ⟨fileName, hMem, rfl⟩ := List.mem_map.mp hEntry
      cases fileName with
      | foreign => cases hFile
      | text =>
        simp only [FileName.toStr, HumanSource.keyFile] at hFile
        split at hFile
        · rename_i isLocal hParse
          cases hFile
          rw [← AList.mem_keys, ← AList.lookup_isSome] at hMem
          obtain ⟨bytes, hBytes⟩ := Option.isSome_iff_exists.mp hMem
          exact ⟨rfl, files, bytes, isLocal, hHuman, hBytes, hParse⟩
        all_goals cases hFile

theorem Sited.addRoot (h : Sited roots disk names) (hRoot : root ∈ roots)
    (hLoad : HumanNames.addRoot before root.source (disk.scan reply root) names = .ok names') :
    Sited roots disk names' := by
  obtain ⟨-, hExtends⟩ := HumanNames.addRoot_extends hLoad
  intro key location hLookup
  rcases (hExtends.lookup_iff key location).mp hLookup with hOld | hNew
  · exact h key location hOld
  · obtain ⟨hDir, hFile⟩ := fileAt_of_mem_keyFiles hNew
    refine ⟨⟨root, hRoot, hDir.symm⟩, ?_⟩
    show FileAt disk location.dir location.fileName key
    have hDir' : location.dir = root.source.dir := hDir
    rw [hDir']
    exact hFile

end

/-! ## One step -/

/-- What a process relies on where it stands: its names before the decision, its
target after it. -/
def Task.Settled (roots : List Root) (disk : Disk) : Task → Prop
  | .loading _ rest names => (∀ root ∈ rest, root ∈ roots) ∧ Sited roots disk names
  | .locking (.human _ _ _ names) _ _ | .searching _ _ _ names _ | .resolving _ _ _ names =>
    Sited roots disk names
  | .making _ _ dir fileName | .editing dir fileName | .composing _ _ dir fileName
  | .sealing _ dir fileName _ | .placing _ dir fileName _ => Sole roots disk dir fileName
  | _ => True

def Current (roots : List Root) (s : Sys) : Action → Prop
  | .start .. => True
  | .turn p _ =>
    match s.tasks p with
    | some (.resolving key _ _ names) => names.lookup key = none → ¬ InHuman roots s.disk key
    | _ => True

section

variable {before : Option String → Option String → Prop} [DecidableRel before]
  {roots : List Root} {disk : Disk} {locks : Nat → Option Nat} {reply : Reply}
  {task task' : Task} {effect : Effect}

-- outside the lock a process has names at most, and files are not removed
theorem Task.Settled.frame (h : task.Settled roots disk) (hOutside : task.critical = false)
    (effect : Effect) : task.Settled roots (effect.onDisk disk) := by
  cases task with
  | locking purpose =>
    cases purpose with
    | agent => trivial
    | human => exact Sited.keep h effect
  | loading => exact ⟨h.1, Sited.keep h.2 effect⟩
  | leaving | returned => trivial
  | _ => cases hOutside

theorem Task.Settled.turn (hSettled : task.Settled roots disk) (hOne : OneFile roots disk)
    (hCurrent : ∀ key flags piped names, task = .resolving key flags piped names →
      names.lookup key = none → ¬ InHuman roots disk key)
    (h : Turn before roots disk locks reply task task' effect) :
    task'.Settled roots (effect.onDisk disk) ∧ OneFile roots (effect.onDisk disk) := by
  cases h with
  | load hLoad =>
    obtain ⟨hRest, hSited⟩ := hSettled
    have hRoot := hRest _ List.mem_cons_self
    exact ⟨⟨fun root h => hRest root (List.mem_cons_of_mem _ h), hSited.addRoot hRoot hLoad⟩, hOne⟩
  | openHuman => exact ⟨hSettled.2, hOne⟩
  | enterHuman | pass | search | searched | compose | encipher => exact ⟨hSettled, hOne⟩
  | rotate hKnown | change hKnown => exact ⟨hOne.sole hSettled hKnown, hOne⟩
  | create hNew => exact ⟨Sole.new (hCurrent _ _ _ _ rfl hNew), hOne⟩
  | makeDir => exact ⟨Sole.makeDir hSettled, hOne.makeDir⟩
  | edit | place => exact ⟨trivial, hOne.put hSettled⟩
  | lock _ | lockedBefore _ =>
    rename_i purpose root rest locked _
    cases purpose with
    | agent => exact ⟨trivial, hOne⟩
    | human => exact ⟨hSettled, hOne⟩
  -- the agent doors leave the human directories alone
  | _ => exact ⟨trivial, hOne⟩

end

/-! ## Whole runs -/

section

variable {before : Option String → Option String → Prop} [DecidableRel before]
  {roots : List Root} {disk : Disk} {s t : Sys} {a : Action}

structure Settled (roots : List Root) (s : Sys) : Prop where
  tasks : ∀ p task, s.tasks p = some task → task.Settled roots s.disk
  oneFile : OneFile roots s.disk

theorem settled_step (hRoots : roots ≠ []) (hLocked : Locked roots s) (hSettled : Settled roots s)
    (hCurrent : Current roots s a) (hMove : Sys.Move before roots s a t) : Settled roots t := by
  cases hMove with
  | start =>
    refine ⟨?_, hSettled.oneFile⟩
    intro q task hTask'
    rcases update_some_cases hTask' with ⟨rfl, rfl⟩ | ⟨-, hOld⟩
    · refine ⟨fun root hRoot => hRoot, ?_⟩
      intro key location hLookup
      cases hLookup
    · exact hSettled.tasks q task hOld
  | turn hTask hTurn =>
    rename_i p reply task task' effect
    simp only [Current, hTask] at hCurrent
    have hOwn := (hSettled.tasks p task hTask).turn hSettled.oneFile
      (by rintro key flags piped names rfl; exact hCurrent) hTurn
    refine ⟨?_, hOwn.2⟩
    intro q other hTask'
    rcases update_some_cases hTask' with ⟨rfl, rfl⟩ | ⟨hNe, hOld⟩
    · exact hOwn.1
    · have hOther := hSettled.tasks q other hOld
      rcases critical_of_disk hTurn with hCritical | hSame
      · cases hInside : other.critical with
        | false => exact hOther.frame hInside effect
        | true =>
          have hUnique := critical_unique hRoots (hLocked p task hTask) (hLocked q other hOld)
            hCritical hInside
          exact absurd hUnique.symm hNe
      · rw [hSame]
        exact hOther

theorem settled_run (hRoots : roots ≠ []) (hOne : OneFile roots disk)
    (hRun : Path (edits before roots disk) (Current roots) (edits before roots disk).init s) :
    Settled roots s := by
  refine Path.strengthen (I := Settled roots) ?_ hRun ⟨?_, hOne⟩
  · intro x a y hx hCurrent hSettled hStep
    exact settled_step hRoots (locked_reachable hx.forget) hSettled hCurrent (edits_move hStep)
  · intro p task hTask
    cases hTask

end

/-- **A key has one file.** In every run of the doors in which no process takes a
key for new that has a file by then, each key has at most one human-tier file at
every moment, if it had at the start. -/
theorem one_human_file (before : Option String → Option String → Prop) [DecidableRel before]
    (roots : List Root) (disk : Disk) (hOne : OneFile roots disk) (s : Sys)
    (hRun : Path (edits before roots disk) (Current roots) (edits before roots disk).init s) :
    OneFile roots s.disk := by
  by_cases hRoots : roots = []
  · subst hRoots
    intro key root hRoot
    cases hRoot
  · exact (settled_run hRoots hOne hRun).oneFile

/-! ## Two new files -/

def noFiles : Disk where
  agent _ := none
  human _ := none

theorem noFiles_oneFile (roots : List Root) : OneFile roots noFiles := by
  rintro key root - root' - name name' ⟨files, -, -, hDir, -, -⟩
  cases hDir

def keyK : SecretName := ⟨"K", by decide⟩

/-- `printf v | secrets edit-human K --source …`, until its names are loaded. -/
def startPiped (p : Nat) (source : String) : List Action :=
  [.start p (.human keyK ⟨some (some source), false⟩ true),
   .turn p ⟨true, true, []⟩, .turn p ⟨true, true, []⟩, .turn p ⟨true, true, []⟩]

/-- The rest of it: two roots to lock, four agent files, and the new file. -/
def finishPiped (p : Nat) : List Action := List.replicate 14 (.turn p ⟨true, true, [118]⟩)

theorem one_human_file_new_key :
    ∃ s, Path (edits (fun _ _ => True) [workRoot, homeRoot] noFiles)
        (Current [workRoot, homeRoot])
        (edits (fun _ _ => True) [workRoot, homeRoot] noFiles).init s ∧
      FileAt s.disk "/w/h" "K.env" keyK ∧ OneFile [workRoot, homeRoot] s.disk := by
  let sys := edits (fun _ _ => True) [workRoot, homeRoot] noFiles
  -- the decision is made while there is no human directory at all
  let check : Sys → Action → Bool := fun s a =>
    match a with
    | .start .. => true
    | .turn p _ =>
      match s.tasks p with
      | some (.resolving ..) =>
        (s.disk.human "/w/h").isNone && (s.disk.human "/h/h").isNone
      | _ => true
  have hReplay : (((sys.guard check).run sys.init (startPiped 0 "work" ++ finishPiped 0)).map
      fun s => decide (((s.disk.human "/w/h").bind fun files =>
        files.lookup (.text "K.env")) = some [118])) = some true := by
    decide +kernel
  rw [Option.map_eq_some_iff] at hReplay
  obtain ⟨s, hRun, hSeen⟩ := hReplay
  have hPath : Path sys (Current [workRoot, homeRoot]) sys.init s := by
    refine (Path.of_run hRun).unguard ?_
    intro x a hCheck
    cases a with
    | start => trivial
    | turn =>
      simp only [Current]
      split
      · rename_i hTask
        simp only [check, hTask, Bool.and_eq_true, Option.isNone_iff_eq_none] at hCheck
        rintro - ⟨root, hRoot, files, -, -, -, hDir, -, -⟩
        simp only [List.mem_cons, List.not_mem_nil, or_false] at hRoot
        rcases hRoot with rfl | rfl
        · rw [show workRoot.source.dir = "/w/h" from rfl, hCheck.1] at hDir
          cases hDir
        · rw [show homeRoot.source.dir = "/h/h" from rfl, hCheck.2] at hDir
          cases hDir
      · trivial
  obtain ⟨files, hDir, hFile⟩ := Option.bind_eq_some_iff.mp (of_decide_eq_true hSeen)
  exact ⟨s, hPath, ⟨files, [118], false, hDir, hFile, parseHumanFileName_of keyK false⟩,
    one_human_file (fun _ _ => True) [workRoot, homeRoot] noFiles (noFiles_oneFile _) s hPath⟩

/-- **Names that are older than the lock.** Two processes that set `K` in
different roots both load their names before either has published; the second
then makes a second file. -/
theorem stale_names_second_file :
    OneFile [workRoot, homeRoot] noFiles ∧
    ∃ s, Reachable (edits (fun _ _ => True) [workRoot, homeRoot] noFiles) s ∧
      ¬ OneFile [workRoot, homeRoot] s.disk := by
  let sys := edits (fun _ _ => True) [workRoot, homeRoot] noFiles
  have hReplay : ((sys.run sys.init (startPiped 0 "work" ++ startPiped 1 "home" ++
      finishPiped 0 ++ finishPiped 1)).map fun s =>
        decide (((s.disk.human "/w/h").bind fun files =>
          files.lookup (.text "K.env")) = some [118]) &&
        decide (((s.disk.human "/h/h").bind fun files =>
          files.lookup (.text "K.env")) = some [118])) = some true := by
    decide +kernel
  obtain ⟨s, hReach, hSeen⟩ := Reachable.of_replay hReplay
  simp only [Bool.and_eq_true, decide_eq_true_eq, Option.bind_eq_some_iff] at hSeen
  obtain ⟨⟨files, hDir, hFile⟩, files', hDir', hFile'⟩ := hSeen
  refine ⟨noFiles_oneFile _, s, hReach, ?_⟩
  intro hOne
  have hParse : parseHumanFileName "K.env" = .key keyK false := parseHumanFileName_of keyK false
  have hSame := hOne keyK workRoot List.mem_cons_self homeRoot
    (List.mem_cons_of_mem _ List.mem_cons_self) "K.env" "K.env"
    ⟨files, [118], false, hDir, hFile, hParse⟩ ⟨files', [118], false, hDir', hFile', hParse⟩
  exact absurd hSame.1 (by decide)

end Forward.Edit

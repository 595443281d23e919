import Forward.Edit.Scans
import Forward.Edit.WriteLock

/-!
# A key lives in one tier

Every door checks the other tier and publishes under one lock, so what a process has checked stays
true until it publishes. The checks trust `is_dir` and `is_file`, which answer false where the
metadata cannot be read; `Truthful` rules that out (otherwise see `unreadable_root_clash`).
-/

namespace Forward.Edit

open Lib Secrets

/-! ## Tiers -/

def InHuman (roots : List Root) (disk : Disk) (key : SecretName) : Prop :=
  ∃ root ∈ roots, HumanAt disk root key

def InAgent (roots : List Root) (disk : Disk) (key : SecretName) : Prop :=
  ∃ path ∈ agentFiles roots, ∃ bytes, disk.agent path = some bytes ∧ key ∈ dotenvNames bytes

def Separate (roots : List Root) (disk : Disk) : Prop :=
  ∀ key, isMetadata key = false → ¬ (InAgent roots disk key ∧ InHuman roots disk key)

/-! ## What a process knows -/

/-- A file of this name gives no key to the human tier that the agent tier has. -/
def Allowed (roots : List Root) (disk : Disk) (fileName : String) : Prop :=
  ∀ key isLocal, parseHumanFileName fileName = .key key isLocal → ¬ InAgent roots disk key

def Task.Knows (roots : List Root) (disk : Disk) : Task → Prop
  | .loading _ _ names => Named names
  | .locking (.human _ _ _ names) _ _ => Named names
  | .clashing _ draft names rest human =>
    (∀ name ∈ dotenvNames draft.bytes, name ∈ names) ∧
      ∃ done, roots = done ++ rest ∧
        ∀ root ∈ done, ∀ key, HumanAt disk root key → (human.lookup key).isSome = true
  | .comparing _ _ bytes | .renaming _ bytes | .encrypting _ bytes | .linking _ bytes =>
    ∀ name ∈ dotenvNames bytes, ¬ InHuman roots disk name
  | .searching key _ _ names rest =>
    Named names ∧ ∃ done, agentFiles roots = done ++ rest ∧
      ∀ path ∈ done, ∀ bytes, disk.agent path = some bytes → key ∉ dotenvNames bytes
  | .resolving key _ _ names => Named names ∧ ¬ InAgent roots disk key
  | .making _ _ _ fileName | .editing _ fileName | .composing _ _ _ fileName
  | .sealing _ _ fileName _ | .placing _ _ fileName _ => Allowed roots disk fileName
  | _ => True

theorem Task.Knows.frame {roots : List Root} {disk disk' : Disk} {task : Task}
    (h : task.Knows roots disk) (hOutside : task.critical = false) : task.Knows roots disk' := by
  cases task with
  | locking purpose =>
    cases purpose with
    | agent => trivial
    | human => exact h
  | loading => exact h
  | leaving | returned => trivial
  | _ => cases hOutside

/-! ## Effects -/

section

variable {roots : List Root} {disk : Disk} {key : SecretName} {root : Root}

variable {dir : String} {bytes : Bytes}

theorem humanAt_put {fileName : String}
    (h : HumanAt ((Effect.put dir fileName bytes).onDisk disk) root key) :
    HumanAt disk root key ∨ ∃ isLocal, parseHumanFileName fileName = .key key isLocal := by
  obtain ⟨name, hFile⟩ := humanAt_iff.mp h
  rcases hFile.old with hOld | ⟨bytes', hPut⟩
  · exact .inl (humanAt_iff.mpr ⟨name, hOld⟩)
  · -- the file that was put there
    injection hPut with _ hName
    obtain ⟨-, -, isLocal, -, -, hParse⟩ := hFile
    rw [hName]
    exact .inr ⟨isLocal, hParse⟩

theorem humanAt_makeDir
    (h : HumanAt ((Effect.makeDir dir).onDisk disk) root key) : HumanAt disk root key := by
  obtain ⟨name, hFile⟩ := humanAt_iff.mp h
  rcases hFile.old with hOld | ⟨bytes, hPut⟩
  · exact humanAt_iff.mpr ⟨name, hOld⟩
  · cases hPut

theorem inAgent_publish {path : String}
    (h : InAgent roots ((Effect.publish path bytes).onDisk disk) key) :
    InAgent roots disk key ∨ key ∈ dotenvNames bytes := by
  obtain ⟨other, hOther, found, hFile, hName⟩ := h
  by_cases hHere : other = path
  · subst hHere
    have hSet : ((Effect.publish other bytes).onDisk disk).agent other = some bytes :=
      Function.update_self ..
    rw [hSet] at hFile
    rw [← Option.some.inj hFile] at hName
    exact .inr hName
  · refine .inl ⟨other, hOther, found, ?_, hName⟩
    rw [← hFile]
    exact (Function.update_of_ne hHere _ _).symm

theorem Separate.publish {path : String} (h : Separate roots disk)
    (hClear : ∀ name ∈ dotenvNames bytes, ¬ InHuman roots disk name) :
    Separate roots ((Effect.publish path bytes).onDisk disk) := by
  rintro key hKey ⟨hAgent, hHuman⟩
  rcases inAgent_publish hAgent with hOld | hNew
  · exact h key hKey ⟨hOld, hHuman⟩
  · exact hClear key hNew hHuman

theorem Separate.put {fileName : String} (h : Separate roots disk)
    (hAllowed : Allowed roots disk fileName) :
    Separate roots ((Effect.put dir fileName bytes).onDisk disk) := by
  rintro key hKey ⟨hAgent, root, hRoot, hAt⟩
  rcases humanAt_put hAt with hOld | ⟨isLocal, hParse⟩
  · exact h key hKey ⟨hAgent, root, hRoot, hOld⟩
  · exact hAllowed key isLocal hParse hAgent

theorem Separate.makeDir (h : Separate roots disk) :
    Separate roots ((Effect.makeDir dir).onDisk disk) := by
  rintro key hKey ⟨hAgent, root, hRoot, hAt⟩
  exact h key hKey ⟨hAgent, root, hRoot, humanAt_makeDir hAt⟩

end

/-! ## One step -/

/-- The answers on which the checks rely are true: a human directory that is
there is seen by the scan before a publication, and an agent file that is there
by the search of the human door. -/
def Truthful (s : Sys) : Action → Prop
  | .start .. => True
  | .turn p reply =>
    match s.tasks p with
    | some (.clashing _ _ _ (root :: _) _) =>
      s.disk.human root.source.dir ≠ none → reply.seen = true
    | some (.searching _ _ _ _ (path :: _)) => s.disk.agent path ≠ none → reply.seen = true
    | _ => True

section

variable {before : Option String → Option String → Prop} [DecidableRel before]
  {roots : List Root} {disk : Disk} {locks : Nat → Option Nat} {reply : Reply}
  {task task' : Task} {effect : Effect}

theorem Allowed.location {names : HumanNames} {key : SecretName} {location : HumanLocation}
    (hNamed : Named names) (hKnown : names.lookup key = some location)
    (hClear : ¬ InAgent roots disk key) : Allowed roots disk location.fileName := by
  intro other isLocal hParse
  obtain ⟨_, hOwn⟩ := hNamed key location hKnown
  rw [hOwn] at hParse
  injection hParse with hSame
  rw [← hSame]
  exact hClear

theorem Task.Knows.turn (hKnows : task.Knows roots disk) (hSeparate : Separate roots disk)
    (hSeenDir : ∀ path draft names root rest human,
      task = .clashing path draft names (root :: rest) human →
      disk.human root.source.dir ≠ none → reply.seen)
    (hSeenFile : ∀ key flags piped names path rest,
      task = .searching key flags piped names (path :: rest) →
      disk.agent path ≠ none → reply.seen)
    (h : Turn before roots disk locks reply task task' effect) :
    task'.Knows roots (effect.onDisk disk) ∧ Separate roots (effect.onDisk disk) := by
  cases h with
  | load hLoad => exact ⟨Named.addRoot hKnows hLoad, hSeparate⟩
  | openHuman | compare | compose | encipher => exact ⟨hKnows, hSeparate⟩
  | enterHuman => exact ⟨⟨hKnows, [], rfl, nofun⟩, hSeparate⟩
  | stage hNames | draft hNames =>
    refine ⟨⟨?_, [], rfl, nofun⟩, hSeparate⟩
    intro name hName
    rw [namesOf_ok hNames]
    exact hName
  | rescan hLoad =>
    obtain ⟨hNames, done, hDone, hAll⟩ := hKnows
    rename_i root rest human human'
    refine ⟨⟨hNames, done ++ [root], by rw [hDone]; simp, ?_⟩, hSeparate⟩
    intro other hOther key hAt
    rcases List.mem_append.mp hOther with hOther | hOther
    · exact lookup_of_lookup hLoad (hAll other hOther key hAt)
    · rw [List.mem_singleton.mp hOther] at hAt
      exact lookup_of_humanAt hLoad (hSeenDir _ _ _ _ _ _ rfl) hAt
  | clearEdited hClear | clearCreated hClear =>
    obtain ⟨hNames, done, hDone, hAll⟩ := hKnows
    rw [List.append_nil] at hDone
    subst hDone
    refine ⟨?_, hSeparate⟩
    rintro name hName ⟨root, hRoot, hAt⟩
    have hFound := hAll root hRoot name hAt
    rw [hClear name (hNames name hName)] at hFound
    cases hFound
  | rename | link => exact ⟨trivial, hSeparate.publish hKnows⟩
  | encrypt hKeeps => exact ⟨fun name hName => hKnows name (hKeeps.1 name hName), hSeparate⟩
  | pass hAbsent =>
    obtain ⟨hNamed, done, hDone, hAll⟩ := hKnows
    rename_i path rest
    refine ⟨⟨hNamed, done ++ [path], by rw [hDone]; simp, ?_⟩, hSeparate⟩
    intro other hOther bytes hFile
    rcases List.mem_append.mp hOther with hOther | hOther
    · exact hAll other hOther bytes hFile
    · -- the file is not there, or the answer was not true
      have hFile' : disk.agent other = some bytes := hFile
      rw [List.mem_singleton.mp hOther] at hFile'
      rcases hAbsent with hNone | hUnseen
      · rw [hNone] at hFile'
        cases hFile'
      · have hSeen := hSeenFile _ _ _ _ _ _ rfl (by rw [hFile']; simp)
        rw [hUnseen] at hSeen
        cases hSeen
  | search hRead hNames hOther =>
    obtain ⟨hNamed, done, hDone, hAll⟩ := hKnows
    rename_i path rest bytes found
    refine ⟨⟨hNamed, done ++ [path], by rw [hDone]; simp, ?_⟩, hSeparate⟩
    intro other hMem bytes' hFile
    rcases List.mem_append.mp hMem with hMem | hMem
    · exact hAll other hMem bytes' hFile
    · have hFile' : disk.agent other = some bytes' := hFile
      rw [List.mem_singleton.mp hMem, hRead] at hFile'
      rw [← Option.some.inj hFile', ← namesOf_ok hNames]
      exact hOther
  | searched =>
    obtain ⟨hNamed, done, hDone, hAll⟩ := hKnows
    rw [List.append_nil] at hDone
    refine ⟨⟨hNamed, ?_⟩, hSeparate⟩
    rintro ⟨path, hPath, bytes, hFile, hName⟩
    rw [hDone] at hPath
    exact hAll path hPath bytes hFile hName
  | rotate hKnown | change hKnown =>
    exact ⟨Allowed.location hKnows.1 hKnown hKnows.2, hSeparate⟩
  | create hNew hRoot =>
    rename_i key flags piped names root
    refine ⟨?_, hSeparate⟩
    intro other isLocal hParse
    rw [parseHumanFileName_of] at hParse
    injection hParse with hSame
    rw [← hSame]
    exact hKnows.2
  | makeDir => exact ⟨hKnows, hSeparate.makeDir⟩
  | edit | place => exact ⟨trivial, hSeparate.put hKnows⟩
  | refuse _ | openAgent _ | giveUp _ _ | enterAgent | found | missing | read _ | leave =>
    exact ⟨trivial, hSeparate⟩
  | lock _ | lockedBefore _ =>
    rename_i purpose root rest locked _
    cases purpose with
    | agent => exact ⟨trivial, hSeparate⟩
    | human => exact ⟨hKnows, hSeparate⟩

end

/-! ## Whole runs -/

section

variable {before : Option String → Option String → Prop} [DecidableRel before]
  {roots : List Root} {disk : Disk} {s t : Sys} {a : Action}

structure Guarded (roots : List Root) (s : Sys) : Prop where
  knows : ∀ p task, s.tasks p = some task → task.Knows roots s.disk
  separate : Separate roots s.disk

theorem guarded_step (hRoots : roots ≠ []) (hLocked : Locked roots s) (hGuarded : Guarded roots s)
    (hTruthful : Truthful s a) (hMove : Sys.Move before roots s a t) : Guarded roots t := by
  cases hMove with
  | start =>
    refine ⟨?_, hGuarded.separate⟩
    intro q task hTask'
    rcases update_some_cases hTask' with ⟨rfl, rfl⟩ | ⟨-, hOld⟩
    · -- nothing is loaded yet
      intro key location hLookup
      cases hLookup
    · exact hGuarded.knows q task hOld
  | turn hTask hTurn =>
    rename_i p reply task task' effect
    simp only [Truthful, hTask] at hTruthful
    have hOwn := (hGuarded.knows p task hTask).turn hGuarded.separate
      (by rintro path draft names root rest human rfl; exact hTruthful)
      (by rintro key flags piped names path rest rfl; exact hTruthful) hTurn
    refine ⟨?_, hOwn.2⟩
    intro q other hTask'
    rcases update_some_cases hTask' with ⟨rfl, rfl⟩ | ⟨hNe, hOld⟩
    · exact hOwn.1
    · have hKnows := hGuarded.knows q other hOld
      rcases critical_of_disk hTurn with hCritical | hSame
      · -- the process has the lock, so the other is outside
        cases hOther : other.critical with
        | false => exact hKnows.frame hOther
        | true =>
          have hUnique := critical_unique hRoots (hLocked p task hTask) (hLocked q other hOld)
            hCritical hOther
          exact absurd hUnique.symm hNe
      · rw [hSame]
        exact hKnows

theorem guarded_run (hRoots : roots ≠ []) (hSeparate : Separate roots disk)
    (hRun : Path (edits before roots disk) Truthful (edits before roots disk).init s) :
    Guarded roots s := by
  refine Path.strengthen (I := Guarded roots) ?_ hRun ⟨?_, hSeparate⟩
  · intro x a y hx hTruthful hGuarded hStep
    exact guarded_step hRoots (locked_reachable hx.forget) hGuarded hTruthful (edits_move hStep)
  · intro p task hTask
    cases hTask

/-- What has been published, its process has returned with success. -/
def Accounted (s : Sys) : Prop :=
  ∀ entry ∈ s.trail, s.tasks entry.process = some (.leaving (.ok ())) ∨
    s.tasks entry.process = some (.returned (.ok ()))

theorem accounted_step (hAccounted : Accounted s) (hMove : Sys.Move before roots s a t) :
    Accounted t := by
  cases hMove with
  | start hTask =>
    rename_i p door
    intro entry hEntry
    have hOld := hAccounted entry hEntry
    have hNe : entry.process ≠ p := by
      rintro rfl
      rw [hTask] at hOld
      rcases hOld with hOld | hOld <;> cases hOld
    exact hOld.imp (update_some_of_ne hNe) (update_some_of_ne hNe)
  | turn hTask hTurn =>
    rename_i p reply task task' effect
    -- the entries of other processes, and those of this one if it has left
    have hKeep : ∀ entry ∈ s.trail,
        Function.update s.tasks p (some task') entry.process = some (.leaving (.ok ())) ∨
        Function.update s.tasks p (some task') entry.process = some (.returned (.ok ())) := by
      intro entry hEntry
      by_cases hNe : entry.process = p
      · have hOld := hAccounted entry hEntry
        rw [hNe, hTask] at hOld
        rw [hNe, Function.update_self]
        rcases hOld with hOld | hOld
        · cases hOld
          cases hTurn with
          | giveUp hMay => cases hMay
          | leave => exact .inr rfl
        · cases hOld
          cases hTurn with
          | giveUp hMay => cases hMay
      · exact (hAccounted entry hEntry).imp (update_some_of_ne hNe) (update_some_of_ne hNe)
    intro entry hEntry
    cases hTurn with
    | rename | link _ =>
      rcases List.mem_cons.mp hEntry with rfl | hEntry
      · exact .inl (Function.update_self ..)
      · exact hKeep entry hEntry
    | _ => exact hKeep entry hEntry

theorem accounted_reachable (hReach : Reachable (edits before roots disk) s) : Accounted s := by
  refine Path.invariant (I := Accounted) ?_ hReach ?_
  · intro x a y hx _ hStep
    exact accounted_step hx (edits_move hStep)
  · intro entry hEntry
    cases hEntry

theorem agent_files_step (hMove : Sys.Move before roots s a t) (path : String)
    (hChanged : t.disk.agent path ≠ s.disk.agent path) :
    ∃ p, t.trail = ⟨p, path⟩ :: s.trail := by
  cases hMove with
  | start => exact absurd rfl hChanged
  | turn hTask hTurn =>
    rename_i p reply task task' effect
    have hPublish : ∀ target bytes, effect = .publish target bytes →
        ∃ p', effect.onTrail p s.trail = ⟨p', path⟩ :: s.trail := by
      rintro target bytes rfl
      by_cases hHere : path = target
      · rw [hHere]
        exact ⟨p, rfl⟩
      · exact absurd (Function.update_of_ne hHere _ _) hChanged
    cases hTurn with
    | rename | link _ => exact hPublish _ _ rfl
    | _ => exact absurd rfl hChanged

end

def workRoot : Root where
  source := { label := "work", dir := "/w/h" }
  identity := 1
  agentFile isLocal := if isLocal then "/w/l" else "/w/s"

def homeRoot : Root where
  source := { label := "home", dir := "/h/h" }
  identity := 2
  agentFile isLocal := if isLocal then "/h/l" else "/h/s"

def workHasKey : Disk where
  agent _ := none
  human dir :=
    if dir = "/w/h" then some ((∅ : Table FileName Bytes).insert (.text "K.env") []) else none

theorem workHasKey_separate : Separate [workRoot, homeRoot] workHasKey := by
  rintro key - ⟨⟨path, -, bytes, hFile, -⟩, -⟩
  cases hFile

/-- `secrets edit --source home`, where the editor writes one assignment; every
probe but that of the first root's human directory answers `seen`. -/
def editHome (plaintext : Bytes) (seen : Bool) : List Action :=
  let turn (seen : Bool) (bytes : Bytes) : Action := .turn 0 ⟨true, seen, bytes⟩
  [.start 0 (.agent ⟨some (some "home"), false⟩),
   turn seen [], turn true [], turn true [],           -- load both roots, choose
   turn true [], turn true [], turn true [],           -- lock both roots, enter
   turn true [], turn true plaintext,                  -- no file yet, the editor
   turn seen [], turn true [], turn true [],           -- look at the human tier again
   turn true plaintext, turn true []]                  -- sops, `persist_noclobber`

def hasLeft : Option Task → Bool
  | some (.leaving (.ok ())) => true
  | _ => false

end Forward.Edit

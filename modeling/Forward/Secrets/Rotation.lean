import Forward.Lib.Register
import Forward.Secrets.Provenance

/-!
# Rotating the files behind the keys

A secret is rotated by renaming a new file over its ciphertext. The file behind a key is then a
register that each replacement writes, and that a job which opens the key's file reads.
-/

namespace Forward.Secrets

open Lib

/-! ## Replacing a file -/

namespace HumanStore

/-- The file behind a key: its sole candidate, where that is a regular file. -/
def backing (store : HumanStore) (w : World) (key : SecretName) : Option FileIdentity :=
  match store.candidates w key with
  | .ok [candidate] =>
    match nodeAt w candidate.dir candidate.fileName with
    | .regular identity => some identity
    | _ => none
  | _ => none

variable {store : HumanStore} {w : World} {key : SecretName} {dir fileName : String}
  {identity : FileIdentity}

theorem backing_of_open {file : OpenedHumanFile} (h : store.open w key = .ok file) :
    store.backing w key = some file.identity := by
  unfold HumanStore.open at h
  unfold backing
  split at h
  · cases h
  · cases h
  · rename_i hCandidates
    rw [hCandidates]
    dsimp only
    split at h
    · split at h
      · rename_i hNode
        rw [hNode]
        cases h
        rfl
      all_goals cases h
    · cases h
  · cases h

theorem backing_of_identity (h : store.identity w key = .ok identity) :
    store.backing w key = some identity := by
  unfold HumanStore.identity at h
  cases hOpen : store.open w key with
  | error =>
    rw [hOpen] at h
    cases h
  | ok =>
    rw [hOpen] at h
    cases h
    exact backing_of_open hOpen

def renamed (fileName : String) (identity : FileIdentity) (entry : DirEntry) : DirEntry :=
  if entry.name = some fileName then { entry with node := .regular identity } else entry

theorem renamed_name (entry : DirEntry) : (renamed fileName identity entry).name = entry.name := by
  unfold renamed
  split <;> rfl

theorem entryCandidates_renamed (source : HumanSource) (list : List (Option DirEntry)) :
    entryCandidates source key (list.map (Option.map (renamed fileName identity))) =
      entryCandidates source key list := by
  induction list with
  | nil => rfl
  | cons entry rest ih =>
    cases entry with
    | none => rfl
    | some => simp only [List.map_cons, Option.map_some, entryCandidates, renamed_name, ih]

theorem readDir_replaceFile (d : String) :
    (w.replaceFile dir fileName identity).readDir d =
      if d = dir then
        match w.readDir dir with
        | .entries list => .entries (list.map (Option.map (renamed fileName identity)))
        | other => other
      else w.readDir d := by
  unfold World.replaceFile
  by_cases hDir : d = dir
  · subst hDir
    rw [if_pos rfl]
    exact Function.update_self ..
  · rw [if_neg hDir]
    exact Function.update_of_ne hDir ..

theorem candidates_replaceFile :
    store.candidates (w.replaceFile dir fileName identity) key = store.candidates w key := by
  unfold candidates
  induction store.sources with
  | nil => rfl
  | cons source rest ih =>
    unfold sourceCandidates
    rw [readDir_replaceFile, ih]
    by_cases hDir : source.dir = dir
    · rw [if_pos hDir, hDir]
      cases w.readDir dir with
      | notFound | failed => rfl
      | entries =>
        dsimp only
        rw [entryCandidates_renamed]
    · rw [if_neg hDir]

theorem find?_renamed (name : String) (list : List (Option DirEntry)) :
    (list.map (Option.map (renamed fileName identity))).find?
        (fun e => e.any fun entry => entry.name == some name) =
      (list.find? fun e => e.any fun entry => entry.name == some name).map
        (Option.map (renamed fileName identity)) := by
  rw [List.find?_map]
  congr 2
  funext e
  cases e with
  | none => rfl
  | some => simp only [Function.comp_apply, Option.map_some, Option.any_some, renamed_name]

theorem nodeAt_replaced (h : nodeAt w dir fileName ≠ .unopenable) :
    nodeAt (w.replaceFile dir fileName identity) dir fileName = .regular identity := by
  unfold nodeAt at h ⊢
  rw [readDir_replaceFile, if_pos rfl]
  cases hDir : w.readDir dir with
  | notFound | failed => simp [hDir] at h
  | entries list =>
    rw [hDir] at h
    dsimp only at h ⊢
    rw [find?_renamed]
    cases hFind : list.find? fun e => e.any fun entry => entry.name == some fileName with
    | none => simp [hFind] at h
    | some e =>
      cases e with
      | none => simp [hFind] at h
      | some entry =>
        have hName : entry.name = some fileName := by simpa using List.find?_some hFind
        simp [renamed, hName]

theorem nodeAt_other {d name : String} (hNe : ¬ (d = dir ∧ name = fileName)) :
    nodeAt (w.replaceFile dir fileName identity) d name = nodeAt w d name := by
  unfold nodeAt
  rw [readDir_replaceFile]
  by_cases hDir : d = dir
  · rw [if_pos hDir, hDir]
    have hName : ¬ name = fileName := fun h => hNe ⟨hDir, h⟩
    cases w.readDir dir with
    | notFound | failed => rfl
    | entries list =>
      dsimp only
      rw [find?_renamed]
      cases hFind : list.find? fun e => e.any fun entry => entry.name == some name with
      | none => rfl
      | some e =>
        cases e with
        | none => rfl
        | some entry =>
          have hEntry : entry.name = some name := by simpa using List.find?_some hFind
          simp [renamed, hEntry, hName]
  · rw [if_neg hDir]

theorem backing_replaced {label : String}
    (hSole : store.candidates w key = .ok [⟨label, dir, fileName⟩])
    (hNode : nodeAt w dir fileName ≠ .unopenable) :
    store.backing (w.replaceFile dir fileName identity) key = some identity := by
  unfold backing
  rw [candidates_replaceFile, hSole]
  dsimp only
  rw [nodeAt_replaced hNode]

theorem entryCandidates_name {source : HumanSource} {list : List (Option DirEntry)}
    {found : List Candidate} (h : entryCandidates source key list = .ok found) :
    ∀ c ∈ found, ∃ isLocal, parseHumanFileName c.fileName = .key key isLocal := by
  induction list generalizing found with
  | nil =>
    cases h
    nofun
  | cons entry rest ih =>
    cases entry with
    | none => cases h
    | some =>
      unfold entryCandidates at h
      split at h
      · exact ih h
      · rename_i text hText
        split at h
        · exact ih h
        · cases h
        · rename_i name isLocal hParse
          cases hRest : entryCandidates source key rest with
          | error =>
            rw [hRest] at h
            cases h
          | ok =>
            rw [hRest] at h
            change (if name = key then _ else _) = _ at h
            split at h
            · rename_i hName
              cases h
              intro c hc
              rcases List.mem_cons.mp hc with rfl | hc
              · exact ⟨isLocal, by rw [← hName]; exact hParse⟩
              · exact ih hRest c hc
            · cases h
              exact ih hRest

theorem sourceCandidates_name {sources : List HumanSource} {found : List Candidate}
    (h : sourceCandidates w key sources = .ok found) :
    ∀ c ∈ found, ∃ isLocal, parseHumanFileName c.fileName = .key key isLocal := by
  induction sources generalizing found with
  | nil =>
    cases h
    nofun
  | cons source rest ih =>
    unfold sourceCandidates at h
    split at h
    · exact ih h
    · cases h
    · rename_i list hDir
      cases hHere : entryCandidates source key list with
      | error =>
        rw [hHere] at h
        cases h
      | ok =>
        cases hMore : sourceCandidates w key rest with
        | error =>
          rw [hHere, hMore] at h
          cases h
        | ok =>
          rw [hHere, hMore] at h
          cases h
          intro c hc
          rcases List.mem_append.mp hc with hc | hc
          · exact entryCandidates_name hHere c hc
          · exact ih hMore c hc

theorem backing_other {key' : SecretName} {isLocal : Bool}
    (hName : parseHumanFileName fileName = .key key' isLocal) (hNe : key ≠ key') :
    store.backing (w.replaceFile dir fileName identity) key = store.backing w key := by
  unfold backing
  rw [candidates_replaceFile]
  cases hFound : store.candidates w key with
  | error => rfl
  | ok found =>
    match found with
    | [] => rfl
    | [c] =>
      dsimp only
      rw [nodeAt_other]
      rintro ⟨-, hSame⟩
      obtain ⟨_, hOwn⟩ := sourceCandidates_name hFound c (List.mem_singleton_self c)
      rw [hSame, hName] at hOwn
      exact hNe (HumanFileName.key.inj hOwn).1.symm
    | _ :: _ :: _ => rfl

end HumanStore

/-! ## The file behind a key, over a run -/

def Event.rotation (key : SecretName) : Event → Option (FileIdentity × FileIdentity)
  | .replaced key' old new => if key' = key then some (old, new) else none
  | _ => none

def Sys.Unused (s : Sys) (identity : FileIdentity) : Prop :=
  (∀ dir fileName, HumanStore.nodeAt s.world dir fileName ≠ .regular identity) ∧
    ∀ key old new, .replaced key old new ∈ s.st.trail → old ≠ identity ∧ new ≠ identity

/-- The steps of a machine whose directories change by rotation only: the sole
file of a key is replaced, by one whose identity was never used before. -/
def Rotation (s : Sys) : Action → Prop
  | .world w => w.readDir = s.world.readDir
  | .replace dir fileName identity =>
    s.Unused identity ∧ ∀ key isLocal, parseHumanFileName fileName = .key key isLocal →
      ∃ label, s.st.store.candidates s.world key = .ok [⟨label, dir, fileName⟩]
  | _ => True

/-- The file behind a key after this history, on a machine that started as `w`. -/
def fileOf (cfg : Config) (w : World) (key : SecretName) (trail : List Event) :
    Option FileIdentity :=
  held (Event.rotation key) (HumanStore.backing ⟨cfg.humanSources⟩ w key) trail

def OpenedAt (cfg : Config) (w : World) : Event → List Event → Prop
  | .opened job file, before => fileOf cfg w job.key before = some file.identity
  | _, _ => True

/-- The history tells which file each key has. -/
structure Rotating (cfg : Config) (w : World) (s : Sys) : Prop where
  backing : ∀ key, HumanStore.backing ⟨cfg.humanSources⟩ s.world key = fileOf cfg w key s.st.trail
  fresh : ∀ key, Historically
    (WritesFresh (Event.rotation key) (HumanStore.backing ⟨cfg.humanSources⟩ w key)) s.st.trail
  opened : Historically (OpenedAt cfg w) s.st.trail

section Rotating

variable {cfg : Config} {bootId instanceId : String} {w : World} {s t : Sys} {a : Action}

theorem rotation_none {e : Event} (he : e.isStore = false) (key : SecretName) :
    e.rotation key = none := by
  cases e with
  | replaced => cases he
  | _ => rfl

theorem backing_readDir {store : HumanStore} {w w' : World} (hDirs : w'.readDir = w.readDir)
    (key : SecretName) : store.backing w' key = store.backing w key := by
  have hCandidates : store.candidates w' key = store.candidates w key := by
    unfold HumanStore.candidates
    induction store.sources with
    | nil => rfl
    | cons source rest ih =>
      unfold HumanStore.sourceCandidates
      rw [hDirs, ih]
  have hNode : HumanStore.nodeAt w' = HumanStore.nodeAt w := by
    funext dir fileName
    unfold HumanStore.nodeAt
    rw [hDirs]
  unfold HumanStore.backing
  rw [hCandidates, hNode]

namespace Rotating

theorem quiet (hR : Rotating cfg w s) {new : List Event} (hTrail : t.st.trail = new ++ s.st.trail)
    (hNew : ∀ e ∈ new, e.isStore = false) (hDirs : t.world.readDir = s.world.readDir) :
    Rotating cfg w t := by
  refine ⟨?_, ?_, ?_⟩
  · intro key
    rw [backing_readDir hDirs, hR.backing, hTrail]
    exact (held_append_none fun e he => rotation_none (hNew e he) key).symm
  · intro key
    rw [hTrail]
    refine (hR.fresh key).append fun newer e older hEq old next hWrite => ?_
    have he : e ∈ new := by
      rw [hEq]
      simp
    rw [rotation_none (hNew e he)] at hWrite
    cases hWrite
  · rw [hTrail]
    refine hR.opened.append fun newer e older hEq => ?_
    have he : e ∈ new := by
      rw [hEq]
      simp
    have hStore := hNew e he
    cases e with
    | opened => cases hStore
    | _ => trivial

theorem current (hR : Rotating cfg w s) {key : SecretName} {identity : FileIdentity}
    (hNow : HumanStore.backing ⟨cfg.humanSources⟩ s.world key = some identity) :
    ∀ new, .replaced key identity new ∉ s.st.trail := by
  intro new hIn
  rw [hR.backing] at hNow
  have hWrite : Event.rotation key (.replaced key identity new) = some (identity, new) := if_pos rfl
  exact held_not_replaced (hR.fresh key) hNow hIn hWrite rfl

theorem replace (hR : Rotating cfg w s) (hStore : s.st.store = ⟨cfg.humanSources⟩)
    {dir fileName : String} {identity old : FileIdentity} {key : SecretName} {isLocal : Bool}
    (hName : parseHumanFileName fileName = .key key isLocal)
    (hNode : HumanStore.nodeAt s.world dir fileName = .regular old)
    (hOk : Rotation s (.replace dir fileName identity)) :
    Rotating cfg w { s with
      world := s.world.replaceFile dir fileName identity
      st := s.st.emit (.replaced key old identity) } := by
  obtain ⟨⟨hNoFile, hNeverUsed⟩, hSole⟩ := hOk
  obtain ⟨label, hSole⟩ := hSole key isLocal hName
  rw [hStore] at hSole
  have hOld : HumanStore.backing ⟨cfg.humanSources⟩ s.world key = some old := by
    unfold HumanStore.backing
    rw [hSole]
    dsimp only
    rw [hNode]
  refine ⟨?_, ?_, hR.opened.cons trivial⟩
  · intro key'
    by_cases hKey : key' = key
    · subst hKey
      have hWrite : Event.rotation key' (.replaced key' old identity) = some (old, identity) :=
        if_pos rfl
      refine (HumanStore.backing_replaced hSole (by rw [hNode]; nofun)).trans ?_
      exact (held_cons_write hWrite).symm
    · have hWrite : Event.rotation key' (.replaced key old identity) = none :=
        if_neg fun h => hKey h.symm
      refine (HumanStore.backing_other hName hKey).trans ((hR.backing key').trans ?_)
      exact (held_cons_none hWrite).symm
  · intro key'
    refine (hR.fresh key').cons ?_
    intro o n hWrite
    change (if key = key' then some (old, identity) else none) = some (o, n) at hWrite
    split at hWrite
    · rename_i hKey
      subst hKey
      cases hWrite
      refine ⟨(hR.backing key).symm.trans hOld, ?_, ?_⟩
      · rintro rfl
        exact hNoFile dir fileName hNode
      · intro e he o' n' hEarlier
        cases e with
        | replaced key'' o'' n'' =>
          change (if key'' = key then some (o'', n'') else none) = some (o', n') at hEarlier
          split at hEarlier
          · cases hEarlier
            exact (hNeverUsed _ _ _ he).1
          · cases hEarlier
        | _ => cases hEarlier
    · cases hWrite

end Rotating

theorem rotating_step (hInv : BrokerInv cfg s) (hR : Rotating cfg w s) (hOk : Rotation s a)
    (hMove : Sys.Move s a t) : Rotating cfg w t := by
  have hSame : ∀ {t : Sys}, t.st.trail = s.st.trail → t.world.readDir = s.world.readDir →
      Rotating cfg w t := by
    intro t hTrail hDirs
    have hNothing : t.st.trail = [] ++ s.st.trail := hTrail
    exact hR.quiet hNothing (by simp) hDirs
  have hOne : ∀ {t : Sys} {e : Event}, t.st.trail = e :: s.st.trail → e.isStore = false →
      t.world.readDir = s.world.readDir → Rotating cfg w t := by
    intro t e hTrail he hDirs
    have hOnly : t.st.trail = [e] ++ s.st.trail := hTrail
    refine hR.quiet hOnly ?_ hDirs
    intro x hx
    rw [List.mem_singleton.mp hx]
    exact he
  have hChain : ∀ {role : Role} {c : Core} {t : Sys}, Chain s.world role s.core c →
      role ≠ .outside → t.st.trail = c.st.trail → t.world = s.world → Rotating cfg w t := by
    intro role c t hChain hRole hTrail hWorld
    obtain ⟨new, hNew, hMay⟩ := hChain.trail_grows
    refine hR.quiet (hTrail.trans hNew) ?_ (by rw [hWorld])
    exact fun e he => (hMay e he).not_isStore hRole
  cases hMove with
  | world => exact hSame rfl hOk
  | replace hName hNode => exact hR.replace hInv.store hName hNode hOk
  | receive | exited | deadline => exact hOne rfl rfl rfl
  | handle hTask hClock hHandle =>
    rename_i h r reads task task' st'
    have hSection : Chain s.world task.role s.core ⟨st', s.worker.job, r.t3⟩ :=
      handle_chain (hInv.tasks _ _ hTask) hClock hHandle
    have hMid : Rotating cfg w { s with st := st' } :=
      hChain hSection task.role_ne.2.2.2 rfl rfl
    obtain ⟨ans, hAns, hReply⟩ := conclude_trail st' h r.t0 task'
    exact hMid.quiet hAns (fun e he => (hReply e he).not_isStore (by decide)) rfl
  | tick hWorker hClock hTick | begin hWorker hClock hTick =>
    have hSection := tick_steps hWorker hClock
    rw [hTick] at hSection
    exact hChain hSection (by decide) rfl rfl
  | openFile hWorker hOpen =>
    rename_i job file
    refine ⟨?_, ?_, ?_⟩
    · intro key
      exact (hR.backing key).trans (held_cons_none rfl).symm
    · intro key
      exact (hR.fresh key).cons fun _ _ hWrite => by cases hWrite
    · refine hR.opened.cons ?_
      rw [hInv.store] at hOpen
      exact (hR.backing job.key).symm.trans (HumanStore.backing_of_open hOpen)
  | start hWorker =>
    rename_i job file pg child
    by_cases hState : s.st.queue.stateOf job.id = some .decrypting
    · exact hSame (by simp [State.onStarted, hState]) rfl
    · exact hOne (e := .killed pg child) (by simp [State.onStarted, hState, State.emit]) rfl rfl
  | report hWorker hClock => exact hChain (report_steps hInv hWorker hClock) (by decide) rfl rfl
  | _ => exact hSame rfl rfl

theorem rotating_path {ok : Sys → Action → Prop} (hOk : ∀ s a, ok s a → Rotation s a)
    (hPath : Path (broker cfg bootId instanceId w) ok (broker cfg bootId instanceId w).init s) :
    Rotating cfg w s := by
  refine Path.strengthen (I := Rotating cfg w) ?_ hPath ⟨fun _ => rfl, fun _ => .nil, .nil⟩
  intro x a y hx hStepOk hR hStep
  exact rotating_step (brokerInv_reachable hx.forget) hR (hOk x a hStepOk) (Sys.step_move hStep)

end Rotating

end Forward.Secrets

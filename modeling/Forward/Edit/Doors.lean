import Forward.Lib.System
import Forward.Lib.Threads
import Forward.Secrets.HumanNames
import Forward.Edit.Dotenv

/-!
# The doors that write secrets

`secrets edit`, `edit-local` and `edit-human` as processes over one disk. Each loads the human names
and takes the write lock. An agent door checks the edited names against the human tier and
publishes; the human door reads the agent files and publishes at the place its own names give.

One step is one look at the disk, one run of the editor or of sops, one lock or one rename. A call
may fail at any of these, and `is_dir`, `is_file` and `exists` answer false where the metadata
cannot be read. Different roots may share directories. Temporary files are left out.
-/

namespace Forward.Edit

open Lib Secrets

/-! ## The disk -/

abbrev Bytes := List UInt8

inductive FileName
  | text (name : String)
  -- a name that is not UTF-8
  | foreign (number : Nat)
  deriving DecidableEq

def FileName.toStr : FileName → Option String
  | .text name => some name
  | .foreign _ => none

/-- What the doors can see: the agent files, and the human directories with the
names in them. -/
structure Disk where
  agent : String → Option Bytes
  human : String → Option (Table FileName Bytes)

structure Root where
  source : HumanSource
  -- device and inode of the root directory
  identity : Nat
  -- `secrets.local.env` and `secrets.env`, links followed
  agentFile : Bool → String

def agentFiles (roots : List Root) : List String :=
  roots.flatMap fun root => [root.agentFile true, root.agentFile false]

structure Reply where
  -- the call succeeds
  ok : Bool
  -- `is_dir`, `is_file` or `exists` finds what is there
  seen : Bool
  -- what the editor, sops or the standard input yields
  bytes : Bytes

def Disk.scan (disk : Disk) (reply : Reply) (root : Root) : DirScan :=
  match disk.human root.source.dir with
  | none => .notDir
  | some files =>
    if reply.seen then
      if reply.ok then .listed (files.keys.map FileName.toStr) else .unreadable
    else .notDir

/-! ## Choosing a file -/

inductive EditError
  -- a call of the system, the editor or sops failed
  | failed
  | load (error : LoadError)
  | dotenv (error : DotenvError)
  | noRoots
  | editSourceRequired
  | unknownEditSource (source : String)
  | usage
  | humanKeyExists (name : SecretName)
  | agentKeyExists (name : SecretName)
  | agentFileChangedDuringEdit
  | editConflict (name : SecretName) (actual : String)
  | invalidEditedHumanSecret (name : SecretName)
  | emptyEditedHumanSecret (name : SecretName)
  | emptyPipedHumanSecret (name : SecretName)
  | invalidPipedHumanSecret (name : SecretName)
  | sopsCiphertextTooLarge

/-- The flags of an edit; a source that is not UTF-8 has no text. -/
structure EditArguments where
  source : Option (Option String)
  isLocal : Bool

def selectNamedRoot (roots : List Root) : Option String → Except EditError Root
  | none => .error .usage
  | some source =>
    match roots.find? fun root => root.source.label = source with
    | none => .error (.unknownEditSource source)
    | some root => .ok root

def selectRoot (roots : List Root) (source : Option (Option String)) : Except EditError Root :=
  match source with
  | none =>
    match roots with
    | [root] => .ok root
    | [] => .error .noRoots
    | _ => .error .editSourceRequired
  | some source => selectNamedRoot roots source

/-- The check of `existing_human_path`; the path is the location's. -/
def existingHumanPath (roots : List Root) (name : SecretName) (location : HumanLocation)
    (flags : EditArguments) : Except EditError Unit := do
  let actualSource :=
    match stripSuffix location.label.toList ".local".toList with
    | none => location.label
    | some source => String.ofList source
  match flags.source with
  | none => .ok ()
  | some source => do
    let selected ← selectNamedRoot roots source
    if selected.source.label ≠ actualSource then .error (.editConflict name location.label)
    else .ok ()
  if flags.isLocal ∧ location.label = actualSource then .error (.editConflict name location.label)
  else .ok ()

def fileNameOf (name : SecretName) (isLocal : Bool) : String :=
  if isLocal then name.name ++ ".local.env" else name.name ++ ".env"

/-! ## Contents -/

/-- `validate_human`: one assignment of the name, with a value. -/
def validateHuman (plaintext : Bytes) (name : SecretName) : Except EditError Unit :=
  match parseSingleAssignment plaintext name with
  | .error _ => .error (.invalidEditedHumanSecret name)
  | .ok value => if value = [] then .error (.emptyEditedHumanSecret name) else .ok ()

-- one newline at the end is dropped, with its carriage return
def trimPiped (stdin : Bytes) : Bytes :=
  if stdin.getLast? = some 10 then stripCarriageReturn stdin.dropLast else stdin

/-- `read_piped_assignment`, of what stands in the standard input. -/
def readPipedAssignment (stdin : Bytes) (name : SecretName) : Except EditError Bytes :=
  let value := trimPiped stdin
  if value = [] then .error (.emptyPipedHumanSecret name)
  else if value.contains 10 || value.contains 13 then .error (.invalidPipedHumanSecret name)
  else
    let assignment := Hygiene.textBytes name.name ++ 61 :: value ++ [10]
    match parseSingleAssignment assignment name with
    | .error _ => .error (.invalidPipedHumanSecret name)
    | .ok _ => .ok assignment

def maxSopsCiphertextBytes : Nat := 1024 * 1024

-- what sops makes of a plaintext has the names of the plaintext
def KeepsNames (plaintext ciphertext : Bytes) : Prop :=
  (∀ name ∈ dotenvNames ciphertext, name ∈ dotenvNames plaintext) ∧
    ∀ name ∈ dotenvNames plaintext, name ∈ dotenvNames ciphertext

instance (plaintext ciphertext : Bytes) : Decidable (KeepsNames plaintext ciphertext) :=
  inferInstanceAs (Decidable (_ ∧ _))

/-! ## Processes -/

inductive Door
  | agent (flags : EditArguments)
  | human (key : SecretName) (flags : EditArguments) (piped : Bool)

/-- A door that has its arguments together and takes the lock. -/
inductive Purpose
  | agent (path : String)
  | human (key : SecretName) (flags : EditArguments) (piped : Bool) (names : HumanNames)

inductive Draft
  | edited (before staged : Bytes)
  | created (plaintext : Bytes)

def Draft.bytes : Draft → Bytes
  | .edited _ staged => staged
  | .created plaintext => plaintext

inductive Task
  | loading (door : Door) (rest : List Root) (names : HumanNames)
  | locking (purpose : Purpose) (rest : List Root) (locked : List Nat)
  -- the agent door: is there a file, its bytes, sops on the stage, the editor
  | finding (path : String)
  | reading (path : String)
  | staging (path : String) (before : Bytes)
  | drafting (path : String)
  -- `ensure_no_human_clash`
  | clashing (path : String) (draft : Draft) (names : List SecretName) (rest : List Root)
      (human : HumanNames)
  | comparing (path : String) (before staged : Bytes)
  | renaming (path : String) (staged : Bytes)
  | encrypting (path : String) (plaintext : Bytes)
  | linking (path : String) (ciphertext : Bytes)
  -- the human door: `AgentStore::contains`, then the path
  | searching (key : SecretName) (flags : EditArguments) (piped : Bool) (names : HumanNames)
      (rest : List String)
  | resolving (key : SecretName) (flags : EditArguments) (piped : Bool) (names : HumanNames)
  | making (key : SecretName) (piped : Bool) (dir fileName : String)
  | editing (dir fileName : String)
  -- a new plaintext, from the standard input or from the editor
  | composing (key : SecretName) (piped : Bool) (dir fileName : String)
  | sealing (piped : Bool) (dir fileName : String) (plaintext : Bytes)
  | placing (piped : Bool) (dir fileName : String) (ciphertext : Bytes)
  | leaving (result : Except EditError Unit)
  | returned (result : Except EditError Unit)

inductive Effect
  | quiet
  | lock (identity : Nat)
  | unlock
  | publish (path : String) (bytes : Bytes)
  | makeDir (dir : String)
  | put (dir fileName : String) (bytes : Bytes)

section

-- the order of file names in `HumanNames::load`
variable (before : Option String → Option String → Prop) [DecidableRel before]
variable (roots : List Root) (disk : Disk) (locks : Nat → Option Nat) (reply : Reply)

def giveUp (error : EditError) : Option (Task × Effect) := some (.leaving (.error error), .quiet)

/-- The steps until the lock is held. -/
def advanceOpening : Task → Option (Task × Effect)
  | .loading door (root :: rest) names =>
    match HumanNames.addRoot before root.source (disk.scan reply root) names with
    | .error e => some (.returned (.error (.load e)), .quiet)
    | .ok names => some (.loading door rest names, .quiet)
  | .loading (.agent flags) [] _ =>
    match selectRoot roots flags.source with
    | .error e => some (.returned (.error e), .quiet)
    | .ok root => some (.locking (.agent (root.agentFile flags.isLocal)) roots [], .quiet)
  | .loading (.human key flags piped) [] names =>
    some (.locking (.human key flags piped names) roots [], .quiet)
  | .locking purpose (root :: rest) locked =>
    if reply.ok then
      -- a directory that is locked already, under another name
      if root.identity ∈ locked then some (.locking purpose rest locked, .quiet)
      else
        match locks root.identity with
        | some _ => none
        | none =>
          some (.locking purpose rest (root.identity :: locked), .lock root.identity)
    else giveUp .failed
  | .locking (.agent path) [] _ => some (.finding path, .quiet)
  | .locking (.human key flags piped names) [] _ =>
    some (.searching key flags piped names (agentFiles roots), .quiet)
  | _ => none

def advanceAgent : Task → Option (Task × Effect)
  | .finding path =>
    if reply.seen && (disk.agent path).isSome then some (.reading path, .quiet)
    else some (.drafting path, .quiet)
  | .reading path =>
    match disk.agent path with
    | some before => if reply.ok then some (.staging path before, .quiet) else giveUp .failed
    | none => giveUp .failed
  | .staging path before =>
    if reply.ok then
      match namesOf reply.bytes with
      | .error e => giveUp (.dotenv e)
      | .ok names => some (.clashing path (.edited before reply.bytes) names roots ∅, .quiet)
    else giveUp .failed
  | .drafting path =>
    if reply.ok then
      match namesOf reply.bytes with
      | .error e => giveUp (.dotenv e)
      | .ok names => some (.clashing path (.created reply.bytes) names roots ∅, .quiet)
    else giveUp .failed
  | .clashing path draft names (root :: rest) human =>
    match HumanNames.addRoot before root.source (disk.scan reply root) human with
    | .error e => giveUp (.load e)
    | .ok human => some (.clashing path draft names rest human, .quiet)
  | .clashing path draft names [] human =>
    match names.find? fun name => (human.lookup name).isSome with
    | some name => giveUp (.humanKeyExists name)
    | none =>
      match draft with
      | .edited before staged => some (.comparing path before staged, .quiet)
      | .created plaintext => some (.encrypting path plaintext, .quiet)
  | .comparing path before staged =>
    if reply.ok then
      if disk.agent path = some before then some (.renaming path staged, .quiet)
      else giveUp .agentFileChangedDuringEdit
    else giveUp .failed
  | .renaming path staged =>
    if reply.ok then some (.leaving (.ok ()), .publish path staged) else giveUp .failed
  | .encrypting path plaintext =>
    if reply.ok then
      if KeepsNames plaintext reply.bytes then some (.linking path reply.bytes, .quiet) else none
    else giveUp .failed
  | .linking path ciphertext =>
    -- `persist_noclobber`
    if reply.ok && (disk.agent path).isNone then
      some (.leaving (.ok ()), .publish path ciphertext)
    else giveUp .failed
  | _ => none

def advanceHuman : Task → Option (Task × Effect)
  | .searching key flags piped names (path :: rest) =>
    match disk.agent path with
    | none => some (.searching key flags piped names rest, .quiet)
    | some bytes =>
      if reply.seen then
        if reply.ok then
          match namesOf bytes with
          | .error e => giveUp (.dotenv e)
          | .ok found =>
            if key ∈ found then giveUp (.agentKeyExists key)
            else some (.searching key flags piped names rest, .quiet)
        else giveUp .failed
      else some (.searching key flags piped names rest, .quiet)
  | .searching key flags piped names [] => some (.resolving key flags piped names, .quiet)
  | .resolving key flags piped names =>
    match names.lookup key with
    | some location =>
      match existingHumanPath roots key location flags with
      | .error e => giveUp e
      | .ok () =>
        if piped then some (.composing key piped location.dir location.fileName, .quiet)
        else some (.editing location.dir location.fileName, .quiet)
    | none =>
      match selectRoot roots flags.source with
      | .error e => giveUp e
      | .ok root =>
        some (.making key piped root.source.dir (fileNameOf key flags.isLocal), .quiet)
  | .making key piped dir fileName =>
    if reply.ok then some (.composing key piped dir fileName, .makeDir dir) else giveUp .failed
  | .editing dir fileName =>
    -- sops in place: whatever it leaves behind, and however it ends
    some (.leaving (if reply.ok then .ok () else .error .failed), .put dir fileName reply.bytes)
  | .composing key piped dir fileName =>
    if reply.ok then
      if piped then
        match readPipedAssignment reply.bytes key with
        | .error e => giveUp e
        | .ok assignment => some (.sealing piped dir fileName assignment, .quiet)
      else
        match validateHuman reply.bytes key with
        | .error e => giveUp e
        | .ok () => some (.sealing piped dir fileName reply.bytes, .quiet)
    else giveUp .failed
  | .sealing piped dir fileName _ =>
    if reply.ok then
      if piped && decide (maxSopsCiphertextBytes < reply.bytes.length) then
        giveUp .sopsCiphertextTooLarge
      else some (.placing piped dir fileName reply.bytes, .quiet)
    else giveUp .failed
  | .placing piped dir fileName ciphertext =>
    let present := ((disk.human dir).bind fun files => files.lookup (.text fileName)).isSome
    -- `persist` replaces, `persist_noclobber` does not; the notice may fail after it
    if reply.ok && (piped || !present) then
      some (.leaving (if piped && !reply.seen then .error .failed else .ok ()),
        .put dir fileName ciphertext)
    else giveUp .failed
  | _ => none

def advance (task : Task) : Option (Task × Effect) :=
  match task with
  | .loading .. | .locking .. => advanceOpening before roots disk locks reply task
  | .finding .. | .reading .. | .staging .. | .drafting .. | .clashing .. | .comparing ..
  | .renaming .. | .encrypting .. | .linking .. => advanceAgent before roots disk reply task
  | .searching .. | .resolving .. | .making .. | .editing .. | .composing .. | .sealing ..
  | .placing .. => advanceHuman roots disk reply task
  | .leaving result => some (.returned result, .unlock)
  | .returned _ => none

def Task.mayFail : Task → Bool
  | .loading .. | .leaving .. | .returned .. => false
  | _ => true

inductive Turn : Task → Task → Effect → Prop
  | refuse {door : Door} {rest : List Root} {names : HumanNames} (e : EditError) :
      Turn (.loading door rest names) (.returned (.error e)) .quiet
  | load {door : Door} {root : Root} {rest : List Root} {names names' : HumanNames}
      (hLoad : HumanNames.addRoot before root.source (disk.scan reply root) names = .ok names') :
      Turn (.loading door (root :: rest) names) (.loading door rest names') .quiet
  | openAgent {flags : EditArguments} {names : HumanNames} (path : String) :
      Turn (.loading (.agent flags) [] names) (.locking (.agent path) roots []) .quiet
  | openHuman {key : SecretName} {flags : EditArguments} {piped : Bool} {names : HumanNames} :
      Turn (.loading (.human key flags piped) [] names)
        (.locking (.human key flags piped names) roots []) .quiet
  | giveUp {task : Task} (hMay : task.mayFail = true) (e : EditError) :
      Turn task (.leaving (.error e)) .quiet
  | lockedBefore {purpose : Purpose} {root : Root} {rest : List Root} {locked : List Nat}
      (hLocked : root.identity ∈ locked) :
      Turn (.locking purpose (root :: rest) locked) (.locking purpose rest locked) .quiet
  | lock {purpose : Purpose} {root : Root} {rest : List Root} {locked : List Nat}
      (hFree : locks root.identity = none) :
      Turn (.locking purpose (root :: rest) locked)
        (.locking purpose rest (root.identity :: locked)) (.lock root.identity)
  | enterAgent {path : String} {locked : List Nat} :
      Turn (.locking (.agent path) [] locked) (.finding path) .quiet
  | enterHuman {key : SecretName} {flags : EditArguments} {piped : Bool} {names : HumanNames}
      {locked : List Nat} :
      Turn (.locking (.human key flags piped names) [] locked)
        (.searching key flags piped names (agentFiles roots)) .quiet
  | found {path : String} : Turn (.finding path) (.reading path) .quiet
  | missing {path : String} : Turn (.finding path) (.drafting path) .quiet
  | read {path : String} {bytes : Bytes} (hRead : disk.agent path = some bytes) :
      Turn (.reading path) (.staging path bytes) .quiet
  | stage {path : String} {bytes staged : Bytes} {names : List SecretName}
      (hNames : namesOf staged = .ok names) :
      Turn (.staging path bytes) (.clashing path (.edited bytes staged) names roots ∅) .quiet
  | draft {path : String} {plaintext : Bytes} {names : List SecretName}
      (hNames : namesOf plaintext = .ok names) :
      Turn (.drafting path) (.clashing path (.created plaintext) names roots ∅) .quiet
  | rescan {path : String} {draft : Draft} {names : List SecretName} {root : Root}
      {rest : List Root} {human human' : HumanNames}
      (hLoad : HumanNames.addRoot before root.source (disk.scan reply root) human = .ok human') :
      Turn (.clashing path draft names (root :: rest) human)
        (.clashing path draft names rest human') .quiet
  | clearEdited {path : String} {bytes staged : Bytes} {names : List SecretName}
      {human : HumanNames} (hClear : ∀ name ∈ names, human.lookup name = none) :
      Turn (.clashing path (.edited bytes staged) names [] human) (.comparing path bytes staged)
        .quiet
  | clearCreated {path : String} {plaintext : Bytes} {names : List SecretName}
      {human : HumanNames} (hClear : ∀ name ∈ names, human.lookup name = none) :
      Turn (.clashing path (.created plaintext) names [] human) (.encrypting path plaintext) .quiet
  | compare {path : String} {bytes staged : Bytes} (hSame : disk.agent path = some bytes) :
      Turn (.comparing path bytes staged) (.renaming path staged) .quiet
  | rename {path : String} {staged : Bytes} :
      Turn (.renaming path staged) (.leaving (.ok ())) (.publish path staged)
  | encrypt {path : String} {plaintext ciphertext : Bytes}
      (hKeeps : KeepsNames plaintext ciphertext) :
      Turn (.encrypting path plaintext) (.linking path ciphertext) .quiet
  | link {path : String} {ciphertext : Bytes} (hAbsent : disk.agent path = none) :
      Turn (.linking path ciphertext) (.leaving (.ok ())) (.publish path ciphertext)
  | pass {key : SecretName} {flags : EditArguments} {piped : Bool} {names : HumanNames}
      {path : String} {rest : List String} (hAbsent : disk.agent path = none ∨ reply.seen = false) :
      Turn (.searching key flags piped names (path :: rest)) (.searching key flags piped names rest)
        .quiet
  | search {key : SecretName} {flags : EditArguments} {piped : Bool} {names : HumanNames}
      {path : String} {rest : List String} {bytes : Bytes} {found : List SecretName}
      (hRead : disk.agent path = some bytes) (hNames : namesOf bytes = .ok found)
      (hOther : key ∉ found) :
      Turn (.searching key flags piped names (path :: rest)) (.searching key flags piped names rest)
        .quiet
  | searched {key : SecretName} {flags : EditArguments} {piped : Bool} {names : HumanNames} :
      Turn (.searching key flags piped names []) (.resolving key flags piped names) .quiet
  | rotate {key : SecretName} {flags : EditArguments} {piped : Bool} {names : HumanNames}
      {location : HumanLocation} (hKnown : names.lookup key = some location) :
      Turn (.resolving key flags piped names)
        (.composing key piped location.dir location.fileName) .quiet
  | change {key : SecretName} {flags : EditArguments} {piped : Bool} {names : HumanNames}
      {location : HumanLocation} (hKnown : names.lookup key = some location) :
      Turn (.resolving key flags piped names) (.editing location.dir location.fileName) .quiet
  | create {key : SecretName} {flags : EditArguments} {piped : Bool} {names : HumanNames}
      {root : Root} (hNew : names.lookup key = none) (hRoot : root ∈ roots) :
      Turn (.resolving key flags piped names)
        (.making key piped root.source.dir (fileNameOf key flags.isLocal)) .quiet
  | makeDir {key : SecretName} {piped : Bool} {dir fileName : String} :
      Turn (.making key piped dir fileName) (.composing key piped dir fileName) (.makeDir dir)
  | edit {dir fileName : String} (result : Except EditError Unit) (bytes : Bytes) :
      Turn (.editing dir fileName) (.leaving result) (.put dir fileName bytes)
  | compose {key : SecretName} {piped : Bool} {dir fileName : String} (plaintext : Bytes) :
      Turn (.composing key piped dir fileName) (.sealing piped dir fileName plaintext) .quiet
  | encipher {piped : Bool} {dir fileName : String} {plaintext : Bytes} (ciphertext : Bytes) :
      Turn (.sealing piped dir fileName plaintext) (.placing piped dir fileName ciphertext) .quiet
  | place {piped : Bool} {dir fileName : String} {ciphertext : Bytes}
      (result : Except EditError Unit) :
      Turn (.placing piped dir fileName ciphertext) (.leaving result)
        (.put dir fileName ciphertext)
  | leave {result : Except EditError Unit} : Turn (.leaving result) (.returned result) .unlock

variable {before roots disk locks reply}

theorem selectNamedRoot_mem {source : Option String} {root : Root}
    (h : selectNamedRoot roots source = .ok root) : root ∈ roots := by
  unfold selectNamedRoot at h
  split at h
  · cases h
  · split at h
    · cases h
    · rename_i hFind
      cases h
      exact List.mem_of_find?_eq_some hFind

theorem selectRoot_mem {source : Option (Option String)} {root : Root}
    (h : selectRoot roots source = .ok root) : root ∈ roots := by
  unfold selectRoot at h
  split at h
  · split at h
    · cases h
      exact List.mem_singleton_self _
    · cases h
    · cases h
  · exact selectNamedRoot_mem h

variable {task task' : Task} {effect : Effect}

theorem advanceOpening_turn
    (h : advanceOpening before roots disk locks reply task = some (task', effect)) :
    Turn before roots disk locks reply task task' effect := by
  unfold advanceOpening at h
  split at h
  · split at h
    · cases h
      exact .refuse _
    · rename_i hLoad
      cases h
      exact .load hLoad
  · split at h
    · cases h
      exact .refuse _
    · cases h
      exact .openAgent _
  · cases h
    exact .openHuman
  · split at h
    · split at h
      · rename_i hLocked
        cases h
        exact .lockedBefore hLocked
      · split at h
        · cases h
        · rename_i hFree
          cases h
          exact .lock hFree
    · cases h
      exact .giveUp rfl _
  · cases h
    exact .enterAgent
  · cases h
    exact .enterHuman
  · cases h

theorem advanceAgent_turn (h : advanceAgent before roots disk reply task = some (task', effect)) :
    Turn before roots disk locks reply task task' effect := by
  unfold advanceAgent at h
  split at h
  · split at h
    · cases h
      exact .found
    · cases h
      exact .missing
  · split at h
    · rename_i hRead
      split at h
      · cases h
        exact .read hRead
      · cases h
        exact .giveUp rfl _
    · cases h
      exact .giveUp rfl _
  · split at h
    · split at h
      · cases h
        exact .giveUp rfl _
      · rename_i hNames
        cases h
        exact .stage hNames
    · cases h
      exact .giveUp rfl _
  · split at h
    · split at h
      · cases h
        exact .giveUp rfl _
      · rename_i hNames
        cases h
        exact .draft hNames
    · cases h
      exact .giveUp rfl _
  · split at h
    · cases h
      exact .giveUp rfl _
    · rename_i hLoad
      cases h
      exact .rescan hLoad
  · split at h
    · cases h
      exact .giveUp rfl _
    · rename_i hNone
      have hClear := List.find?_eq_none.mp hNone
      simp only [Option.not_isSome_iff_eq_none] at hClear
      split at h
      · cases h
        exact .clearEdited hClear
      · cases h
        exact .clearCreated hClear
  · split at h
    · split at h
      · rename_i hSame
        cases h
        exact .compare hSame
      · cases h
        exact .giveUp rfl _
    · cases h
      exact .giveUp rfl _
  · split at h
    · cases h
      exact .rename
    · cases h
      exact .giveUp rfl _
  · split at h
    · split at h
      · rename_i hKeeps
        cases h
        exact .encrypt hKeeps
      · cases h
    · cases h
      exact .giveUp rfl _
  · split at h
    · rename_i hAbsent
      simp only [Bool.and_eq_true, Option.isNone_iff_eq_none] at hAbsent
      cases h
      exact .link hAbsent.2
    · cases h
      exact .giveUp rfl _
  · cases h

theorem advanceHuman_turn (h : advanceHuman roots disk reply task = some (task', effect)) :
    Turn before roots disk locks reply task task' effect := by
  unfold advanceHuman at h
  split at h
  · split at h
    · rename_i hAbsent
      cases h
      exact .pass (.inl hAbsent)
    · rename_i hRead
      split at h
      · split at h
        · split at h
          · cases h
            exact .giveUp rfl _
          · rename_i hNames
            split at h
            · cases h
              exact .giveUp rfl _
            · rename_i hOther
              cases h
              exact .search hRead hNames hOther
        · cases h
          exact .giveUp rfl _
      · rename_i hUnseen
        cases h
        exact .pass (.inr (by simpa using hUnseen))
  · cases h
    exact .searched
  · split at h
    · rename_i hKnown
      split at h
      · cases h
        exact .giveUp rfl _
      · split at h
        · cases h
          exact .rotate hKnown
        · cases h
          exact .change hKnown
    · rename_i hNew
      split at h
      · cases h
        exact .giveUp rfl _
      · rename_i hRoot
        cases h
        exact .create hNew (selectRoot_mem hRoot)
  · split at h
    · cases h
      exact .makeDir
    · cases h
      exact .giveUp rfl _
  · cases h
    exact .edit _ _
  · split at h
    · split at h
      · split at h
        · cases h
          exact .giveUp rfl _
        · cases h
          exact .compose _
      · split at h
        · cases h
          exact .giveUp rfl _
        · cases h
          exact .compose _
    · cases h
      exact .giveUp rfl _
  · split at h
    · split at h
      · cases h
        exact .giveUp rfl _
      · cases h
        exact .encipher _
    · cases h
      exact .giveUp rfl _
  · dsimp only at h
    split at h
    · cases h
      exact .place _
    · cases h
      exact .giveUp rfl _
  · cases h

theorem advance_turn (h : advance before roots disk locks reply task = some (task', effect)) :
    Turn before roots disk locks reply task task' effect := by
  unfold advance at h
  split at h
  all_goals first
    | exact advanceOpening_turn h
    | exact advanceAgent_turn h
    | exact advanceHuman_turn h
    | (cases h; exact .leave)

end

/-! ## The system -/

structure Publication where
  process : Nat
  path : String

structure Sys where
  disk : Disk
  locks : Nat → Option Nat
  tasks : Nat → Option Task
  -- history, newest first
  trail : List Publication

inductive Action
  | start (p : Nat) (door : Door)
  | turn (p : Nat) (reply : Reply)

def Effect.onDisk : Effect → Disk → Disk
  | .publish path bytes, disk => { disk with agent := Function.update disk.agent path (some bytes) }
  | .makeDir dir, disk =>
    { disk with human := Function.update disk.human dir (some ((disk.human dir).getD ∅)) }
  | .put dir fileName bytes, disk =>
    { disk with
      human := Function.update disk.human dir
        (some (((disk.human dir).getD ∅).insert (.text fileName) bytes)) }
  | _, disk => disk

def Effect.onLocks (p : Nat) : Effect → (Nat → Option Nat) → Nat → Option Nat
  | .lock identity, locks => Function.update locks identity (some p)
  | .unlock, locks => release locks p
  | _, locks => locks

def Effect.onTrail (p : Nat) : Effect → List Publication → List Publication
  | .publish path _, trail => ⟨p, path⟩ :: trail
  | _, trail => trail

namespace Sys

section

variable (before : Option String → Option String → Prop) [DecidableRel before]
variable (roots : List Root)

def step (s : Sys) : Action → Option Sys
  | .start p door =>
    match s.tasks p with
    | none => some { s with tasks := Function.update s.tasks p (some (.loading door roots ∅)) }
    | some _ => none
  | .turn p reply =>
    match s.tasks p with
    | none => none
    | some task =>
      match advance before roots s.disk s.locks reply task with
      | none => none
      | some (task, effect) =>
        some
          { disk := effect.onDisk s.disk
            locks := effect.onLocks p s.locks
            tasks := Function.update s.tasks p (some task)
            trail := effect.onTrail p s.trail }

inductive Move (s : Sys) : Action → Sys → Prop
  | start {p : Nat} {door : Door} (hTask : s.tasks p = none) :
      Move s (.start p door)
        { s with tasks := Function.update s.tasks p (some (.loading door roots ∅)) }
  | turn {p : Nat} {reply : Reply} {task task' : Task} {effect : Effect}
      (hTask : s.tasks p = some task)
      (hTurn : Turn before roots s.disk s.locks reply task task' effect) :
      Move s (.turn p reply)
        { disk := effect.onDisk s.disk
          locks := effect.onLocks p s.locks
          tasks := Function.update s.tasks p (some task')
          trail := effect.onTrail p s.trail }

variable {before roots}

theorem step_move {s t : Sys} {a : Action} (h : s.step before roots a = some t) :
    Move before roots s a t := by
  cases a with
  | start =>
    simp only [step] at h
    split at h
    · rename_i hTask
      cases h
      exact .start hTask
    · cases h
  | turn =>
    simp only [step] at h
    split at h
    · cases h
    · rename_i hTask
      split at h
      · cases h
      · rename_i hAdvance
        cases h
        exact .turn hTask (advance_turn hAdvance)

end

end Sys

def edits (before : Option String → Option String → Prop) [DecidableRel before]
    (roots : List Root) (disk : Disk) : System Sys Action where
  init := { disk, locks := fun _ => none, tasks := fun _ => none, trail := [] }
  step := Sys.step before roots

theorem edits_move {before : Option String → Option String → Prop} [DecidableRel before]
    {roots : List Root} {disk : Disk} {s t : Sys} {a : Action}
    (h : (edits before roots disk).step s a = some t) : Sys.Move before roots s a t :=
  Sys.step_move h

end Forward.Edit

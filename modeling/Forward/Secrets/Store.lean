import Forward.Secrets.Config

/-!
# The machine around the broker and the human-tier store

`World` is what the broker reads from its machine at one moment: which pinned processes run and how
they descend from each other, which paths exist, and what the source directories hold. A run may
change it between any two steps. `store::HumanStore` reads it.
-/

namespace Forward.Secrets

structure Peer where
  pinned : Nat
  deriving DecidableEq

structure FileTimestamp where
  seconds : Int
  nanoseconds : Int
  deriving DecidableEq

/-- `fstat` metadata of the exact ciphertext file selected for decryption. -/
structure FileIdentity where
  device : Nat
  inode : Nat
  size : Int
  modified : FileTimestamp
  changed : FileTimestamp
  deriving DecidableEq

-- what `openat` with `O_NOFOLLOW` and `fstat` find behind a directory entry
inductive Node
  | regular (identity : FileIdentity)
  | irregular
  | unopenable
  deriving DecidableEq

-- an entry whose name is not UTF-8 has no text
structure DirEntry where
  name : Option String
  node : Node
  deriving DecidableEq

-- `none` in the listing is an entry that could not be read
inductive DirRead
  | notFound
  | failed
  | entries (list : List (Option DirEntry))
  deriving DecidableEq

structure World where
  alive : Peer → Bool
  descendsFrom : Peer → Peer → Bool
  pathExists : String → Bool
  readDir : String → DirRead
  openDir : String → Bool

/-! ## The human store -/

structure Candidate where
  label : String
  dir : String
  fileName : String

structure OpenedHumanFile where
  label : String
  identity : FileIdentity
  deriving DecidableEq

structure HumanStore where
  sources : List HumanSource

namespace HumanStore

-- the inner loop of `candidates`: one bad entry or file name fails the source
def entryCandidates (source : HumanSource) (requested : SecretName) :
    List (Option DirEntry) → Except ErrCode (List Candidate)
  | [] => .ok []
  | none :: _ => .error .internal
  | some entry :: rest =>
    match entry.name with
    | none => entryCandidates source requested rest
    | some text =>
      match parseHumanFileName text with
      | .ignored => entryCandidates source requested rest
      | .invalid => .error .internal
      | .key name isLocal => do
        let more ← entryCandidates source requested rest
        if name = requested then
          let label := if isLocal then source.label ++ ".local" else source.label
          return { label, dir := source.dir, fileName := text } :: more
        else return more

def sourceCandidates (w : World) (requested : SecretName) :
    List HumanSource → Except ErrCode (List Candidate)
  | [] => .ok []
  | source :: rest =>
    match w.readDir source.dir with
    | .notFound => sourceCandidates w requested rest
    | .failed => .error .internal
    | .entries list => do
      let here ← entryCandidates source requested list
      let more ← sourceCandidates w requested rest
      return here ++ more

def candidates (store : HumanStore) (w : World) (requested : SecretName) :
    Except ErrCode (List Candidate) :=
  sourceCandidates w requested store.sources

def locate (store : HumanStore) (w : World) (name : SecretName) : Except ErrCode String :=
  match store.candidates w name with
  | .error e => .error e
  | .ok [] => .error .notHumanKey
  | .ok [candidate] => .ok candidate.label
  | .ok (_ :: _ :: _) => .error .ambiguousKey

-- `openat(dir, file_name)`
def nodeAt (w : World) (dir fileName : String) : Node :=
  match w.readDir dir with
  | .entries list =>
    match list.find? fun e => e.any fun entry => entry.name == some fileName with
    | some (some entry) => entry.node
    | _ => .unopenable
  | _ => .unopenable

def «open» (store : HumanStore) (w : World) (name : SecretName) :
    Except ErrCode OpenedHumanFile :=
  match store.candidates w name with
  | .error e => .error e
  | .ok [] => .error .notHumanKey
  | .ok [candidate] =>
    if w.openDir candidate.dir then
      match nodeAt w candidate.dir candidate.fileName with
      | .regular identity => .ok { label := candidate.label, identity }
      | .irregular | .unopenable => .error .notHumanKey
    else .error .notHumanKey
  | .ok (_ :: _ :: _) => .error .ambiguousKey

def identity (store : HumanStore) (w : World) (name : SecretName) :
    Except ErrCode FileIdentity :=
  (store.open w name).map (·.identity)

end HumanStore

end Forward.Secrets

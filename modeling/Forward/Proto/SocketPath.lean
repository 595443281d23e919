import Forward.Lib.Fields

/-!
# The socket that the CLI and the OpenCode plugin use

`SocketPath::resolve` in Rust and `resolveSocketPath` in TypeScript find the broker's socket in the
same environment. The plugin joins paths with `path.join`, which normalises them, and the CLI with
`Path::join`, which does not; so the two are compared normalised.
-/

namespace Forward.Proto

open Lib

/-! ## Lexical normalisation -/

/-- One more component, on a path that is given from its end. -/
def pushPart (isAbsolute : Bool) (stack : List (List Char)) (part : List Char) : List (List Char) :=
  if part = [] ∨ part = ['.'] then stack
  else if part = ['.', '.'] then
    match stack with
    | [] => if isAbsolute then [] else [part]
    | top :: rest => if top = ['.', '.'] then part :: stack else rest
  else part :: stack

structure Lexical where
  isAbsolute : Bool
  -- the last component first
  stack : List (List Char)
  deriving DecidableEq

def Lexical.push (path : Lexical) (name : List Char) : Lexical :=
  ⟨path.isAbsolute, name :: path.stack⟩

def lexical (text : List Char) : Lexical :=
  let isAbsolute := text.head? == some '/'
  ⟨isAbsolute, (text.splitOn '/').foldl (pushPart isAbsolute) []⟩

def joinRust (directory name : List Char) : List Char :=
  if directory.getLast?.any (· ≠ '/') then directory ++ '/' :: name else directory ++ name

def normalize (text : List Char) : List Char :=
  let path := lexical text
  let joined := ['/'].intercalate path.stack.reverse
  if joined = [] then
    if path.isAbsolute then ['/'] else if text.getLast? = some '/' then ['.', '/'] else ['.']
  else
    (if path.isAbsolute then ['/'] else []) ++ joined ++
      if text.getLast? = some '/' then ['/'] else []

/-- `path.posix.join`: empty arguments are left out. -/
def joinNode (directory name : List Char) : List Char :=
  normalize (['/'].intercalate ([directory, name].filter (· ≠ [])))

def socketName : List Char := "secretsd.sock".toList

def runUser (uid : Nat) : List Char := "/run/user/".toList ++ Nat.toDigits 10 uid

/-- `SocketPath::resolve`, with what `from_environment` gives it. -/
def resolve (overridePath runtimeDir : Option (List Char)) (uid : Nat) : List Char :=
  match overridePath, runtimeDir with
  | some path, _ => path
  | none, some directory =>
    if directory ≠ [] then joinRust directory socketName else runUser uid ++ '/' :: socketName
  | none, none => runUser uid ++ '/' :: socketName

-- a value that is neither undefined nor empty
def truthy (value : Option (List Char)) : Option (List Char) := value.filter (· ≠ [])

def resolveRuntimeDir (overridePath environmentValue : Option (List Char)) (uid : Option Nat) :
    Option (List Char) :=
  ((truthy overridePath).or (truthy environmentValue)).or (uid.map runUser)

def resolveSocketPath (overridePath environmentValue runtimeDir : Option (List Char)) :
    List Char :=
  ((truthy overridePath).or (truthy environmentValue)).getD
    ((truthy runtimeDir).elim [] fun directory => joinNode directory socketName)

/-! ## Paths that are normal -/

section

variable {isAbsolute : Bool} {stack : List (List Char)} {part : List Char}

theorem pushPart_cases (isAbsolute : Bool) (stack : List (List Char)) (part : List Char) :
    pushPart isAbsolute stack part = stack ∨ pushPart isAbsolute stack part = part :: stack ∨
      pushPart isAbsolute stack part = stack.tail := by
  unfold pushPart
  split
  · exact .inl rfl
  · split
    · split
      · split
        · exact .inl rfl
        · exact .inr (.inl rfl)
      · split
        · exact .inr (.inl rfl)
        · exact .inr (.inr rfl)
    · exact .inr (.inl rfl)

/-- Each component would be pushed again. -/
def Stable (isAbsolute : Bool) : List (List Char) → Prop
  | [] => True
  | part :: rest =>
    pushPart isAbsolute rest part = part :: rest ∧ '/' ∉ part ∧ Stable isAbsolute rest

theorem Stable.push (h : Stable isAbsolute stack) (hPart : '/' ∉ part) :
    Stable isAbsolute (pushPart isAbsolute stack part) := by
  rcases pushPart_cases isAbsolute stack part with hEq | hEq | hEq
  · rwa [hEq]
  · rw [hEq]
    exact ⟨hEq, hPart, h⟩
  · rw [hEq]
    cases stack with
    | nil => trivial
    | cons => exact h.2.2

theorem Stable.foldl {parts : List (List Char)} (h : Stable isAbsolute stack)
    (hParts : ∀ part ∈ parts, '/' ∉ part) :
    Stable isAbsolute (parts.foldl (pushPart isAbsolute) stack) := by
  induction parts generalizing stack with
  | nil => exact h
  | cons part parts ih =>
    obtain ⟨hPart, hRest⟩ := List.forall_mem_cons.mp hParts
    exact ih (h.push hPart) hRest

theorem Stable.foldl_reverse (h : Stable isAbsolute stack) :
    stack.reverse.foldl (pushPart isAbsolute) [] = stack := by
  induction stack with
  | nil => rfl
  | cons part rest ih =>
    rw [List.reverse_cons, List.foldl_append, ih h.2.2]
    exact h.1

theorem Stable.mem (h : Stable isAbsolute stack) (hPart : part ∈ stack) :
    part ≠ [] ∧ '/' ∉ part := by
  induction stack with
  | nil => cases hPart
  | cons top rest ih =>
    rcases List.mem_cons.mp hPart with rfl | hRest
    · refine ⟨?_, h.2.1⟩
      rintro rfl
      exact List.cons_ne_self [] rest h.1.symm
    · exact ih h.2.2 hRest

end

theorem splitOn_join (front back : List Char) :
    (front ++ '/' :: back).splitOn '/' = front.splitOn '/' ++ back.splitOn '/' :=
  List.splitOnP_append_cons _ _ (by decide)

theorem lexical_eq {text : List Char} {isAbsolute : Bool} {parts : List (List Char)}
    (hHead : (text.head? == some '/') = isAbsolute) (hSplit : text.splitOn '/' = parts) :
    lexical text = ⟨isAbsolute, parts.foldl (pushPart isAbsolute) []⟩ := by
  subst hHead hSplit
  rfl

/-- **A normalised path is the path.** -/
theorem lexical_normalize {text : List Char} (hSome : (lexical text).stack ≠ [])
    (hEnd : text.getLast? ≠ some '/') : lexical (normalize text) = lexical text := by
  have hStable : Stable (lexical text).isAbsolute (lexical text).stack :=
    Stable.foldl trivial fun part => notMem_of_mem_splitOn
  unfold normalize
  generalize lexical text = path at hStable hSome ⊢
  obtain ⟨isAbsolute, stack⟩ := path
  have hSplit : (['/'].intercalate stack.reverse).splitOn '/' = stack.reverse :=
    List.splitOn_intercalate '/' (fun part hPart => (hStable.mem (List.mem_reverse.mp hPart)).2)
      (by simpa using hSome)
  dsimp only
  generalize ['/'].intercalate stack.reverse = joined at hSplit ⊢
  have hReal : [] ∉ joined.splitOn '/' := by
    rw [hSplit, List.mem_reverse]
    exact fun hNil => (hStable.mem hNil).1 rfl
  have hJoined : joined ≠ [] := by
    rintro rfl
    exact hReal List.mem_cons_self
  rw [if_neg hJoined, if_neg hEnd, List.append_nil]
  have hFold : stack.reverse.foldl (pushPart isAbsolute) [] = stack := hStable.foldl_reverse
  cases isAbsolute with
  | true =>
    have hParts : ('/' :: joined).splitOn '/' = [] :: stack.reverse := by
      rw [← hSplit]
      exact splitOn_join [] joined
    exact (lexical_eq rfl hParts).trans (congrArg (Lexical.mk true) hFold)
  | false =>
    have hHead : (joined.head? == some '/') = false := by
      rw [beq_eq_false_iff_ne]
      intro hSlash
      obtain ⟨back, rfl⟩ := List.head?_eq_some_iff.mp hSlash
      exact hReal (splitOn_join [] back ▸ List.mem_cons_self)
    exact (lexical_eq hHead hSplit).trans (congrArg (Lexical.mk false) hFold)

/-! ## Sockets -/

theorem splitOn_socketName : socketName.splitOn '/' = [socketName] := by decide

theorem lexical_join {directory : List Char} (hNe : directory ≠ []) :
    lexical (directory ++ '/' :: socketName) = (lexical directory).push socketName := by
  have hHead : (directory ++ '/' :: socketName).head? = directory.head? := by
    cases directory with
    | nil => exact absurd rfl hNe
    | cons => rfl
  rw [lexical_eq (congrArg (· == some '/') hHead) (splitOn_join _ _), splitOn_socketName,
    List.foldl_append]
  rfl

theorem lexical_joinNode {directory : List Char} (hNe : directory ≠ []) :
    lexical (joinNode directory socketName) = (lexical directory).push socketName := by
  have hJoin := lexical_join hNe
  have hText : ['/'].intercalate ([directory, socketName].filter (· ≠ [])) =
      directory ++ '/' :: socketName := by
    have hName : socketName ≠ [] := by decide
    simp [hNe, hName, List.intercalate]
  rw [joinNode, hText, lexical_normalize ?_ ?_, hJoin]
  · rw [hJoin]
    exact List.cons_ne_nil _ _
  · rw [List.getLast?_append_of_ne_nil _ (List.cons_ne_nil _ _)]
    decide

theorem lexical_joinRust {directory : List Char} (hNe : directory ≠ []) :
    lexical (joinRust directory socketName) = (lexical directory).push socketName := by
  unfold joinRust
  split
  · exact lexical_join hNe
  · -- the separator is there
    rename_i hSlash
    obtain ⟨front, rfl⟩ : ∃ front, directory = front ++ ['/'] := by
      cases hLast : directory.getLast? with
      | none => exact absurd (List.getLast?_eq_none_iff.mp hLast) hNe
      | some c =>
        obtain rfl : c = '/' := by simpa [hLast] using hSlash
        exact ⟨_, (List.dropLast_append_getLast? _ hLast).symm⟩
    have hHead : ((front ++ ['/']) ++ socketName).head? = (front ++ ['/']).head? := by
      cases front <;> rfl
    have hParts : ((front ++ ['/']) ++ socketName).splitOn '/' =
        front.splitOn '/' ++ [socketName] := by
      rw [List.append_assoc, ← splitOn_socketName]
      exact splitOn_join front socketName
    rw [lexical_eq (congrArg (· == some '/') hHead) hParts, lexical_eq rfl (splitOn_join front []),
      List.foldl_append, List.foldl_append]
    rfl

theorem truthy_some {value : List Char} (h : value ≠ []) : truthy (some value) = some value := by
  simp [truthy, Option.filter_some, h]

theorem runtime_directory (runtimeDir : Option (List Char)) (uid : Nat) :
    ∃ directory ≠ [], resolveRuntimeDir none runtimeDir (some uid) = some directory ∧
      lexical (resolve none runtimeDir uid) = (lexical directory).push socketName := by
  have hUser : runUser uid ≠ [] := nofun
  cases runtimeDir with
  | none => exact ⟨_, hUser, rfl, lexical_join hUser⟩
  | some directory =>
    by_cases hEmpty : directory = []
    · subst hEmpty
      exact ⟨_, hUser, rfl, lexical_join hUser⟩
    · refine ⟨directory, hEmpty, ?_, ?_⟩
      · rw [resolveRuntimeDir, truthy_some hEmpty]
        rfl
      · rw [resolve, if_pos hEmpty]
        exact lexical_joinRust hEmpty

/-- **The CLI and the plugin talk to the same broker** if and only if `SECRETSD_SOCK` is not set
to the empty text. -/
theorem same_socket_iff (sock runtimeDir : Option (List Char)) (uid : Nat) :
    lexical (resolve sock runtimeDir uid) =
      lexical (resolveSocketPath none sock (resolveRuntimeDir none runtimeDir (some uid))) ↔
    sock ≠ some [] := by
  obtain ⟨directory, hNe, hRuntime, hCli⟩ := runtime_directory runtimeDir uid
  -- without `SECRETSD_SOCK`, or with an empty one
  have hPlugin : ∀ sock, truthy sock = none →
      lexical (resolveSocketPath none sock (some directory)) =
        (lexical directory).push socketName := by
    intro sock hSock
    rw [← lexical_joinNode hNe, resolveSocketPath, hSock, truthy_some hNe]
    rfl
  rw [hRuntime]
  cases sock with
  | none =>
    rw [hCli, hPlugin none rfl]
    exact iff_of_true rfl nofun
  | some path =>
    by_cases hEmpty : path = []
    · subst hEmpty
      rw [hPlugin (some []) rfl]
      refine iff_of_false (fun hSame => ?_) fun hOther => hOther rfl
      cases congrArg Lexical.stack hSame
    · refine iff_of_true (congrArg lexical ?_) fun hSame => hEmpty (Option.some.inj hSame)
      rw [resolveSocketPath, truthy_some hEmpty]
      rfl

theorem empty_socket_differs :
    lexical (resolve (some []) none 1000) ≠
      lexical (resolveSocketPath none (some []) (resolveRuntimeDir none none (some 1000))) := by
  decide +kernel

end Forward.Proto

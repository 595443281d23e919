import Forward.Secrets.Expiry
import Forward.Secrets.Requests

/-!
# The status of a grant, through the listing

`secrets status` asks the broker for its listing of grants and looks for a line of the key with the
caller's own scope. The listing does not say which session a grant belongs to, and has the grants
that are over but not yet swept.
-/

namespace Forward.Secrets

open Lib Hygiene Proto

inductive CallerScope
  | session
  | tty (tty : String)
  | none

/-- What a caller with a scope takes itself for: the token is not looked at. -/
def callerScope : Scope → CallerScope
  | .session _ => .session
  | .tty tty _ => .tty tty

def namesGrant (caller : CallerScope) (name : SecretName) (line : List Char) : Bool :=
  match line.splitOn '\t' with
  | [key, grantScope, _] =>
    if key ≠ name.name.toList then false
    else
      match caller with
      | .session => grantScope = "session".toList
      | .tty tty => stripPrefix "tty ".toList grantScope = some tty.toList
      | .none => false
  | _ => false

def activeGrant (caller : CallerScope) (name : SecretName) (grants : List UInt8) :
    Except ClientError Bool :=
  match fromUtf8 grants with
  | none => .error .invalidResponse
  | some listing => .ok ((lines listing.toList).any (namesGrant caller name))

/-! ## Terminals of the table -/

/-- The terminal of an insertion came in a request. -/
def GrantOp.Wired : GrantOp → Prop
  | .insert (.tty tty _) _ _ _ _ => ∃ line request, 10 ∉ line ∧
      parseRequest line = .ok request ∧ tty ∈ request.texts
  | _ => True

def Scope.OneLine : Scope → Prop
  | .session _ => True
  | .tty device _ => '\t' ∉ device.toList ∧ '\n' ∉ device.toList

theorem oneLine_of_wired {scope : Scope} {key : SecretName} {value : List UInt8}
    {origin : GrantOrigin} {ttl : Nat}
    (h : (GrantOp.insert scope key value origin ttl).Wired) : scope.OneLine := by
  cases scope with
  | session => trivial
  | tty tty =>
    obtain ⟨line, request, hLine, hParse, hTty⟩ := h
    obtain ⟨whole, hWhole, hMem⟩ := parseRequest_mem hParse
    refine ⟨parseRequest_notMem_tab hParse tty hTty, fun hNewline => hLine ?_⟩
    exact newline_of_fromUtf8 hWhole (hMem tty hTty '\n' hNewline)

namespace GrantTable

variable {t : GrantTable}

theorem apply_oneLine {now : Nat} (h : ∀ g ∈ t.grants, g.scope.OneLine)
    {op : GrantOp} (hOp : op.Wired) : ∀ g ∈ (t.apply now op).grants, g.scope.OneLine := by
  intro g hg
  cases op with
  | insert =>
    rcases List.mem_append.mp hg with hOld | hNew
    · exact h g (List.mem_of_mem_filter hOld)
    · rw [List.mem_singleton.mp hNew]
      exact oneLine_of_wired hOp
  | revokeAll => cases hg
  -- everything else only takes entries out
  | _ => exact h g (List.mem_of_mem_filter hg)

theorem oneLine_path {s : GrantClock}
    (h : Path grantTables (fun _ a => a.1.Wired) grantTables.init s) :
    ∀ g ∈ s.table.grants, g.scope.OneLine := by
  refine Path.invariant (I := fun s => ∀ g ∈ s.table.grants, g.scope.OneLine) ?_ h ?_
  · intro x a y hx hOp hStep
    simp only [grantTables] at hStep
    split at hStep
    · cases hStep
      exact apply_oneLine hx hOp
    · cases hStep
  · intro g hg
    cases hg

/-! ## The listing -/

def scopeText : Scope → List Char
  | .session _ => "session".toList
  | .tty tty _ => "tty ".toList ++ tty.toList

def row (now : Nat) (g : Grant) : List Char :=
  ['\t'].intercalate [g.key.name.toList, scopeText g.scope,
    Nat.toDigits 10 (asSecs (durationSince now g.created)) ++ ['s']]

def rows (t : GrantTable) (now : Nat) : List (List Char) :=
  if t.grants.isEmpty then ["no active grants".toList]
  else "KEY\tSCOPE\tAGE".toList :: t.grants.map (row now)

theorem row_eq (now : Nat) (g : Grant) :
    row now g = (g.key.name.toList ++ '\t' :: (scopeText g.scope ++
      '\t' :: Nat.toDigits 10 (asSecs (durationSince now g.created)))) ++ ['s'] := by
  simp [row, List.intercalate]

theorem toList_renderLine (now : Nat) (g : Grant) :
    (renderLine now g).toList = row now g ++ ['\n'] := by
  have hEnds : "\t".toList = ['\t'] ∧ "s\n".toList = ['s', '\n'] := by decide
  unfold renderLine
  simp only [String.toList_append, hEnds.1, hEnds.2, toList_toString, row_eq,
    List.append_assoc, List.cons_append, List.nil_append]
  cases g.scope with
  | session => rfl
  | tty =>
    simp only [String.toList_append]
    rfl

theorem toList_foldl_renderLine (now : Nat) (grants : List Grant) (out : String) :
    (grants.foldl (fun out g => out ++ renderLine now g) out).toList =
      out.toList ++ (grants.map (row now)).flatMap (· ++ ['\n']) := by
  induction grants generalizing out with
  | nil => simp
  | cons g grants ih =>
    rw [List.foldl_cons, ih, String.toList_append, toList_renderLine, List.map_cons,
      List.flatMap_cons, List.append_assoc]

theorem toList_render (t : GrantTable) (now : Nat) :
    (t.render now).toList = (t.rows now).flatMap (· ++ ['\n']) := by
  unfold render rows
  by_cases hEmpty : t.grants.isEmpty
  · rw [if_pos hEmpty, if_pos hEmpty]
    decide
  · have hHeader : "KEY\tSCOPE\tAGE\n".toList = "KEY\tSCOPE\tAGE".toList ++ ['\n'] := by decide
    rw [if_neg hEmpty, if_neg hEmpty, toList_foldl_renderLine, hHeader, List.flatMap_cons]

variable {g : Grant} {now : Nat}

theorem plain_row (now : Nat) (h : g.scope.OneLine) :
    ∀ part ∈ [g.key.name.toList, scopeText g.scope,
      Nat.toDigits 10 (asSecs (durationSince now g.created)) ++ ['s']],
      '\t' ∉ part ∧ '\n' ∉ part := by
  have hKey : '\t' ∉ g.key.name.toList ∧ '\n' ∉ g.key.name.toList :=
    ⟨fun hIn => absurd (SecretName.alphanum_of_mem hIn) (by decide),
      fun hIn => absurd (SecretName.alphanum_of_mem hIn) (by decide)⟩
  have hScope : '\t' ∉ scopeText g.scope ∧ '\n' ∉ scopeText g.scope := by
    cases hKind : g.scope with
    | session => exact (by decide : '\t' ∉ "session".toList ∧ '\n' ∉ "session".toList)
    | tty tty =>
      rw [hKind] at h
      have hStart : '\t' ∉ "tty ".toList ∧ '\n' ∉ "tty ".toList := by decide
      show '\t' ∉ "tty ".toList ++ tty.toList ∧ '\n' ∉ "tty ".toList ++ tty.toList
      rw [List.mem_append, List.mem_append, not_or, not_or]
      exact ⟨⟨hStart.1, h.1⟩, hStart.2, h.2⟩
  have hAge : ∀ n, '\t' ∉ Nat.toDigits 10 n ++ ['s'] ∧ '\n' ∉ Nat.toDigits 10 n ++ ['s'] := by
    intro n
    rw [List.mem_append, List.mem_append, not_or, not_or]
    exact ⟨⟨fun hIn => absurd (isDigit_of_mem_decimal hIn) (by decide), by decide⟩,
      fun hIn => absurd (isDigit_of_mem_decimal hIn) (by decide), by decide⟩
  exact List.forall_mem_cons.mpr ⟨hKey, List.forall_mem_cons.mpr ⟨hScope,
    List.forall_mem_singleton.mpr (hAge _)⟩⟩

theorem splitOn_row (h : g.scope.OneLine) :
    (row now g).splitOn '\t' = [g.key.name.toList, scopeText g.scope,
      Nat.toDigits 10 (asSecs (durationSince now g.created)) ++ ['s']] :=
  List.splitOn_intercalate '\t' (fun part hPart => (plain_row now h part hPart).1)
    (List.cons_ne_nil _ _)

theorem newline_notMem_row (h : g.scope.OneLine) : '\n' ∉ row now g :=
  notMem_intercalate (by decide) fun part hPart => (plain_row now h part hPart).2

theorem lines_render (h : ∀ g ∈ t.grants, g.scope.OneLine) :
    lines (t.render now).toList = t.rows now := by
  have hHeads : '\n' ∉ "no active grants".toList ∧
      "no active grants".toList.getLast? ≠ some '\r' ∧ '\n' ∉ "KEY\tSCOPE\tAGE".toList ∧
      "KEY\tSCOPE\tAGE".toList.getLast? ≠ some '\r' := by decide
  rw [toList_render]
  refine lines_flatMap ?_ ?_
  · unfold rows
    split
    · exact List.forall_mem_singleton.mpr hHeads.1
    · refine List.forall_mem_cons.mpr ⟨hHeads.2.2.1, fun line hLine => ?_⟩
      obtain ⟨g, hg, rfl⟩ := List.mem_map.mp hLine
      exact newline_notMem_row (h g hg)
  · unfold rows
    split
    · exact List.forall_mem_singleton.mpr hHeads.2.1
    · refine List.forall_mem_cons.mpr ⟨hHeads.2.2.2, fun line hLine => ?_⟩
      obtain ⟨g, -, rfl⟩ := List.mem_map.mp hLine
      rw [row_eq, List.getLast?_concat]
      decide

/-! ## The answer -/

variable {caller : CallerScope} {name : SecretName}

theorem namesGrant_row (h : g.scope.OneLine) :
    namesGrant caller name (row now g) ↔ g.key = name ∧ callerScope g.scope = caller := by
  unfold namesGrant
  rw [splitOn_row h]
  simp only
  by_cases hKey : g.key = name
  · rw [if_neg (by simp [hKey])]
    simp only [hKey, true_and]
    -- a session is listed by one word, which is no terminal
    cases hScope : g.scope with
    | session =>
      have hOther : stripPrefix "tty ".toList "session".toList = none := by decide
      cases caller with
      | session => exact iff_of_true (decide_eq_true rfl) rfl
      | tty =>
        refine iff_of_false (fun hEq => ?_) nofun
        rw [decide_eq_true_eq] at hEq
        exact absurd (hOther.symm.trans hEq) nofun
      | none => exact iff_of_false nofun nofun
    | tty device bootId =>
      have hOther : "tty ".toList ++ device.toList ≠ "session".toList := by
        intro hEq
        cases (congrArg List.head? hEq : some 't' = some 's')
      cases caller with
      | session => exact iff_of_false (fun hEq => hOther (of_decide_eq_true hEq)) nofun
      | tty tty =>
        have hStrip : stripPrefix "tty ".toList (scopeText (.tty device bootId)) =
            some device.toList := stripPrefix_append _ _
        rw [hStrip, decide_eq_true_eq, Option.some.injEq, String.toList_inj]
        exact ⟨fun hEq => congrArg CallerScope.tty hEq, fun hEq => CallerScope.tty.inj hEq⟩
      | none => exact iff_of_false nofun nofun
  · have hText : g.key.name.toList ≠ name.name.toList := by
      intro hEq
      refine hKey ?_
      cases hg : g.key
      cases name
      simp_all [String.toList_inj]
    rw [if_pos hText]
    simp [hKey]

theorem namesGrant_heads :
    namesGrant caller name "no active grants".toList = false ∧
      namesGrant caller name "KEY\tSCOPE\tAGE".toList = false := by
  have hNone : "no active grants".toList.splitOn '\t' = ["no active grants".toList] := by decide
  have hHeader : "KEY\tSCOPE\tAGE".toList.splitOn '\t' =
      ["KEY".toList, "SCOPE".toList, "AGE".toList] := by decide
  unfold namesGrant
  rw [hNone, hHeader]
  refine ⟨rfl, ?_⟩
  simp only
  split
  · rfl
  · cases caller with
    | session => decide
    | tty tty =>
      have hOther : stripPrefix "tty ".toList "SCOPE".toList = none := by decide
      rw [hOther]
      rfl
    | none => rfl

theorem activeGrant_iff (h : ∀ g ∈ t.grants, g.scope.OneLine) :
    activeGrant caller name (textBytes (t.render now)) = .ok true ↔
      ∃ g ∈ t.grants, g.key = name ∧ callerScope g.scope = caller := by
  have hText : fromUtf8 (textBytes (t.render now)) = some (t.render now) :=
    fromUtf8_eq_some_iff.mpr rfl
  unfold activeGrant
  rw [hText]
  simp only [Except.ok.injEq, lines_render h, List.any_eq_true]
  unfold rows
  split
  · rename_i hEmpty
    rw [List.isEmpty_iff.mp hEmpty]
    refine iff_of_false ?_ (by simp)
    rintro ⟨line, hLine, hNames⟩
    rw [List.mem_singleton.mp hLine, namesGrant_heads.1] at hNames
    cases hNames
  · simp only [List.mem_cons, List.mem_map]
    constructor
    · rintro ⟨line, rfl | ⟨g, hg, rfl⟩, hNames⟩
      · rw [namesGrant_heads.2] at hNames
        cases hNames
      · exact ⟨g, hg, (namesGrant_row (h g hg)).mp hNames⟩
    · rintro ⟨g, hg, hNames⟩
      exact ⟨_, .inr ⟨g, hg, rfl⟩, (namesGrant_row (h g hg)).mpr hNames⟩

end GrantTable

/-- **When the reported status is the caller's own.** In every run, `active_grant` on
the listing and `lookup` agree exactly when a grant for the key that looks like the
caller's, if there is one, comes with a live grant of the caller's own scope. -/
theorem reported_status (s : GrantClock)
    (hPath : Path grantTables (fun _ a => a.1.Wired) grantTables.init s)
    (scope : Scope) (key : SecretName) (now : Nat) :
    (activeGrant (callerScope scope) key (textBytes (s.table.render now)) = .ok true ↔
      (s.table.lookup scope key now).isSome = true) ↔
    ((∃ g ∈ s.table.grants, g.key = key ∧ callerScope g.scope = callerScope scope) →
      (s.table.lookup scope key now).isSome = true) := by
  rw [GrantTable.activeGrant_iff (GrantTable.oneLine_path hPath)]
  constructor
  · exact fun hAgree => hAgree.mp
  · intro hOwn
    refine ⟨hOwn, fun hLive => ?_⟩
    obtain ⟨g, hMem, hScope, hKey, -⟩ := GrantTable.lookup_isSome_iff.mp hLive
    exact ⟨g, hMem, hKey, by rw [hScope]⟩

/-! ## Somebody else's grant -/

def sessionOf (byte : UInt8) : Scope := .session ⟨List.replicate 32 byte, List.length_replicate⟩

def sessionGrant : GrantOp × Nat :=
  (.insert (sessionOf 1) apiKey [1] ⟨"store", ⟨0, 0, 0, ⟨0, 0⟩, ⟨0, 0⟩⟩⟩ (fromSecs 5), 0)

def granted : GrantClock := ⟨GrantTable.new.apply 0 sessionGrant.1, 0⟩

theorem granted_path : Path grantTables (fun _ a => a.1.Wired) grantTables.init granted :=
  Path.single (a := sessionGrant) trivial rfl

theorem reported_status_own :
    activeGrant (callerScope (sessionOf 1)) apiKey
      (textBytes (granted.table.render (fromSecs 4))) = .ok true ∧
    (granted.table.lookup (sessionOf 1) apiKey (fromSecs 4)).isSome = true := by
  have hLive : (granted.table.lookup (sessionOf 1) apiKey (fromSecs 4)).isSome := by
    decide +kernel
  exact ⟨((reported_status granted granted_path (sessionOf 1) apiKey (fromSecs 4)).mpr
    fun _ => hLive).mpr hLive, hLive⟩

/-- **The status of another.** The grant of one session is reported to another session,
and to its own session when it is over. -/
theorem status_of_another :
    ∃ s, Path grantTables (fun _ a => a.1.Wired) grantTables.init s ∧
      (activeGrant (callerScope (sessionOf 2)) apiKey
          (textBytes (s.table.render (fromSecs 4))) = .ok true ∧
        s.table.lookup (sessionOf 2) apiKey (fromSecs 4) = none) ∧
      activeGrant (callerScope (sessionOf 1)) apiKey
          (textBytes (s.table.render (fromSecs 5))) = .ok true ∧
        s.table.lookup (sessionOf 1) apiKey (fromSecs 5) = none := by
  have hListed : ∀ byte : UInt8, ∃ g ∈ granted.table.grants,
      g.key = apiKey ∧ callerScope g.scope = callerScope (sessionOf byte) :=
    fun _ => ⟨_, List.mem_singleton.mpr rfl, rfl, rfl⟩
  have hOneLine := GrantTable.oneLine_path granted_path
  refine ⟨granted, granted_path, ⟨(GrantTable.activeGrant_iff hOneLine).mpr (hListed 2), ?_⟩,
    (GrantTable.activeGrant_iff hOneLine).mpr (hListed 1), ?_⟩
  · decide +kernel
  · decide +kernel

end Forward.Secrets

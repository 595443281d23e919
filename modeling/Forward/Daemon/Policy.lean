import Mathlib.Data.List.DropRight
import Forward.Serve.Security

/-!
# Which URLs are opened without asking

`allow_matches` compares a URL with one pattern of the allow list, `host[:port][/path]`. A
pattern is any text that the operator has written.
-/

namespace Forward.Daemon

open Lib
open Serve (asciiLower)

structure SeenUrl where
  host : Option (List Char)
  -- `port_or_known_default`
  port : Option Nat
  path : List Char

def rsplitOnce (sep : Char) (text : List Char) : Option (List Char × List Char) :=
  (splitOnce [sep] text.reverse).map fun (after, before) => (before.reverse, after.reverse)

def splitHostAndPort (hostPattern : List Char) : List Char × Option Nat :=
  if hostPattern.head? = some '[' then
    match splitOnce [']'] hostPattern with
    | none => (hostPattern, none)
    | some (front, suffix) =>
      match (stripPrefix [':'] suffix).bind parseU16 with
      | none => (hostPattern, none)
      | some port => (front ++ [']'], some port)
  else
    match rsplitOnce ':' hostPattern with
    | none => (hostPattern, none)
    | some (host, port) =>
      match parseU16 port with
      | none => (hostPattern, none)
      | some port => (host, some port)

def normalizeLoopbackAlias (host : List Char) : List Char :=
  if host = "127.0.0.1".toList ∨ host = "[::1]".toList then "localhost".toList else host

def labelsMatch : List (List Char) → List (List Char) → Bool
  | [], [] => true
  | pattern :: patterns, label :: labels =>
    if pattern = ['*'] then labelsMatch patterns labels
    else if pattern = label then labelsMatch patterns labels
    else false
  | _, _ => false

def labels (host : List Char) : List (List Char) :=
  (normalizeLoopbackAlias (asciiLower host)).splitOn '.'

def trimSlashes (text : List Char) : List Char := text.rdropWhile (· = '/')

def allowMatches (pattern : List Char) (url : SeenUrl) : Bool :=
  let (hostPattern, pathPrefix) := (splitOnce ['/'] pattern).getD (pattern, [])
  let (hostPattern, patternPort) := splitHostAndPort hostPattern
  if patternPort.any fun port => url.port ≠ some port then false
  else
    match url.host with
    | none => false
    | some host =>
      if labelsMatch (labels hostPattern) (labels host) then
        let start := '/' :: trimSlashes pathPrefix
        trimSlashes pathPrefix = [] || url.path = start || (start ++ ['/']).isPrefixOf url.path
      else false

/-! ## What a pattern says -/

/-- The host part of a pattern, and what stands behind its first slash. -/
def Parts (pattern hostPart rest : List Char) : Prop :=
  (pattern = hostPart ++ '/' :: rest ∨ pattern = hostPart ∧ rest = []) ∧ '/' ∉ hostPart

/-- A host part ends in a valid port: behind the bracket of an IPv6 address, or behind its last
colon. -/
def Ported (hostPart host : List Char) (port : Nat) : Prop :=
  ∃ digits, parseU16 digits = some port ∧
    if hostPart.head? = some '[' then
      ∃ front, hostPart = front ++ ']' :: ':' :: digits ∧ ']' ∉ front ∧ host = front ++ [']']
    else hostPart = host ++ ':' :: digits ∧ ':' ∉ digits

variable {c : Char} {text before after : List Char}

theorem splitOnce_iff :
    splitOnce [c] text = some (before, after) ↔ text = before ++ c :: after ∧ c ∉ before := by
  constructor
  · intro h
    exact ⟨eq_of_splitOnce (List.cons_ne_nil _ _) h, notMem_of_splitOnce h⟩
  · rintro ⟨rfl, hBefore⟩
    exact splitOnce_char hBefore after

theorem rsplitOnce_iff :
    rsplitOnce c text = some (before, after) ↔ text = before ++ c :: after ∧ c ∉ after := by
  rw [rsplitOnce, Option.map_eq_some_iff]
  constructor
  · rintro ⟨⟨front, back⟩, hSplit, hSame⟩
    cases hSame
    obtain ⟨hText, hFree⟩ := splitOnce_iff.mp hSplit
    refine ⟨?_, by simpa using hFree⟩
    rw [← List.reverse_reverse text, hText]
    simp
  · rintro ⟨rfl, hFree⟩
    refine ⟨(after.reverse, before.reverse), splitOnce_iff.mpr ⟨?_, by simpa using hFree⟩, ?_⟩
    · simp
    · simp

theorem parts_iff {pattern hostPart rest : List Char} :
    (splitOnce ['/'] pattern).getD (pattern, []) = (hostPart, rest) ↔
      Parts pattern hostPart rest := by
  constructor
  · intro h
    cases hSplit : splitOnce ['/'] pattern with
    | none =>
      rw [hSplit] at h
      cases h
      exact ⟨.inr ⟨rfl, rfl⟩, notMem_of_splitOnce_none hSplit⟩
    | some =>
      rw [hSplit] at h
      cases h
      obtain ⟨hText, hFree⟩ := splitOnce_iff.mp hSplit
      exact ⟨.inl hText, hFree⟩
  · rintro ⟨rfl | ⟨rfl, rfl⟩, hFree⟩
    · rw [splitOnce_char hFree, Option.getD_some]
    · rw [splitOnce_eq_none hFree, Option.getD_none]

theorem splitHostAndPort_iff {hostPart host : List Char} {port : Nat} :
    splitHostAndPort hostPart = (host, some port) ↔ Ported hostPart host port := by
  unfold splitHostAndPort Ported
  by_cases hBracket : hostPart.head? = some '['
  · simp only [if_pos hBracket]
    constructor
    · intro h
      split at h
      · cases h
      · rename_i hSplit
        split at h
        · cases h
        · rename_i hPort
          cases h
          obtain ⟨hText, hFree⟩ := splitOnce_iff.mp hSplit
          obtain ⟨digits, hStrip, hParse⟩ := Option.bind_eq_some_iff.mp hPort
          rw [eq_of_stripPrefix hStrip] at hText
          exact ⟨digits, hParse, _, hText, hFree, rfl⟩
    · rintro ⟨digits, hParse, front, rfl, hFree, rfl⟩
      have hStrip := stripPrefix_append [':'] digits
      rw [List.singleton_append] at hStrip
      simp only [splitOnce_char hFree, hStrip, Option.bind_some, hParse]
  · simp only [if_neg hBracket]
    constructor
    · intro h
      split at h
      · cases h
      · rename_i hSplit
        split at h
        · cases h
        · rename_i hParse
          cases h
          exact ⟨_, hParse, rsplitOnce_iff.mp hSplit⟩
    · rintro ⟨digits, hParse, hText⟩
      simp only [rsplitOnce_iff.mpr hText, hParse]

theorem splitHostAndPort_none {hostPart host : List Char}
    (h : splitHostAndPort hostPart = (host, none)) : host = hostPart := by
  unfold splitHostAndPort at h
  split at h
  all_goals
    split at h
    · cases h
      rfl
    · split at h <;> cases h
      rfl

theorem labelsMatch_iff {patterns found : List (List Char)} :
    labelsMatch patterns found = true ↔
      List.Forall₂ (fun pattern label => pattern = ['*'] ∨ pattern = label) patterns found := by
  induction patterns generalizing found with
  | nil => cases found <;> simp [labelsMatch]
  | cons pattern patterns ih =>
    cases found with
    | nil => simp [labelsMatch]
    | cons label found =>
      rw [labelsMatch, List.forall₂_cons, ← ih]
      by_cases hStar : pattern = ['*']
      · simp [hStar]
      · by_cases hSame : pattern = label
        · simp [hSame]
        · simp [hStar, hSame]

/-! ## Matching -/

/-- The host of the pattern, and a port that it may ask for. -/
def AtPort (hostPart patternHost : List Char) (found : Option Nat) : Prop :=
  (∃ port, Ported hostPart patternHost port ∧ found = some port) ∨
    patternHost = hostPart ∧ ∀ host port, ¬ Ported hostPart host port

theorem atPort_iff {hostPart patternHost : List Char} {found : Option Nat} :
    AtPort hostPart patternHost found ↔ (splitHostAndPort hostPart).1 = patternHost ∧
      ((splitHostAndPort hostPart).2.any fun port => found ≠ some port) = false := by
  unfold AtPort
  simp only [← splitHostAndPort_iff]
  rcases hSplit : splitHostAndPort hostPart with ⟨host, _ | port⟩
  · obtain rfl := splitHostAndPort_none hSplit
    constructor
    · rintro (⟨port, hSame, -⟩ | ⟨rfl, -⟩)
      · cases hSame
      · exact ⟨rfl, rfl⟩
    · rintro ⟨rfl, -⟩
      exact .inr ⟨rfl, nofun⟩
  · constructor
    · rintro (⟨_, hSame, rfl⟩ | ⟨-, hNone⟩)
      · cases hSame
        exact ⟨rfl, by simp⟩
      · exact absurd rfl (hNone host port)
    · rintro ⟨rfl, hAny⟩
      exact .inl ⟨port, rfl, by simpa using hAny⟩

/-- The pattern allows the URL: the parts of the pattern that say so. -/
structure Allows (pattern : List Char) (url : SeenUrl) (hostPart rest patternHost host : List Char) :
    Prop where
  parts : Parts pattern hostPart rest
  found : url.host = some host
  port : AtPort hostPart patternHost url.port
  labels : List.Forall₂ (fun pattern label => pattern = ['*'] ∨ pattern = label)
    (labels patternHost) (labels host)
  path : trimSlashes rest = [] ∨ url.path = '/' :: trimSlashes rest ∨
    '/' :: trimSlashes rest ++ ['/'] <+: url.path

/-- **Allow-list matching.** A URL matches a pattern if and only if the pattern allows it; then
the pattern has as many labels as the host, and the segments of its path are the first segments
of the URL's. -/
theorem allow_list_matching (pattern : List Char) (url : SeenUrl) :
    (allowMatches pattern url = true ↔
      ∃ hostPart rest patternHost host, Allows pattern url hostPart rest patternHost host) ∧
    ∀ hostPart rest patternHost host, Allows pattern url hostPart rest patternHost host →
      (labels patternHost).length = (labels host).length ∧
      (trimSlashes rest = [] ∨
        ('/' :: trimSlashes rest).splitOn '/' <+: url.path.splitOn '/') := by
  refine ⟨?_, ?_⟩
  · obtain ⟨hostPart, rest, hParts⟩ :
        ∃ hostPart rest, (splitOnce ['/'] pattern).getD (pattern, []) = (hostPart, rest) :=
      ⟨_, _, rfl⟩
    have hPort := @atPort_iff hostPart (splitHostAndPort hostPart).1 url.port
    simp only [allowMatches, hParts]
    constructor
    · intro h
      split at h
      · cases h
      · rename_i hOther
        split at h
        · cases h
        · rename_i host hHost
          split at h
          · rename_i hLabels
            refine ⟨hostPart, rest, _, host, parts_iff.mp hParts, hHost,
              hPort.mpr ⟨rfl, eq_false_of_ne_true hOther⟩, labelsMatch_iff.mp hLabels, ?_⟩
            simpa [or_assoc] using h
          · cases h
    · rintro ⟨_, _, patternHost, host, hSame, hHost, hAt, hLabels, hPath⟩
      obtain ⟨rfl, rfl⟩ := Prod.mk.inj (hParts.symm.trans (parts_iff.mpr hSame))
      obtain ⟨rfl, hAny⟩ := atPort_iff.mp hAt
      rw [hAny, hHost]
      simp only [Bool.false_eq_true, if_false, labelsMatch_iff.mpr hLabels, if_true]
      simpa [or_assoc] using hPath
  · intro hostPart rest patternHost host h
    refine ⟨h.labels.length_eq, h.path.imp_right ?_⟩
    rintro (hSame | ⟨more, hMore⟩)
    · rw [hSame]
    · rw [← hMore, List.append_assoc]
      exact ⟨_, (List.splitOnP_append_cons _ _ (by decide)).symm⟩

end Forward.Daemon

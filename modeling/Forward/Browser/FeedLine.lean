import Mathlib.Data.List.DropRight
import Forward.Browser.Feed
import Forward.Browser.Registry
import Forward.Hygiene.Words
import Forward.Lib.Base64
import Forward.Proto.Buffered

/-!
# The lines of the grant feed

The devbox pushes each relay token as a line `TOKEN <token> <ttl>`, and the laptop reads lines of
at most 128 bytes. When the laptop attaches, and every minute, the devbox pushes all grants of a
snapshot, until one push fails.
-/

namespace Forward.Browser

open Lib Hygiene Proto

/-! ## The devbox -/

def tokenBytes : Nat := 32

def mintToken (raw : Vector UInt8 tokenBytes) : List UInt8 :=
  textBytes (String.ofList (Base64.encode raw.toList))

def feedLine (token : List UInt8) (ttlSecs : Nat) : List UInt8 :=
  textBytes "TOKEN " ++ token ++ textBytes " " ++ textBytes (toString ttlSecs) ++ textBytes "\n"

structure FeedSlot where
  attached : Bool

/-- `push`: whether it was delivered, the slot behind it, and the lines written. `ack`
is what the laptop answered, if nothing failed before. -/
def FeedSlot.push (slot : FeedSlot) (ack : Option (List UInt8)) (token : List UInt8)
    (ttlSecs : Nat) : Bool × FeedSlot × List (List UInt8) :=
  if !slot.attached then (false, slot, [])
  else if ack = some (textBytes "OK\n") then (true, slot, [feedLine token ttlSecs])
  else (false, ⟨false⟩, [feedLine token ttlSecs])

def snapshotLive (grants : Table Nat GrantEntry) (now : Nat) : List (List UInt8 × Nat) :=
  (grants.values.filter (·.isLive now)).map (·.remaining now)

/-- The lines that `push_live` writes. Other threads attach and push between its own
pushes, so each turn has a slot and an answer of its own. -/
def pushLive (turns : Nat → FeedSlot × Option (List UInt8)) :
    List (List UInt8 × Nat) → List (List UInt8)
  | [] => []
  | (token, remainingSecs) :: rest =>
    match (turns 0).1.push (turns 0).2 token remainingSecs with
    | (true, _, written) => written ++ pushLive (fun n => turns (n + 1)) rest
    | (false, _, written) => written

/-! ## The laptop -/

def maxFeedLine : Nat := 128

def parseTokenLine (line : List Char) : Option (List UInt8 × Nat) := do
  let rest ← stripPrefix "TOKEN ".toList line
  let (token, ttl) ← splitOnce [' '] rest
  if token.isEmpty || token.contains ' ' then none
  else
    let ttl ← parseU64 ttl
    if ttl = 0 then none
    else some (textBytes (String.ofList token), asSecs (clampWireTtl (fromSecs ttl)))

inductive FeedRead
  | closed
  | failed
  | token (token : List UInt8) (ttlSecs : Nat)

/-- The read of one line in `run_once`. -/
def readFeedLine (r : BufReader UInt8) : FeedRead × BufReader UInt8 :=
  let (bytes, r) := r.readUntil Buffered.capacity Buffered.capacity_pos 10 maxFeedLine
  match fromUtf8 bytes with
  | none => (.failed, r)
  | some line =>
    if bytes.isEmpty then (.closed, r)
    else
      match parseTokenLine (line.toList.rdropWhile fun c => c == '\r' || c == '\n') with
      | none => (.failed, r)
      | some (token, ttl) => (.token token ttl, r)

/-! ## A line and its reader -/

def tokenVerb : Word := .literal "TOKEN" (by decide)

def tokenWord (raw : Vector UInt8 tokenBytes) : Word :=
  ⟨Base64.encode raw.toList, fun _ hc => Base64.isAsciiGraphic_of_mem_encode hc⟩

def feedWords (raw : Vector UInt8 tokenBytes) (ttl : Nat) : List Word :=
  [tokenVerb, tokenWord raw, .decimal ttl]

variable {raw : Vector UInt8 tokenBytes} {ttl : Nat}

theorem spaced_feedWords :
    spaced (feedWords raw ttl) =
      "TOKEN ".toList ++ (Base64.encode raw.toList ++ ' ' :: Nat.toDigits 10 ttl) := by
  rw [feedWords, spaced_cons, spaced_cons, spaced_singleton]
  rfl

theorem feedLine_mintToken :
    feedLine (mintToken raw) ttl =
      textBytes (String.ofList (spaced (feedWords raw ttl))) ++ [10] := by
  have hText : String.ofList (spaced (feedWords raw ttl)) =
      "TOKEN " ++ String.ofList (Base64.encode raw.toList) ++ " " ++ toString ttl := by
    refine String.toList_inj.mp ?_
    rw [String.toList_ofList, spaced_feedWords]
    simp only [String.toList_append, String.toList_ofList, toList_toString]
    simp
  rw [hText]
  simp only [feedLine, mintToken, textBytes_append]
  rfl

theorem length_mintToken : (Base64.encode raw.toList).length = 43 := by
  rw [Base64.length_encode, Vector.length_toList]
  rfl

theorem length_feedWords (hWord : ttl < 2 ^ 64) :
    (textBytes (String.ofList (spaced (feedWords raw ttl)))).length ≤ 70 := by
  have hTtl := length_decimal_u64 hWord
  have hVerb : "TOKEN ".toList.length = 6 := by decide
  rw [length_textBytes_spaced, spaced_feedWords, List.length_append, List.length_append,
    List.length_cons, length_mintToken, hVerb]
  omega

theorem asSecs_clampWireTtl (ttl : Nat) :
    asSecs (clampWireTtl (fromSecs ttl)) = min ttl (12 * 60 * 60) := by
  simp only [asSecs, clampWireTtl, longestTtl, fromSecs, nanosPerSec]
  omega

theorem parseTokenLine_feedWords (hPositive : 1 ≤ ttl) (hWord : ttl < 2 ^ 64) :
    parseTokenLine (spaced (feedWords raw ttl)) =
      some (mintToken raw, min ttl (12 * 60 * 60)) := by
  have hToken : ' ' ∉ Base64.encode raw.toList := (tokenWord raw).space_notMem
  have hShape : ¬ ((Base64.encode raw.toList).isEmpty ||
      (Base64.encode raw.toList).contains ' ') := by
    have hSome : Base64.encode raw.toList ≠ [] := by
      intro hNone
      have hLength : (Base64.encode raw.toList).length = 43 := length_mintToken
      rw [hNone] at hLength
      cases hLength
    simp [hSome, hToken]
  have hTtl : parseU64 (Nat.toDigits 10 ttl) = some ttl := by
    rw [parseU64_decimal, if_pos hWord]
  unfold parseTokenLine
  rw [spaced_feedWords]
  simp only [stripPrefix_append, splitOnce_char hToken, Option.bind_eq_bind, Option.bind_some]
  rw [if_neg hShape, hTtl, Option.bind_some, if_neg (by omega), asSecs_clampWireTtl]
  rfl

theorem trim_line (words : List Word) :
    (spaced words ++ ['\n']).rdropWhile (fun c => c == '\r' || c == '\n') = spaced words := by
  rw [List.rdropWhile_concat_pos _ _ _ (by decide), List.rdropWhile_eq_self_iff]
  intro hNe hLast
  obtain ⟨hAscii, hNewline, hReturn⟩ := plain_of_mem_spaced (List.getLast_mem hNe)
  rw [Bool.or_eq_true, beq_iff_eq, beq_iff_eq] at hLast
  rcases hLast with hLast | hLast
  · rw [hLast] at hReturn
    exact hReturn rfl
  · rw [hLast] at hNewline
    exact hNewline rfl

/-- **A pushed line is read back.** -/
theorem readFeedLine_feedLine (hPositive : 1 ≤ ttl) (hWord : ttl < 2 ^ 64) {r : BufReader UInt8}
    {rest : List UInt8} (hBytes : r.bytes = feedLine (mintToken raw) ttl ++ rest) :
    ∃ r', readFeedLine r = (.token (mintToken raw) (min ttl (12 * 60 * 60)), r') ∧
      r'.bytes = rest := by
  have hLength : (textBytes (String.ofList (spaced (feedWords raw ttl)))).length ≤ 70 :=
    length_feedWords hWord
  rw [feedLine_mintToken, List.append_assoc, List.singleton_append] at hBytes
  obtain ⟨r', hRead, hRest⟩ := BufReader.readUntil_eq Buffered.capacity_pos 10 maxFeedLine r
  have hLine : through 10 (r.bytes.take maxFeedLine) =
      textBytes (String.ofList (spaced (feedWords raw ttl))) ++ [10] := by
    rw [hBytes, through_take_line (newline_notMem_spaced _) (by unfold maxFeedLine; omega)]
  rw [hLine] at hRead hRest
  refine ⟨r', ?_, ?_⟩
  · have hSome : ¬ (textBytes (String.ofList (spaced (feedWords raw ttl))) ++ [10]).isEmpty := by
      simp
    unfold readFeedLine
    simp only [hRead, fromUtf8_line, String.toList_ofList, trim_line, hSome, if_false,
      parseTokenLine_feedWords hPositive hWord, Bool.false_eq_true]
  · rw [hBytes] at hRest
    simpa using hRest.symm

/-! ## A snapshot and its lines -/

theorem snapshot_of_listing {r r' : Registry} {t now : Nat} {cloned : Bool}
    (hTurn : r.turn t cloned (.listing now) = some r') :
    r'.tasks t = some (.returned (.snapshot (snapshotLive r.grants now))) := by
  cases hTurn
  exact Registry.setTask_self _ _ _

theorem mem_snapshotLive {grants : Table Nat GrantEntry} {now : Nat} {token : List UInt8}
    {secs : Nat} (h : (token, secs) ∈ snapshotLive grants now) :
    ∃ entry ∈ grants.values, now < entry.grant.deadline ∧ token = entry.grant.token ∧ 1 ≤ secs ∧
      secs ≤ (entry.grant.deadline - now + (nanosPerSec - 1)) / nanosPerSec := by
  obtain ⟨entry, hEntry, hPair⟩ := List.mem_map.mp h
  obtain ⟨hIn, hLive⟩ := List.mem_filter.mp hEntry
  cases hPair
  have hLeft : now < entry.grant.deadline := of_decide_eq_true hLive
  refine ⟨entry, hIn, hLeft, rfl, Nat.le_max_right _ _, ?_⟩
  unfold asSecs durationSince nanosPerSec
  omega

theorem mem_pushLive {turns : Nat → FeedSlot × Option (List UInt8)}
    {snapshot : List (List UInt8 × Nat)} {line : List UInt8} (h : line ∈ pushLive turns snapshot) :
    ∃ pair ∈ snapshot, line = feedLine pair.1 pair.2 := by
  -- a push writes the line of its pair, or nothing
  have hWritten : ∀ (slot : FeedSlot) ack token secs,
      line ∈ (slot.push ack token secs).2.2 → line = feedLine token secs := by
    intro slot ack token secs hIn
    unfold FeedSlot.push at hIn
    split at hIn
    · cases hIn
    · split at hIn <;> exact List.mem_singleton.mp hIn
  induction snapshot generalizing turns with
  | nil => cases h
  | cons pair rest ih =>
    obtain ⟨token, secs⟩ := pair
    have hOwn := hWritten (turns 0).1 (turns 0).2 token secs
    rw [pushLive] at h
    split at h
    · rename_i hPush
      rw [hPush] at hOwn
      rcases List.mem_append.mp h with hFirst | hLater
      · exact ⟨_, List.mem_cons_self, hOwn hFirst⟩
      · obtain ⟨pair, hPair, hLine⟩ := ih hLater
        exact ⟨pair, List.mem_cons_of_mem _ hPair, hLine⟩
    · rename_i hPush
      rw [hPush] at hOwn
      exact ⟨_, List.mem_cons_self, hOwn h⟩

end Forward.Browser

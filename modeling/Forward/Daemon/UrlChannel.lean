import Forward.Bridge.Requests
import Forward.Proto.Buffered
import Forward.Secrets.ClientFrames

/-!
# The lines of the URL channel

The laptop's daemon reads one line through a buffer, up to 8192 bytes: a URL to open, or `HOLD
<port> <secs>`. Unlike the readers of the bridge it does not repeat an interrupted read.
-/

namespace Forward.Daemon

open Lib Hygiene Proto Bridge

def maxUrlBytes : Nat := 8192

theorem round_spec {r r' r'' : BufReader UInt8} {more : List UInt8} {limit : Nat}
    (hFill : r.fillBuf Buffered.capacity = (true, r')) (hLimit : 0 < limit)
    (hThere : limit ≤ r'.buffer.length)
    (hRead : r'.readUntil Buffered.capacity Buffered.capacity_pos 10 limit = (more, r'')) :
    more = through 10 (r'.buffer.take limit) ∧ r'' = r'.consume more.length ∧ r''.size < r.size := by
  rw [BufReader.readUntil_buffer _ _ hLimit hThere] at hRead
  cases hRead
  refine ⟨rfl, rfl, ?_⟩
  obtain ⟨hBytes, hSignals, -⟩ := BufReader.fillBuf_true Buffered.capacity_pos hFill
  have hSame : r'.size = r.size := by simp only [BufReader.size, hBytes, hSignals]
  have hSome : 0 < (through 10 (r'.buffer.take limit)).length := by
    have hTake : r'.buffer.take limit ≠ [] := by
      intro hNone
      have hLength := congrArg List.length hNone
      rw [List.length_take, List.length_nil] at hLength
      omega
    exact List.length_pos_iff.mpr fun hNone => hTake (through_eq_nil.mp hNone)
  rw [← hSame]
  exact BufReader.size_consume_lt hSome
    (((through_isPrefix 10 _).trans (List.take_prefix _ _)).length_le)

/-- The loop of `read_line`, behind the bytes that it has. -/
def readUrlLine (bytes : List UInt8) (r : BufReader UInt8) : Option (List UInt8) :=
  if _ : bytes.length < maxUrlBytes then
    match _ : r.fillBuf Buffered.capacity with
    -- any error of `fill_buf`, an interrupted read among them
    | (false, _) => none
    | (true, r') =>
      if _ : r'.buffer = [] then none
      else
        let limit := min (maxUrlBytes - bytes.length) r'.buffer.length
        match _ : r'.readUntil Buffered.capacity Buffered.capacity_pos 10 limit with
        | (more, r'') =>
          if (bytes ++ more).getLast? = some 10 then some (bytes ++ more)
          else readUrlLine (bytes ++ more) r''
  else if bytes.getLast? = some 10 then some bytes else none
termination_by r.size
decreasing_by
  have hBuffer : 0 < r'.buffer.length := List.length_pos_iff.mpr ‹r'.buffer ≠ []›
  have hLimit : 0 < limit := Nat.lt_min.mpr ⟨by omega, hBuffer⟩
  have hThere : limit ≤ r'.buffer.length := Nat.min_le_right _ _
  exact (round_spec ‹r.fillBuf Buffered.capacity = (true, r')› hLimit hThere
    ‹r'.readUntil Buffered.capacity Buffered.capacity_pos 10 limit = (more, r'')›).2.2

def readLine (source : Source UInt8) : Option (List UInt8) := readUrlLine [] ⟨[], source⟩

inductive Request (Url : Type)
  | openUrl (url : Url)
  | hold (port secs : Nat)

section

variable {Url : Type} (parseUrl : String → Option Url) (scheme : Url → String)

/-- `parse_hold`: `<port> <secs>`, each decimal digits only. -/
def parseHold (fields : List Char) : Option (Request Url) := do
  let (port, secs) ← splitOnce [' '] fields
  let port ← number parseU16 port
  let secs ← number parseU64 secs
  some (.hold port secs)

def readRequest (source : Source UInt8) : Option (Request Url) := do
  let bytes ← readLine source
  let text ← fromUtf8 bytes
  let line := Secrets.trim text.toList
  match stripPrefix "HOLD ".toList line with
  | some hold => parseHold hold
  | none =>
    let url ← parseUrl (String.ofList line)
    if scheme url = "http" ∨ scheme url = "https" then some (.openUrl url) else none

end

def holdLine (port secs : Nat) : List UInt8 :=
  textBytes ("HOLD " ++ toString port ++ " " ++ toString secs ++ "\n")

/-! ## Lines that no signal interrupts -/

/-- No signal comes before the first newline. -/
def Quiet (reads : List (Option UInt8)) : Prop :=
  none ∉ reads.takeWhile fun read => read ≠ some 10

instance (reads : List (Option UInt8)) : Decidable (Quiet reads) :=
  inferInstanceAs (Decidable (_ ∉ _))

variable {part : List UInt8} {reads : List (Option UInt8)}

theorem quiet_append_of_notMem (h : 10 ∉ part) :
    Quiet (part.map some ++ reads) ↔ Quiet reads := by
  unfold Quiet
  rw [List.takeWhile_append_of_pos, List.mem_append]
  · simp
  · intro read hRead
    obtain ⟨byte, hByte, rfl⟩ := List.mem_map.mp hRead
    rw [decide_eq_true_eq]
    rintro ⟨⟩
    exact h hByte

theorem quiet_append_of_mem (h : 10 ∈ part) (reads : List (Option UInt8)) :
    Quiet (part.map some ++ reads) := by
  induction part with
  | nil => cases h
  | cons byte part ih =>
    unfold Quiet
    rw [List.map_cons, List.cons_append, List.takeWhile_cons]
    by_cases hByte : byte = 10
    · simp [hByte]
    · have hRest : Quiet (part.map some ++ reads) :=
        ih ((List.mem_cons.mp h).resolve_left (Ne.symm hByte))
      rw [if_pos (by simpa using hByte), List.mem_cons, not_or]
      exact ⟨nofun, hRest⟩

/-! ## The line -/

theorem getLast?_append_through {bytes : List UInt8} (hBytes : 10 ∉ bytes) (part : List UInt8) :
    (bytes ++ through 10 part).getLast? = some 10 ↔ 10 ∈ part := by
  constructor
  · intro hLast
    rcases List.mem_append.mp (List.mem_of_getLast? hLast) with hIn | hIn
    · exact absurd hIn hBytes
    · exact (through_isPrefix 10 part).subset hIn
  · intro hIn
    obtain ⟨front, back, rfl, hFront⟩ := List.eq_append_cons_of_mem hIn
    rw [through_line hFront, ← List.append_assoc, List.getLast?_concat]

theorem readUrlLine_eq {bytes : List UInt8} (hBytes : 10 ∉ bytes) (r : BufReader UInt8) :
    readUrlLine bytes r =
      if 10 ∈ r.bytes.take (maxUrlBytes - bytes.length) ∧ Quiet r.reads then
        some (bytes ++ through 10 r.bytes) else none := by
  induction hSize : r.size using Nat.strongRecOn generalizing bytes r with
  | ind size ih =>
    subst hSize
    have hNoLast : ¬ bytes.getLast? = some 10 := fun hLast => hBytes (List.mem_of_getLast? hLast)
    rw [readUrlLine]
    by_cases hRoom : bytes.length < maxUrlBytes
    · rw [dif_pos hRoom]
      split
      · -- interrupted
        rename_i hFill
        rw [if_neg]
        rintro ⟨-, hQuiet⟩
        rw [BufReader.fillBuf_false_reads hFill] at hQuiet
        exact hQuiet (by simp)
      · rename_i r' hFill
        obtain ⟨hSame, -, hEnd⟩ := BufReader.fillBuf_true Buffered.capacity_pos hFill
        rw [← BufReader.fillBuf_true_reads hFill, ← hSame]
        split
        · rename_i hNone
          rw [hSame, hEnd hNone]
          simp
        · rename_i hSome
          have hBuffer : 0 < r'.buffer.length := List.length_pos_iff.mpr hSome
          have hLimit : 0 < min (maxUrlBytes - bytes.length) r'.buffer.length :=
            Nat.lt_min.mpr ⟨by omega, hBuffer⟩
          have hRead := BufReader.readUntil_buffer Buffered.capacity_pos 10 hLimit
            (Nat.min_le_right (maxUrlBytes - bytes.length) r'.buffer.length)
          have hSmaller := (round_spec hFill hLimit (Nat.min_le_right _ _) hRead).2.2
          simp only [hRead, ← List.take_eq_take_min] at hSmaller ⊢
          -- the part of the buffer that still has room
          generalize hPart : r'.buffer.take (maxUrlBytes - bytes.length) = part at hSmaller ⊢
          have hFront : part <+: r'.buffer := hPart ▸ List.take_prefix _ _
          have hLength : part.length ≤ maxUrlBytes - bytes.length :=
            hPart ▸ List.length_take_le _ _
          rw [BufReader.reads_consume_front hFront, BufReader.bytes_consume_front hFront]
          have hSplit : ∀ rest : List UInt8, 10 ∈ (part ++ rest).take (maxUrlBytes - bytes.length) ↔
              10 ∈ part ∨ 10 ∈ rest.take (maxUrlBytes - bytes.length - part.length) := by
            intro rest
            rw [List.take_append, List.take_of_length_le hLength, List.mem_append]
          by_cases hIn : 10 ∈ part
          · rw [if_pos ((getLast?_append_through hBytes part).mpr hIn),
              if_pos ⟨(hSplit _).mpr (.inl hIn), quiet_append_of_mem hIn _⟩,
              through_append_of_mem hIn]
          · rw [if_neg (mt (getLast?_append_through hBytes part).mp hIn)]
            rw [through_of_notMem hIn] at hSmaller ⊢
            have hLater : 10 ∉ bytes ++ part := by simp [hBytes, hIn]
            rw [ih _ hSmaller hLater _ rfl]
            refine if_congr ?_ ?_ rfl
            · rw [hSplit, quiet_append_of_notMem hIn, List.length_append, Nat.sub_sub]
              simp only [hIn, false_or]
            · rw [through_append_of_notMem hIn, List.append_assoc]
    · rw [dif_neg hRoom, if_neg hNoLast, Nat.sub_eq_zero_of_le (Nat.le_of_not_lt hRoom),
        List.take_zero]
      simp

variable {source : Source UInt8}

theorem readLine_eq (source : Source UInt8) :
    readLine source = if 10 ∈ source.bytes.take maxUrlBytes ∧ Quiet source.reads then
      some (through 10 source.bytes) else none :=
  readUrlLine_eq List.not_mem_nil ⟨[], source⟩

/-- **When `read_line` returns the line**: where it is in time, no signal may come
before its newline. -/
theorem readLine_iff :
    (∀ line, readLine source = some line ↔
      10 ∈ source.bytes.take maxUrlBytes ∧ line = through 10 source.bytes) ↔
    (10 ∈ source.bytes.take maxUrlBytes → Quiet source.reads) := by
  rw [readLine_eq]
  constructor
  · intro hAll hIn
    have hFound := (hAll (through 10 source.bytes)).mpr ⟨hIn, rfl⟩
    split at hFound
    · rename_i hQuiet
      exact hQuiet.2
    · cases hFound
  · intro hQuiet line
    by_cases hIn : 10 ∈ source.bytes.take maxUrlBytes
    · rw [if_pos ⟨hIn, hQuiet hIn⟩, Option.some.injEq, eq_comm]
      exact (and_iff_right hIn).symm
    · rw [if_neg fun h => hIn h.1]
      exact iff_of_false nofun fun h => hIn h.1

/-! ## A hold -/

theorem isWhiteSpace_of_visible {c : Char} (h : isAsciiGraphic c) :
    Secrets.isWhiteSpace c = false := by
  obtain ⟨hLow, hHigh⟩ := isAsciiGraphic_iff.mp h
  simp only [Secrets.isWhiteSpace, Bool.or_eq_false_iff, Bool.and_eq_false_iff,
    decide_eq_false_iff_not, beq_eq_false_iff_ne]
  omega

theorem trim_line {first last : Char} {text rest front : List Char} (hFirst : text = first :: rest)
    (hLast : text = front ++ [last]) (hVisible : isAsciiGraphic first)
    (hEnd : isAsciiGraphic last) : Secrets.trim (text ++ ['\n']) = text := by
  have hDrop : (text ++ ['\n']).dropWhile Secrets.isWhiteSpace = text ++ ['\n'] := by
    rw [hFirst, List.cons_append, List.dropWhile_cons_of_neg]
    simp [isWhiteSpace_of_visible hVisible]
  rw [Secrets.trim, hDrop, List.rdropWhile_concat_pos _ _ _ (by decide), hLast,
    List.rdropWhile_concat_neg]
  simp [isWhiteSpace_of_visible hEnd]

section

variable {port secs : Nat} {rest : List UInt8} {Url : Type} (parseUrl : String → Option Url)
  (scheme : Url → String)

def holdWords (port secs : Nat) : List Word :=
  [holdVerb, (numeral_decimal port).word, (numeral_decimal secs).word]

theorem spaced_holdWords : spaced (holdWords port secs) =
    "HOLD ".toList ++ (Nat.toDigits 10 port ++ ' ' :: Nat.toDigits 10 secs) := by
  rw [holdWords, spaced_cons, spaced_cons, spaced_singleton]
  rfl

theorem holdLine_eq : holdLine port secs =
    textBytes (String.ofList (spaced (holdWords port secs))) ++ [10] := by
  refine textBytes_of_words ?_
  rw [spaced_holdWords]
  simp

theorem trim_holdWords :
    Secrets.trim (spaced (holdWords port secs) ++ ['\n']) = spaced (holdWords port secs) := by
  have hLast := List.dropLast_append_getLast (numeral_decimal secs).nonempty
  have hDigit : isAsciiGraphic ((Nat.toDigits 10 secs).getLast (numeral_decimal secs).nonempty) =
      true := (numeral_decimal secs).word.visible _ (List.getLast_mem _)
  have hText : spaced (holdWords port secs) =
      ("HOLD ".toList ++ (Nat.toDigits 10 port ++ ' ' :: (Nat.toDigits 10 secs).dropLast)) ++
        [(Nat.toDigits 10 secs).getLast (numeral_decimal secs).nonempty] := by
    rw [spaced_holdWords, List.append_assoc, List.append_assoc, List.cons_append, hLast]
  exact trim_line spaced_holdWords hText (by decide) hDigit

theorem parseHold_holdWords (hPort : port < 2 ^ 16) (hSecs : secs < 2 ^ 64) :
    parseHold (Nat.toDigits 10 port ++ ' ' :: Nat.toDigits 10 secs) =
      some (.hold port secs : Request Url) := by
  have hSplit : splitOnce [' '] (Nat.toDigits 10 port ++ ' ' :: Nat.toDigits 10 secs) =
      some (Nat.toDigits 10 port, Nat.toDigits 10 secs) :=
    splitOnce_char (numeral_decimal port).word.space_notMem _
  unfold parseHold
  simp only [hSplit, Option.bind_eq_bind, Option.bind_some,
    number_u16_iff.mpr ⟨numeral_decimal port, hPort⟩,
    number_u64_iff.mpr ⟨numeral_decimal secs, hSecs⟩]

theorem readRequest_holdLine (hPort : port < 2 ^ 16) (hSecs : secs < 2 ^ 64)
    (hBytes : source.bytes = holdLine port secs ++ rest) :
    readRequest parseUrl scheme source = some (.hold port secs) ↔ Quiet source.reads := by
  rw [holdLine_eq, List.append_assoc, List.singleton_append] at hBytes
  have hLength : (textBytes (String.ofList (spaced (holdWords port secs)))).length < maxUrlBytes := by
    have hPortLength := length_decimal_u16 hPort
    have hSecsLength := length_decimal_u64 hSecs
    have hVerb : "HOLD ".toList.length = 5 := by decide
    rw [length_textBytes_spaced, spaced_holdWords, List.length_append, List.length_append,
      List.length_cons, hVerb]
    unfold maxUrlBytes
    omega
  have hIn : 10 ∈ source.bytes.take maxUrlBytes := by
    have hLine : through 10 (source.bytes.take maxUrlBytes) =
        textBytes (String.ofList (spaced (holdWords port secs))) ++ [10] := by
      rw [hBytes, through_take_line (newline_notMem_spaced _) hLength]
    exact (through_isPrefix 10 _).subset (hLine ▸ by simp)
  by_cases hQuiet : Quiet source.reads
  · have hRead : readLine source =
        some (textBytes (String.ofList (spaced (holdWords port secs))) ++ [10]) := by
      rw [readLine_eq, if_pos ⟨hIn, hQuiet⟩, hBytes, through_line (newline_notMem_spaced _)]
    have hStrip : stripPrefix "HOLD ".toList (spaced (holdWords port secs)) =
        some (Nat.toDigits 10 port ++ ' ' :: Nat.toDigits 10 secs) := by
      rw [spaced_holdWords, stripPrefix_append]
    refine iff_of_true ?_ hQuiet
    unfold readRequest
    simp only [hRead, fromUtf8_line, String.toList_ofList, trim_holdWords, hStrip,
      Option.bind_eq_bind, Option.bind_some, parseHold_holdWords hPort hSecs]
  · have hRead : readLine source = none := by rw [readLine_eq, if_neg fun h => hQuiet h.2]
    refine iff_of_false ?_ hQuiet
    unfold readRequest
    rw [hRead]
    nofun

end

/-! ## All three channels -/

/-- **The request grammars.** The two readers of the bridge take exactly the lines of their
grammars, and nothing behind the newline; the URL channel does exactly if no signal comes before its
newline. The lines of the clients are read as they were meant. -/
theorem request_grammars {Url : Type} (parseUrl : String → Option Url) (scheme : Url → String)
    (source : Source UInt8) :
    (∀ request back, (∃ source', Bridge.readRequest source = (some request, source') ∧
        source'.bytes = back) ↔
      ∃ line, source.bytes = line ++ 10 :: back ∧ 10 ∉ line ∧ line.length < 64 ∧
        ∃ text, line = textBytes (String.ofList text) ∧ request.Spelled text) ∧
    (∀ port back, (∃ source', readPort source = (some port, source') ∧ source'.bytes = back) ↔
      ∃ line, source.bytes = line ++ 10 :: back ∧ 10 ∉ line ∧ line.length < 64 ∧
        ∃ text, line = textBytes (String.ofList text) ∧ PortSpelled port text) ∧
    ((∀ line, readLine source = some line ↔
        10 ∈ source.bytes.take 8192 ∧ line = through 10 source.bytes) ↔
      (10 ∈ source.bytes.take 8192 → Quiet source.reads)) ∧
    ∀ port ttl rest, port < 2 ^ 16 → ttl < 2 ^ 64 →
      (source.bytes = armLine port ttl ++ rest → ∃ source',
        Bridge.readRequest source = (some (.arm port ttl), source') ∧ source'.bytes = rest) ∧
      (source.bytes = Bridge.holdLine port ++ rest → ∃ source',
        Bridge.readRequest source = (some (.hold port), source') ∧ source'.bytes = rest) ∧
      (source.bytes = connectLine port ++ rest → ∃ source',
        readPort source = (some port, source') ∧ source'.bytes = rest) ∧
      (source.bytes = holdLine port ttl ++ rest →
        (readRequest parseUrl scheme source = some (.hold port ttl) ↔ Quiet source.reads)) := by
  refine ⟨fun _ _ => readRequest_iff, fun _ _ => readPort_iff, readLine_iff, ?_⟩
  intro port ttl rest hPort hTtl
  exact ⟨readRequest_armLine hPort hTtl, Bridge.readRequest_holdLine hPort,
    readPort_connectLine hPort, readRequest_holdLine parseUrl scheme hPort hTtl⟩

/-- **A line that a signal loses**: `HOLD 5173 60`, with a signal before it. -/
theorem interrupted_url :
    let source : Source UInt8 :=
      [.signal, .data 72 [79, 76, 68, 32, 53, 49, 55, 51, 32, 54, 48, 10]]
    source.bytes = holdLine 5173 60 ∧ 10 ∈ source.bytes.take 8192 ∧ readLine source = none := by
  refine ⟨by decide +kernel, by decide, ?_⟩
  rw [readLine_eq, if_neg]
  exact fun h => absurd h.2 (by decide)

end Forward.Daemon

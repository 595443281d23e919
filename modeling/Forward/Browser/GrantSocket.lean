import Mathlib.Data.List.DropRight
import Forward.Browser.Feed
import Forward.Lib.Fields
import Forward.Lib.Reader
import Forward.Secrets.Receipts
import Forward.Secretsd.Client

/-!
# The line on the grant socket

`forward browser grant` checks its `--ttl`, lets the human touch the key, and writes one GRANT line
to `forward serve`, which acts on STATUS, PROBE or GRANT. The reader's caller does not learn
whether it stopped at the newline, at the end of the stream or at its bound; and the client takes
any lifetime of 64 bits, the server at most twelve hours.
-/

namespace Forward.Browser.GrantSocket

open Lib Hygiene Secretsd

/-! ## The server -/

def maxRequestLine : Nat := 128

/-- The loop of `read_line`, behind what it has read; a signal is no error. -/
def readBytes (line : List UInt8) (source : Source UInt8) : List UInt8 :=
  if line.length < maxRequestLine then
    match _ : source.read 1 with
    | (none, source') => readBytes line source'
    | (some [], _) => line
    | (some (byte :: _), source') =>
      if byte = 10 then line else readBytes (line ++ [byte]) source'
  else line
termination_by source.bytes.length + source.signals
decreasing_by
  · obtain ⟨hBytes, hSignals⟩ := Source.read_none ‹source.read 1 = (none, source')›
    rw [hBytes]
    omega
  · obtain ⟨hBytes, hSignals, -⟩ := Source.read_some Nat.one_pos
      ‹source.read 1 = (some (byte :: _), source')›
    rw [hBytes, hSignals, List.length_append, List.length_cons]
    omega

/-- `read_line` before its timeout; carriage returns at the end are dropped. -/
def readLine (source : Source UInt8) : List UInt8 :=
  (readBytes [] source).rdropWhile (· == 13)

def parseFields (ttl receipt port : List Char) : Option (Nat × List UInt8 × Nat) := do
  let ttl ← parseU64 ttl
  let port ← parseU16 port
  let receipt := textBytes (String.ofList receipt)
  if ttl = 0 ∨ asSecs longestTtl < ttl ∨ port = 0 ∨ validHexBytes receipt 64 = false then none
  else some (ttl, receipt, port)

def parse (line : List UInt8) : Option (Nat × List UInt8 × Nat) := do
  let text ← fromUtf8 line
  let text ← stripPrefix "GRANT ".toList text.toList
  match text.splitOn ' ' with
  | [ttl, receipt, port] => parseFields ttl receipt port
  | _ => none

inductive Handled
  | status
  | probe
  | ceremony (request : Nat × List UInt8 × Nat)
  | refused
  deriving DecidableEq

def act (line : List UInt8) : Handled :=
  if line = textBytes "STATUS" then .status
  else if line = textBytes "PROBE" then .probe
  else
    match parse line with
    | none => .refused
    | some request => .ceremony request

/-- `handle` for a peer whose process is known. -/
def handle (source : Source UInt8) : Handled := act (readLine source)

/-! ## The client -/

def unitSecs : Option Char → Option Nat
  | some 's' => some 1
  | some 'm' => some 60
  | some 'h' => some 3600
  | _ => none

/-- `proto::parse_ttl`: `45s`, `30m` or `2h`, in seconds. -/
def parseTtl (value : String) : Option Nat :=
  if !value.toList.all isAscii || decide (value.toList.length < 2) then none
  else do
    let multiplier ← unitSecs value.toList.getLast?
    let number ← parseU64 value.toList.dropLast
    if number * multiplier < 2 ^ 64 ∧ 0 < number * multiplier then some (number * multiplier)
    else none

def grantLine (ttlSecs : Nat) (token : List UInt8) (endpointPort : Nat) : List UInt8 :=
  textBytes "GRANT " ++ textBytes (toString ttlSecs) ++ textBytes " " ++ token ++
    textBytes " " ++ textBytes (toString endpointPort) ++ textBytes "\n"

inductive ProbeOutcome
  | grantable
  | refused (reason : String)
  | unreachable

/-- How far `forward browser grant` comes: `stopped` is before the ceremony. -/
inductive Attempt
  | stopped
  | unauthorized (error : BrokerError)
  | requested (line : List UInt8)

/-- `grant`, up to the line that it writes. The human is asked to touch the key in
`authorize`, and not before. -/
def grant (ttl : String) (probe : ProbeOutcome) (anchored : Bool) (endpoint : Option Nat)
    (authorize : Except BrokerError (List UInt8)) : Attempt :=
  match parseTtl ttl, probe, anchored, endpoint with
  | some ttlSecs, .grantable, true, some port =>
    match authorize with
    | .error e => .unauthorized e
    | .ok receipt => .requested (grantLine ttlSecs receipt port)
  | _, _, _, _ => .stopped

theorem grant_requested {ttl : String} {secs : Nat} (h : parseTtl ttl = some secs) (port : Nat)
    (receipt : List UInt8) :
    grant ttl .grantable true (some port) (.ok receipt) =
      .requested (grantLine secs receipt port) := by
  simp only [grant, h]

/-- **The line does not depend on the pieces.** -/
theorem readBytes_eq (line : List UInt8) (source : Source UInt8) :
    readBytes line source =
      line ++ (source.bytes.take (maxRequestLine - line.length)).takeWhile (· != 10) := by
  induction hSize : source.bytes.length + source.signals using Nat.strongRecOn
    generalizing line source with
  | ind size ih =>
    subst hSize
    rw [readBytes]
    split
    · rename_i hRoom
      split
      · rename_i source' hRead
        obtain ⟨hBytes, hSignals⟩ := Source.read_none hRead
        rw [ih _ (by rw [hBytes]; omega) line source' rfl, hBytes]
      · rename_i hRead
        obtain ⟨-, -, -, hEnd⟩ := Source.read_some Nat.one_pos hRead
        rw [hEnd rfl, List.take_nil, List.takeWhile_nil, List.append_nil]
      · rename_i byte more source' hRead
        obtain ⟨hBytes, hSignals, hOne, -⟩ := Source.read_some Nat.one_pos hRead
        obtain rfl : more = [] := List.eq_nil_of_length_eq_zero (by
          rw [List.length_cons] at hOne
          omega)
        have hMore : maxRequestLine - line.length =
            (maxRequestLine - (line ++ [byte]).length) + 1 := by
          rw [List.length_append, List.length_singleton]
          omega
        rw [hBytes, hMore, List.singleton_append, List.take_succ_cons, List.takeWhile_cons]
        by_cases hNewline : byte = 10
        · subst hNewline
          simp
        · have hSmaller : source'.bytes.length + source'.signals <
              source.bytes.length + source.signals := by
            rw [hBytes, hSignals, List.length_append, List.length_singleton]
            omega
          rw [if_neg hNewline, ih _ hSmaller (line ++ [byte]) source' rfl]
          simp [hNewline]
    · rename_i hFull
      have hNone : maxRequestLine - line.length = 0 := by omega
      rw [hNone, List.take_zero, List.takeWhile_nil, List.append_nil]

theorem takeWhile_of_notMem {bytes : List UInt8} (h : 10 ∉ bytes) :
    bytes.takeWhile (· != 10) = bytes := by
  refine List.takeWhile_eq_self_iff.mpr fun byte hByte => ?_
  rw [bne_iff_ne]
  rintro rfl
  exact h hByte

variable {source : Source UInt8} {line : List UInt8}

theorem readLine_line {rest : List UInt8}
    (hBytes : source.bytes = line ++ 10 :: rest) (hLine : 10 ∉ line)
    (hLength : line.length < maxRequestLine) : readLine source = line.rdropWhile (· == 13) := by
  have hMore : maxRequestLine - line.length = (maxRequestLine - line.length - 1) + 1 := by omega
  unfold readLine
  rw [readBytes_eq, List.nil_append, List.length_nil, Nat.sub_zero, hBytes, List.take_append,
    List.take_of_length_le (Nat.le_of_lt hLength), hMore, List.take_succ_cons,
    List.takeWhile_append_of_pos, List.takeWhile_cons_of_neg (by simp), List.append_nil]
  intro byte hByte
  rw [bne_iff_ne]
  rintro rfl
  exact hLine hByte

theorem readLine_cut (hNone : 10 ∉ source.bytes.take maxRequestLine) :
    readLine source = (source.bytes.take maxRequestLine).rdropWhile (· == 13) := by
  unfold readLine
  rw [readBytes_eq, List.nil_append, List.length_nil, Nat.sub_zero, takeWhile_of_notMem hNone]

/-! ## Complete lines -/

def Accepted (line : List UInt8) : Prop :=
  line = textBytes "STATUS" ∨ line = textBytes "PROBE" ∨ ∃ request, parse line = some request

theorem act_ne_refused_iff : act line ≠ .refused ↔ Accepted line := by
  unfold act Accepted
  by_cases hStatus : line = textBytes "STATUS"
  · simp [hStatus]
  by_cases hProbe : line = textBytes "PROBE"
  · rw [if_neg hStatus, if_pos hProbe]
    simp [hProbe]
  rw [if_neg hStatus, if_neg hProbe]
  cases parse line with
  | none => simp [hStatus, hProbe]
  | some => simp

/-- **When only complete lines are acted on.** A line whose newline is among the
first 128 bytes is acted on without its trailing carriage returns. A stream without
such a newline is refused exactly when its first 128 bytes, without trailing carriage
returns, are no line that is accepted. -/
theorem complete_lines (source : Source UInt8) :
    (∀ line rest, source.bytes = line ++ 10 :: rest → 10 ∉ line → line.length < 128 →
      handle source = act (line.rdropWhile (· == 13))) ∧
    ((handle source ≠ .refused → 10 ∈ source.bytes.take 128) ↔
      (10 ∉ source.bytes.take 128 →
        ¬ Accepted ((source.bytes.take 128).rdropWhile (· == 13)))) := by
  refine ⟨?_, ?_⟩
  · intro line rest hBytes hLine hLength
    unfold handle
    rw [readLine_line hBytes hLine hLength]
  · by_cases hNewline : 10 ∈ source.bytes.take 128
    · simp [hNewline]
    · have hCut : handle source = act ((source.bytes.take 128).rdropWhile (· == 13)) :=
        congrArg act (readLine_cut hNewline)
      rw [hCut, act_ne_refused_iff]
      simp [hNewline]

/-! ## Texts of a grant -/

def grantText (ttl receipt port : List Char) : List Char :=
  "GRANT ".toList ++ [' '].intercalate [ttl, receipt, port]

-- by definition; unfolding it would evaluate the literal
theorem grantText_eq (ttl receipt port : List Char) :
    grantText ttl receipt port =
      "GRANT ".toList ++ [' '].intercalate [ttl, receipt, port] := rfl

theorem parse_grantText {ttl receipt port : List Char} (hTtl : ' ' ∉ ttl)
    (hReceipt : ' ' ∉ receipt) (hPort : ' ' ∉ port) :
    parse (textBytes (String.ofList (grantText ttl receipt port))) =
      parseFields ttl receipt port := by
  have hText : fromUtf8 (textBytes (String.ofList (grantText ttl receipt port))) =
      some (String.ofList (grantText ttl receipt port)) := fromUtf8_eq_some_iff.mpr rfl
  have hStrip : stripPrefix "GRANT ".toList (grantText ttl receipt port) =
      some ([' '].intercalate [ttl, receipt, port]) := stripPrefix_append _ _
  have hSplit : ([' '].intercalate [ttl, receipt, port]).splitOn ' ' = [ttl, receipt, port] := by
    refine List.splitOn_intercalate ' ' ?_ (List.cons_ne_nil _ _)
    simp [hTtl, hReceipt, hPort]
  unfold parse
  simp only [hText, String.toList_ofList, hStrip, hSplit, Option.bind_eq_bind, Option.bind_some]

theorem bytes_pushed (bytes : List UInt8) : (Source.push bytes []).bytes = bytes :=
  Source.bytes_push.trans (List.append_nil _)

def paddedGrant (port : String) : List UInt8 :=
  textBytes (String.ofList (grantText "60".toList (List.replicate 64 '0')
    (List.replicate 53 '0' ++ port.toList)))

/-- **Lines that are cut off and acted on.** STATUS at the end of the stream, and a
GRANT whose port goes on behind the bound. -/
theorem cut_lines :
    (∃ source : Source UInt8, 10 ∉ source.bytes ∧ handle source = .status) ∧
    ∃ source : Source UInt8, source.bytes = paddedGrant "12345" ++ [10] ∧
      10 ∉ source.bytes.take 128 ∧
      handle source = .ceremony (60, List.replicate 64 48, 1) := by
  refine ⟨⟨[.data 83 [84, 65, 84, 85, 83]], by decide, ?_⟩, ?_⟩
  · have hLine : readLine [.data 83 [84, 65, 84, 85, 83]] = [83, 84, 65, 84, 85, 83] :=
      (readLine_cut (by decide)).trans (by decide +kernel)
    unfold handle
    rw [hLine]
    decide +kernel
  · have hBytes : (Source.push (paddedGrant "12345" ++ [10]) []).bytes =
        paddedGrant "12345" ++ [10] := bytes_pushed _
    have hTake : (paddedGrant "12345" ++ [10]).take 128 = paddedGrant "1" := by decide +kernel
    have hNone : 10 ∉ paddedGrant "1" := by decide +kernel
    have hParse : parse (paddedGrant "1") = some (60, List.replicate 64 48, 1) :=
      (parse_grantText (by decide) (by decide) (by decide)).trans (by decide +kernel)
    have hCut : (Source.push (paddedGrant "12345" ++ [10]) []).bytes.take maxRequestLine =
        paddedGrant "1" := by
      rw [hBytes]
      exact hTake
    refine ⟨Source.push (paddedGrant "12345" ++ [10]) [], hBytes, ?_, ?_⟩
    · rw [hBytes, hTake]
      exact hNone
    · have hLine : readLine (Source.push (paddedGrant "12345" ++ [10]) []) = paddedGrant "1" := by
        rw [readLine_cut (by rw [hCut]; exact hNone), hCut]
        decide +kernel
      unfold handle act
      rw [hLine, if_neg (by decide +kernel), if_neg (by decide +kernel), hParse]

/-! ## What the client writes -/

theorem rdropWhile_of_notMem (h : 13 ∉ line) : line.rdropWhile (· == 13) = line := by
  refine List.rdropWhile_eq_self_iff.mpr fun hNe hLast => h ?_
  rw [← eq_of_beq hLast]
  exact List.getLast_mem hNe

theorem parseTtl_bounds {ttl : String} {secs : Nat} (h : parseTtl ttl = some secs) :
    0 < secs ∧ secs < 2 ^ 64 := by
  unfold parseTtl at h
  split at h
  · cases h
  · obtain ⟨multiplier, -, h⟩ := Option.bind_eq_some_iff.mp h
    obtain ⟨number, -, h⟩ := Option.bind_eq_some_iff.mp h
    split at h
    · rename_i hRange
      rw [← Option.some.inj h]
      exact ⟨hRange.2, hRange.1⟩
    · cases h

theorem validHexBytes_encode (bytes : List UInt8) :
    validHexBytes (textBytes (encode bytes)) (bytes.length * 2) := by
  rw [textBytes_ascii fun c hc => (plain_of_mem_encode hc).1]
  unfold validHexBytes
  rw [Bool.and_eq_true, beq_iff_eq, List.length_map, length_encode]
  refine ⟨rfl, List.all_eq_true.mpr fun byte hByte => ?_⟩
  obtain ⟨c, hc, rfl⟩ := List.mem_map.mp hByte
  obtain ⟨nibble, hNibble, rfl⟩ := mem_encode hc
  exact forall_nibble (P := fun nibble =>
    ((48 ≤ asciiByte (hexChar nibble) && asciiByte (hexChar nibble) ≤ 57) ||
      (97 ≤ asciiByte (hexChar nibble) && asciiByte (hexChar nibble) ≤ 102)))
    (by decide) hNibble

section

variable {secs port : Nat} {id : Secrets.ReceiptId}

/-- The fields of the line: a lifetime, a receipt and a port. -/
def writtenText (secs : Nat) (id : Secrets.ReceiptId) (port : Nat) : String :=
  String.ofList (grantText (Nat.toDigits 10 secs) (encode id.bytes).toList (Nat.toDigits 10 port))

theorem grantLine_eq :
    grantLine secs (textBytes (encode id.bytes)) port =
      textBytes (writtenText secs id port) ++ [10] := by
  have hText : writtenText secs id port =
      "GRANT " ++ toString secs ++ " " ++ encode id.bytes ++ " " ++ toString port := by
    refine String.toList_inj.mp ?_
    simp [writtenText, grantText_eq, String.toList_append, List.intercalate]
  rw [hText]
  simp only [grantLine, textBytes_append]
  rfl

theorem mem_writtenText {c : Char} (h : c ∈ (writtenText secs id port).toList) :
    isAscii c ∧ asciiByte c ≠ 10 ∧ asciiByte c ≠ 13 := by
  have hDigit : ∀ n, c ∈ Nat.toDigits 10 n →
      isAscii c ∧ asciiByte c ≠ 10 ∧ asciiByte c ≠ 13 := by
    intro n hn
    obtain ⟨hAscii, -, hRest⟩ := plain_of_mem_decimal hn
    exact ⟨hAscii, hRest⟩
  rw [writtenText, String.toList_ofList] at h
  simp only [grantText_eq, List.intercalate, List.intersperse, List.flatten_cons, List.flatten_nil,
    List.mem_append, List.append_nil, List.mem_singleton] at h
  rcases h with hVerb | hTtl | rfl | hReceipt | rfl | hPort
  · exact forall_mem_of_all (P := fun c => isAscii c = true ∧ asciiByte c ≠ 10 ∧ asciiByte c ≠ 13)
      (by decide) c hVerb
  · exact hDigit secs hTtl
  · decide
  · obtain ⟨hAscii, -, hRest⟩ := plain_of_mem_encode hReceipt
    exact ⟨hAscii, hRest⟩
  · decide
  · exact hDigit port hPort

theorem textBytes_writtenText :
    textBytes (writtenText secs id port) = (writtenText secs id port).toList.map asciiByte :=
  textBytes_ascii fun _ hc => (mem_writtenText hc).1

theorem notMem_writtenText {byte : UInt8} (h : byte = 10 ∨ byte = 13) :
    byte ∉ textBytes (writtenText secs id port) := by
  rw [textBytes_writtenText]
  intro hIn
  obtain ⟨c, hc, rfl⟩ := List.mem_map.mp hIn
  obtain ⟨-, hNewline, hReturn⟩ := mem_writtenText hc
  exact h.elim hNewline hReturn

theorem length_writtenText (hSecs : secs < 2 ^ 64) (hPort : port < 2 ^ 16) :
    (textBytes (writtenText secs id port)).length ≤ 97 := by
  have hTtl := length_decimal_u64 hSecs
  have hEnd := length_decimal_u16 hPort
  have hReceipt := length_encode id.bytes
  rw [id.length_eq] at hReceipt
  rw [textBytes_writtenText, List.length_map, writtenText, String.toList_ofList]
  simp only [grantText_eq, List.intercalate, List.intersperse, List.flatten_cons, List.flatten_nil,
    List.length_append, List.length_singleton, List.append_nil, hReceipt]
  have hVerb : "GRANT ".toList.length = 6 := by decide
  have hLen : Secrets.receiptLen = 32 := rfl
  omega

theorem parse_writtenText (hPositive : 0 < secs) (hSecs : secs < 2 ^ 64) (hPort : 0 < port)
    (hWord : port < 2 ^ 16) :
    parse (textBytes (writtenText secs id port)) =
      if secs ≤ 12 * 60 * 60 then some (secs, textBytes (encode id.bytes), port) else none := by
  have hSpace : ∀ n, ' ' ∉ Nat.toDigits 10 n := fun n hn => (plain_of_mem_decimal hn).2.1 rfl
  have hReceipt : ' ' ∉ (encode id.bytes).toList := fun hIn => (plain_of_mem_encode hIn).2.1 rfl
  have hTtl : parseU64 (Nat.toDigits 10 secs) = some secs := by
    rw [parseU64_decimal, if_pos hSecs]
  have hEnd : parseU16 (Nat.toDigits 10 port) = some port := by
    rw [parseU16, parseU64_decimal, if_pos (by omega), Option.filter_some,
      if_pos (decide_eq_true hWord)]
  have hHex : validHexBytes (textBytes (encode id.bytes)) 64 := by
    have hAny := validHexBytes_encode id.bytes
    rwa [id.length_eq] at hAny
  have hLongest : asSecs longestTtl = 12 * 60 * 60 := by decide
  unfold writtenText
  rw [parse_grantText (hSpace secs) hReceipt (hSpace port), parseFields, hTtl, hEnd]
  simp only [Option.bind_eq_bind, Option.bind_some, String.ofList_toList, hHex, hLongest]
  by_cases hShort : secs ≤ 12 * 60 * 60
  · rw [if_pos hShort, if_neg (by simp; omega)]
  · rw [if_neg hShort, if_pos (by omega)]

theorem handle_grantLine (hPositive : 0 < secs) (hSecs : secs < 2 ^ 64) (hPort : 0 < port)
    (hWord : port < 2 ^ 16)
    (hSource : source.bytes = grantLine secs (textBytes (encode id.bytes)) port) :
    handle source = if secs ≤ 12 * 60 * 60 then
      .ceremony (secs, textBytes (encode id.bytes), port) else .refused := by
  have hBytes : source.bytes = textBytes (writtenText secs id port) ++ 10 :: [] :=
    hSource.trans grantLine_eq
  have hLength : (textBytes (writtenText secs id port)).length ≤ 97 :=
    length_writtenText hSecs hWord
  have hLine : readLine source = textBytes (writtenText secs id port) := by
    rw [readLine_line hBytes (notMem_writtenText (.inl rfl)) (by unfold maxRequestLine; omega),
      rdropWhile_of_notMem (notMem_writtenText (.inr rfl))]
  -- the line starts with a G, so it is neither of the other two verbs
  have hFirst : ∀ text : String, (textBytes text).head? ≠ some 71 →
      textBytes (writtenText secs id port) ≠ textBytes text := by
    intro text hOther hEq
    rw [← hEq, textBytes_writtenText, writtenText, String.toList_ofList] at hOther
    exact hOther rfl
  unfold handle act
  rw [hLine, if_neg (hFirst "STATUS" (by decide +kernel)),
    if_neg (hFirst "PROBE" (by decide +kernel)), parse_writtenText hPositive hSecs hPort hWord]
  by_cases hShort : secs ≤ 12 * 60 * 60
  · rw [if_pos hShort, if_pos hShort]
  · rw [if_neg hShort, if_neg hShort]

end

/-- **Which GRANT lines the server takes.** The client writes a line after the touch
for every lifetime that `parse_ttl` accepts. However the line arrives, the server reads
exactly its lifetime, receipt and port if the lifetime is at most twelve hours, and
refuses it otherwise. -/
theorem ttl_after_touch (ttl : String) (secs : Nat) (hTtl : parseTtl ttl = some secs)
    (id : Secrets.ReceiptId) (port : Nat) (hPort : 0 < port) (hWord : port < 2 ^ 16)
    (source : Source UInt8)
    (hSource : grant ttl .grantable true (some port) (.ok (textBytes (encode id.bytes))) =
      .requested source.bytes) :
    (handle source = .ceremony (secs, textBytes (encode id.bytes), port) ↔ secs ≤ 12 * 60 * 60) ∧
    (handle source = .refused ↔ 12 * 60 * 60 < secs) := by
  obtain ⟨hPositive, hSecs⟩ := parseTtl_bounds hTtl
  have hBytes : source.bytes = grantLine secs (textBytes (encode id.bytes)) port := by
    rw [grant_requested hTtl] at hSource
    exact (Attempt.requested.inj hSource).symm
  rw [handle_grantLine hPositive hSecs hPort hWord hBytes]
  by_cases hShort : secs ≤ 12 * 60 * 60
  · rw [if_pos hShort]
    refine ⟨iff_of_true rfl hShort, iff_of_false nofun ?_⟩
    omega
  · rw [if_neg hShort]
    refine ⟨iff_of_false nofun hShort, iff_of_true rfl ?_⟩
    omega

def zeros : Secrets.ReceiptId := ⟨List.replicate 32 0, rfl⟩

theorem ttl_after_touch_two_hours :
    handle (Source.push (grantLine 7200 (textBytes (encode zeros.bytes)) 9222) []) =
      .ceremony (7200, textBytes (encode zeros.bytes), 9222) := by
  have hTtl : parseTtl "2h" = some 7200 := by decide +kernel
  have hBytes : (Source.push (grantLine 7200 (textBytes (encode zeros.bytes)) 9222) []).bytes =
      grantLine 7200 (textBytes (encode zeros.bytes)) 9222 := bytes_pushed _
  exact (ttl_after_touch "2h" 7200 hTtl zeros 9222 (by decide) (by decide) _
    ((grant_requested hTtl _ _).trans (congrArg Attempt.requested hBytes.symm))).1.mpr (by decide)

/-- **A touch for nothing.** Thirteen hours pass the client's check, the human touches
the key, and the server refuses the line. -/
theorem thirteen_hours :
    ∃ source : Source UInt8,
      grant "13h" .grantable true (some 9222) (.ok (textBytes (encode zeros.bytes))) =
        .requested source.bytes ∧
      handle source = .refused := by
  have hTtl : parseTtl "13h" = some 46800 := by decide +kernel
  have hBytes : (Source.push (grantLine 46800 (textBytes (encode zeros.bytes)) 9222) []).bytes =
      grantLine 46800 (textBytes (encode zeros.bytes)) 9222 := bytes_pushed _
  refine ⟨Source.push (grantLine 46800 (textBytes (encode zeros.bytes)) 9222) [], ?_, ?_⟩
  · exact (grant_requested hTtl _ _).trans (congrArg Attempt.requested hBytes.symm)
  · exact handle_grantLine (by decide) (by decide) (by decide) (by decide) hBytes

end Forward.Browser.GrantSocket

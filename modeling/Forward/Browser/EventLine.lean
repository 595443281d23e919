import Forward.Browser.Subscription
import Forward.Lib.Fields
import Forward.Proto.Buffered

/-!
# An authority event from the broker to the subscriber

`run_once` reads lines of at most `maxEpochLine` bytes. A line of an instance of 32 digits has 49
bytes beside its epoch, which leaves room for fifteen digits, where an epoch may have twenty.
-/

namespace Forward.Browser

open Lib Hygiene Proto Secretsd

def maxEpochLine : Nat := 64

/-- One turn of the loop in `run_once`: `take(MAX_EPOCH_LINE).read_line`, and what
becomes of the line. -/
def readEvent (socket : SocketIdentity) (r : BufReader UInt8) :
    Except BrokerError BrokerIdentity × BufReader UInt8 :=
  let (line, r) := r.readUntil Buffered.capacity Buffered.capacity_pos 10 maxEpochLine
  (receive socket (fromUtf8 line), r)

/-! ## The line of an event -/

def eventText (digits instanceId : List Char) : List Char :=
  "EPOCH ".toList ++ (digits ++ (" instance=".toList ++ (instanceId ++ ['\n'])))

-- by definition; unfolding it would evaluate the literals
theorem eventText_eq (digits instanceId : List Char) :
    eventText digits instanceId =
      "EPOCH ".toList ++ (digits ++ (" instance=".toList ++ (instanceId ++ ['\n']))) := rfl

theorem toList_authorityEvent (instanceId : String) (epoch : Nat) :
    (authorityEvent instanceId epoch).toList =
      eventText (Nat.toDigits 10 epoch) instanceId.toList := by
  simp [authorityEvent, eventText_eq, String.toList_append]

variable {line instanceId : String} {epoch : Nat}

theorem parseAuthorityEvent_iff :
    parseAuthorityEvent line = some (instanceId, epoch) ↔
      ∃ digits, line.toList = eventText digits instanceId.toList ∧ digits ≠ [] ∧
        digits.all Char.isDigit = true ∧ instanceId.toList ≠ [] ∧
        instanceId.toList.all isAsciiGraphic = true ∧ parseU64 digits = some epoch := by
  unfold parseAuthorityEvent
  constructor
  · intro h
    obtain ⟨body, hBody, h⟩ := Option.bind_eq_some_iff.mp h
    obtain ⟨⟨digits, tail⟩, hSplit, h⟩ := Option.bind_eq_some_iff.mp h
    obtain ⟨inner, hInner, h⟩ := Option.bind_eq_some_iff.mp h
    split at h
    · cases h
    rename_i hShape
    simp only [Bool.or_eq_true, List.isEmpty_iff, Bool.not_eq_true', not_or,
      Bool.not_eq_false] at hShape
    obtain ⟨⟨⟨hNe, hDigits⟩, hInstance⟩, hGraphic⟩ := hShape
    obtain ⟨value, hValue, h⟩ := Option.bind_eq_some_iff.mp h
    cases h
    rw [String.toList_ofList]
    refine ⟨digits, ?_, hNe, hDigits, hInstance, hGraphic, hValue⟩
    rw [eq_of_stripPrefix hBody, eq_of_splitOnce (by simp) hSplit, eq_of_stripSuffix hInner]
    rfl
  · rintro ⟨digits, hLine, hNe, hDigits, hInstance, hGraphic, hValue⟩
    have hSpace : ' ' ∉ digits := by
      intro hIn
      cases List.all_eq_true.mp hDigits ' ' hIn
    have hSplit : splitOnce " instance=".toList
        (digits ++ (" instance=".toList ++ (instanceId.toList ++ ['\n']))) =
          some (digits, instanceId.toList ++ ['\n']) :=
      splitOnce_append hSpace "instance=".toList (instanceId.toList ++ ['\n'])
    have hShape : ¬ (digits.isEmpty || !digits.all Char.isDigit || instanceId.toList.isEmpty ||
        !instanceId.toList.all isAsciiGraphic) = true := by
      simp [hNe, hDigits, hInstance, hGraphic]
    rw [hLine, eventText_eq]
    simp only [stripPrefix_append, hSplit, stripSuffix_concat, Option.bind_eq_bind,
      Option.bind_some]
    rw [if_neg hShape, hValue, Option.bind_some, String.ofList_toList]

theorem parseAuthorityEvent_event (hEpoch : epoch < 2 ^ 64)
    (hInstance : instanceId.toList ≠ []) (hGraphic : instanceId.toList.all isAsciiGraphic = true) :
    parseAuthorityEvent (authorityEvent instanceId epoch) = some (instanceId, epoch) := by
  refine parseAuthorityEvent_iff.mpr ⟨Nat.toDigits 10 epoch, toList_authorityEvent _ _,
    Nat.toDigits_ne_nil, ?_, hInstance, hGraphic, ?_⟩
  · exact List.all_eq_true.mpr fun c hc => isDigit_of_mem_decimal hc
  · rw [parseU64_decimal, if_pos hEpoch]

theorem newline_of_parseAuthorityEvent {event : String × Nat}
    (h : parseAuthorityEvent line = some event) : '\n' ∈ line.toList := by
  obtain ⟨digits, hLine, -⟩ := parseAuthorityEvent_iff.mp h
  rw [hLine]
  simp [eventText_eq]

/-! ## Reading it -/

variable {socket : SocketIdentity} {r : BufReader UInt8}

theorem readEvent_line {front rest : List UInt8} (hBytes : r.bytes = front ++ 10 :: rest)
    (hFront : 10 ∉ front) (hLength : front.length < maxEpochLine) :
    ∃ r', readEvent socket r = (receive socket (fromUtf8 (front ++ [10])), r') ∧
      r'.bytes = rest := by
  obtain ⟨r', hRead, hRest⟩ := BufReader.readUntil_eq Buffered.capacity_pos 10 maxEpochLine r
  have hLine : through 10 (r.bytes.take maxEpochLine) = front ++ [10] := by
    rw [hBytes, through_take_line hFront hLength]
  refine ⟨r', ?_, ?_⟩
  · unfold readEvent
    rw [hRead, hLine]
  · rw [hLine, hBytes] at hRest
    simpa using hRest.symm

theorem readEvent_cut (hCut : 10 ∉ r.bytes.take maxEpochLine) :
    (readEvent socket r).1 = receive socket (fromUtf8 (r.bytes.take maxEpochLine)) := by
  obtain ⟨r', hRead, -⟩ := BufReader.readUntil_eq Buffered.capacity_pos 10 maxEpochLine r
  unfold readEvent
  rw [hRead, through_of_notMem hCut]

theorem readEvent_cut_text {text : String} (hText : r.bytes.take maxEpochLine = textBytes text)
    (hCut : 10 ∉ textBytes text) : (readEvent socket r).1 = receive socket (some text) := by
  rw [← hText] at hCut
  rw [readEvent_cut hCut, fromUtf8_eq_some_iff.mpr hText.symm]

theorem receive_event (h : parseAuthorityEvent line = some (instanceId, epoch)) :
    receive socket (some line) = .ok ⟨instanceId, epoch, socket⟩ := by
  have hNewline := newline_of_parseAuthorityEvent h
  have hEmpty : ¬ line.isEmpty := by
    intro hNone
    rw [String.isEmpty_iff.mp hNone] at hNewline
    cases hNewline
  have hCapacity : line ≠ subscriberCapacityResponse := by
    rintro rfl
    have hNone : parseAuthorityEvent subscriberCapacityResponse = none := by decide +kernel
    rw [hNone] at h
    cases h
  unfold receive
  simp only [hEmpty, hCapacity, h, if_false, Bool.false_eq_true]

theorem event_of_receive {line : Option String} {identity : BrokerIdentity}
    (h : receive socket line = .ok identity) :
    ∃ text event, line = some text ∧ parseAuthorityEvent text = some event := by
  unfold receive at h
  split at h
  · cases h
  · split at h
    · cases h
    · split at h
      · cases h
      · split at h
        · cases h
        · rename_i hParse
          exact ⟨_, _, rfl, hParse⟩

/-! ## The bound -/

theorem event_bytes (epoch : Nat) (hLength : instanceId.toList.length = 32)
    (hHex : instanceId.toList.all isHexDigit = true) :
    ∃ front, textBytes (authorityEvent instanceId epoch) = front ++ [10] ∧ 10 ∉ front ∧
      front.length = 48 + (Nat.toDigits 10 epoch).length := by
  let front := "EPOCH ".toList ++ (Nat.toDigits 10 epoch ++
    (" instance=".toList ++ instanceId.toList))
  have hText : (authorityEvent instanceId epoch).toList = front ++ ['\n'] := by
    rw [toList_authorityEvent]
    simp [eventText_eq, front]
  have hPlain : ∀ c ∈ front, isAscii c ∧ asciiByte c ≠ 10 := by
    intro c hc
    simp only [front, List.mem_append] at hc
    rcases hc with hVerb | hDigit | hName | hDigit
    · exact forall_mem_of_all (P := fun c => isAscii c = true ∧ asciiByte c ≠ 10) (by decide)
        c hVerb
    · have hc := plain_of_graphic (isAsciiGraphic_of_isDigit (isDigit_of_mem_decimal hDigit))
      exact ⟨hc.1, hc.2.2.1⟩
    · exact forall_mem_of_all (P := fun c => isAscii c = true ∧ asciiByte c ≠ 10) (by decide)
        c hName
    · have hc := plain_of_graphic (isAsciiGraphic_of_isHexDigit (List.all_eq_true.mp hHex c hDigit))
      exact ⟨hc.1, hc.2.2.1⟩
  refine ⟨front.map asciiByte, ?_, ?_, ?_⟩
  · rw [textBytes_ascii, hText, List.map_append]
    · rfl
    · rw [hText]
      intro c hc
      rcases List.mem_append.mp hc with hFront | hLast
      · exact (hPlain c hFront).1
      · rw [List.mem_singleton.mp hLast]
        decide
  · intro hIn
    obtain ⟨c, hc, hByte⟩ := List.mem_map.mp hIn
    exact (hPlain c hc).2 hByte
  · have hVerb : "EPOCH ".toList.length = 6 := by decide
    have hName : " instance=".toList.length = 10 := by decide
    simp only [front, List.length_map, List.length_append, hVerb, hName, hLength]
    omega

/-- **Which events reach the subscriber.** An event of a 64-bit epoch, arriving in any
pieces, is read as the authority it announces exactly when the epoch has at most fifteen
digits. Every line that is accepted is the rendering of what it is read as, with zeros
before the epoch. -/
theorem authority_event_arrives (instanceId : String) (epoch : Nat) :
    (instanceId.toList.length = 32 → instanceId.toList.all isHexDigit = true → epoch < 2 ^ 64 →
      ∀ (socket : SocketIdentity) (r : BufReader UInt8) (rest : List UInt8),
        r.bytes = textBytes (authorityEvent instanceId epoch) ++ rest →
        ((∃ r', readEvent socket r = (.ok ⟨instanceId, epoch, socket⟩, r') ∧ r'.bytes = rest) ↔
          epoch < 10 ^ 15)) ∧
    ∀ line : String, parseAuthorityEvent line = some (instanceId, epoch) →
      ∃ zeros tail, (authorityEvent instanceId epoch).toList = "EPOCH ".toList ++ tail ∧
        line.toList = "EPOCH ".toList ++ (List.replicate zeros '0' ++ tail) := by
  refine ⟨?_, ?_⟩
  · intro hLength hHex hEpoch socket r rest hBytes
    obtain ⟨front, hFront, hNewline, hCount⟩ := event_bytes epoch hLength hHex
    have hAll : r.bytes = front ++ 10 :: rest := by
      rw [hBytes, hFront, List.append_assoc, List.singleton_append]
    have hFits : front.length < maxEpochLine ↔ epoch < 10 ^ 15 := by
      have hDigits := Nat.length_toDigits_le_iff (b := 10) (n := epoch) (k := 15)
        (by omega) (by omega)
      rw [← hDigits, hCount]
      unfold maxEpochLine
      omega
    constructor
    · -- a line that is cut has no newline, and no such line is accepted
      rintro ⟨r', hRead, -⟩
      by_contra hNot
      have hLong : maxEpochLine ≤ front.length := Nat.le_of_not_lt fun h => hNot (hFits.mp h)
      have hCut : 10 ∉ r.bytes.take maxEpochLine := by
        rw [hAll, List.take_append_of_le_length hLong]
        exact fun hIn => hNewline (List.mem_of_mem_take hIn)
      have hOk : receive socket (fromUtf8 (r.bytes.take maxEpochLine)) =
          .ok ⟨instanceId, epoch, socket⟩ := by
        rw [← readEvent_cut hCut, hRead]
      obtain ⟨text, event, hText, hParse⟩ := event_of_receive hOk
      exact hCut (newline_of_fromUtf8 hText (newline_of_parseAuthorityEvent hParse))
    · intro hSmall
      obtain ⟨r', hRead, hRest⟩ : ∃ r', readEvent socket r =
          (receive socket (fromUtf8 (front ++ [10])), r') ∧ r'.bytes = rest :=
        readEvent_line hAll hNewline (hFits.mpr hSmall)
      have hText : fromUtf8 (front ++ [10]) = some (authorityEvent instanceId epoch) :=
        fromUtf8_eq_some_iff.mpr hFront
      have hInstance : instanceId.toList ≠ [] := by
        intro hNone
        rw [hNone] at hLength
        cases hLength
      have hGraphic : instanceId.toList.all isAsciiGraphic = true :=
        List.all_eq_true.mpr fun c hc =>
          isAsciiGraphic_of_isHexDigit (List.all_eq_true.mp hHex c hc)
      refine ⟨r', ?_, hRest⟩
      rw [hRead, hText, receive_event (parseAuthorityEvent_event hEpoch hInstance hGraphic)]
  · intro line hParse
    obtain ⟨digits, hLine, hNe, hDigits, -, -, hValue⟩ := parseAuthorityEvent_iff.mp hParse
    obtain ⟨rfl, -⟩ := parseU64_digits hDigits hValue
    obtain ⟨zeros, hZeros⟩ := decimal_of_digits hNe hDigits
    refine ⟨zeros, Nat.toDigits 10 (digitsValue digits) ++ (" instance=".toList ++
      (instanceId.toList ++ ['\n'])), toList_authorityEvent _ _, ?_⟩
    rw [hLine, eventText_eq, ← List.append_assoc (List.replicate zeros '0'), ← hZeros]

def zeroInstance : String := String.ofList (List.replicate 32 '0')

/-- **An epoch that is too long.** The newline of its line is the 65th byte; the
subscriber takes the line for a malformed one. -/
theorem epoch_too_long :
    ∃ r : BufReader UInt8, r.bytes = textBytes (authorityEvent zeroInstance (10 ^ 15)) ∧
      (readEvent ⟨0, 0⟩ r).1 = .error (.protocol "malformed broker subscription event") := by
  have hBytes : BufReader.bytes ⟨textBytes (authorityEvent zeroInstance (10 ^ 15)), []⟩ =
      textBytes (authorityEvent zeroInstance (10 ^ 15)) := List.append_nil _
  have hTake : (textBytes (authorityEvent zeroInstance (10 ^ 15))).take maxEpochLine =
      textBytes ("EPOCH 1000000000000000 instance=" ++ zeroInstance) := by decide +kernel
  have hRefused : receive ⟨0, 0⟩ (some ("EPOCH 1000000000000000 instance=" ++ zeroInstance)) =
      .error (.protocol "malformed broker subscription event") := by decide +kernel
  refine ⟨⟨textBytes (authorityEvent zeroInstance (10 ^ 15)), []⟩, hBytes, ?_⟩
  exact (readEvent_cut_text ((congrArg (List.take maxEpochLine) hBytes).trans hTake)
    (by decide +kernel)).trans hRefused

end Forward.Browser

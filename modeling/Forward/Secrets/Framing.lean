import Forward.Lib.Reader
import Forward.Secrets.Requests

/-!
# Which request a connection carries

The acceptor peeks at what has arrived and picks a lane by the request in it; the worker of the
lane reads the frame, in as many reads as it takes, and acts on it. Both stop at the first newline,
and neither looks beyond `maxFrameBytes + 1` bytes.
-/

namespace Forward.Secrets

open Lib Hygiene Proto

/-! ## The worker -/

/-- `read_frame`, behind what it has read; a signal is an error of the connection. -/
def readFrame (frame : List UInt8) (source : Source UInt8) : Option (List UInt8) :=
  if maxFrameBytes + 1 ≤ frame.length then some frame
  else
    match _ : source.read (maxFrameBytes + 1 - frame.length) with
    | (none, _) => none
    | (some [], _) => some frame
    | (some (byte :: more), source') =>
      if 10 ∈ byte :: more then some (frame ++ through 10 (byte :: more))
      else readFrame (frame ++ byte :: more) source'
termination_by maxFrameBytes + 1 - frame.length
decreasing_by
  simp only [List.length_append, List.length_cons]
  omega

/-- The request of a frame. `handle` keeps no other error than this one. -/
def frameRequest (frame : List UInt8) : Except ErrCode Request :=
  if frame.getLast? = some 10 ∧ frame.dropLast.length ≤ maxFrameBytes then
    (parseRequest frame.dropLast).mapError fun _ => .badRequest
  else .error .badRequest

def received (source : Source UInt8) : Option (Except ErrCode Request) :=
  (readFrame [] source).map frameRequest

inductive Handled
  | attached
  | dispatched (request : Request)
  | answered (decision : Decision)

def act : Except ErrCode Request → Handled
  | .ok .subscribe => .attached
  | .ok request => .dispatched request
  | .error _ => .answered (.new (.failed .badRequest "invalid request frame"))

def handle (source : Source UInt8) : Option Handled := (received source).map act

/-! ## The acceptor -/

inductive ConnectionLane
  | main
  | fast
  | control
  | subscription

def requestLane : Request → ConnectionLane
  | .get _ _ _ _ | .requestGrant _ _ _ _ | .authorize _ _ _ => .main
  | .hello _ | .register _ _ | .unregister _ | .grants | .redeem _ _ => .fast
  | .deny _ | .lock => .control
  | .subscribe => .subscription

/-- `ready_request_lane` on what has arrived; nothing is as good as no line. -/
def readyRequestLane (arrived : List UInt8) : Option ConnectionLane :=
  let frame := through 10 (arrived.take (maxFrameBytes + 1))
  if frame.getLast? = some 10 ∧ frame.dropLast.length ≤ maxFrameBytes then
    match parseRequest frame.dropLast with
    | .error _ => none
    | .ok request => some (requestLane request)
  else none

/-! ## The frame of a stream -/

variable {source : Source UInt8}

/-- **The frame does not depend on the pieces.** -/
theorem readFrame_eq {frame : List UInt8} (hSteady : source.signals = 0)
    (hFrame : 10 ∉ frame) :
    readFrame frame source =
      some (frame ++ through 10 (source.bytes.take (maxFrameBytes + 1 - frame.length))) := by
  induction hLeft : maxFrameBytes + 1 - frame.length using Nat.strongRecOn
    generalizing frame source with
  | ind left ih =>
    subst hLeft
    rw [readFrame]
    split
    · rename_i hFull
      have hNone : maxFrameBytes + 1 - frame.length = 0 := by omega
      rw [hNone, List.take_zero, through, List.append_nil]
    · rename_i hRoom
      have hPositive : 0 < maxFrameBytes + 1 - frame.length := by omega
      split
      · rename_i hRead
        have hSignals := (Source.read_none hRead).2
        omega
      · rename_i hRead
        obtain ⟨-, -, -, hEnd⟩ := Source.read_some hPositive hRead
        rw [hEnd rfl, List.take_nil, through, List.append_nil]
      · rename_i byte more source' hRead
        obtain ⟨hBytes, hSignals, hLength, -⟩ := Source.read_some hPositive hRead
        -- the chunk lies within the bound, and the rest of the bound behind it
        have hTake : source.bytes.take (maxFrameBytes + 1 - frame.length) = (byte :: more) ++
            source'.bytes.take (maxFrameBytes + 1 - (frame ++ byte :: more).length) := by
          rw [hBytes, List.take_append, List.take_of_length_le hLength, List.length_append,
            Nat.sub_sub]
        rw [hTake]
        split
        · rename_i hNewline
          rw [through_append_of_mem hNewline]
        · rename_i hNone
          have hNext : 10 ∉ frame ++ byte :: more := by
            rw [List.mem_append, not_or]
            exact ⟨hFrame, hNone⟩
          have hSmaller : maxFrameBytes + 1 - (frame ++ byte :: more).length <
              maxFrameBytes + 1 - frame.length := by
            rw [List.length_append, List.length_cons]
            omega
          rw [ih _ hSmaller (hSignals.trans hSteady) hNext rfl, through_append_of_notMem hNone,
            List.append_assoc]

theorem received_eq (hSteady : source.signals = 0) :
    received source =
      some (frameRequest (through 10 (source.bytes.take (maxFrameBytes + 1)))) := by
  unfold received
  rw [readFrame_eq hSteady List.not_mem_nil]
  rfl

variable {line : List UInt8}

theorem frameRequest_line (hLength : line.length ≤ maxFrameBytes) :
    frameRequest (line ++ [10]) = (parseRequest line).mapError fun _ => .badRequest := by
  unfold frameRequest
  rw [List.dropLast_concat, if_pos ⟨List.getLast?_concat, hLength⟩]

theorem frameRequest_of_notMem {frame : List UInt8} (h : 10 ∉ frame) :
    frameRequest frame = .error .badRequest := by
  refine if_neg ?_
  rintro ⟨hLast, -⟩
  exact h (List.mem_of_getLast? hLast)

theorem received_line {rest : List UInt8}
    (hSteady : source.signals = 0) (hBytes : source.bytes = line ++ 10 :: rest)
    (hLine : 10 ∉ line) (hLength : line.length ≤ maxFrameBytes) :
    received source = some ((parseRequest line).mapError fun _ => .badRequest) := by
  rw [received_eq hSteady, hBytes, through_take_line hLine (Nat.lt_succ_of_le hLength),
    frameRequest_line hLength]

theorem received_long (hSteady : source.signals = 0)
    (hNone : 10 ∉ source.bytes.take (maxFrameBytes + 1)) :
    received source = some (.error .badRequest) := by
  rw [received_eq hSteady, through_of_notMem hNone, frameRequest_of_notMem hNone]

/-! ## The lane of a stream -/

theorem act_mapError (result : Except ErrCode Request) :
    act (result.mapError fun _ => .badRequest) = act result := by
  cases result <;> rfl

theorem readyRequestLane_line {arrived rest : List UInt8}
    (hArrived : arrived = line ++ 10 :: rest) (hLine : 10 ∉ line)
    (hLength : line.length ≤ maxFrameBytes) :
    readyRequestLane arrived = match parseRequest line with
      | .error _ => none
      | .ok request => some (requestLane request) := by
  unfold readyRequestLane
  simp only [hArrived, through_take_line hLine (Nat.lt_succ_of_le hLength)]
  rw [List.dropLast_concat, if_pos ⟨List.getLast?_concat, hLength⟩]

theorem line_of_readyRequestLane {arrived : List UInt8} {lane : ConnectionLane}
    (h : readyRequestLane arrived = some lane) :
    ∃ line rest request, arrived = line ++ 10 :: rest ∧ 10 ∉ line ∧
      line.length ≤ maxFrameBytes ∧ parseRequest line = .ok request ∧
      requestLane request = lane := by
  by_cases hNewline : 10 ∈ arrived.take (maxFrameBytes + 1)
  · obtain ⟨line, more, hTake, hLine⟩ := List.eq_append_cons_of_mem hNewline
    have hArrived : arrived = line ++ 10 :: (more ++ arrived.drop (maxFrameBytes + 1)) := by
      calc arrived = arrived.take (maxFrameBytes + 1) ++ arrived.drop (maxFrameBytes + 1) :=
            (List.take_append_drop _ _).symm
        _ = line ++ 10 :: (more ++ arrived.drop (maxFrameBytes + 1)) := by
            rw [hTake, List.append_assoc, List.cons_append]
    have hLength : line.length ≤ maxFrameBytes := by
      have hShort := List.length_take_le (maxFrameBytes + 1) arrived
      rw [hTake, List.length_append, List.length_cons] at hShort
      omega
    rw [readyRequestLane_line hArrived hLine hLength] at h
    split at h
    · cases h
    · rename_i request hRequest
      exact ⟨line, _, request, hArrived, hLine, hLength, hRequest, Option.some.inj h⟩
  · unfold readyRequestLane at h
    simp only [through_of_notMem hNewline] at h
    rw [if_neg (fun hLast => hNewline (List.mem_of_getLast? hLast.1))] at h
    cases h

/-- **Framing and lanes.** On a connection without errors, the worker acts on the first line if its
newline is among the first 4097 bytes, and refuses the connection otherwise. A lane that the
acceptor picks, from whatever has arrived, is the lane of the request that the worker will read. -/
theorem framing_and_lanes (source : Source UInt8) (hSteady : source.signals = 0) :
    (∀ line rest, source.bytes = line ++ 10 :: rest → 10 ∉ line → line.length + 1 ≤ 4097 →
      handle source = some (act (parseRequest line))) ∧
    (10 ∉ source.bytes.take 4097 →
      handle source = some (.answered (.new (.failed .badRequest "invalid request frame")))) ∧
    (∀ other : Source UInt8, other.signals = 0 →
      through 10 (other.bytes.take 4097) = through 10 (source.bytes.take 4097) →
      handle other = handle source) ∧
    ∀ arrived, arrived <+: source.bytes →
      (∀ lane, readyRequestLane arrived = some lane →
        ∃ request, received source = some (.ok request) ∧ requestLane request = lane) ∧
      ∀ line rest request, arrived = line ++ 10 :: rest → 10 ∉ line →
        parseRequest line = .ok request → (request = .lock ∨ ∃ id, request = .deny id) →
        readyRequestLane arrived = some .control := by
  refine ⟨?_, ?_, ?_, ?_⟩
  · intro line rest hBytes hLine hLength
    unfold handle
    rw [received_line hSteady hBytes hLine (Nat.le_of_succ_le_succ hLength), Option.map_some,
      act_mapError]
  · intro hNone
    unfold handle
    rw [received_long hSteady hNone]
    rfl
  · intro other hOther hSame
    unfold handle
    rw [received_eq hSteady, received_eq hOther]
    exact congrArg (fun frame => (some (frameRequest frame)).map act) hSame
  · rintro arrived ⟨later, hLater⟩
    refine ⟨?_, ?_⟩
    · intro lane hLane
      obtain ⟨line, rest, request, rfl, hLine, hLength, hRequest, hKind⟩ :=
        line_of_readyRequestLane hLane
      refine ⟨request, ?_, hKind⟩
      have hBytes : source.bytes = line ++ 10 :: (rest ++ later) := by
        rw [← hLater]
        simp
      rw [received_line hSteady hBytes hLine hLength, hRequest]
      rfl
    · intro line rest request hArrived hLine hRequest hControl
      -- a line that parses is short enough
      have hLength : line.length ≤ maxFrameBytes := length_le_of_parseRequest hRequest
      rw [readyRequestLane_line hArrived hLine hLength, hRequest]
      rcases hControl with rfl | ⟨id, rfl⟩
      · rfl
      · rfl

theorem framing_and_lanes_lock :
    handle [.data 76 [79], .data 67 [75, 10, 65]] = some (.dispatched .lock) ∧
    readyRequestLane [76, 79, 67, 75, 10] = some .control := by
  have hLock : parseRequest [76, 79, 67, 75] = .ok .lock := by
    have hFields : requestFields [76, 79, 67, 75] = .ok ("LOCK".toList, []) :=
      requestFields_iff.mpr ⟨by decide, by decide, by decide +kernel, by decide, by simp, by simp⟩
    unfold parseRequest
    rw [hFields]
    rfl
  obtain ⟨hHandle, -, -, hPeek⟩ := framing_and_lanes [.data 76 [79], .data 67 [75, 10, 65]] rfl
  refine ⟨?_, ?_⟩
  · rw [hHandle [76, 79, 67, 75] [65] rfl (by decide) (by decide), hLock]
    rfl
  · exact (hPeek [76, 79, 67, 75, 10] ⟨[65], rfl⟩).2 [76, 79, 67, 75] [] .lock rfl (by decide)
      hLock (.inl rfl)

end Forward.Secrets

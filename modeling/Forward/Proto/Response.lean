import Forward.Secrets.Names

/-!
# Responses on the wire

`format_response` renders the header line of a reply; `parse_response` reads a complete reply and
`read_response_by` one from a stream. The two readers share `parse_header`, with its bound on
payloads.
-/

namespace Forward.Proto

open Lib Hygiene Secrets

def maxFrameBytes : Nat := 4096

/-! ## Error codes -/

def wire : ErrCode → String
  | .badRequest => "BAD_REQUEST"
  | .unknownOp => "UNKNOWN_OP"
  | .versionMismatch => "VERSION_MISMATCH"
  | .unknownToken => "UNKNOWN_TOKEN"
  | .noScope => "NO_SCOPE"
  | .agentTty => "AGENT_TTY"
  | .foreignCaller => "FOREIGN_CALLER"
  | .notHumanKey => "NOT_HUMAN_KEY"
  | .ambiguousKey => "AMBIGUOUS_KEY"
  | .denied => "DENIED"
  | .timeout => "TIMEOUT"
  | .yubikeyUnreachable => "YUBIKEY_UNREACHABLE"
  | .tooManyPending => "TOO_MANY_PENDING"
  | .internal => "INTERNAL"

def parseWire : String → Option ErrCode
  | "BAD_REQUEST" => some .badRequest
  | "UNKNOWN_OP" => some .unknownOp
  | "VERSION_MISMATCH" => some .versionMismatch
  | "UNKNOWN_TOKEN" => some .unknownToken
  | "NO_SCOPE" => some .noScope
  | "AGENT_TTY" => some .agentTty
  | "FOREIGN_CALLER" => some .foreignCaller
  | "NOT_HUMAN_KEY" => some .notHumanKey
  | "AMBIGUOUS_KEY" => some .ambiguousKey
  | "DENIED" => some .denied
  | "TIMEOUT" => some .timeout
  | "YUBIKEY_UNREACHABLE" => some .yubikeyUnreachable
  | "TOO_MANY_PENDING" => some .tooManyPending
  | "INTERNAL" => some .internal
  | _ => none

theorem parseWire_wire (code : ErrCode) : parseWire (wire code) = some code := by
  cases code <;> decide

/-! ## The broker's side -/

inductive Response
  | ok
  | okFields (fields : String)
  | okBytes (len : Nat)
  | failed (code : ErrCode) (message : String)

def sanitize (text : String) : String :=
  String.ofList (text.toList.map fun c => if c = '\n' ∨ c = '\r' ∨ c = '\t' then ' ' else c)

def formatResponse : Response → String
  | .ok => "OK\n"
  | .okFields fields => "OK\t" ++ sanitize fields ++ "\n"
  | .okBytes len => "OK\tlen=" ++ toString len ++ "\n"
  | .failed code message => "ERR\t" ++ wire code ++ "\t" ++ sanitize message ++ "\n"

/-! ## The client's side -/

inductive BrokerResponse
  | ok
  | fields (text : String)
  | bytes (payload : List UInt8)
  deriving DecidableEq

/-- The `ClientError`s of the two readers on a stream that does not fail. -/
inductive ClientError
  | invalidResponse
  | broker (code : ErrCode)
  deriving DecidableEq

inductive Header
  | ok
  | fields (text : String)
  | bytes (len : Nat)
  | error (code : ErrCode)

-- `is_ascii_graphic`, a blank or a tab
def headerByte (byte : UInt8) : Bool := (33 ≤ byte && byte ≤ 126) || byte == 32 || byte == 9

def parseHeaderText (text : List Char) : Except ClientError Header :=
  if text = "OK".toList then .ok .ok
  else
    match stripPrefix "OK\tlen=".toList text with
    | some length =>
      if length.isEmpty || !length.all Char.isDigit then .error .invalidResponse
      else
        match parseU64 length with
        | none => .error .invalidResponse
        | some length =>
          if maxFrameBytes < length then .error .invalidResponse else .ok (.bytes length)
    | none =>
      match stripPrefix "OK\t".toList text with
      | some fields => .ok (.fields (String.ofList fields))
      | none =>
        match stripPrefix "ERR\t".toList text with
        | none => .error .invalidResponse
        | some error =>
          match splitOnce ['\t'] error with
          | none => .error .invalidResponse
          | some (code, _) =>
            match parseWire (String.ofList code) with
            | none => .error .invalidResponse
            | some code => .ok (.error code)

def parseHeader (header : List UInt8) : Except ClientError Header :=
  if header.isEmpty || !header.all headerByte then .error .invalidResponse
  else parseHeaderText (asciiChars header)

def finishHeader : Header → Except ClientError BrokerResponse
  | .ok => .ok .ok
  | .fields text => .ok (.fields text)
  | .bytes _ => .error .invalidResponse
  | .error code => .error (.broker code)

def payloadFromSlice (payload : List UInt8) (length : Nat) : Except ClientError BrokerResponse :=
  if payload.length = length ∧ ¬ payload.contains 0 then .ok (.bytes payload)
  else .error .invalidResponse

-- around the first newline
def splitLine : List UInt8 → Option (List UInt8 × List UInt8)
  | [] => none
  | byte :: rest =>
    if byte = 10 then some ([], rest)
    else (splitLine rest).map fun (header, payload) => (byte :: header, payload)

def parseResponse (response : List UInt8) : Except ClientError BrokerResponse :=
  match splitLine response with
  | none => .error .invalidResponse
  | some (header, payload) =>
    match parseHeader header with
    | .error e => .error e
    | .ok (.bytes length) => payloadFromSlice payload length
    | .ok header => if payload.isEmpty then finishHeader header else .error .invalidResponse

/-- One bounded line, with its newline, and what follows it in the stream. -/
def readHeaderLine (line : List UInt8) :
    List UInt8 → Except ClientError (List UInt8 × List UInt8)
  | [] => .error .invalidResponse
  | byte :: rest =>
    if line.length ≤ maxFrameBytes then
      if byte = 10 then .ok (line ++ [byte], rest) else readHeaderLine (line ++ [byte]) rest
    else .error .invalidResponse

-- `read_exact`
def readPayload (stream : List UInt8) (length : Nat) :
    Except ClientError (List UInt8 × List UInt8) :=
  if stream.length < length then .error .invalidResponse
  else .ok (stream.take length, stream.drop length)

def rejectTrailingBytes (stream : List UInt8) : Except ClientError Unit :=
  if stream.isEmpty then .ok () else .error .invalidResponse

def bytesResponse (payload : List UInt8) : Except ClientError BrokerResponse :=
  if payload.contains 0 then .error .invalidResponse else .ok (.bytes payload)

/-- `read_response_by`, on a stream that holds these bytes and ends. -/
def readResponse (stream : List UInt8) : Except ClientError BrokerResponse := do
  let (line, rest) ← readHeaderLine [] stream
  if line.getLast? = some 10 then
    match ← parseHeader line.dropLast with
    | .bytes length => do
      let (payload, rest) ← readPayload rest length
      rejectTrailingBytes rest
      bytesResponse payload
    | header => do
      rejectTrailingBytes rest
      finishHeader header
  else .error .invalidResponse

/-! ## The two readers on one line -/

variable {header : List UInt8}

theorem splitLine_line (hLine : 10 ∉ header) (payload : List UInt8) :
    splitLine (header ++ 10 :: payload) = some (header, payload) := by
  induction header with
  | nil => rfl
  | cons byte rest ih =>
    obtain ⟨hHead, hRest⟩ := List.ne_and_not_mem_of_not_mem_cons hLine
    rw [List.cons_append, splitLine, if_neg hHead.symm, ih hRest]
    rfl

theorem readHeaderLine_line (hLine : 10 ∉ header) (payload : List UInt8) (line : List UInt8)
    (hBound : line.length + header.length ≤ maxFrameBytes) :
    readHeaderLine line (header ++ 10 :: payload) = .ok (line ++ header ++ [10], payload) := by
  induction header generalizing line with
  | nil =>
    have hShort : line.length ≤ maxFrameBytes := by simpa using hBound
    rw [List.nil_append, readHeaderLine, if_pos hShort, if_pos rfl, List.append_nil]
  | cons byte rest ih =>
    obtain ⟨hHead, hRest⟩ := List.ne_and_not_mem_of_not_mem_cons hLine
    rw [List.length_cons] at hBound
    rw [List.cons_append, readHeaderLine, if_pos (by omega), if_neg hHead.symm,
      ih hRest (line ++ [byte]) (by simp only [List.length_append, List.length_singleton]; omega)]
    simp

theorem readHeaderLine_long {line bytes : List UInt8}
    (h : 10 ∉ bytes.take (maxFrameBytes + 1 - line.length)) :
    readHeaderLine line bytes = .error .invalidResponse := by
  induction bytes generalizing line with
  | nil => rfl
  | cons byte rest ih =>
    rw [readHeaderLine]
    split
    · rename_i hBound
      have hMore : maxFrameBytes + 1 - line.length = (maxFrameBytes - line.length) + 1 := by omega
      rw [hMore, List.take_succ_cons] at h
      obtain ⟨hHead, hRest⟩ := List.ne_and_not_mem_of_not_mem_cons h
      rw [if_neg hHead.symm]
      refine ih ?_
      have hLess : maxFrameBytes + 1 - (line ++ [byte]).length = maxFrameBytes - line.length := by
        rw [List.length_append, List.length_singleton]
        omega
      rwa [hLess]
    · rfl

/-- **The two readers agree** on every reply whose header line fits a frame. -/
theorem readResponse_line (hLine : 10 ∉ header) (hBound : header.length ≤ maxFrameBytes)
    (payload : List UInt8) :
    readResponse (header ++ 10 :: payload) = parseResponse (header ++ 10 :: payload) := by
  have hRead : readHeaderLine [] (header ++ 10 :: payload) = .ok (header ++ [10], payload) := by
    have hFrom := readHeaderLine_line hLine payload [] (by simpa using hBound)
    simpa using hFrom
  have hLast : (header ++ [10]).getLast? = some 10 := by simp
  unfold readResponse parseResponse
  rw [splitLine_line hLine, hRead]
  dsimp only [bind, Except.bind]
  rw [if_pos hLast, List.dropLast_concat]
  cases parseHeader header with
  | error => rfl
  | ok parsed =>
    cases parsed with
    | bytes length =>
      show (do
        let (payload, rest) ← readPayload payload length
        rejectTrailingBytes rest
        bytesResponse payload) = payloadFromSlice payload length
      unfold readPayload payloadFromSlice
      -- too few bytes, too many, or exactly as many as announced
      rcases Nat.lt_trichotomy payload.length length with hLt | hEq | hGt
      · rw [if_pos hLt, if_neg (by rintro ⟨hLen, -⟩; omega)]
        rfl
      · subst hEq
        rw [if_neg (Nat.lt_irrefl _), List.take_length, List.drop_length]
        simp [bind, Except.bind, rejectTrailingBytes, bytesResponse]
      · have hTrailing : payload.drop length ≠ [] := by
          rw [ne_eq, List.drop_eq_nil_iff]
          omega
        rw [if_neg (by omega), if_neg (by rintro ⟨hLen, -⟩; omega)]
        simp [bind, Except.bind, rejectTrailingBytes, hTrailing]
    | ok | fields _ | error _ =>
      cases payload with
      | nil | cons => rfl

/-! ## Lines of text -/

def HeaderText (text : List Char) : Prop :=
  ∀ c ∈ text, c = ' ' ∨ c = '\t' ∨ isAsciiGraphic c = true

variable {text : List Char}

namespace HeaderText

theorem ascii (h : HeaderText text) : ∀ c ∈ text, isAscii c := by
  intro c hc
  rcases h c hc with rfl | rfl | hGraphic
  · rfl
  · rfl
  · have hRange := isAsciiGraphic_iff.mp hGraphic
    simp only [isAscii, decide_eq_true_eq]
    omega

theorem append {more : List Char} (h : HeaderText text) (hMore : HeaderText more) :
    HeaderText (text ++ more) := by
  intro c hc
  rcases List.mem_append.mp hc with hc | hc
  · exact h c hc
  · exact hMore c hc

theorem headerByte_of_mem (h : HeaderText text) {byte : UInt8}
    (hByte : byte ∈ text.flatMap String.utf8EncodeChar) : headerByte byte := by
  rw [utf8_of_ascii h.ascii] at hByte
  obtain ⟨c, hc, rfl⟩ := List.mem_map.mp hByte
  rcases h c hc with rfl | rfl | hGraphic
  · rfl
  · rfl
  · have hRange := isAsciiGraphic_iff.mp hGraphic
    have hNat : (UInt8.ofNat c.toNat).toNat = c.toNat := by
      rw [UInt8.toNat_ofNat']
      omega
    have hLow : (33 : UInt8) ≤ UInt8.ofNat c.toNat := by
      rw [UInt8.le_iff_toNat_le, hNat]
      exact hRange.1
    have hHigh : UInt8.ofNat c.toNat ≤ (126 : UInt8) := by
      rw [UInt8.le_iff_toNat_le, hNat]
      exact hRange.2
    simp [headerByte, hLow, hHigh]

end HeaderText

/-- What the readers make of a parsed header and the bytes behind it. -/
def finish (payload : List UInt8) : Except ClientError Header → Except ClientError BrokerResponse
  | .error e => .error e
  | .ok (.bytes length) => payloadFromSlice payload length
  | .ok header => if payload.isEmpty then finishHeader header else .error .invalidResponse

theorem textBytes_line (text : String) :
    textBytes (text ++ "\n") = text.toList.flatMap String.utf8EncodeChar ++ [10] := by
  have hNewline : ("\n" : String).toList.flatMap String.utf8EncodeChar = [10] := by decide
  unfold textBytes
  rw [utf8_eq_flatMap, String.toList_append, List.flatMap_append, hNewline]

theorem newline_notMem (h : HeaderText text) :
    (10 : UInt8) ∉ text.flatMap String.utf8EncodeChar := by
  intro hMem
  cases h.headerByte_of_mem hMem

theorem parseHeader_text (h : HeaderText text) (hNe : text ≠ []) :
    parseHeader (text.flatMap String.utf8EncodeChar) = parseHeaderText text := by
  have hAll : (text.flatMap String.utf8EncodeChar).all headerByte = true :=
    List.all_eq_true.mpr fun byte hByte => h.headerByte_of_mem hByte
  have hBytes : text.flatMap String.utf8EncodeChar ≠ [] := by
    rw [utf8_of_ascii h.ascii]
    simpa using hNe
  unfold parseHeader
  rw [asciiChars_utf8 h.ascii, hAll]
  simp [hBytes]

/-- **The bytes of a text line and a payload**, read as a complete reply. -/
theorem parseResponse_line {text : String} (h : HeaderText text.toList) (hNe : text.toList ≠ [])
    (payload : List UInt8) :
    parseResponse (textBytes (text ++ "\n") ++ payload) =
      finish payload (parseHeaderText text.toList) := by
  rw [textBytes_line, List.append_assoc, List.singleton_append]
  unfold parseResponse
  rw [splitLine_line (newline_notMem h)]
  dsimp only
  rw [parseHeader_text h hNe]
  rfl

end Forward.Proto

import Forward.Lib.Fields
import Forward.Proto.Response
import Forward.Secrets.Broker

/-!
# What the broker writes, and what a client reads back

`Outcome.written` is the bytes that the end of `server::handle` makes of an outcome, and
`Outcome.reply` what the client should make of them. Both readers are run on every outcome that is
`Clean`: printable texts, numbers of bounded length, no NUL in a payload.
-/

namespace Forward.Secrets

open Lib Hygiene Proto

/-! ## Writing -/

-- the header that `handle` writes by hand
def receiptHeader : String := "OK\tstatus=authorized receipt="

def Outcome.written : Outcome → List UInt8
  | .ok => textBytes (formatResponse .ok)
  | .fields text => textBytes (formatResponse (.okFields text))
  | .payload text => textBytes (formatResponse (.okBytes (textBytes text).length)) ++ textBytes text
  | .bytes value => textBytes (formatResponse (.okBytes value.length)) ++ value
  | .receipt hex => textBytes receiptHeader ++ textBytes hex ++ textBytes "\n"
  | .failed code message => textBytes (formatResponse (.failed code message))

/-- The same outcome on the client's side. -/
def Outcome.reply : Outcome → Except ClientError BrokerResponse
  | .ok => .ok .ok
  | .fields text => .ok (.fields text)
  | .payload text => .ok (.bytes (textBytes text))
  | .bytes value => .ok (.bytes value)
  | .receipt hex => .ok (.fields ("status=authorized receipt=" ++ hex))
  | .failed code _ => .error (.broker code)

-- what follows the header line
def Outcome.body : Outcome → List UInt8
  | .payload text => textBytes text
  | .bytes value => value
  | _ => []

/-- The body is no longer than a client accepts. -/
def Outcome.Fits (outcome : Outcome) : Prop := outcome.body.length ≤ maxFrameBytes

instance (outcome : Outcome) : Decidable outcome.Fits := inferInstanceAs (Decidable (_ ≤ _))

/-! ## Clean outcomes -/

def printable (c : Char) : Bool := c == ' ' || isAsciiGraphic c

/-- A printable text of at most `limit` characters. -/
def Plain (limit : Nat) (text : String) : Prop :=
  text.toList.all printable = true ∧ text.toList.length ≤ limit

instance (limit : Nat) (text : String) : Decidable (Plain limit text) :=
  inferInstanceAs (Decidable (_ ∧ _))

variable {n : Nat} {text : String}

-- a literal is `String.ofList` of its characters
theorem plain_ofList {chars : List Char}
    (h : (chars.all printable && decide (chars.length ≤ n)) = true) :
    Plain n (String.ofList chars) := by
  rw [Bool.and_eq_true, decide_eq_true_eq] at h
  rw [Plain, String.toList_ofList]
  exact h

theorem Plain.append {m : Nat} {more : String} (h : Plain m text) (hMore : Plain n more) :
    Plain (m + n) (text ++ more) := by
  refine ⟨?_, ?_⟩
  · rw [String.toList_append, List.all_append, h.1, hMore.1]
    rfl
  · rw [String.toList_append, List.length_append]
    exact Nat.add_le_add h.2 hMore.2

theorem Plain.mono {m : Nat} (h : Plain m text) (hLe : m ≤ n) : Plain n text :=
  ⟨h.1, Nat.le_trans h.2 hLe⟩

theorem Plain.headerText (h : Plain n text) : HeaderText text.toList := by
  intro c hc
  have hPrintable := List.all_eq_true.mp h.1 c hc
  rcases Bool.or_eq_true_iff.mp hPrintable with hBlank | hGraphic
  · exact .inl (eq_of_beq hBlank)
  · exact .inr (.inr hGraphic)

theorem Plain.sanitize_eq (h : Plain n text) : sanitize text = text := by
  have hSame : ∀ c ∈ text.toList,
      (if c = '\n' ∨ c = '\r' ∨ c = '\t' then ' ' else c) = id c := by
    intro c hc
    have hPrintable := List.all_eq_true.mp h.1 c hc
    refine if_neg ?_
    rintro (rfl | rfl | rfl) <;> cases hPrintable
  unfold sanitize
  rw [List.map_congr_left hSame, List.map_id, String.ofList_toList]

theorem plain_decimal (h : n ≤ wordMax) : Plain 20 (toString n) := by
  refine ⟨List.all_eq_true.mpr ?_, ?_⟩
  · intro c hc
    rw [toList_toString] at hc
    have hGraphic := isAsciiGraphic_of_isDigit (isDigit_of_mem_decimal hc)
    simp [printable, hGraphic]
  · rw [toList_toString]
    refine (Nat.length_toDigits_le_iff (by omega) (by omega)).mpr ?_
    unfold wordMax at h
    omega

theorem printable_hexChar {nibble : UInt8} (h : nibble < 16) :
    printable (hexChar nibble) := by
  have hAll : ∀ n : Fin 16, printable (hexChar (UInt8.ofNat n.val)) := by decide
  have hNibble := hAll ⟨nibble.toNat, UInt8.lt_iff_toNat_lt.mp h⟩
  rwa [UInt8.ofNat_toNat] at hNibble

theorem plain_encode (bytes : List UInt8) : Plain (2 * bytes.length) (encode bytes) := by
  have hNibbles : ∀ byte : UInt8, byte >>> 4 < 16 ∧ byte &&& 0x0f < 16 := by
    intro byte
    refine ⟨?_, ?_⟩
    · rw [UInt8.lt_iff_toNat_lt, UInt8.toNat_shiftRight]
      have := byte.toNat_lt
      simp only [Nat.shiftRight_eq_div_pow]
      show byte.toNat / 2 ^ 4 < 16
      omega
    · rw [UInt8.lt_iff_toNat_lt, UInt8.toNat_and]
      exact Nat.lt_of_le_of_lt Nat.and_le_right (by decide)
  refine ⟨List.all_eq_true.mpr ?_, ?_⟩
  · intro c hc
    unfold encode at hc
    rw [String.toList_ofList, List.mem_flatMap] at hc
    obtain ⟨byte, -, hPair⟩ := hc
    rcases List.mem_pair.mp hPair with rfl | rfl
    · exact printable_hexChar (hNibbles byte).1
    · exact printable_hexChar (hNibbles byte).2
  · unfold encode
    rw [String.toList_ofList]
    induction bytes with
    | nil => exact Nat.le_refl _
    | cons =>
      rw [List.flatMap_cons, List.length_append, List.length_cons]
      simp only [List.length_cons, List.length_nil]
      omega

/-- An outcome that a header can carry, with a body that a client may accept. -/
def Outcome.Clean : Outcome → Prop
  | .ok => True
  | .fields text => Plain 4000 text ∧ stripPrefix "len=".toList text.toList = none
  | .payload text => (0 : UInt8) ∉ textBytes text
  | .bytes value => (0 : UInt8) ∉ value
  | .receipt hex => Plain 64 hex
  | .failed _ message => Plain 100 message

/-! ## One line and a body -/

-- the header line of an outcome, without its newline
def Outcome.line : Outcome → String
  | .ok => "OK"
  | .fields text => "OK\t" ++ text
  | .payload text => "OK\tlen=" ++ toString (textBytes text).length
  | .bytes value => "OK\tlen=" ++ toString value.length
  | .receipt hex => receiptHeader ++ hex
  | .failed code message => "ERR\t" ++ wire code ++ "\t" ++ message

variable {outcome : Outcome}

theorem Outcome.written_line (h : outcome.Clean) :
    outcome.written = textBytes (outcome.line ++ "\n") ++ outcome.body := by
  cases outcome with
  | ok => exact (List.append_nil _).symm
  | fields text =>
    have hSame : sanitize text = text := h.1.sanitize_eq
    simp [written, line, body, formatResponse, hSame]
  | payload | bytes => rfl
  | receipt => simp [written, line, body, textBytes_append]
  | failed code message =>
    have hSame : sanitize message = message := Plain.sanitize_eq h
    simp [written, line, body, formatResponse, hSame]

theorem headerText_decimal (n : Nat) : HeaderText ("OK\tlen=" ++ toString n).toList := by
  rw [String.toList_append, toList_toString]
  have hStart : HeaderText "OK\tlen=".toList := forall_mem_of_all (by decide)
  refine hStart.append ?_
  intro c hc
  exact .inr (.inr (isAsciiGraphic_of_isDigit (isDigit_of_mem_decimal hc)))

theorem plain_wire (code : ErrCode) : Plain 20 (wire code) := by
  cases code <;> exact plain_ofList rfl

theorem Outcome.line_headerText (h : outcome.Clean) : HeaderText outcome.line.toList := by
  have hTab : ∀ {start : List Char}, (∀ c ∈ start, c = '\t' ∨ printable c) →
      HeaderText start := by
    intro start hStart c hc
    rcases hStart c hc with rfl | hPrintable
    · exact .inr (.inl rfl)
    · rcases Bool.or_eq_true_iff.mp hPrintable with hBlank | hGraphic
      · exact .inl (eq_of_beq hBlank)
      · exact .inr (.inr hGraphic)
  cases outcome with
  | ok => exact hTab (forall_mem_of_all (by decide))
  | fields =>
    rw [line, String.toList_append]
    exact (hTab (forall_mem_of_all (by decide))).append h.1.headerText
  | payload | bytes => exact headerText_decimal _
  | receipt =>
    rw [line, String.toList_append]
    exact (hTab (forall_mem_of_all (by decide))).append (Plain.headerText h)
  | failed code =>
    rw [line, String.toList_append, String.toList_append, String.toList_append]
    have hErr : HeaderText "ERR\t".toList := hTab (forall_mem_of_all (by decide))
    have hCode := hErr.append (plain_wire code).headerText
    exact (hCode.append (hTab (forall_mem_of_all (by decide)))).append (Plain.headerText h)

theorem Outcome.line_ne_nil (outcome : Outcome) : outcome.line.toList ≠ [] := by
  cases outcome <;> simp [line, receiptHeader, String.toList_append]

theorem parseHeaderText_fields (hLen : stripPrefix "len=".toList text.toList = none) :
    parseHeaderText ("OK\t" ++ text).toList = .ok (.fields text) := by
  have hOk : ("OK\t" ++ text).toList ≠ "OK".toList := by simp [String.toList_append]
  have hNoLen : stripPrefix "OK\tlen=".toList ("OK\t" ++ text).toList = none := by
    unfold stripPrefix at hLen ⊢
    simp only [String.toList_append] at *
    simpa [List.isPrefixOf] using hLen
  have hFields : stripPrefix "OK\t".toList ("OK\t" ++ text).toList = some text.toList := by
    rw [String.toList_append, stripPrefix_append]
  unfold parseHeaderText
  rw [if_neg hOk, hNoLen, hFields]
  simp

theorem parseHeaderText_len (n : Nat) :
    parseHeaderText ("OK\tlen=" ++ toString n).toList =
      if n ≤ maxFrameBytes then .ok (.bytes n) else .error .invalidResponse := by
  have hOk : ("OK\tlen=" ++ toString n).toList ≠ "OK".toList := by simp [String.toList_append]
  have hLen : stripPrefix "OK\tlen=".toList ("OK\tlen=" ++ toString n).toList =
      some (Nat.toDigits 10 n) := by
    rw [String.toList_append, stripPrefix_append, toList_toString]
  have hAll : (Nat.toDigits 10 n).all Char.isDigit = true :=
    List.all_eq_true.mpr fun c hc => isDigit_of_mem_decimal hc
  have hNe : (Nat.toDigits 10 n).isEmpty = false := by simp
  unfold parseHeaderText
  rw [if_neg hOk, hLen]
  simp only [hAll, hNe, parseU64_decimal]
  by_cases hFits : n ≤ maxFrameBytes
  · have hWord : n < 2 ^ 64 := by
      unfold maxFrameBytes at hFits
      omega
    rw [if_pos hWord, if_pos hFits]
    show (if maxFrameBytes < n then _ else _) = _
    exact if_neg (by omega)
  · rw [if_neg hFits]
    by_cases hWord : n < 2 ^ 64
    · rw [if_pos hWord]
      show (if maxFrameBytes < n then _ else _) = _
      exact if_pos (by omega)
    · rw [if_neg hWord]
      rfl

theorem parseHeaderText_error (code : ErrCode) (message : String) :
    parseHeaderText ("ERR\t" ++ wire code ++ "\t" ++ message).toList = .ok (.error code) := by
  have hText : ("ERR\t" ++ wire code ++ "\t" ++ message).toList =
      "ERR\t".toList ++ ((wire code).toList ++ '\t' :: message.toList) := by
    simp [String.toList_append]
  have hTab : '\t' ∉ (wire code).toList := by
    cases code <;> decide +kernel
  have hNoOk : ∀ rest : List Char, stripPrefix "OK\tlen=".toList ("ERR\t".toList ++ rest) = none ∧
      stripPrefix "OK\t".toList ("ERR\t".toList ++ rest) = none := fun rest => ⟨rfl, rfl⟩
  rw [hText]
  unfold parseHeaderText
  rw [if_neg (by simp), (hNoOk _).1, (hNoOk _).2, stripPrefix_append]
  dsimp only
  rw [splitOnce_char hTab]
  dsimp only
  rw [String.ofList_toList, parseWire_wire]

theorem Outcome.finish_line (h : outcome.Clean) :
    finish outcome.body (parseHeaderText outcome.line.toList) =
      if outcome.Fits then outcome.reply else .error .invalidResponse := by
  cases outcome with
  | ok => rfl
  | fields =>
    rw [line, parseHeaderText_fields h.2]
    rfl
  | payload text =>
    rw [line, parseHeaderText_len]
    by_cases hFits : (textBytes text).length ≤ maxFrameBytes
    · have hZero : (0 : UInt8) ∉ textBytes text := h
      simp [Fits, body, hFits, finish, payloadFromSlice, hZero, reply]
    · simp [Fits, body, hFits, finish]
  | bytes value =>
    rw [line, parseHeaderText_len]
    by_cases hFits : value.length ≤ maxFrameBytes
    · have hZero : (0 : UInt8) ∉ value := h
      simp [Fits, body, hFits, finish, payloadFromSlice, hZero, reply]
    · simp [Fits, body, hFits, finish]
  | receipt hex =>
    have hLine : receiptHeader ++ hex = "OK\t" ++ ("status=authorized receipt=" ++ hex) := by
      rw [← String.append_assoc]
      rfl
    rw [line, hLine, parseHeaderText_fields (by simp [stripPrefix, List.isPrefixOf])]
    rfl
  | failed =>
    rw [line, parseHeaderText_error]
    rfl

theorem Outcome.line_length (h : outcome.Clean) (hFits : outcome.Fits) :
    outcome.line.toList.length ≤ maxFrameBytes := by
  have hDecimal : ∀ n, n ≤ maxFrameBytes → ("OK\tlen=" ++ toString n).toList.length ≤ 4096 := by
    intro n hn
    have hDigits : (Nat.toDigits 10 n).length ≤ 4 :=
      (Nat.length_toDigits_le_iff (by omega) (by omega)).mpr (by unfold maxFrameBytes at hn; omega)
    rw [String.toList_append, List.length_append, toList_toString]
    show 7 + _ ≤ 4096
    omega
  cases outcome with
  | ok => decide
  | fields =>
    have hText := h.1.2
    rw [line, String.toList_append, List.length_append]
    show 3 + _ ≤ 4096
    omega
  | payload | bytes => exact hDecimal _ hFits
  | receipt =>
    have hText := h.2
    rw [line, String.toList_append, List.length_append]
    show 29 + _ ≤ 4096
    omega
  | failed code =>
    have hText := h.2
    have hCode := (plain_wire code).2
    simp only [line, String.toList_append, List.length_append]
    show 4 + _ + 1 + _ ≤ 4096
    omega

theorem Outcome.reply_ne_invalid (outcome : Outcome) : outcome.reply ≠ .error .invalidResponse := by
  cases outcome <;> simp [reply]

theorem Outcome.parse_written (h : outcome.Clean) :
    parseResponse outcome.written =
      if outcome.Fits then outcome.reply else .error .invalidResponse := by
  rw [outcome.written_line h, parseResponse_line (outcome.line_headerText h) outcome.line_ne_nil,
    outcome.finish_line h]

theorem Outcome.read_written (h : outcome.Clean) :
    readResponse outcome.written = parseResponse outcome.written := by
  have hParse := outcome.parse_written h
  have hText := outcome.line_headerText h
  rw [outcome.written_line h, Proto.textBytes_line, List.append_assoc,
    List.singleton_append] at hParse ⊢
  by_cases hBound : outcome.line.toList.length ≤ maxFrameBytes
  · refine readResponse_line (newline_notMem hText) ?_ _
    rw [utf8_of_ascii hText.ascii, List.length_map]
    exact hBound
  · -- the line is too long only before a body that no reader accepts
    have hNoFit : ¬ outcome.Fits := fun hFits => hBound (outcome.line_length h hFits)
    have hLong : readHeaderLine [] (outcome.line.toList.flatMap String.utf8EncodeChar ++
        10 :: outcome.body) = .error .invalidResponse := by
      refine readHeaderLine_long ?_
      have hShort : maxFrameBytes + 1 ≤ (outcome.line.toList.flatMap String.utf8EncodeChar).length := by
        rw [utf8_of_ascii hText.ascii, List.length_map]
        omega
      rw [List.length_nil, Nat.sub_zero, List.take_append_of_le_length hShort]
      exact fun hIn => newline_notMem hText (List.mem_of_mem_take hIn)
    rw [hParse, if_neg hNoFit]
    unfold readResponse
    rw [hLong]
    rfl

theorem Outcome.clean_round_trip (h : outcome.Clean) :
    (parseResponse outcome.written = outcome.reply ↔ outcome.Fits) ∧
    (readResponse outcome.written = outcome.reply ↔ outcome.Fits) := by
  have hIff : (if outcome.Fits then outcome.reply else .error .invalidResponse) = outcome.reply ↔
      outcome.Fits := by
    split
    · rename_i hFits
      exact iff_of_true rfl hFits
    · rename_i hNoFit
      exact iff_of_false (fun hSame => outcome.reply_ne_invalid hSame.symm) hNoFit
  rw [outcome.read_written h, outcome.parse_written h]
  exact ⟨hIff, hIff⟩

end Forward.Secrets

import Forward.Hygiene.Words
import Forward.Lib.ByteReads

/-!
# The request lines of the bridge

The arming socket (`ARM <port> <ttl>`, `HOLD <port>`) and the callback bridge (`CONNECT <port>`)
read one line byte by byte, up to 64 bytes, and then use the rest of the connection.
-/

namespace Forward.Bridge

open Lib Hygiene

def maxArmLine : Nat := 64

inductive Request
  | arm (port ttl : Nat)
  | hold (port : Nat)

/-- A field of decimal digits only, in the range that `parse` has. -/
def number (parse : List Char → Option Nat) (field : List Char) : Option Nat :=
  if field.isEmpty || !field.all Char.isDigit then none else parse field

def parseRequest (line : List UInt8) : Option Request := do
  let text ← fromUtf8 line
  match text.toList.splitOn ' ' with
  | [verb, port, ttl] =>
    if verb = "ARM".toList then
      let port ← number parseU16 port
      let ttl ← number parseU64 ttl
      some (.arm port ttl)
    else none
  | [verb, port] =>
    if verb = "HOLD".toList then
      let port ← number parseU16 port
      some (.hold port)
    else none
  | _ => none

/-- `read_request` before its deadline, and what is left of the stream. -/
def readRequest (source : Source UInt8) : Option Request × Source UInt8 :=
  match source.readLine 10 maxArmLine [] with
  | (some line, source) => (parseRequest line, source)
  | (none, source) => (none, source)

def maxRequestLine : Nat := 64

def parsePort (line : List UInt8) : Option Nat := do
  let text ← fromUtf8 line
  let request ← stripPrefix "CONNECT ".toList text.toList
  number parseU16 request

def readPort (source : Source UInt8) : Option Nat × Source UInt8 :=
  match source.readLine 10 maxRequestLine [] with
  | (some line, source) => (parsePort line, source)
  | (none, source) => (none, source)

def armLine (port ttlSecs : Nat) : List UInt8 :=
  textBytes ("ARM " ++ toString port ++ " " ++ toString ttlSecs ++ "\n")

def holdLine (port : Nat) : List UInt8 := textBytes ("HOLD " ++ toString port ++ "\n")

def connectLine (port : Nat) : List UInt8 := textBytes ("CONNECT " ++ toString port ++ "\n")

/-! ## Numbers -/

structure Numeral (digits : List Char) (n : Nat) : Prop where
  nonempty : digits ≠ []
  allDigits : digits.all Char.isDigit = true
  value : digitsValue digits = n

theorem numeral_decimal (n : Nat) : Numeral (Nat.toDigits 10 n) n where
  nonempty := Nat.toDigits_ne_nil
  allDigits := List.all_eq_true.mpr fun _ hc => isDigit_of_mem_decimal hc
  value := Nat.ofDigitChars_toDigits (by omega) (by omega)

def Numeral.word {digits : List Char} {n : Nat} (h : Numeral digits n) : Word :=
  ⟨digits, fun c hc => isAsciiGraphic_of_isDigit (List.all_eq_true.mp h.allDigits c hc)⟩

variable {field : List Char} {n : Nat}

theorem number_iff {parse : List Char → Option Nat} {bound : Nat}
    (hParse : ∀ digits n, Numeral digits n →
      parse digits = if n < bound then some n else none) :
    number parse field = some n ↔ Numeral field n ∧ n < bound := by
  unfold number
  constructor
  · intro h
    split at h
    · cases h
    · rename_i hShape
      simp only [Bool.or_eq_true, List.isEmpty_iff, Bool.not_eq_true', not_or,
        Bool.not_eq_false] at hShape
      rw [hParse field _ ⟨hShape.1, hShape.2, rfl⟩] at h
      split at h
      · rename_i hBound
        cases h
        exact ⟨⟨hShape.1, hShape.2, rfl⟩, hBound⟩
      · cases h
  · rintro ⟨hNumeral, hBound⟩
    rw [if_neg (by simp [hNumeral.nonempty, hNumeral.allDigits]), hParse field n hNumeral,
      if_pos hBound]

theorem number_u64_iff : number parseU64 field = some n ↔ Numeral field n ∧ n < 2 ^ 64 := by
  refine number_iff fun digits n h => ?_
  rw [parseU64_of_digits h.nonempty h.allDigits, h.value]

theorem number_u16_iff : number parseU16 field = some n ↔ Numeral field n ∧ n < 2 ^ 16 := by
  refine number_iff fun digits n h => ?_
  rw [parseU16, parseU64_of_digits h.nonempty h.allDigits, h.value]
  by_cases hShort : n < 2 ^ 16
  · rw [if_pos (by omega), if_pos hShort, Option.filter_some, if_pos (decide_eq_true hShort)]
  · rw [if_neg hShort]
    split
    · rw [Option.filter_some, if_neg (by simpa using hShort)]
    · rfl

/-! ## The grammars -/

/-- The text of an arming request, its numbers in any number of digits. -/
def Request.Spelled : Request → List Char → Prop
  | .arm port ttl, text => ∃ p t, Numeral p port ∧ port < 2 ^ 16 ∧ Numeral t ttl ∧ ttl < 2 ^ 64 ∧
    text = "ARM ".toList ++ (p ++ ' ' :: t)
  | .hold port, text => ∃ p, Numeral p port ∧ port < 2 ^ 16 ∧ text = "HOLD ".toList ++ p

def PortSpelled (port : Nat) (text : List Char) : Prop :=
  ∃ p, Numeral p port ∧ port < 2 ^ 16 ∧ text = "CONNECT ".toList ++ p

def armVerb : Word := .literal "ARM" (by decide)

def holdVerb : Word := .literal "HOLD" (by decide)

variable {line back : List UInt8} {request : Request} {text : List Char} {source : Source UInt8}
  {port ttl : Nat}

theorem fromUtf8_ofList (text : List Char) :
    fromUtf8 (textBytes (String.ofList text)) = some (String.ofList text) :=
  fromUtf8_eq_some_iff.mpr rfl

theorem eq_of_fromUtf8 {text : String} (h : fromUtf8 line = some text) :
    line = textBytes (String.ofList text.toList) := by
  rw [String.ofList_toList]
  exact (fromUtf8_eq_some_iff.mp h).symm

theorem eq_of_splitOn {fields : List (List Char)} (h : text.splitOn ' ' = fields) :
    text = [' '].intercalate fields := by
  rw [← h, List.intercalate_splitOn]

theorem parseRequest_sound (h : parseRequest line = some request) :
    ∃ text, line = textBytes (String.ofList text) ∧ request.Spelled text := by
  obtain ⟨text, hText, h⟩ := Option.bind_eq_some_iff.mp h
  refine ⟨text.toList, eq_of_fromUtf8 hText, ?_⟩
  split at h
  · rename_i p t hFields
    split at h
    · rename_i hVerb
      obtain ⟨port, hPort, h⟩ := Option.bind_eq_some_iff.mp h
      obtain ⟨ttl, hTtl, h⟩ := Option.bind_eq_some_iff.mp h
      cases h
      obtain ⟨hPort, hPortRange⟩ := number_u16_iff.mp hPort
      obtain ⟨hTtl, hTtlRange⟩ := number_u64_iff.mp hTtl
      refine ⟨p, t, hPort, hPortRange, hTtl, hTtlRange, ?_⟩
      rw [eq_of_splitOn hFields, hVerb]
      simp [List.intercalate]
    · cases h
  · rename_i p hFields
    split at h
    · rename_i hVerb
      obtain ⟨port, hPort, h⟩ := Option.bind_eq_some_iff.mp h
      cases h
      obtain ⟨hPort, hPortRange⟩ := number_u16_iff.mp hPort
      refine ⟨p, hPort, hPortRange, ?_⟩
      rw [eq_of_splitOn hFields, hVerb]
      simp [List.intercalate]
    · cases h
  · cases h

theorem spaced_arm {p t : List Char} (hPort : Numeral p port) (hTtl : Numeral t ttl) :
    spaced [armVerb, hPort.word, hTtl.word] = "ARM ".toList ++ (p ++ ' ' :: t) := by
  rw [spaced_cons, spaced_cons, spaced_singleton]
  rfl

theorem spaced_hold {p : List Char} (hPort : Numeral p port) :
    spaced [holdVerb, hPort.word] = "HOLD ".toList ++ p := by
  rw [spaced_cons, spaced_singleton]
  rfl

theorem parseRequest_complete (h : request.Spelled text) :
    parseRequest (textBytes (String.ofList text)) = some request := by
  unfold parseRequest
  cases request with
  | arm =>
    obtain ⟨p, t, hPort, hPortRange, hTtl, hTtlRange, rfl⟩ := h
    have hFields : ("ARM ".toList ++ (p ++ ' ' :: t)).splitOn ' ' = ["ARM".toList, p, t] := by
      rw [← spaced_arm hPort hTtl, splitOn_spaced (List.cons_ne_nil _ _)]
      rfl
    simp only [fromUtf8_ofList, String.toList_ofList, hFields, Option.bind_eq_bind,
      Option.bind_some, if_true, number_u16_iff.mpr ⟨hPort, hPortRange⟩,
      number_u64_iff.mpr ⟨hTtl, hTtlRange⟩]
  | hold =>
    obtain ⟨p, hPort, hPortRange, rfl⟩ := h
    have hFields : ("HOLD ".toList ++ p).splitOn ' ' = ["HOLD".toList, p] := by
      rw [← spaced_hold hPort, splitOn_spaced (List.cons_ne_nil _ _)]
      rfl
    simp only [fromUtf8_ofList, String.toList_ofList, hFields, Option.bind_eq_bind,
      Option.bind_some, if_true, number_u16_iff.mpr ⟨hPort, hPortRange⟩]

theorem parsePort_iff :
    parsePort line = some port ↔
      ∃ text, line = textBytes (String.ofList text) ∧ PortSpelled port text := by
  constructor
  · intro h
    obtain ⟨text, hText, h⟩ := Option.bind_eq_some_iff.mp h
    obtain ⟨p, hRequest, h⟩ := Option.bind_eq_some_iff.mp h
    obtain ⟨hPort, hRange⟩ := number_u16_iff.mp h
    exact ⟨text.toList, eq_of_fromUtf8 hText, p, hPort, hRange, eq_of_stripPrefix hRequest⟩
  · rintro ⟨text, rfl, p, hPort, hRange, rfl⟩
    unfold parsePort
    simp only [fromUtf8_ofList, String.toList_ofList, stripPrefix_append, Option.bind_eq_bind,
      Option.bind_some, number_u16_iff.mpr ⟨hPort, hRange⟩]

/-! ## The readers -/

theorem readLine_parse_iff {α : Type} {parse : List UInt8 → Option α} {bound : Nat} {a : α} :
    (∃ source', (match source.readLine 10 bound [] with
      | (some line, source) => (parse line, source)
      | (none, source) => (none, source)) = (some a, source') ∧ source'.bytes = back) ↔
    ∃ line, source.bytes = line ++ 10 :: back ∧ 10 ∉ line ∧ line.length < bound ∧
      parse line = some a := by
  constructor
  · rintro ⟨source', hRead, rfl⟩
    split at hRead
    · rename_i rest hLine
      obtain ⟨hParse, rfl⟩ := Prod.mk.inj hRead
      obtain ⟨front, rfl, hBytes, hFree, hLength⟩ := Source.readLine_iff.mp ⟨rest, hLine, rfl⟩
      exact ⟨_, hBytes, hFree, hLength, hParse⟩
    · cases hRead
  · rintro ⟨line, hBytes, hFree, hLength, hParse⟩
    obtain ⟨source', hLine, hBack⟩ := Source.readLine_iff.mpr
      ⟨line, (List.nil_append line).symm, hBytes, hFree, hLength⟩
    exact ⟨source', by rw [hLine]; exact congrArg (·, source') hParse, hBack⟩

theorem readRequest_iff :
    (∃ source', readRequest source = (some request, source') ∧ source'.bytes = back) ↔
    ∃ line, source.bytes = line ++ 10 :: back ∧ 10 ∉ line ∧ line.length < 64 ∧
      ∃ text, line = textBytes (String.ofList text) ∧ request.Spelled text := by
  refine readLine_parse_iff.trans (exists_congr fun line => and_congr_right fun _ =>
    and_congr_right fun _ => and_congr_right fun _ => ⟨parseRequest_sound, ?_⟩)
  rintro ⟨text, rfl, hText⟩
  exact parseRequest_complete hText

theorem readPort_iff :
    (∃ source', readPort source = (some port, source') ∧ source'.bytes = back) ↔
    ∃ line, source.bytes = line ++ 10 :: back ∧ 10 ∉ line ∧ line.length < 64 ∧
      ∃ text, line = textBytes (String.ofList text) ∧ PortSpelled port text :=
  readLine_parse_iff.trans (exists_congr fun _ => and_congr_right fun _ =>
    and_congr_right fun _ => and_congr_right fun _ => parsePort_iff)

/-! ## The lines of the clients -/

def connectVerb : Word := .literal "CONNECT" (by decide)

theorem line_of_words {text : String} {words : List Word}
    (hText : text.toList = spaced words ++ ['\n']) (hLength : (spaced words).length < 64)
    (hBytes : source.bytes = textBytes text ++ back) :
    source.bytes = textBytes (String.ofList (spaced words)) ++ 10 :: back ∧
      10 ∉ textBytes (String.ofList (spaced words)) ∧
      (textBytes (String.ofList (spaced words))).length < 64 := by
  refine ⟨?_, newline_notMem_spaced words, by rwa [length_textBytes_spaced]⟩
  rw [hBytes, textBytes_of_words hText, List.append_assoc, List.singleton_append]

theorem readRequest_armLine (hPort : port < 2 ^ 16) (hTtl : ttl < 2 ^ 64)
    (hBytes : source.bytes = armLine port ttl ++ back) :
    ∃ source', readRequest source = (some (.arm port ttl), source') ∧ source'.bytes = back := by
  have hWords := spaced_arm (numeral_decimal port) (numeral_decimal ttl)
  have hLength : (spaced [armVerb, (numeral_decimal port).word,
      (numeral_decimal ttl).word]).length < 64 := by
    have hPortLength := length_decimal_u16 hPort
    have hTtlLength := length_decimal_u64 hTtl
    have hVerb : "ARM ".toList.length = 4 := by decide
    rw [hWords, List.length_append, List.length_append, List.length_cons, hVerb]
    omega
  obtain ⟨hLine, hFree, hShort⟩ :=
    line_of_words (by rw [hWords]; simp [toList_toString]) hLength hBytes
  exact readRequest_iff.mpr ⟨_, hLine, hFree, hShort, _, rfl, _, _, numeral_decimal port, hPort,
    numeral_decimal ttl, hTtl, hWords⟩

theorem readRequest_holdLine (hPort : port < 2 ^ 16)
    (hBytes : source.bytes = holdLine port ++ back) :
    ∃ source', readRequest source = (some (.hold port), source') ∧ source'.bytes = back := by
  have hWords := spaced_hold (numeral_decimal port)
  have hLength : (spaced [holdVerb, (numeral_decimal port).word]).length < 64 := by
    have hPortLength := length_decimal_u16 hPort
    have hVerb : "HOLD ".toList.length = 5 := by decide
    rw [hWords, List.length_append, hVerb]
    omega
  obtain ⟨hLine, hFree, hShort⟩ :=
    line_of_words (by rw [hWords]; simp [toList_toString]) hLength hBytes
  exact readRequest_iff.mpr
    ⟨_, hLine, hFree, hShort, _, rfl, _, numeral_decimal port, hPort, hWords⟩

theorem readPort_connectLine (hPort : port < 2 ^ 16)
    (hBytes : source.bytes = connectLine port ++ back) :
    ∃ source', readPort source = (some port, source') ∧ source'.bytes = back := by
  have hWords : spaced [connectVerb, (numeral_decimal port).word] =
      "CONNECT ".toList ++ Nat.toDigits 10 port := by
    rw [spaced_cons, spaced_singleton]
    rfl
  have hLength : (spaced [connectVerb, (numeral_decimal port).word]).length < 64 := by
    have hPortLength := length_decimal_u16 hPort
    have hVerb : "CONNECT ".toList.length = 8 := by decide
    rw [hWords, List.length_append, hVerb]
    omega
  obtain ⟨hLine, hFree, hShort⟩ :=
    line_of_words (by rw [hWords]; simp [toList_toString]) hLength hBytes
  exact readPort_iff.mpr ⟨_, hLine, hFree, hShort, _, rfl, _, numeral_decimal port, hPort, hWords⟩

end Forward.Bridge

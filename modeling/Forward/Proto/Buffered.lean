import Forward.Lib.Reader
import Forward.Proto.Response

/-!
# Reading a reply as it arrives

`read_response_by` reads from a `BufReader`: the header byte by byte, the payload with
`read_exact`, and one more byte that must not be there. A signal may interrupt a read; only the
header's loop retries.
-/

namespace Forward.Proto.Buffered

open Lib

def capacity : Nat := 8192

theorem capacity_pos : 0 < capacity := by decide

/-- A read that was interrupted, or an error of the protocol. -/
inductive StreamError
  | interrupted
  | client (error : ClientError)
  deriving DecidableEq

/-- `read_header_line` without a deadline, behind the part that is read. -/
def readHeaderLine (line : List UInt8) (r : BufReader UInt8) :
    Except ClientError (List UInt8) × BufReader UInt8 :=
  if line.length ≤ maxFrameBytes then
    match _ : r.read capacity 1 with
    | (none, r') => readHeaderLine line r'
    | (some [], r') => (.error .invalidResponse, r')
    | (some (byte :: _), r') =>
      if byte = 10 then (.ok (line ++ [byte]), r') else readHeaderLine (line ++ [byte]) r'
  else (.error .invalidResponse, r)
termination_by r.size
decreasing_by
  · obtain ⟨hBytes, hSignals⟩ := BufReader.read_none ‹r.read capacity 1 = (none, r')›
    simp only [BufReader.size, hBytes]
    omega
  · obtain ⟨hBytes, hSignals, -⟩ := BufReader.read_some capacity_pos Nat.one_pos
      ‹r.read capacity 1 = (some (byte :: _), r')›
    simp only [BufReader.size, hBytes, hSignals, List.length_append, List.length_cons]
    omega

def rejectTrailingBytes (r : BufReader UInt8) : Except StreamError Unit :=
  match (r.read capacity 1).1 with
  | none => .error .interrupted
  | some [] => .ok ()
  | some (_ :: _) => .error (.client .invalidResponse)

/-- `read_response_by` on a connection whose deadline is not reached. -/
def readResponseBy (source : Source UInt8) : Except StreamError BrokerResponse :=
  match readHeaderLine [] ⟨[], source⟩ with
  | (.error e, _) => .error (.client e)
  | (.ok line, r) =>
    if line.getLast? = some 10 then
      match parseHeader line.dropLast with
      | .error e => .error (.client e)
      | .ok (.bytes length) =>
        match r.readExact capacity capacity_pos length with
        | (none, _) => .error (.client .invalidResponse)
        | (some payload, r) => do
          rejectTrailingBytes r
          (bytesResponse payload).mapError .client
      | .ok header => do
        rejectTrailingBytes r
        (finishHeader header).mapError .client
    else .error (.client .invalidResponse)

/-! ## Independence of the pieces -/

theorem readHeaderLine_bytes (line : List UInt8) (r : BufReader UInt8) (hCalm : r.Calm 10) :
    ∃ r', readHeaderLine line r = ((Proto.readHeaderLine line r.bytes).map Prod.fst, r') ∧
      ∀ whole rest, Proto.readHeaderLine line r.bytes = .ok (whole, rest) →
        r'.bytes = rest ∧ r'.signals = 0 := by
  induction hSize : r.size using Nat.strongRecOn generalizing line r with
  | ind size ih =>
    subst hSize
    rw [readHeaderLine]
    split
    · rename_i hBound
      split
      · -- a signal, and once more
        rename_i r' hRead
        obtain ⟨hBytes, hSignals⟩ := BufReader.read_none hRead
        rw [← hBytes]
        exact ih r'.size (by simp only [BufReader.size, hBytes]; omega) line r'
          (hCalm.signal (by decide) hRead) rfl
      · rename_i r' hRead
        obtain ⟨-, -, -, hEnd⟩ := BufReader.read_some capacity_pos Nat.one_pos hRead
        rw [hEnd rfl]
        exact ⟨r', rfl, fun _ _ hEq => by cases hEq⟩
      · rename_i byte more r' hRead
        obtain ⟨hBytes, hSignals, hOne, -⟩ := BufReader.read_some capacity_pos Nat.one_pos hRead
        obtain rfl : more = [] := List.eq_nil_of_length_eq_zero (by
          rw [List.length_cons] at hOne
          omega)
        have hAfter := hCalm.read (by decide) hRead
        rw [List.singleton_append] at hBytes
        rw [hBytes, Proto.readHeaderLine, if_pos hBound]
        by_cases hNewline : byte = 10
        · subst hNewline
          rw [if_pos List.mem_cons_self] at hAfter
          rw [if_pos rfl, if_pos rfl]
          refine ⟨r', rfl, ?_⟩
          rintro _ _ ⟨⟩
          exact ⟨rfl, hAfter⟩
        · rw [if_neg (by simpa using Ne.symm hNewline)] at hAfter
          rw [if_neg hNewline, if_neg hNewline]
          have hSmaller : r'.size < r.size := by
            simp only [BufReader.size, hBytes, hSignals, List.length_cons]
            omega
          exact ih r'.size hSmaller (line ++ [byte]) r' hAfter rfl
    · -- the line is full; the bytes behind it do not matter
      rename_i hLong
      have hFull : Proto.readHeaderLine line r.bytes = .error .invalidResponse := by
        cases r.bytes with
        | nil => rfl
        | cons => rw [Proto.readHeaderLine, if_neg hLong]
      rw [hFull]
      exact ⟨r, rfl, fun _ _ hEq => by cases hEq⟩

theorem rejectTrailingBytes_bytes {r : BufReader UInt8} (hQuiet : r.signals = 0) :
    rejectTrailingBytes r = (Proto.rejectTrailingBytes r.bytes).mapError .client := by
  unfold rejectTrailingBytes
  rcases hRead : r.read capacity 1 with ⟨_ | chunk, r'⟩
  · have hSignals := (BufReader.read_none hRead).2
    omega
  · obtain ⟨hBytes, -, -, hEnd⟩ := BufReader.read_some capacity_pos Nat.one_pos hRead
    cases chunk with
    | nil =>
      rw [hEnd rfl]
      rfl
    | cons =>
      rw [hBytes]
      rfl

/-- **The reader does not depend on the pieces.** -/
theorem readResponseBy_bytes (source : Source UInt8) (hCalm : source.Calm 10) :
    readResponseBy source = (readResponse source.bytes).mapError .client := by
  have hStart : BufReader.Calm 10 (⟨[], source⟩ : BufReader UInt8) := by
    unfold BufReader.Calm
    rw [if_neg List.not_mem_nil]
    exact hCalm
  have hAll : BufReader.bytes (⟨[], source⟩ : BufReader UInt8) = source.bytes := List.nil_append _
  obtain ⟨r, hRead, hAfter⟩ := readHeaderLine_bytes [] ⟨[], source⟩ hStart
  rw [hAll] at hRead hAfter
  unfold readResponseBy readResponse
  rw [hRead]
  cases hLine : Proto.readHeaderLine [] source.bytes with
  | error => rfl
  | ok found =>
    obtain ⟨line, rest⟩ := found
    obtain ⟨rfl, hQuiet⟩ := hAfter line rest hLine
    simp only [bind, Except.bind, Except.map]
    split
    · cases parseHeader line.dropLast with
      | error => rfl
      | ok header =>
        cases header with
        | bytes length =>
          simp only
          obtain ⟨hShort, hEnough⟩ := BufReader.readExact_eq capacity_pos length r
          rcases Nat.lt_or_ge r.bytes.length length with hLess | hLength
          · rcases hPayload : r.readExact capacity capacity_pos length with ⟨payload, r'⟩
            have hNone := hShort hLess
            rw [hPayload] at hNone
            dsimp only at hNone
            rw [hNone, readPayload, if_pos hLess]
            rfl
          · obtain ⟨r', hPayload, hRest, hSignals⟩ := hEnough hLength
            rw [hPayload, readPayload, if_neg (by omega)]
            simp only
            rw [rejectTrailingBytes_bytes (by omega), hRest]
            cases Proto.rejectTrailingBytes (r.bytes.drop length) <;> rfl
        | ok | fields _ | error _ =>
          simp only
          rw [rejectTrailingBytes_bytes hQuiet]
          cases Proto.rejectTrailingBytes r.bytes <;> rfl
    · rfl

/-! ## The stream and the slice -/

/-- **The streaming reader is the slice parser.** Bytes arrive in any pieces, and signals interrupt
the reads of the header only. If the first newline is at position 4096 at most, the reader returns
what `parse_response` returns on the whole; otherwise it refuses the reply. -/
theorem stream_reader_agrees (source : Source UInt8) (hCalm : source.Calm 10) :
    (∀ header payload, source.bytes = header ++ 10 :: payload → 10 ∉ header →
      header.length ≤ 4096 →
      readResponseBy source = (parseResponse source.bytes).mapError .client) ∧
    (10 ∉ source.bytes.take 4097 →
      readResponseBy source = .error (.client .invalidResponse)) := by
  rw [readResponseBy_bytes source hCalm]
  refine ⟨?_, ?_⟩
  · intro header payload hBytes hLine hBound
    rw [hBytes, readResponse_line hLine hBound]
  · intro hNone
    have hLong : Proto.readHeaderLine [] source.bytes = .error .invalidResponse :=
      readHeaderLine_long hNone
    unfold readResponse
    rw [hLong]
    rfl

theorem stream_reader_agrees_ok :
    readResponseBy [.data 79 [75], .signal, .data 9 [108, 101], .data 110 [61, 49, 10, 65]] =
      .ok (.bytes [65]) := by
  have hCalm : Source.Calm 10
      [.data 79 [75], .signal, .data 9 [108, 101], .data 110 [61, 49, 10, (65 : UInt8)]] := by
    simp [Source.Calm, Source.signals]
  refine ((stream_reader_agrees _ hCalm).1 [79, 75, 9, 108, 101, 110, 61, 49] [65] rfl
    (by decide) (by decide)).trans ?_
  decide +kernel

end Forward.Proto.Buffered

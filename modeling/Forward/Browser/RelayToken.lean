import Mathlib.Data.List.Forall2
import Forward.Hygiene.Hex
import Forward.Lib.ByteReads

/-!
# The bearer line of a relay connection

A relay connection starts with `RELAY <token>` and a newline. The relay reads byte by byte. One
loop index bounds the line and tells which letter of `RELAY ` comes next; an interrupted read moves
it too.
-/

namespace Forward.Browser

open Lib Hygiene

def relayPrefix : List UInt8 := textBytes "RELAY "

def maxRequestLine : Nat := 128

def tokenLoop : List Nat → List UInt8 → Source UInt8 → Option (List UInt8) × Source UInt8
  | [], _, source => (none, source)
  | position :: positions, token, source =>
    match source.read 1 with
    -- Interrupted: `continue` goes on with the next position
    | (none, source) => tokenLoop positions token source
    | (some [], source) => (none, source)
    | (some (received :: _), source) =>
      match relayPrefix[position]? with
      | some expected =>
        if received = expected then tokenLoop positions token source else (none, source)
      | none =>
        if received = 10 then (some token, source)
        else tokenLoop positions (token ++ [received]) source

/-- `read_relay_token` before its deadline, and what is left of the stream. -/
def readRelayToken (source : Source UInt8) : Option (List UInt8) × Source UInt8 :=
  tokenLoop (List.range maxRequestLine) [] source

/-! ## What the loop takes -/

/-- A line with a newline in the first 128 bytes, of `RELAY ` and the token. -/
def Bearer (bytes token : List UInt8) : Prop :=
  ∃ line rest, bytes = line ++ 10 :: rest ∧ 10 ∉ line ∧ line.length < 128 ∧
    line = relayPrefix ++ token

/-- Six reads that each find their letter of `RELAY ` or a signal, then the reads of
the token, all in fewer than 128. -/
def Gapped (reads : List (Option UInt8)) (token : List UInt8) : Prop :=
  ∃ gaps body back, reads = gaps ++ body ++ some 10 :: back ∧
    List.Forall₂ (fun expected read => read = none ∨ read = some expected) relayPrefix gaps ∧
    some 10 ∉ body ∧ gaps.length + body.length < 128 ∧ token = body.reduceOption

theorem relayPrefix_eq : relayPrefix = [82, 69, 76, 65, 89, 32] := by decide +kernel

theorem length_relayPrefix : relayPrefix.length = 6 := by rw [relayPrefix_eq]; rfl

theorem newline_notMem_relayPrefix : 10 ∉ relayPrefix := by
  rw [relayPrefix_eq]
  decide

variable {source : Source UInt8} {token t : List UInt8} {back : List (Option UInt8)}

theorem tokenLoop_body {start count : Nat} (hStart : relayPrefix.length ≤ start) :
    (∃ source', tokenLoop (List.range' start count) token source = (some t, source') ∧
        source'.reads = back) ↔
      ∃ body, source.reads = body ++ some 10 :: back ∧ some 10 ∉ body ∧ body.length < count ∧
        t = token ++ body.reduceOption := by
  induction count generalizing start token source with
  | zero => simp [tokenLoop]
  | succ count ih =>
    have hNext : relayPrefix.length ≤ start + 1 := by omega
    have hBehind : relayPrefix[start]? = none := List.getElem?_eq_none hStart
    rw [List.range'_succ, tokenLoop]
    rcases source.read_one with
      ⟨source', hRead, hReads⟩ | ⟨hRead, hReads⟩ | ⟨x, source', hRead, hReads⟩
    · simp only [hRead, hReads]
      rw [ih hNext]
      constructor
      · rintro ⟨body, hBody, hFree, hLength, rfl⟩
        exact ⟨none :: body, by rw [hBody]; rfl, by simpa using hFree,
          Nat.succ_lt_succ hLength, by rw [List.reduceOption_cons_of_none]⟩
      · rintro ⟨body, hBody, hFree, hLength, rfl⟩
        cases body with
        | nil => cases hBody
        | cons first body =>
          obtain ⟨rfl, hRest⟩ := List.cons.inj hBody
          exact ⟨body, hRest, fun hIn => hFree (List.mem_cons_of_mem _ hIn),
            Nat.lt_of_succ_lt_succ hLength, by rw [List.reduceOption_cons_of_none]⟩
    · simp [hRead, hReads]
    · simp only [hRead, hReads, hBehind]
      by_cases hLast : x = 10
      · subst hLast
        rw [if_pos rfl]
        constructor
        · rintro ⟨_, hFound, rfl⟩
          cases hFound
          exact ⟨[], rfl, List.not_mem_nil, Nat.succ_pos _, (List.append_nil _).symm⟩
        · rintro ⟨body, hBody, hFree, -, rfl⟩
          cases body with
          | nil => exact ⟨source', by simp, (List.cons.inj hBody).2⟩
          | cons =>
            exact absurd ((List.cons.inj hBody).1 ▸ List.mem_cons_self) hFree
      · rw [if_neg hLast, ih hNext]
        constructor
        · rintro ⟨body, hBody, hFree, hLength, rfl⟩
          refine ⟨some x :: body, by rw [hBody]; rfl, ?_, Nat.succ_lt_succ hLength, ?_⟩
          · simpa [Ne.symm hLast] using hFree
          · rw [List.reduceOption_cons_of_some, List.append_assoc]
            rfl
        · rintro ⟨body, hBody, hFree, hLength, rfl⟩
          cases body with
          | nil => exact absurd (Option.some.inj (List.cons.inj hBody).1) hLast
          | cons first body =>
            obtain ⟨rfl, hRest⟩ := List.cons.inj hBody
            refine ⟨body, hRest, fun hIn => hFree (List.mem_cons_of_mem _ hIn),
              Nat.lt_of_succ_lt_succ hLength, ?_⟩
            rw [List.reduceOption_cons_of_some, List.append_assoc]
            rfl

/-- Reads that find the letters or signals in their places, then a token and a newline. -/
def Spelled (letters : List UInt8) (count : Nat) (t : List UInt8) (back reads : List (Option UInt8)) :
    Prop :=
  ∃ gaps body, reads = gaps ++ body ++ some 10 :: back ∧
    List.Forall₂ (fun expected read => read = none ∨ read = some expected) letters gaps ∧
    some 10 ∉ body ∧ body.length < count ∧ t = body.reduceOption

variable {letters : List UInt8}

theorem spelled_cons {letter : UInt8} {count : Nat} {read : Option UInt8}
    {reads : List (Option UInt8)} :
    Spelled (letter :: letters) count t back (read :: reads) ↔
      (read = none ∨ read = some letter) ∧ Spelled letters count t back reads := by
  constructor
  · rintro ⟨gaps, body, hReads, hGaps, hMore⟩
    cases hGaps with
    | cons hRead hGaps =>
      obtain ⟨rfl, hRest⟩ := List.cons.inj hReads
      exact ⟨hRead, _, body, hRest, hGaps, hMore⟩
  · rintro ⟨hRead, gaps, body, rfl, hGaps, hMore⟩
    exact ⟨read :: gaps, body, rfl, .cons hRead hGaps, hMore⟩

theorem tokenLoop_spelled {done : List UInt8} (letters : List UInt8) (count : Nat)
    (hPrefix : relayPrefix = done ++ letters) :
    (∃ source', tokenLoop (List.range' done.length (letters.length + count)) [] source =
        (some t, source') ∧ source'.reads = back) ↔
      Spelled letters count t back source.reads := by
  induction letters generalizing done source with
  | nil =>
    have hAll : relayPrefix.length ≤ done.length := by rw [hPrefix, List.append_nil]
    rw [List.length_nil, Nat.zero_add, tokenLoop_body hAll]
    constructor
    · rintro ⟨body, hReads, hMore⟩
      exact ⟨[], body, hReads, .nil, hMore⟩
    · rintro ⟨gaps, body, hReads, hGaps, hMore⟩
      cases hGaps
      exact ⟨body, hReads, hMore⟩
  | cons letter letters ih =>
    have hNext : relayPrefix = (done ++ [letter]) ++ letters := by
      rw [hPrefix, List.append_assoc]
      rfl
    have hLetter : relayPrefix[done.length]? = some letter := by
      rw [hPrefix, List.getElem?_append_right (Nat.le_refl _), Nat.sub_self]
      rfl
    have hCount : (letter :: letters).length + count = (letters.length + count) + 1 := by
      rw [List.length_cons]
      omega
    have hLength : done.length + 1 = (done ++ [letter]).length := by simp
    rw [hCount, List.range'_succ, tokenLoop, hLength]
    rcases source.read_one with
      ⟨source', hRead, hReads⟩ | ⟨hRead, hReads⟩ | ⟨x, source', hRead, hReads⟩
    · simp only [hRead, hReads]
      rw [spelled_cons, ih hNext]
      simp
    · simp [hRead, hReads, Spelled]
    · simp only [hRead, hReads, hLetter]
      rw [spelled_cons]
      by_cases hSame : x = letter
      · rw [if_pos hSame, ih hNext]
        simp [hSame]
      · rw [if_neg hSame]
        simp [hSame]

theorem readRelayToken_iff : (readRelayToken source).1 = some t ↔ Gapped source.reads t := by
  have hCount : List.range maxRequestLine =
      List.range' ([] : List UInt8).length (relayPrefix.length + 122) := by
    rw [length_relayPrefix]
    exact List.range_eq_range'
  unfold readRelayToken
  rw [hCount]
  constructor
  · intro hFound
    obtain ⟨gaps, body, hReads, hGaps, hFree, hLength, hToken⟩ :=
      (tokenLoop_spelled relayPrefix 122 (List.nil_append relayPrefix).symm).mp ⟨_, Prod.ext hFound rfl, rfl⟩
    refine ⟨gaps, body, _, hReads, hGaps, hFree, ?_, hToken⟩
    rw [← hGaps.length_eq, length_relayPrefix]
    omega
  · rintro ⟨gaps, body, back, hReads, hGaps, hFree, hLength, hToken⟩
    rw [← hGaps.length_eq, length_relayPrefix] at hLength
    obtain ⟨source', hFound, -⟩ :=
      (tokenLoop_spelled relayPrefix 122 (List.nil_append relayPrefix).symm).mpr
        ⟨gaps, body, hReads, hGaps, hFree, by omega, hToken⟩
    rw [hFound]

/-! ## Bearer lines -/

variable {reads gaps body : List (Option UInt8)}

theorem gaps_eq
    (hGaps : List.Forall₂ (fun expected read => read = none ∨ read = some expected) letters gaps)
    (hNone : none ∉ gaps) : gaps = letters.map some := by
  induction hGaps with
  | nil => rfl
  | cons hRead _ ih =>
    rw [List.mem_cons, not_or] at hNone
    rw [List.map_cons, ← hRead.resolve_left (Ne.symm hNone.1), ih hNone.2]

theorem map_some_reduceOption (h : none ∉ reads) : reads.reduceOption.map some = reads := by
  induction reads with
  | nil => rfl
  | cons read reads ih =>
    rw [List.mem_cons, not_or] at h
    cases read with
    | none => exact absurd rfl h.1
    | some => rw [List.reduceOption_cons_of_some, List.map_cons, ih h.2]

theorem newline_notMem_gaps (hLetters : 10 ∉ letters)
    (hGaps : List.Forall₂ (fun expected read => read = none ∨ read = some expected) letters gaps) :
    some 10 ∉ gaps := by
  induction hGaps with
  | nil => exact List.not_mem_nil
  | cons hRead _ ih =>
    rw [List.mem_cons, not_or] at hLetters ⊢
    refine ⟨?_, ih hLetters.2⟩
    rintro rfl
    rcases hRead with hRead | hRead
    · cases hRead
    · exact hLetters.1 (Option.some.inj hRead)

theorem reads_split {line rest : List UInt8} (h : reads.reduceOption = line ++ 10 :: rest)
    (hLine : 10 ∉ line) :
    ∃ front back, reads = front ++ some 10 :: back ∧ some 10 ∉ front ∧
      front.reduceOption = line := by
  obtain ⟨front, tail, rfl, hFront, hTail⟩ := List.filterMap_eq_append_iff.mp h
  obtain ⟨gap, last, back, rfl, hGap, hLast, -⟩ := List.filterMap_eq_cons_iff.mp hTail
  obtain rfl : last = some 10 := hLast
  have hSignals : gap.reduceOption = [] := List.filterMap_eq_nil_iff.mpr hGap
  have hAll : (front ++ gap).reduceOption = line := by
    rw [List.reduceOption_append, hSignals, List.append_nil]
    exact hFront
  refine ⟨front ++ gap, back, by simp, ?_, hAll⟩
  rw [← List.reduceOption_mem_iff, hAll]
  exact hLine

theorem line_unique {line line' rest rest' : List UInt8} (hLine : 10 ∉ line) (hLine' : 10 ∉ line')
    (h : line ++ 10 :: rest = line' ++ 10 :: rest') : line = line' := by
  have hThrough := congrArg (through 10) h
  rw [through_line hLine, through_line hLine'] at hThrough
  exact List.append_cancel_right hThrough

theorem gapped_iff_of_bearer (h : Bearer source.bytes t) :
    Gapped source.reads t ↔ none ∉ source.reads.take 6 ∧ some 10 ∈ source.reads.take 128 := by
  obtain ⟨line, rest, hBytes, hFree, hLength, rfl⟩ := h
  rw [Source.bytes_eq_reads] at hBytes
  constructor
  · rintro ⟨gaps, body, back, hReads, hGaps, hBody, hCount, rfl⟩
    have hSix : gaps.length = 6 := by rw [← hGaps.length_eq, length_relayPrefix]
    have hFound : some 10 ∉ gaps ++ body := fun hIn => (List.mem_append.mp hIn).elim
      (newline_notMem_gaps newline_notMem_relayPrefix hGaps) hBody
    -- both lines end at the first newline, so no letter is missing
    rw [hReads, List.reduceOption_append, List.reduceOption_cons_of_some] at hBytes
    have hLine := line_unique (mt List.reduceOption_mem_iff.mp hFound) hFree hBytes
    rw [List.reduceOption_append] at hLine
    have hAll := List.append_cancel_right hLine
    refine ⟨?_, ?_⟩
    · rw [hReads, List.append_assoc, ← hSix, List.take_left]
      have hWhole : gaps.reduceOption.length = gaps.length := by
        rw [hAll, hSix, length_relayPrefix]
      exact fun hNone => nomatch List.reduceOption_length_eq_iff.mp hWhole none hNone
    · have hPlace : (gaps ++ body).length < 128 := by rwa [List.length_append]
      rw [hReads, List.take_append, List.take_of_length_le (Nat.le_of_lt hPlace)]
      refine List.mem_append_right _ ?_
      obtain ⟨more, hMore⟩ := Nat.exists_eq_add_of_lt (Nat.sub_pos_of_lt hPlace)
      rw [hMore, Nat.zero_add]
      exact List.mem_cons_self
  · rintro ⟨hWhole, hInTime⟩
    obtain ⟨front, back, hReads, hFront, hLine⟩ := reads_split hBytes hFree
    have hShort : front.length < 128 := by
      by_contra hLong
      rw [hReads, List.take_append_of_le_length (by omega)] at hInTime
      exact hFront (List.mem_of_mem_take hInTime)
    have hSix : 6 ≤ front.length := by
      have hFewer := List.reduceOption_length_le front
      rw [hLine, List.length_append, length_relayPrefix] at hFewer
      omega
    rw [hReads, List.take_append_of_le_length hSix] at hWhole
    -- the first six reads are the first six bytes
    have hGaps : ((front.take 6).reduceOption).length = relayPrefix.length := by
      rw [List.reduceOption_length_eq_iff.mpr, List.length_take, length_relayPrefix,
        Nat.min_eq_left hSix]
      intro read hIn
      cases read with
      | none => exact absurd hIn hWhole
      | some => rfl
    rw [← List.take_append_drop 6 front, List.reduceOption_append] at hLine
    obtain ⟨hPrefix, hToken⟩ := List.append_inj hLine hGaps
    refine ⟨front.take 6, front.drop 6, back, by rw [List.take_append_drop, hReads], ?_,
      fun hIn => hFront (List.mem_of_mem_drop hIn), ?_, hToken.symm⟩
    · rw [← map_some_reduceOption hWhole, hPrefix, List.forall₂_map_right_iff, List.forall₂_same]
      exact fun _ _ => .inr rfl
    · rw [← List.length_append, List.take_append_drop]
      exact hShort

theorem bearer_of_gapped (h : Gapped source.reads t) (hWhole : none ∉ source.reads.take 6) :
    Bearer source.bytes t := by
  obtain ⟨gaps, body, back, hReads, hGaps, hBody, hCount, rfl⟩ := h
  have hSix : gaps.length = 6 := by rw [← hGaps.length_eq, length_relayPrefix]
  rw [hReads, List.append_assoc, ← hSix, List.take_left] at hWhole
  obtain rfl := gaps_eq hGaps hWhole
  rw [Source.bytes_eq_reads, hReads]
  refine ⟨relayPrefix ++ body.reduceOption, back.reduceOption, ?_, ?_, ?_, rfl⟩
  · rw [List.reduceOption_append, List.reduceOption_append, Source.reduceOption_map_some,
      List.reduceOption_cons_of_some]
  · rw [List.mem_append, List.reduceOption_mem_iff, not_or]
    exact ⟨newline_notMem_relayPrefix, hBody⟩
  · have hFewer := List.reduceOption_length_le body
    rw [List.length_append]
    rw [List.length_map] at hCount
    omega

/-- **Nothing behind the first newline is taken.** -/
theorem tokenLoop_taken (positions : List Nat) (token : List UInt8) (source : Source UInt8) :
    ∃ taken, source.bytes = taken ++ (tokenLoop positions token source).2.bytes ∧
      taken <+: through 10 source.bytes := by
  induction positions generalizing token source with
  | nil => exact ⟨[], rfl, List.nil_prefix⟩
  | cons position positions ih =>
    rw [tokenLoop]
    rcases source.read_one with
      ⟨source', hRead, hReads⟩ | ⟨hRead, hReads⟩ | ⟨x, source', hRead, hReads⟩
    · have hBytes : source.bytes = source'.bytes := by
        rw [Source.bytes_eq_reads, hReads, List.reduceOption_cons_of_none, ← Source.bytes_eq_reads]
      simp only [hRead, hBytes]
      exact ih token source'
    · have hBytes : source.bytes = [] := by
        rw [Source.bytes_eq_reads, hReads]
        rfl
      simp only [hRead, hBytes]
      exact ⟨[], rfl, List.nil_prefix⟩
    · have hBytes : source.bytes = x :: source'.bytes := by
        rw [Source.bytes_eq_reads, hReads, List.reduceOption_cons_of_some, ← Source.bytes_eq_reads]
      simp only [hRead, hBytes, through]
      -- the byte alone, or the byte and what the rest of the loop takes
      have hStop : ∃ taken, x :: source'.bytes = taken ++ source'.bytes ∧
          taken <+: if x = 10 then [x] else x :: through 10 source'.bytes := by
        refine ⟨[x], rfl, ?_⟩
        split
        · exact List.prefix_rfl
        · exact ⟨_, rfl⟩
      have hGoOn : ∀ token, x ≠ 10 →
          ∃ taken, x :: source'.bytes = taken ++ (tokenLoop positions token source').2.bytes ∧
            taken <+: if x = 10 then [x] else x :: through 10 source'.bytes := by
        intro token hNe
        obtain ⟨taken, hTaken, hPrefix⟩ := ih token source'
        refine ⟨x :: taken, congrArg _ hTaken, ?_⟩
        rw [if_neg hNe]
        exact List.cons_prefix_cons.mpr ⟨rfl, hPrefix⟩
      cases hLetter : relayPrefix[position]? with
      | none =>
        dsimp only
        by_cases hLast : x = 10
        · rw [if_pos hLast]
          exact hStop
        · rw [if_neg hLast]
          exact hGoOn _ hLast
      | some expected =>
        dsimp only
        by_cases hSame : x = expected
        · rw [if_pos hSame]
          refine hGoOn _ ?_
          rintro rfl
          exact newline_notMem_relayPrefix (hSame ▸ List.mem_of_getElem? hLetter)
        · rw [if_neg hSame]
          exact hStop

/-- **Reading the bearer.** The relay takes exactly the bearer lines if a bearer line
meets no signal in its first six reads and has its newline in the first 128, and if
no signal stands for a letter of `RELAY ` that the stream does not have. It never
takes a byte behind the first newline. -/
theorem relay_bearer_reading (source : Source UInt8) :
    ((∀ t, (readRelayToken source).1 = some t ↔ Bearer source.bytes t) ↔
      ((∃ t, Bearer source.bytes t) →
        none ∉ source.reads.take 6 ∧ some 10 ∈ source.reads.take 128) ∧
      ¬ (none ∈ source.reads.take 6 ∧ ∃ t, Gapped source.reads t)) ∧
    ∃ taken, source.bytes = taken ++ (readRelayToken source).2.bytes ∧
      taken <+: through 10 source.bytes := by
  refine ⟨?_, tokenLoop_taken _ _ source⟩
  simp only [readRelayToken_iff]
  constructor
  · intro hAgree
    refine ⟨?_, ?_⟩
    · rintro ⟨t, hBearer⟩
      exact (gapped_iff_of_bearer hBearer).mp ((hAgree t).mpr hBearer)
    · rintro ⟨hGap, t, hGapped⟩
      have hBearer := (hAgree t).mp hGapped
      exact ((gapped_iff_of_bearer hBearer).mp hGapped).1 hGap
  · rintro ⟨hPrompt, hNoGap⟩ t
    constructor
    · intro hGapped
      exact bearer_of_gapped hGapped fun hGap => hNoGap ⟨hGap, t, hGapped⟩
    · intro hBearer
      exact (gapped_iff_of_bearer hBearer).mpr (hPrompt ⟨t, hBearer⟩)

/-- **What a signal can do**: with one before it, `RELAY t` is refused, and `ELAY t`
is taken for a bearer line. -/
theorem interrupted_bearers :
    (Bearer (Source.bytes [.signal, .data 82 [69, 76, 65, 89, 32, 116, 10]]) [116] ∧
      (readRelayToken [.signal, .data 82 [69, 76, 65, 89, 32, 116, 10]]).1 = none) ∧
    (¬ (∃ t, Bearer (Source.bytes [.signal, .data 69 [76, 65, 89, 32, 116, 10]]) t) ∧
      (readRelayToken [.signal, .data 69 [76, 65, 89, 32, 116, 10]]).1 = some [116]) := by
  refine ⟨⟨⟨[82, 69, 76, 65, 89, 32, 116], [], rfl, by decide, by decide, ?_⟩, by decide +kernel⟩,
    ?_, by decide +kernel⟩
  · rw [relayPrefix_eq]
    rfl
  · rintro ⟨t, line, rest, hBytes, -, -, rfl⟩
    rw [relayPrefix_eq] at hBytes
    cases hBytes

end Forward.Browser

import Mathlib.Data.List.Basic

/-!
# Streams that arrive in pieces

A `Source` is all that a peer will send before it closes, cut into the pieces that the reads will
find, with the signals that interrupt them. `BufReader` is a reader with a buffer in front of a
source, which is filled by one read of the source when it is empty.
-/

namespace Forward.Lib

universe u

variable {α : Type u}

/-! ## Up to a delimiter -/

section

variable [DecidableEq α] {d : α} {xs ys : List α}

/-- The elements up to the first delimiter, and the delimiter. -/
def through (d : α) : List α → List α
  | [] => []
  | x :: xs => if x = d then [x] else x :: through d xs

theorem through_append_of_notMem (h : d ∉ xs) : through d (xs ++ ys) = xs ++ through d ys := by
  induction xs with
  | nil => rfl
  | cons x xs ih =>
    obtain ⟨hHead, hRest⟩ := List.ne_and_not_mem_of_not_mem_cons h
    rw [List.cons_append, through, if_neg hHead.symm, ih hRest]
    rfl

theorem through_of_notMem (h : d ∉ xs) : through d xs = xs := by
  have hEq : through d (xs ++ []) = xs ++ through d [] := through_append_of_notMem h
  rwa [List.append_nil, through, List.append_nil] at hEq

theorem through_append_of_mem (h : d ∈ xs) : through d (xs ++ ys) = through d xs := by
  induction xs with
  | nil => cases h
  | cons x xs ih =>
    rw [List.cons_append, through, through]
    by_cases hEq : x = d
    · rw [if_pos hEq, if_pos hEq]
    · rw [if_neg hEq, if_neg hEq, ih]
      exact (List.mem_cons.mp h).resolve_left (Ne.symm hEq)

theorem through_line (h : d ∉ xs) : through d (xs ++ d :: ys) = xs ++ [d] := by
  rw [through_append_of_notMem h, through, if_pos rfl]

theorem through_take_line {limit : Nat} (h : d ∉ xs) (hLength : xs.length < limit) :
    through d ((xs ++ d :: ys).take limit) = xs ++ [d] := by
  have hMore : limit - xs.length = (limit - xs.length - 1) + 1 := by omega
  rw [List.take_append, List.take_of_length_le (Nat.le_of_lt hLength), hMore, List.take_succ_cons,
    through_line h]

theorem through_isPrefix (d : α) (xs : List α) : through d xs <+: xs := by
  induction xs with
  | nil => exact List.prefix_rfl
  | cons x xs ih =>
    rw [through]
    split
    · exact ⟨xs, rfl⟩
    · exact (List.cons_prefix_cons).mpr ⟨rfl, ih⟩

theorem through_eq_nil : through d xs = [] ↔ xs = [] := by
  cases xs with
  | nil => exact iff_of_true rfl rfl
  | cons =>
    rw [through]
    split <;> simp

end

/-! ## Sources -/

/-- What the next read of a stream finds: bytes that have arrived, or a signal. -/
inductive Delivery (α : Type u)
  | data (first : α) (rest : List α)
  | signal

abbrev Source (α : Type u) := List (Delivery α)

namespace Source

variable {s s' : Source α} {n : Nat} {chunk : List α}

def push (chunk : List α) (s : Source α) : Source α :=
  match chunk with
  | [] => s
  | x :: xs => .data x xs :: s

def bytes : Source α → List α
  | [] => []
  | .data x xs :: s => x :: (xs ++ bytes s)
  | .signal :: s => bytes s

def signals : Source α → Nat
  | [] => 0
  | .data _ _ :: s => signals s
  | .signal :: s => signals s + 1

/-- One read of at most `n` bytes: no bytes at the end of the stream, and `none`
where a signal interrupts it. -/
def read (n : Nat) : Source α → Option (List α) × Source α
  | [] => (some [], [])
  | .signal :: s => (none, s)
  | .data x xs :: s => (some ((x :: xs).take n), push ((x :: xs).drop n) s)

theorem bytes_push : (push chunk s).bytes = chunk ++ s.bytes := by
  cases chunk <;> rfl

theorem signals_push : (push chunk s).signals = s.signals := by
  cases chunk <;> rfl

theorem read_some (hn : 0 < n) (h : s.read n = (some chunk, s')) :
    s.bytes = chunk ++ s'.bytes ∧ s'.signals = s.signals ∧ chunk.length ≤ n ∧
      (chunk = [] → s.bytes = []) := by
  match s with
  | [] =>
    cases h
    exact ⟨rfl, rfl, Nat.zero_le _, fun _ => rfl⟩
  | .signal :: rest => cases h
  | .data x xs :: rest =>
    cases h
    refine ⟨?_, signals_push, List.length_take_le _ _, ?_⟩
    · rw [bytes_push, ← List.append_assoc, List.take_append_drop]
      rfl
    · intro hNone
      have hPositive : n ≠ 0 := by omega
      simp [hPositive] at hNone

theorem read_none (h : s.read n = (none, s')) : s'.bytes = s.bytes ∧ s'.signals + 1 = s.signals := by
  match s with
  | [] => cases h
  | .data x xs :: rest => cases h
  | .signal :: rest =>
    obtain ⟨-, rfl⟩ := Prod.mk.inj h
    exact ⟨rfl, rfl⟩

end Source

/-! ## Buffered readers -/

structure BufReader (α : Type u) where
  buffer : List α
  source : Source α

namespace BufReader

variable {r r' : BufReader α} {cap n : Nat} {chunk : List α}

def bytes (r : BufReader α) : List α := r.buffer ++ r.source.bytes

def signals (r : BufReader α) : Nat := r.source.signals

def size (r : BufReader α) : Nat := r.bytes.length + r.signals

/-- `fill_buf`, and whether it came through. -/
def fillBuf (cap : Nat) (r : BufReader α) : Bool × BufReader α :=
  if r.buffer.isEmpty then
    match r.source.read cap with
    | (some chunk, s) => (true, ⟨chunk, s⟩)
    | (none, s) => (false, ⟨[], s⟩)
  else (true, r)

def consume (r : BufReader α) (n : Nat) : BufReader α := ⟨r.buffer.drop n, r.source⟩

/-- One read of at most `n` bytes; a large one goes past an empty buffer. -/
def read (cap n : Nat) (r : BufReader α) : Option (List α) × BufReader α :=
  if r.buffer.isEmpty && decide (cap ≤ n) then
    match r.source.read n with
    | (chunk, s) => (chunk, ⟨[], s⟩)
  else
    match r.fillBuf cap with
    | (true, r) => (some (r.buffer.take n), r.consume n)
    | (false, r) => (none, r)

theorem fillBuf_true_cases (h : r.fillBuf cap = (true, r')) :
    r.buffer ≠ [] ∧ r' = r ∨
      r.buffer = [] ∧ r.source.read cap = (some r'.buffer, r'.source) := by
  unfold fillBuf at h
  split at h
  · rename_i hEmpty
    split at h
    · rename_i hRead
      obtain ⟨-, rfl⟩ := Prod.mk.inj h
      exact .inr ⟨List.isEmpty_iff.mp hEmpty, hRead⟩
    · cases h
  · rename_i hFull
    obtain ⟨-, rfl⟩ := Prod.mk.inj h
    exact .inl ⟨mt List.isEmpty_iff.mpr hFull, rfl⟩

theorem fillBuf_false_eq (h : r.fillBuf cap = (false, r')) :
    r.buffer = [] ∧ r'.buffer = [] ∧ r.source.read cap = (none, r'.source) := by
  unfold fillBuf at h
  split at h
  · rename_i hEmpty
    split at h
    · cases h
    · rename_i hRead
      obtain ⟨-, rfl⟩ := Prod.mk.inj h
      exact ⟨List.isEmpty_iff.mp hEmpty, rfl, hRead⟩
  · cases h

theorem bytes_of_empty (h : r.buffer = []) : r.bytes = r.source.bytes := by
  rw [bytes, h, List.nil_append]

theorem fillBuf_true (hCap : 0 < cap) (h : r.fillBuf cap = (true, r')) :
    r'.bytes = r.bytes ∧ r'.signals = r.signals ∧ (r'.buffer = [] → r.bytes = []) := by
  rcases fillBuf_true_cases h with ⟨hFull, rfl⟩ | ⟨hEmpty, hRead⟩
  · exact ⟨rfl, rfl, fun hNil => absurd hNil hFull⟩
  · obtain ⟨hBytes, hSignals, -, hEnd⟩ := Source.read_some hCap hRead
    rw [bytes_of_empty hEmpty]
    exact ⟨hBytes.symm, hSignals, hEnd⟩

theorem fillBuf_false (h : r.fillBuf cap = (false, r')) :
    r'.bytes = r.bytes ∧ r'.signals + 1 = r.signals := by
  obtain ⟨hEmpty, hLeft, hRead⟩ := fillBuf_false_eq h
  rw [bytes_of_empty hEmpty, bytes_of_empty hLeft]
  exact Source.read_none hRead

theorem bytes_consume : r.bytes = r.buffer.take n ++ (r.consume n).bytes := by
  show r.buffer ++ r.source.bytes = r.buffer.take n ++ (r.buffer.drop n ++ r.source.bytes)
  rw [← List.append_assoc, List.take_append_drop]

theorem bytes_consume_front {front : List α} (h : front <+: r.buffer) :
    r.bytes = front ++ (r.consume front.length).bytes := by
  have hSplit := bytes_consume (r := r) (n := front.length)
  rwa [← List.prefix_iff_eq_take.mp h] at hSplit

theorem size_consume_lt (hn : 0 < n) (hThere : n ≤ r.buffer.length) :
    (r.consume n).size < r.size := by
  have hLength := congrArg List.length (bytes_consume (r := r) (n := n))
  have hSame : (r.consume n).signals = r.signals := rfl
  rw [List.length_append, List.length_take] at hLength
  simp only [size, hSame]
  omega

theorem read_small (hSmall : n < cap) :
    r.read cap n =
      match r.fillBuf cap with
      | (true, r) => (some (r.buffer.take n), r.consume n)
      | (false, r) => (none, r) := by
  have hDirect : ¬ (r.buffer.isEmpty && decide (cap ≤ n)) := by
    rw [Bool.and_eq_true, decide_eq_true_eq]
    omega
  rw [read, if_neg hDirect]

theorem read_some (hCap : 0 < cap) (hn : 0 < n) (h : r.read cap n = (some chunk, r')) :
    r.bytes = chunk ++ r'.bytes ∧ r'.signals = r.signals ∧ chunk.length ≤ n ∧
      (chunk = [] → r.bytes = []) := by
  unfold read at h
  split at h
  · rename_i hDirect
    simp only [Bool.and_eq_true, List.isEmpty_iff] at hDirect
    rcases hRead : r.source.read n with ⟨found, rest⟩
    rw [hRead] at h
    cases h
    rw [bytes_of_empty hDirect.1]
    exact Source.read_some hn hRead
  · split at h
    · rename_i hFill
      cases h
      obtain ⟨hBytes, hSignals, hEnd⟩ := fillBuf_true hCap hFill
      refine ⟨?_, hSignals, List.length_take_le _ _, ?_⟩
      · rw [← hBytes]
        exact bytes_consume
      · intro hNone
        rcases List.take_eq_nil_iff.mp hNone with hZero | hNil
        · omega
        · exact hEnd hNil
    · cases h

theorem read_none (h : r.read cap n = (none, r')) :
    r'.bytes = r.bytes ∧ r'.signals + 1 = r.signals := by
  unfold read at h
  split at h
  · rename_i hDirect
    simp only [Bool.and_eq_true, List.isEmpty_iff] at hDirect
    rcases hRead : r.source.read n with ⟨found, rest⟩
    rw [hRead] at h
    cases h
    rw [bytes_of_empty hDirect.1]
    exact Source.read_none hRead
  · split at h
    · cases h
    · rename_i hFill
      obtain ⟨-, rfl⟩ := Prod.mk.inj h
      exact fillBuf_false hFill

/-! ### The loops of the standard library -/

/-- `read_exact` past the buffer: what is still wanted, and what there is. -/
def readExactFrom (cap : Nat) (hCap : 0 < cap) (n : Nat) (r : BufReader α) :
    Option (List α) × BufReader α :=
  if _ : n = 0 then (some [], r)
  else
    match _ : r.read cap n with
    | (none, r') => readExactFrom cap hCap n r'
    | (some [], r') => (none, r')
    | (some (x :: xs), r') =>
      let (more, r'') := readExactFrom cap hCap (n - (x :: xs).length) r'
      (more.map fun more => (x :: xs) ++ more, r'')
termination_by r.size
decreasing_by
  · obtain ⟨hBytes, hSignals⟩ := read_none ‹r.read cap n = (none, r')›
    simp only [size, hBytes]
    omega
  · obtain ⟨hBytes, hSignals, -⟩ :=
      read_some hCap (by omega) ‹r.read cap n = (some (x :: xs), r')›
    simp only [size, hBytes, hSignals, List.length_append, List.length_cons]
    omega

/-- **`read_exact` does not depend on the pieces.** -/
theorem readExactFrom_eq (hCap : 0 < cap) (n : Nat) (r : BufReader α) :
    (r.bytes.length < n → (readExactFrom cap hCap n r).1 = none) ∧
      (n ≤ r.bytes.length → ∃ r', readExactFrom cap hCap n r = (some (r.bytes.take n), r') ∧
        r'.bytes = r.bytes.drop n ∧ r'.signals ≤ r.signals) := by
  induction hSize : r.size using Nat.strongRecOn generalizing n r with
  | ind size ih =>
    subst hSize
    rw [readExactFrom]
    split
    · rename_i hn
      subst hn
      exact ⟨fun hLess => absurd hLess (Nat.not_lt_zero _), fun _ => ⟨r, rfl, rfl, Nat.le_refl _⟩⟩
    · rename_i hn
      split
      · -- a signal, and once more
        rename_i r' hRead
        obtain ⟨hBytes, hSignals⟩ := read_none hRead
        obtain ⟨hShort, hEnough⟩ := ih r'.size (by simp only [size, hBytes]; omega) n r' rfl
        rw [hBytes] at hShort hEnough
        refine ⟨hShort, fun hLength => ?_⟩
        obtain ⟨last, hEq, hRest, hLeft⟩ := hEnough hLength
        exact ⟨last, hEq, hRest, by omega⟩
      · rename_i hRead
        obtain ⟨-, -, -, hEnd⟩ := read_some hCap (by omega) hRead
        have hNone : r.bytes.length = 0 := by rw [hEnd rfl, List.length_nil]
        exact ⟨fun _ => rfl, fun hLength => absurd hLength (by omega)⟩
      · rename_i x xs r' hRead
        obtain ⟨hBytes, hSignals, hLimit, -⟩ := read_some hCap (by omega) hRead
        have hTotal : r.bytes.length = (x :: xs).length + r'.bytes.length := by
          rw [hBytes, List.length_append]
        have hSmaller : r'.size < r.size := by
          simp only [size, hSignals, hTotal, List.length_cons]
          omega
        obtain ⟨hShort, hEnough⟩ := ih r'.size hSmaller (n - (x :: xs).length) r' rfl
        refine ⟨fun hLess => ?_, fun hLength => ?_⟩
        · simp only [hShort (by omega), Option.map_none]
        · obtain ⟨last, hEq, hRest, hLeft⟩ := hEnough (by omega)
          refine ⟨last, ?_, ?_, by omega⟩
          · simp only [hEq, Option.map_some]
            rw [hBytes, List.take_append, List.take_of_length_le hLimit]
          · rw [hRest, hBytes, List.drop_append, List.drop_eq_nil_of_le hLimit, List.nil_append]

def readExact (cap : Nat) (hCap : 0 < cap) (n : Nat) (r : BufReader α) :
    Option (List α) × BufReader α :=
  if n ≤ r.buffer.length then (some (r.buffer.take n), r.consume n)
  else readExactFrom cap hCap n r

theorem readExact_eq (hCap : 0 < cap) (n : Nat) (r : BufReader α) :
    (r.bytes.length < n → (readExact cap hCap n r).1 = none) ∧
      (n ≤ r.bytes.length → ∃ r', readExact cap hCap n r = (some (r.bytes.take n), r') ∧
        r'.bytes = r.bytes.drop n ∧ r'.signals ≤ r.signals) := by
  unfold readExact
  split
  · rename_i hThere
    have hLength : r.bytes.length = r.buffer.length + r.source.bytes.length := List.length_append
    refine ⟨fun hLess => by omega, fun _ => ⟨r.consume n, ?_, ?_, Nat.le_refl _⟩⟩
    · rw [bytes, List.take_append_of_le_length hThere]
    · exact (List.drop_append_of_le_length hThere).symm
  · exact readExactFrom_eq hCap n r

/-- `take(limit).read_until(d)`: up to and with the delimiter, within the limit. -/
def readUntil [DecidableEq α] (cap : Nat) (hCap : 0 < cap) (d : α) (limit : Nat)
    (r : BufReader α) : List α × BufReader α :=
  if limit = 0 then ([], r)
  else
    match _ : r.fillBuf cap with
    | (false, r') => readUntil cap hCap d limit r'
    | (true, r') =>
      if _ : r'.buffer.take limit = [] then ([], r')
      else if d ∈ r'.buffer.take limit then
        (through d (r'.buffer.take limit), r'.consume (through d (r'.buffer.take limit)).length)
      else
        let (more, r'') := readUntil cap hCap d (limit - (r'.buffer.take limit).length)
          (r'.consume (r'.buffer.take limit).length)
        (r'.buffer.take limit ++ more, r'')
termination_by r.size
decreasing_by
  · obtain ⟨hBytes, hSignals⟩ := fillBuf_false ‹r.fillBuf cap = (false, r')›
    simp only [size, hBytes]
    omega
  · obtain ⟨hBytes, hSignals, -⟩ := fillBuf_true hCap ‹r.fillBuf cap = (true, r')›
    have hSame : r'.size = r.size := by simp only [size, hBytes, hSignals]
    rw [← hSame]
    exact size_consume_lt (List.length_pos_iff.mpr ‹_›) (List.length_take_le' _ _)

/-- **`read_until` does not depend on the pieces.** -/
theorem readUntil_eq [DecidableEq α] (hCap : 0 < cap) (d : α) (limit : Nat) (r : BufReader α) :
    ∃ r', readUntil cap hCap d limit r = (through d (r.bytes.take limit), r') ∧
      r.bytes = through d (r.bytes.take limit) ++ r'.bytes := by
  induction hSize : r.size using Nat.strongRecOn generalizing limit r with
  | ind size ih =>
    subst hSize
    rw [readUntil]
    split
    · rename_i hZero
      subst hZero
      exact ⟨r, by rw [List.take_zero, through], by rw [List.take_zero, through, List.nil_append]⟩
    · rename_i hLimit
      split
      · -- a signal, and once more
        rename_i r' hFill
        obtain ⟨hBytes, hSignals⟩ := fillBuf_false hFill
        have hAgain := ih r'.size (by simp only [BufReader.size, hBytes]; omega) limit r' rfl
        rwa [hBytes] at hAgain
      · rename_i r' hFill
        obtain ⟨hBytes, hSignals, hEnd⟩ := fillBuf_true hCap hFill
        split
        · -- nothing more will come
          rename_i hNone
          have hNil : r'.buffer = [] := (List.take_eq_nil_iff.mp hNone).resolve_left hLimit
          have hOver : r.bytes = [] := hEnd hNil
          refine ⟨r', ?_, ?_⟩
          · rw [hOver, List.take_nil, through]
          · rw [hBytes, hOver, List.take_nil, through, List.nil_append]
        · rename_i hNe
          split
          · rename_i hMem
            have hLine : through d (r.bytes.take limit) = through d (r'.buffer.take limit) := by
              rw [← hBytes, bytes, List.take_append, through_append_of_mem hMem]
            refine ⟨_, by rw [hLine], ?_⟩
            -- what is behind the line in the buffer stays there
            rw [hLine, ← hBytes]
            exact bytes_consume_front ((through_isPrefix d _).trans (List.take_prefix _ _))
          · rename_i hMem
            let front := r'.buffer.take limit
            have hSplit : r.bytes = front ++ (r'.consume front.length).bytes := by
              rw [← hBytes]
              exact bytes_consume_front (List.take_prefix _ _)
            have hSmaller : (r'.consume front.length).size < r.size := by
              have hSame : r'.size = r.size := by simp only [BufReader.size, hBytes, hSignals]
              rw [← hSame]
              exact size_consume_lt (List.length_pos_iff.mpr hNe) (List.length_take_le' _ _)
            have hLine : through d (r.bytes.take limit) = front ++
                through d ((r'.consume front.length).bytes.take (limit - front.length)) := by
              rw [hSplit, List.take_append,
                List.take_of_length_le (List.length_take_le limit r'.buffer),
                through_append_of_notMem hMem]
            obtain ⟨last, hEq, hRest⟩ :=
              ih _ hSmaller (limit - front.length) (r'.consume front.length) rfl
            refine ⟨last, ?_, ?_⟩
            · show (front ++ (readUntil cap hCap d (limit - front.length)
                (r'.consume front.length)).1, (readUntil cap hCap d (limit - front.length)
                (r'.consume front.length)).2) = _
              rw [hEq, hLine]
            · rw [hLine, List.append_assoc, ← hRest]
              exact hSplit

end BufReader

/-! ## Signals before a delimiter -/

section

variable [DecidableEq α] {d : α} {s s' : Source α} {r r' : BufReader α} {cap n : Nat}
  {chunk : List α}

/-- No signal comes behind the delivery of a delimiter. -/
def Source.Calm (d : α) : Source α → Prop
  | [] => True
  | .signal :: s => Calm d s
  | .data x xs :: s => if d ∈ x :: xs then signals s = 0 else Calm d s

theorem Source.calm_of_signals (h : s.signals = 0) : s.Calm d := by
  induction s with
  | nil => trivial
  | cons delivery s ih =>
    cases delivery with
    | signal => cases h
    | data =>
      simp only [Calm]
      split
      · exact h
      · exact ih h

theorem Source.calm_push : (push chunk s).Calm d ↔ if d ∈ chunk then s.signals = 0 else s.Calm d := by
  cases chunk with
  | nil => simp [push]
  | cons => rfl

theorem Source.Calm.read (h : s.Calm d) (hRead : s.read n = (some chunk, s')) :
    if d ∈ chunk then s'.signals = 0 else s'.Calm d := by
  match s with
  | [] =>
    cases hRead
    simp [Source.Calm]
  | .signal :: rest => cases hRead
  | .data x xs :: rest =>
    cases hRead
    simp only [Source.Calm] at h
    rw [calm_push, signals_push]
    by_cases hFirst : d ∈ (x :: xs).take n
    · rw [if_pos hFirst]
      rwa [if_pos (List.mem_of_mem_take hFirst)] at h
    · rw [if_neg hFirst]
      by_cases hLater : d ∈ (x :: xs).drop n
      · rw [if_pos hLater]
        rwa [if_pos (List.mem_of_mem_drop hLater)] at h
      · rw [if_neg hLater]
        rwa [if_neg] at h
        intro hMem
        rw [← List.take_append_drop n (x :: xs), List.mem_append] at hMem
        exact hMem.elim hFirst hLater

theorem Source.Calm.signal (h : s.Calm d) (hRead : s.read n = (none, s')) : s'.Calm d := by
  match s with
  | [] => cases hRead
  | .data x xs :: rest => cases hRead
  | .signal :: rest =>
    obtain ⟨-, rfl⟩ := Prod.mk.inj hRead
    exact h

def BufReader.Calm (d : α) (r : BufReader α) : Prop :=
  if d ∈ r.buffer then r.signals = 0 else r.source.Calm d

theorem BufReader.Calm.source (h : r.Calm d) (hEmpty : r.buffer = []) : r.source.Calm d := by
  unfold BufReader.Calm at h
  rwa [hEmpty, if_neg List.not_mem_nil] at h

theorem BufReader.Calm.read (h : r.Calm d) (hSmall : n < cap)
    (hRead : r.read cap n = (some chunk, r')) :
    if d ∈ chunk then r'.signals = 0 else r'.Calm d := by
  have hTaken : ∀ filled : BufReader α, filled.Calm d →
      if d ∈ filled.buffer.take n then (filled.consume n).signals = 0
      else (filled.consume n).Calm d := by
    intro filled hFilled
    unfold BufReader.Calm at hFilled
    by_cases hFirst : d ∈ filled.buffer.take n
    · rw [if_pos hFirst]
      rwa [if_pos (List.mem_of_mem_take hFirst)] at hFilled
    · rw [if_neg hFirst]
      unfold BufReader.Calm
      by_cases hMem : d ∈ filled.buffer
      · rw [if_pos hMem] at hFilled
        split
        · exact hFilled
        · exact Source.calm_of_signals hFilled
      · rw [if_neg hMem] at hFilled
        have hLater : d ∉ (filled.consume n).buffer :=
          fun hIn => hMem (List.mem_of_mem_drop hIn)
        rw [if_neg hLater]
        exact hFilled
  rw [BufReader.read_small hSmall] at hRead
  split at hRead
  · rename_i filled hFill
    cases hRead
    refine hTaken filled ?_
    rcases BufReader.fillBuf_true_cases hFill with ⟨-, rfl⟩ | ⟨hEmpty, hFound⟩
    · exact h
    · exact (h.source hEmpty).read hFound
  · cases hRead

theorem BufReader.Calm.signal (h : r.Calm d) (hSmall : n < cap)
    (hRead : r.read cap n = (none, r')) : r'.Calm d := by
  rw [BufReader.read_small hSmall] at hRead
  split at hRead
  · cases hRead
  · rename_i hFill
    obtain ⟨-, rfl⟩ := Prod.mk.inj hRead
    obtain ⟨hEmpty, hLeft, hFound⟩ := BufReader.fillBuf_false_eq hFill
    unfold BufReader.Calm
    rw [hLeft, if_neg List.not_mem_nil]
    exact (h.source hEmpty).signal hFound

end

end Forward.Lib

import Mathlib.Data.List.ReduceOption
import Forward.Lib.Reader

/-!
# Streams read byte by byte

A reader that must leave alone what follows a line takes one byte at a time. What its reads find is
a list: a byte, or `none` where a signal came first.
-/

namespace Forward.Lib

universe u

/-! ## Sources -/

namespace Source

variable {α : Type u} {s s' : Source α} {d x : α} {line l back : List α} {bound : Nat}

def reads : Source α → List (Option α)
  | [] => []
  | .data x xs :: s => some x :: (xs.map some ++ reads s)
  | .signal :: s => none :: reads s

theorem reads_push (chunk : List α) (s : Source α) :
    (push chunk s).reads = chunk.map some ++ s.reads := by
  cases chunk <;> rfl

theorem reduceOption_map_some (xs : List α) : (xs.map some).reduceOption = xs := by
  rw [List.reduceOption, List.filterMap_map, Function.id_comp, List.filterMap_some]

theorem bytes_eq_reads (s : Source α) : s.bytes = s.reads.reduceOption := by
  induction s with
  | nil => rfl
  | cons delivery s ih =>
    cases delivery with
    | signal => rw [bytes, reads, List.reduceOption_cons_of_none, ih]
    | data =>
      rw [bytes, reads, List.reduceOption_cons_of_some, List.reduceOption_append,
        reduceOption_map_some, ih]

theorem read_one (s : Source α) :
    (∃ s', s.read 1 = (none, s') ∧ s.reads = none :: s'.reads) ∨
    (s.read 1 = (some [], []) ∧ s.reads = []) ∨
    ∃ x s', s.read 1 = (some [x], s') ∧ s.reads = some x :: s'.reads := by
  match s with
  | [] => exact .inr (.inl ⟨rfl, rfl⟩)
  | .signal :: s => exact .inl ⟨s, rfl, rfl⟩
  | .data x xs :: s =>
    refine .inr (.inr ⟨x, push xs s, rfl, ?_⟩)
    rw [reads_push]
    rfl

theorem reads_of_interrupted {n : Nat} (h : s.read n = (none, s')) :
    s.reads = none :: s'.reads := by
  match s with
  | [] => cases h
  | .data x xs :: s => cases h
  | .signal :: s =>
    obtain ⟨-, rfl⟩ := Prod.mk.inj h
    rfl

theorem reads_of_read {n : Nat} {chunk : List α} (h : s.read n = (some chunk, s')) :
    s.reads = chunk.map some ++ s'.reads := by
  match s with
  | [] =>
    cases h
    rfl
  | .signal :: s => cases h
  | .data x xs :: s =>
    cases h
    rw [reads_push, ← List.append_assoc, ← List.map_append, List.take_append_drop]
    rfl

variable [DecidableEq α]

/-- A line of fewer than `bound` bytes, behind what is there of it. Interrupted reads
are repeated, and the delimiter is the last byte taken. -/
def readLine (d : α) (bound : Nat) (line : List α) (source : Source α) :
    Option (List α) × Source α :=
  if line.length < bound then
    match _ : source.read 1 with
    | (none, source') => readLine d bound line source'
    | (some [], source') => (none, source')
    | (some (x :: _), source') =>
      if x = d then (some line, source') else readLine d bound (line ++ [x]) source'
  else (none, source)
termination_by source.reads.length
decreasing_by
  · rw [reads_of_interrupted ‹source.read 1 = (none, source')›]
    exact Nat.lt_succ_self _
  · rw [reads_of_read ‹source.read 1 = (some (x :: _), source')›, List.length_append,
      List.length_map, List.length_cons]
    omega

/-- **A line is read as it was written**, whatever the pieces and the signals. -/
theorem readLine_iff : (∃ s', readLine d bound line s = (some l, s') ∧ s'.bytes = back) ↔
    ∃ front, l = line ++ front ∧ s.bytes = front ++ d :: back ∧ d ∉ front ∧ l.length < bound := by
  induction hSize : s.reads.length using Nat.strongRecOn generalizing line s with
  | ind size ih =>
    subst hSize
    rw [readLine]
    by_cases hRoom : line.length < bound
    · rw [if_pos hRoom]
      split
      · -- a signal leaves the bytes as they are
        rename_i hRead
        have hReads := reads_of_interrupted hRead
        rw [ih _ (by rw [hReads]; exact Nat.lt_succ_self _) rfl, bytes_eq_reads s, hReads,
          List.reduceOption_cons_of_none, ← bytes_eq_reads]
      · rename_i hRead
        obtain ⟨-, -, -, hEnd⟩ := Source.read_some Nat.one_pos hRead
        simp [hEnd rfl]
      · rename_i x more source' hRead
        obtain ⟨-, -, hOne, -⟩ := Source.read_some Nat.one_pos hRead
        obtain rfl : more = [] := List.eq_nil_of_length_eq_zero (by
          rw [List.length_cons] at hOne
          omega)
        have hReads : s.reads = some x :: source'.reads := reads_of_read hRead
        have hBytes : s.bytes = x :: source'.bytes := by
          rw [bytes_eq_reads s, hReads, List.reduceOption_cons_of_some, ← bytes_eq_reads]
        rw [hBytes]
        by_cases hEq : x = d
        · subst hEq
          rw [if_pos rfl]
          constructor
          · rintro ⟨_, hFound, rfl⟩
            cases hFound
            exact ⟨[], (List.append_nil _).symm, rfl, List.not_mem_nil, hRoom⟩
          · rintro ⟨front, rfl, hSplit, hFree, -⟩
            cases front with
            | nil => exact ⟨source', by rw [List.append_nil], (List.cons.inj hSplit).2⟩
            | cons =>
              exact absurd ((List.cons.inj hSplit).1 ▸ List.mem_cons_self) hFree
        · rw [if_neg hEq, ih _ (by rw [hReads]; exact Nat.lt_succ_self _) rfl]
          constructor
          · rintro ⟨front, rfl, hSplit, hFree, hLength⟩
            refine ⟨x :: front, by simp, by rw [hSplit]; rfl, ?_, hLength⟩
            exact List.not_mem_cons_of_ne_of_not_mem (Ne.symm hEq) hFree
          · rintro ⟨front, rfl, hSplit, hFree, hLength⟩
            cases front with
            | nil => exact absurd (List.cons.inj hSplit).1 hEq
            | cons y front =>
              obtain ⟨rfl, hRest⟩ := List.cons.inj hSplit
              exact ⟨front, by simp, hRest, fun hIn => hFree (List.mem_cons_of_mem _ hIn), hLength⟩
    · rw [if_neg hRoom]
      constructor
      · rintro ⟨_, hFound, -⟩
        cases hFound
      · rintro ⟨front, rfl, -, -, hLength⟩
        rw [List.length_append] at hLength
        omega

end Source

/-! ## Buffered readers -/

namespace BufReader

variable {α : Type u} {r r' : BufReader α} {cap n limit : Nat}

def reads (r : BufReader α) : List (Option α) := r.buffer.map some ++ r.source.reads

theorem fillBuf_true_reads (h : r.fillBuf cap = (true, r')) : r'.reads = r.reads := by
  unfold fillBuf at h
  split at h
  · rename_i hEmpty
    split at h
    · rename_i hRead
      obtain ⟨-, rfl⟩ := Prod.mk.inj h
      rw [reads, reads, List.isEmpty_iff.mp hEmpty, Source.reads_of_read hRead]
      rfl
    · cases h
  · obtain ⟨-, rfl⟩ := Prod.mk.inj h
    rfl

theorem fillBuf_false_reads (h : r.fillBuf cap = (false, r')) : r.reads = none :: r'.reads := by
  unfold fillBuf at h
  split at h
  · rename_i hEmpty
    split at h
    · cases h
    · rename_i hRead
      obtain ⟨-, rfl⟩ := Prod.mk.inj h
      rw [reads, reads, List.isEmpty_iff.mp hEmpty, Source.reads_of_interrupted hRead]
      rfl
  · cases h

theorem reads_consume_front {front : List α} (h : front <+: r.buffer) :
    r.reads = front.map some ++ (r.consume front.length).reads := by
  obtain ⟨back, hBuffer⟩ := h
  show r.buffer.map some ++ r.source.reads =
    front.map some ++ ((r.buffer.drop front.length).map some ++ r.source.reads)
  rw [← hBuffer, List.drop_left, List.map_append, List.append_assoc]

theorem readUntil_buffer [DecidableEq α] (hCap : 0 < cap) (d : α) (hLimit : 0 < limit)
    (hThere : limit ≤ r.buffer.length) :
    readUntil cap hCap d limit r =
      (through d (r.buffer.take limit), r.consume (through d (r.buffer.take limit)).length) := by
  have hBuffer : r.buffer ≠ [] := List.length_pos_iff.mp (by omega)
  have hFill : r.fillBuf cap = (true, r) := by
    unfold fillBuf
    rw [if_neg (by simpa using hBuffer)]
  have hTake : r.buffer.take limit ≠ [] := by
    simp [hBuffer, Nat.pos_iff_ne_zero.mp hLimit]
  rw [readUntil, if_neg (by omega)]
  split
  · rename_i hOther
    rw [hFill] at hOther
    cases hOther
  · rename_i hSame
    rw [hFill] at hSame
    obtain ⟨-, rfl⟩ := Prod.mk.inj hSame
    rw [dif_neg hTake]
    split
    · rfl
    · rename_i hMem
      have hRest : limit - (r.buffer.take limit).length = 0 := by
        rw [List.length_take]
        omega
      rw [hRest, readUntil, if_pos rfl, through_of_notMem hMem]
      exact congrArg (·, r.consume _) (List.append_nil _)

end BufReader

end Forward.Lib

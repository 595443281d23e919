import Forward.Containment.Ancestry
import Forward.Daemon.UrlChannel

/-!
# The stat line of a process

The kernel's line for a process: its pid, its name in parentheses, and fields. A process may put
parentheses, spaces and newlines into its name; `stat_fields` begins behind the last closing
parenthesis, which is the kernel's own. Offsets count the bytes of a text's UTF-8 form.
-/

namespace Forward.Containment

open Lib
open Secrets (isWhiteSpace)

def rfind (sep : Char) : List Char → Option Nat
  | [] => none
  | c :: rest =>
    match rfind sep rest with
    | some offset => some (c.utf8Size + offset)
    | none => if c = sep then some 0 else none

def getFrom : Nat → List Char → Option (List Char)
  | 0, text => some text
  | _ + 1, [] => none
  | offset + 1, c :: rest =>
    -- an offset within a character is refused
    if offset + 1 < c.utf8Size then none else getFrom (offset + 1 - c.utf8Size) rest

/-- The fields of a stat line, from the third on. -/
def statFields (stat : List Char) : Option (List Char) :=
  (rfind ')' stat).bind fun offset => getFrom (offset + 2) stat

def splitWhitespace (text : List Char) : List (List Char) :=
  (text.splitOnP isWhiteSpace).filter (· ≠ [])

/-- `parent_of`, on what could be read of the stat file. -/
def parentOf (stat : Option (List Char)) : Option Int := do
  let tail ← statFields (← stat)
  parseI32 (← (splitWhitespace tail)[1]?)

/-- `read_process`, on what could be read of the two files; `lossy` is `from_utf8_lossy`. -/
def readProcess (lossy : List UInt8 → String) (cmdline : Option (List UInt8))
    (stat : Option (List Char)) : Option Process := do
  let raw ← cmdline
  let tail ← statFields (← stat)
  let parent ← parseU32 (← (splitWhitespace tail)[1]?)
  let started ← parseU64 (← (splitWhitespace tail)[19]?)
  some ⟨((raw.splitOn 0).filter (· ≠ [])).map lossy, parent, started⟩

/-! ## What the kernel writes -/

/-- A state letter and numbers, which are the fields from the fourth on. -/
structure Tail where
  state : Char
  letter : state.isAlpha = true
  numbers : List Int
  newline : Bool

def intText (n : Int) : List Char :=
  if n < 0 then '-' :: Nat.toDigits 10 n.natAbs else Nat.toDigits 10 n.natAbs

def Tail.text (tail : Tail) : List Char :=
  [tail.state] ++ (tail.numbers.map intText).flatMap (' ' :: ·) ++
    if tail.newline then ['\n'] else []

def statLine (pid : Nat) (name : List Char) (tail : Tail) : List Char :=
  Nat.toDigits 10 pid ++ ' ' :: '(' :: name ++ ')' :: ' ' :: tail.text

/-! ## Offsets -/

variable {front back : List Char}

theorem rfind_eq_none {sep : Char} (h : sep ∉ back) : rfind sep back = none := by
  induction back with
  | nil => rfl
  | cons c back ih =>
    obtain ⟨hNe, hRest⟩ := not_or.mp (mt List.mem_cons.mpr h)
    rw [rfind, ih hRest]
    exact if_neg fun hEq => hNe hEq.symm

theorem rfind_append {sep : Char} (h : sep ∉ back) :
    rfind sep (front ++ sep :: back) = some (utf8Len front) := by
  induction front with
  | nil =>
    rw [List.nil_append, rfind, rfind_eq_none h]
    exact if_pos rfl
  | cons c front ih =>
    rw [List.cons_append, rfind, ih]
    rfl

theorem getFrom_append (offset : Nat) :
    getFrom (utf8Len front + offset) (front ++ back) = getFrom offset back := by
  induction front with
  | nil => rw [List.nil_append, show utf8Len [] = 0 from rfl, Nat.zero_add]
  | cons c front ih =>
    have hLen : utf8Len (c :: front) = c.utf8Size + utf8Len front := rfl
    have hPos := c.utf8Size_pos
    obtain ⟨n, hn⟩ : ∃ n, utf8Len (c :: front) + offset = n + 1 :=
      ⟨utf8Len (c :: front) + offset - 1, by omega⟩
    rw [hn, List.cons_append, getFrom, if_neg (by omega), ← ih]
    congr 1
    omega

/-- **The fields begin behind the last closing parenthesis.** -/
theorem statFields_append (h : ')' ∉ back) :
    statFields (front ++ ')' :: ' ' :: back) = some back := by
  have hLast : ')' ∉ ' ' :: back := by simpa using h
  have hSize : Char.utf8Size ')' = 1 ∧ Char.utf8Size ' ' = 1 := by decide
  rw [statFields, rfind_append hLast, Option.bind_some, getFrom_append]
  simp [getFrom, hSize]

theorem splitWhitespace_word {word rest : List Char} {space : Char} (hNe : word ≠ [])
    (hWord : ∀ c ∈ word, isWhiteSpace c = false) (hSpace : isWhiteSpace space) :
    splitWhitespace (word ++ space :: rest) = word :: splitWhitespace rest := by
  rw [splitWhitespace, List.splitOnP_append_cons _ _ hSpace, List.splitOnP_eq_singleton hWord,
    List.singleton_append, List.filter_cons_of_pos (by simpa using hNe)]
  rfl

theorem splitWhitespace_words {word : List Char} {words : List (List Char)} (newline : Bool)
    (h : ∀ w ∈ word :: words, w ≠ [] ∧ ∀ c ∈ w, isWhiteSpace c = false) :
    splitWhitespace (word ++ words.flatMap (' ' :: ·) ++ if newline then ['\n'] else []) =
      word :: words := by
  obtain ⟨⟨hNe, hWord⟩, hWords⟩ := List.forall_mem_cons.mp h
  induction words generalizing word with
  | nil =>
    cases newline with
    | true =>
      rw [List.flatMap_nil, List.append_nil]
      exact splitWhitespace_word hNe hWord (by decide)
    | false => simp [splitWhitespace, List.splitOnP_eq_singleton hWord, hNe]
  | cons next words ih =>
    obtain ⟨hNext, hOthers⟩ := List.forall_mem_cons.mp hWords
    rw [List.flatMap_cons, List.append_assoc, List.append_assoc, List.cons_append,
      splitWhitespace_word hNe hWord (by decide), ← List.append_assoc,
      ih hWords hOthers hNext.1 hNext.2]

theorem visible_of_isAlpha {c : Char} (h : c.isAlpha) :
    isAsciiGraphic c ∧ c ≠ ')' := by
  have hCase : (c.isUpper || c.isLower) = true := h
  rw [Bool.or_eq_true, isUpper_iff, isLower_iff] at hCase
  have hRange : 65 ≤ c.toNat ∧ c.toNat ≤ 122 := by omega
  refine ⟨isAsciiGraphic_iff.mpr (by omega), ?_⟩
  rintro rfl
  exact absurd hRange (by decide)

theorem visible_of_mem_intText {n : Int} {c : Char} (h : c ∈ intText n) :
    isAsciiGraphic c ∧ c ≠ ')' := by
  have hDigits : ∀ d ∈ Nat.toDigits 10 n.natAbs, isAsciiGraphic d ∧ d ≠ ')' := by
    intro d hd
    have hDigit := isDigit_of_mem_decimal hd
    refine ⟨isAsciiGraphic_of_isDigit hDigit, ?_⟩
    rintro rfl
    cases hDigit
  unfold intText at h
  split at h
  · rcases List.mem_cons.mp h with rfl | h
    · decide
    · exact hDigits c h
  · exact hDigits c h

theorem plain_field {tail : Tail} {field : List Char}
    (h : field ∈ [tail.state] :: tail.numbers.map intText) :
    field ≠ [] ∧ ∀ c ∈ field, isAsciiGraphic c ∧ c ≠ ')' := by
  rcases List.mem_cons.mp h with rfl | hNumber
  · refine ⟨nofun, fun c hc => ?_⟩
    rw [List.mem_singleton.mp hc]
    exact visible_of_isAlpha tail.letter
  · obtain ⟨n, -, rfl⟩ := List.mem_map.mp hNumber
    refine ⟨?_, fun c => visible_of_mem_intText⟩
    unfold intText
    split
    · exact nofun
    · exact Nat.toDigits_ne_nil

theorem splitWhitespace_text (tail : Tail) :
    splitWhitespace tail.text = [tail.state] :: tail.numbers.map intText := by
  refine splitWhitespace_words tail.newline fun field hField => ?_
  obtain ⟨hNe, hVisible⟩ := plain_field hField
  exact ⟨hNe, fun c hc => Daemon.isWhiteSpace_of_visible (hVisible c hc).1⟩

theorem paren_notMem_text (tail : Tail) : ')' ∉ tail.text := by
  intro h
  rw [Tail.text, List.mem_append, List.mem_append, List.mem_flatMap] at h
  rcases h with (hState | ⟨field, hField, hc⟩) | hEnd
  · exact ((plain_field List.mem_cons_self).2 _ hState).2 rfl
  · rcases List.mem_cons.mp hc with hSpace | hc
    · cases hSpace
    · exact ((plain_field (List.mem_cons_of_mem _ hField)).2 _ hc).2 rfl
  · cases tail.newline <;> simp at hEnd

theorem parseU64_intText (n : Int) :
    parseU64 (intText n) = if 0 ≤ n ∧ n < 2 ^ 64 then some n.toNat else none := by
  unfold intText
  by_cases hSign : n < 0
  · rw [if_pos hSign, if_neg (by omega)]
    simp [parseU64, stripPrefix, List.isPrefixOf]
  · obtain ⟨k, rfl⟩ := Int.eq_ofNat_of_zero_le (not_lt.mp hSign)
    rw [if_neg hSign, Int.natAbs_natCast, parseU64_decimal, Int.toNat_natCast]
    refine if_congr ?_ rfl rfl
    omega

theorem filter_ite {α : Type} {P : Prop} [Decidable P] (x : α) (q : α → Prop) [DecidablePred q] :
    (if P then some x else none).filter (q ·) = if P ∧ q x then some x else none := by
  by_cases hP : P <;> by_cases hq : q x <;> simp [hP, hq, Option.filter_some]

theorem parseU32_intText (n : Int) :
    parseU32 (intText n) = if 0 ≤ n ∧ n < 2 ^ 32 then some n.toNat else none := by
  rw [parseU32, parseU64_intText, filter_ite]
  refine if_congr ?_ rfl rfl
  omega

theorem parseI32_intText (n : Int) :
    parseI32 (intText n) = if -2 ^ 31 ≤ n ∧ n < 2 ^ 31 then some n else none := by
  have hParse := parseU64_decimal n.natAbs
  -- the digits start with no sign
  obtain ⟨d, digits, hDigits⟩ := List.exists_cons_of_ne_nil (@Nat.toDigits_ne_nil n.natAbs 10)
  have hDigit : d.isDigit := isDigit_of_mem_decimal (hDigits ▸ List.mem_cons_self)
  have hSign : d ≠ '+' ∧ d ≠ '-' := by
    constructor <;> (rintro rfl; revert hDigit; decide)
  unfold intText
  rw [hDigits] at hParse ⊢
  split
  · have hMinus : parseI32 ('-' :: d :: digits) =
        ((parseU64 (d :: digits)).filter (· ≤ 2 ^ 31)).bind fun n => some (-(n : Int)) := by
      simp [parseI32, hSign]
    rw [hMinus, hParse, filter_ite]
    split
    · rw [Option.bind_some, if_pos (by omega)]
      exact congrArg some (by omega)
    · exact (if_neg (by omega)).symm
  · have hPlain : parseI32 (d :: digits) =
        ((parseU64 (d :: digits)).filter (· < 2 ^ 31)).bind fun n => some (n : Int) := by
      simp [parseI32, hSign]
    rw [hPlain, hParse, filter_ite]
    split
    · rw [Option.bind_some, if_pos (by omega)]
      exact congrArg some (by omega)
    · exact (if_neg (by omega)).symm

/-- **A process name cannot forge ancestry.** Whatever name a process takes, the fields of its
stat line are the kernel's, and its parent and its start time are the fourth and the
twenty-second of them, if they fit the types they are read as. -/
theorem name_forges_no_ancestry (pid : Nat) (name : List Char) (tail : Tail)
    (lossy : List UInt8 → String) (cmdline : Option (List UInt8)) :
    statFields (statLine pid name tail) = some tail.text ∧
    parentOf (some (statLine pid name tail)) =
      (tail.numbers[0]?.bind fun n => if -2 ^ 31 ≤ n ∧ n < 2 ^ 31 then some n else none) ∧
    readProcess lossy cmdline (some (statLine pid name tail)) =
      cmdline.bind fun raw =>
        (tail.numbers[0]?.bind fun n => if 0 ≤ n ∧ n < 2 ^ 32 then some n.toNat else none).bind
          fun parent =>
        (tail.numbers[18]?.bind fun n => if 0 ≤ n ∧ n < 2 ^ 64 then some n.toNat else none).bind
          fun started =>
        some ⟨((raw.splitOn 0).filter (· ≠ [])).map lossy, parent, started⟩ := by
  have hFields : statFields (statLine pid name tail) = some tail.text := by
    have hLine : statLine pid name tail =
        (Nat.toDigits 10 pid ++ ' ' :: '(' :: name) ++ ')' :: ' ' :: tail.text := by
      simp [statLine]
    rw [hLine, statFields_append (paren_notMem_text tail)]
  refine ⟨hFields, ?_, ?_⟩
  · unfold parentOf
    simp only [Option.bind_eq_bind, Option.bind_some, hFields, splitWhitespace_text,
      List.getElem?_cons_succ, List.getElem?_map, Option.bind_map, Function.comp_def, parseI32_intText]
  · unfold readProcess
    simp only [Option.bind_eq_bind, Option.bind_some, hFields, splitWhitespace_text,
      List.getElem?_cons_succ, List.getElem?_map, Option.bind_map, Function.comp_def, Option.bind_assoc,
      parseU32_intText, parseU64_intText]

end Forward.Containment

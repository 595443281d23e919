import Mathlib.Data.List.Induction
import Mathlib.Data.Nat.Digits.Defs
import Forward.Lib.Ascii

/-!
# Texts of network addresses

The standard library's readers of IPv4 and IPv6 addresses, and the texts that a URL serialiser
writes. An address is a list of pieces, the highest first. The readers take more texts than the
serialiser writes, except that an IPv4 address has one text only.
-/

namespace Forward.Lib

/-! ## Pieces of a number -/

/-- The last `count` digits of a number in some base, the highest first. -/
def pieces (base : Nat) : Nat → Nat → List Nat
  | 0, _ => []
  | count + 1, n => pieces base count (n / base) ++ [n % base]

def ofPieces (base : Nat) (ps : List Nat) : Nat := ps.foldl (fun n p => n * base + p) 0

theorem ofPieces_concat (base : Nat) (ps : List Nat) (p : Nat) :
    ofPieces base (ps ++ [p]) = ofPieces base ps * base + p := by
  simp [ofPieces, List.foldl_append]

theorem length_pieces (base count n : Nat) : (pieces base count n).length = count := by
  induction count generalizing n with
  | zero => rfl
  | succ count ih => rw [pieces, List.length_append, ih, List.length_singleton]

theorem ofPieces_pieces (base count n : Nat) :
    ofPieces base (pieces base count n) = n % base ^ count := by
  induction count generalizing n with
  | zero => rw [Nat.pow_zero, Nat.mod_one]; rfl
  | succ count ih =>
    rw [pieces, ofPieces_concat, ih, Nat.pow_succ', Nat.mod_mul]
    ring

theorem pieces_ofPieces {base : Nat} {ps : List Nat} (h : ∀ p ∈ ps, p < base) :
    pieces base ps.length (ofPieces base ps) = ps := by
  induction ps using List.reverseRecOn with
  | nil => rfl
  | append_singleton front p ih =>
    have hLast : p < base := h p (by simp)
    have hFront := ih fun q hq => h q (List.mem_append_left _ hq)
    rw [List.length_append, List.length_singleton, pieces, ofPieces_concat, Nat.mul_comm,
      Nat.mul_add_div (by omega), Nat.div_eq_of_lt hLast, Nat.add_zero, hFront,
      Nat.mul_add_mod, Nat.mod_eq_of_lt hLast]

theorem ofPieces_lt {base : Nat} {ps : List Nat} (h : ∀ p ∈ ps, p < base) :
    ofPieces base ps < base ^ ps.length := by
  have hMod := ofPieces_pieces base ps.length (ofPieces base ps)
  rw [pieces_ofPieces h] at hMod
  cases ps with
  | nil => exact Nat.one_pos
  | cons p =>
    have hBase : 0 < base := Nat.lt_of_le_of_lt (Nat.zero_le p) (h p List.mem_cons_self)
    rw [hMod]
    exact Nat.mod_lt _ (Nat.pow_pos hBase)

/-! ## Digits -/

def toDigit (radix : Nat) (c : Char) : Option Nat :=
  let value :=
    if '0' ≤ c ∧ c ≤ '9' then c.toNat - 48
    else if 'a' ≤ c ∧ c ≤ 'z' then c.toNat - 87
    else if 'A' ≤ c ∧ c ≤ 'Z' then c.toNat - 55
    else radix
  if value < radix then some value else none

def isDigitIn (radix : Nat) (c : Char) : Bool := (toDigit radix c).isSome

def digitsIn (radix : Nat) (digits : List Char) : Nat :=
  ofPieces radix (digits.map fun c => (toDigit radix c).getD 0)

theorem digitChar_hex : ∀ d : Fin 16, toDigit 16 (Nat.digitChar d) = some d.val ∧
    Nat.digitChar d ∉ ['.', ':', '[', ']'] ∧ (Nat.digitChar d).toLower = Nat.digitChar d := by
  decide +kernel

theorem mem_toDigits {base n : Nat} {c : Char} (hBase : 1 < base) (h : c ∈ Nat.toDigits base n) :
    ∃ d < base, c = Nat.digitChar d := by
  induction n using Nat.strongRecOn with
  | ind n ih =>
    rcases Nat.lt_or_ge n base with hSmall | hLarge
    · rw [Nat.toDigits_of_lt_base hSmall, List.mem_singleton] at h
      exact ⟨n, hSmall, h⟩
    · rw [Nat.toDigits_of_base_le hBase hLarge, List.mem_append, List.mem_singleton] at h
      rcases h with hFront | hLast
      · exact ih (n / base) (Nat.div_lt_self (by omega) hBase) hFront
      · exact ⟨n % base, Nat.mod_lt n (by omega), hLast⟩

/-! ## Readers -/

/-- `read_number`: all the digits that stand at the front, if they are not too many. -/
def readNumber (radix maxDigits : Nat) (allowZero : Bool) (bound : Nat) (text : List Char) :
    Option (Nat × List Char) :=
  let digits := text.takeWhile (isDigitIn radix)
  if digits = [] ∨ maxDigits < digits.length then none
  else if !allowZero && digits.head? = some '0' && 1 < digits.length then none
  else if digitsIn radix digits < bound then
    some (digitsIn radix digits, text.dropWhile (isDigitIn radix))
  else none

/-- `read_separator`: every part but the first stands behind a separator. -/
def readSeparator {α : Type} (sep : Char) (index : Nat) (inner : List Char → Option α)
    (text : List Char) : Option α :=
  if index = 0 then inner text
  else
    match text with
    | c :: rest => if c = sep then inner rest else none
    | [] => none

def readOctets (i : Nat) : Nat → List Char → Option (List Nat × List Char)
  | 0, text => some ([], text)
  | left + 1, text => do
    let (octet, rest) ← readSeparator '.' i (readNumber 10 3 false 256) text
    let (octets, rest) ← readOctets (i + 1) left rest
    some (octet :: octets, rest)

def readIpv4 (text : List Char) : Option (List Nat × List Char) := readOctets 0 4 text

def embedded (octets : List Nat) : List Nat := pieces 65536 2 (ofPieces 256 octets)

/-- The loop of `read_groups`, from some group on: the groups, whether an IPv4 address ends
them, and the rest of the text. -/
def readGroups (i : Nat) : Nat → List Char → List Nat × Bool × List Char
  | 0, text => ([], false, text)
  | left + 1, text =>
    -- an IPv4 address takes two groups
    match if 0 < left then readSeparator ':' i readIpv4 text else none with
    | some (octets, rest) => (embedded octets, true, rest)
    | none =>
      match readSeparator ':' i (readNumber 16 4 true 65536) text with
      | none => ([], false, text)
      | some (group, rest) =>
        let (groups, isIpv4, rest) := readGroups (i + 1) left rest
        (group :: groups, isIpv4, rest)

/-- `read_ipv6_addr`: eight groups, or fewer around `::`. -/
def readIpv6 (text : List Char) : Option (List Nat × List Char) :=
  let (head, headIpv4, rest) := readGroups 0 8 text
  if head.length = 8 then some (head, rest)
  else if headIpv4 then none
  else
    match rest with
    | ':' :: ':' :: rest =>
      let (tail, _, rest) := readGroups 0 (8 - (head.length + 1)) rest
      some (head ++ List.replicate (8 - head.length - tail.length) 0 ++ tail, rest)
    | _ => none

/-! ## Texts -/

def separator (sep : Char) (index : Nat) : List Char := if index = 0 then [] else [sep]

def separated (sep : Char) (i : Nat) : List (List Char) → List Char
  | [] => []
  | part :: parts => separator sep i ++ part ++ separated sep (i + 1) parts

def ipv4Text (octets : List Nat) : List Char := separated '.' 0 (octets.map (Nat.toDigits 10))

/-- The first longest run of zeros, between what stands before and behind it. -/
def longestRun : List Nat → List Nat × Nat × List Nat
  | [] => ([], 0, [])
  | group :: groups =>
    let (before, length, after) := longestRun groups
    let run := ((group :: groups).takeWhile (· = 0)).length
    if length ≤ run then ([], run, (group :: groups).drop run)
    else (group :: before, length, after)

def groupsText (groups : List Nat) : List Char := separated ':' 0 (groups.map (Nat.toDigits 16))

/-- The first longest run of at least two zeros is compressed. -/
def ipv6Text (groups : List Nat) : List Char :=
  let (before, length, after) := longestRun groups
  if length < 2 then groupsText groups else groupsText before ++ ':' :: ':' :: groupsText after

/-! ## Separators -/

section

variable {α : Type} {sep c : Char} {i : Nat} {inner : List Char → Option α}
  {text : List Char} {found : α}

theorem eq_of_readSeparator (h : readSeparator sep i inner text = some found) :
    ∃ rest, text = separator sep i ++ rest ∧ inner rest = some found := by
  unfold readSeparator at h
  unfold separator
  by_cases hFirst : i = 0
  · rw [if_pos hFirst] at h ⊢
    exact ⟨text, rfl, h⟩
  · rw [if_neg hFirst] at h ⊢
    split at h
    · split at h
      · rename_i hSep
        exact ⟨_, by rw [hSep]; rfl, h⟩
      · cases h
    · cases h

theorem mem_separated {parts : List (List Char)} (h : c ∈ separated sep i parts) :
    c = sep ∨ ∃ part ∈ parts, c ∈ part := by
  induction parts generalizing i with
  | nil => cases h
  | cons part parts ih =>
    rw [separated, List.mem_append, List.mem_append] at h
    rcases h with (hSep | hPart) | hRest
    · unfold separator at hSep
      split at hSep
      · cases hSep
      · exact .inl (List.mem_singleton.mp hSep)
    · exact .inr ⟨part, List.mem_cons_self, hPart⟩
    · exact (ih hRest).imp_right fun ⟨other, hOther, hc⟩ =>
        ⟨other, List.mem_cons_of_mem _ hOther, hc⟩

end

/-! ## IPv4 addresses -/

variable {text rest : List Char} {octets groups : List Nat}

theorem isDigitIn_ten {c : Char} (h : isDigitIn 10 c) :
    c.isDigit ∧ (toDigit 10 c).getD 0 = c.toNat - 48 := by
  unfold isDigitIn toDigit at h
  unfold toDigit
  by_cases hDigit : '0' ≤ c ∧ c ≤ '9'
  · simp only [if_pos hDigit] at h ⊢
    have hSmall : c.toNat - 48 < 10 := by
      by_contra hLarge
      rw [if_neg hLarge] at h
      cases h
    rw [if_pos hSmall]
    refine ⟨?_, rfl⟩
    simp only [Char.isDigit, Bool.and_eq_true, decide_eq_true_eq]
    exact hDigit
  · simp only [if_neg hDigit] at h
    -- letters are worth ten and more
    exfalso
    split at h
    · rename_i hLower
      have hLow : 97 ≤ c.toNat := UInt32.le_iff_toNat_le.mp hLower.1
      rw [if_neg (by omega)] at h
      cases h
    · split at h
      · rename_i hUpper
        have hLow : 65 ≤ c.toNat := UInt32.le_iff_toNat_le.mp hUpper.1
        rw [if_neg (by omega)] at h
        cases h
      · rw [if_neg (Nat.lt_irrefl 10)] at h
        cases h

theorem digitsIn_ten {digits : List Char} (h : ∀ c ∈ digits, isDigitIn 10 c) :
    digitsIn 10 digits = digitsValue digits := by
  induction digits using List.reverseRecOn with
  | nil => rfl
  | append_singleton front c ih =>
    have hFront := ih fun d hd => h d (List.mem_append_left _ hd)
    have hLast := (isDigitIn_ten (h c (by simp))).2
    unfold digitsIn at hFront ⊢
    rw [List.map_append, List.map_singleton, ofPieces_concat, hFront, digitsValue_concat, hLast,
      Nat.mul_comm]
    rfl

theorem of_mem_takeWhile {α : Type} {p : α → Bool} {xs : List α} :
    ∀ x ∈ xs.takeWhile p, p x = true :=
  List.all_eq_true.mp List.all_takeWhile

theorem eq_of_readNumber {maxDigits bound octet : Nat}
    (h : readNumber 10 maxDigits false bound text = some (octet, rest)) :
    octet < bound ∧ text = Nat.toDigits 10 octet ++ rest := by
  unfold readNumber at h
  dsimp only at h
  split at h
  · cases h
  rename_i hSize
  obtain ⟨hNe, -⟩ := not_or.mp hSize
  split at h
  · cases h
  rename_i hZero
  split at h
  swap
  · cases h
  rename_i hBound
  obtain ⟨hOctet, hRest⟩ := Prod.mk.inj (Option.some.inj h)
  have hDigits : ∀ c ∈ text.takeWhile (isDigitIn 10), isDigitIn 10 c = true := of_mem_takeWhile
  obtain ⟨zeros, hText⟩ := decimal_of_digits hNe
    (List.all_eq_true.mpr fun c hc => (isDigitIn_ten (hDigits c hc)).1)
  rw [← digitsIn_ten hDigits, hOctet] at hText
  have hNone : zeros = 0 := by
    by_contra hSome
    obtain ⟨more, rfl⟩ := Nat.exists_eq_succ_of_ne_zero hSome
    have hLength := List.length_pos_iff.mpr (@Nat.toDigits_ne_nil octet 10)
    refine hZero ?_
    rw [hText]
    simp [List.replicate_succ]
    omega
  rw [hNone, List.replicate_zero, List.nil_append] at hText
  refine ⟨hOctet ▸ hBound, ?_⟩
  rw [← hText, ← hRest, List.takeWhile_append_dropWhile]

theorem eq_of_readOctets {i left : Nat} (h : readOctets i left text = some (octets, rest)) :
    octets.length = left ∧ (∀ octet ∈ octets, octet < 256) ∧
      text = separated '.' i (octets.map (Nat.toDigits 10)) ++ rest := by
  induction left generalizing i text octets with
  | zero =>
    cases h
    simp [separated]
  | succ left ih =>
    simp only [readOctets, Option.bind_eq_bind, Option.bind_eq_some_iff, Prod.exists] at h
    obtain ⟨octet, middle, hOctet, others, last, hOthers, hFound⟩ := h
    cases hFound
    obtain ⟨front, rfl, hNumber⟩ := eq_of_readSeparator hOctet
    obtain ⟨hBound, rfl⟩ := eq_of_readNumber hNumber
    obtain ⟨hLength, hBounds, rfl⟩ := ih hOthers
    refine ⟨by rw [List.length_cons, hLength], List.forall_mem_cons.mpr ⟨hBound, hBounds⟩, ?_⟩
    rw [List.map_cons, separated]
    simp only [List.append_assoc]

/-- **An IPv4 address has one text only.** -/
theorem eq_of_readIpv4 (h : readIpv4 text = some (octets, rest)) :
    octets.length = 4 ∧ (∀ octet ∈ octets, octet < 256) ∧ text = ipv4Text octets ++ rest :=
  eq_of_readOctets h

theorem readIpv6_of_readIpv4 (h : readIpv4 text = some (octets, rest)) :
    readIpv6 text = none := by
  have hGroups : readGroups 0 8 text = (embedded octets, true, rest) := by
    have hFirst : readSeparator ':' 0 readIpv4 text = some (octets, rest) := h
    simp only [readGroups, if_pos (show 0 < 7 by omega), hFirst]
  have hLength : (embedded octets).length ≠ 8 := by
    rw [embedded, length_pieces]
    omega
  unfold readIpv6
  simp only [hGroups, if_neg hLength, if_pos]

/-! ## IPv6 addresses -/

theorem longestRun_eq (groups : List Nat) :
    (longestRun groups).1 ++ List.replicate (longestRun groups).2.1 0 ++ (longestRun groups).2.2 =
      groups := by
  induction groups with
  | nil => rfl
  | cons group groups ih =>
    rw [longestRun]
    dsimp only
    split
    · -- the run that starts here
      have hZeros : (group :: groups).takeWhile (· = 0) =
          List.replicate ((group :: groups).takeWhile (· = 0)).length 0 :=
        List.eq_replicate_of_mem fun x hx => of_decide_eq_true (of_mem_takeWhile x hx)
      have hDrop : (group :: groups).drop ((group :: groups).takeWhile (· = 0)).length =
          (group :: groups).dropWhile (· = 0) := by
        have hSplit : (group :: groups).takeWhile (· = 0) ++ (group :: groups).dropWhile (· = 0) =
            group :: groups := List.takeWhile_append_dropWhile
        conv_lhs => arg 2; rw [← hSplit]
        rw [List.drop_left]
      rw [← hZeros, hDrop, List.nil_append, List.takeWhile_append_dropWhile]
    · rw [List.cons_append, List.cons_append, ih]

theorem mem_groupsText {c : Char} (h : c ∈ groupsText groups) :
    c = ':' ∨ ∃ d : Fin 16, c = Nat.digitChar d := by
  refine (mem_separated h).imp_right ?_
  rintro ⟨part, hPart, hc⟩
  obtain ⟨group, -, rfl⟩ := List.mem_map.mp hPart
  obtain ⟨d, hd, rfl⟩ := mem_toDigits (by omega) hc
  exact ⟨⟨d, hd⟩, rfl⟩

theorem mem_ipv6Text {c : Char} (h : c ∈ ipv6Text groups) :
    c = ':' ∨ ∃ d : Fin 16, c = Nat.digitChar d := by
  unfold ipv6Text at h
  dsimp only at h
  split at h
  · exact mem_groupsText h
  · rcases List.mem_append.mp h with hBefore | hRest
    · exact mem_groupsText hBefore
    · rcases List.mem_cons.mp hRest with rfl | hRest
      · exact .inl rfl
      · rcases List.mem_cons.mp hRest with rfl | hAfter
        · exact .inl rfl
        · exact mem_groupsText hAfter

theorem plain_of_mem_ipv6Text {c : Char} (h : c ∈ ipv6Text groups) :
    c ∉ ['.', '[', ']'] ∧ c.toLower = c := by
  rcases mem_ipv6Text h with rfl | ⟨d, rfl⟩
  · decide
  · obtain ⟨-, hPlain, hLower⟩ := digitChar_hex d
    simp only [List.mem_cons, List.not_mem_nil, or_false, not_or] at hPlain ⊢
    exact ⟨⟨hPlain.1, hPlain.2.2.1, hPlain.2.2.2⟩, hLower⟩

theorem eq_one_of_toDigits {group : Nat} (h : Nat.toDigits 16 group = ['1']) : group = 1 := by
  rcases Nat.lt_or_ge group 16 with hSmall | hLarge
  · have hOnly : ∀ d : Fin 16, Nat.digitChar d = '1' → d.val = 1 := by decide
    rw [Nat.toDigits_of_lt_base hSmall, List.singleton_inj] at h
    exact hOnly ⟨group, hSmall⟩ h
  · have hFront := List.length_pos_iff.mpr (@Nat.toDigits_ne_nil (group / 16) 16)
    have hLength := congrArg List.length h
    rw [Nat.toDigits_of_base_le (by omega) hLarge, List.length_append, List.length_singleton,
      List.length_singleton] at hLength
    omega

theorem eq_nil_of_groupsText (h : groupsText groups ++ rest = ':' :: text) : groups = [] := by
  cases groups with
  | nil => rfl
  | cons group others =>
    obtain ⟨c, digits, hDigits⟩ := List.exists_cons_of_ne_nil (@Nat.toDigits_ne_nil group 16)
    obtain ⟨d, hd, rfl⟩ := mem_toDigits (by omega) (hDigits ▸ List.mem_cons_self)
    rw [groupsText, List.map_cons, separated, hDigits] at h
    have hColon : Nat.digitChar d = ':' := (List.cons.inj h).1
    exact absurd (by simp [hColon]) (digitChar_hex ⟨d, hd⟩).2.1

/-- **One address is written `::1`.** -/
theorem eq_one_of_ipv6Text (hLength : groups.length = 8) (h : ipv6Text groups = [':', ':', '1']) :
    groups = [0, 0, 0, 0, 0, 0, 0, 1] := by
  have hRun := longestRun_eq groups
  unfold ipv6Text at h
  generalize longestRun groups = run at hRun h
  obtain ⟨before, length, after⟩ := run
  dsimp only at hRun h
  split at h
  · rw [← List.append_nil (groupsText groups)] at h
    rw [eq_nil_of_groupsText h] at hLength
    cases hLength
  · obtain rfl := eq_nil_of_groupsText h
    have hAfter : groupsText after = ['1'] := by simpa [groupsText, separated] using h
    cases after with
    | nil => cases hAfter
    | cons group others =>
      rw [groupsText, List.map_cons, separated] at hAfter
      rcases List.append_eq_singleton_iff.mp hAfter with ⟨hNone, -⟩ | ⟨hOne, hOthers⟩
      · exact absurd hNone Nat.toDigits_ne_nil
      · obtain rfl := eq_one_of_toDigits hOne
        cases others with
        | nil =>
          rw [← hRun] at hLength ⊢
          obtain rfl : length = 7 := by simpa using hLength
          rfl
        | cons => simp [separated, separator] at hOthers

end Forward.Lib

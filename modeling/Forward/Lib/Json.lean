import Forward.Lib.AddressText

/-!
# JSON

A decoder for the texts of RFC 8259, over lists of characters. A number is its digits and a
power of ten, so that nothing is rounded; a surrogate escape is read with its other half, and
refused alone. `Reads` and `ReadsMembers` say that a text is read back; they have a rule for
each kind of value, and for a member.
-/

namespace Forward.Lib

inductive Json
  | null
  | bool (value : Bool)
  -- `coefficient` times ten to the power `exponent`
  | number (negative : Bool) (coefficient : Nat) (exponent : Int)
  | string (text : List Char)
  | array (elements : List Json)
  | object (members : List (List Char × Json))

namespace Json

def skipSpace (text : List Char) : List Char := text.dropWhile (· ∈ [' ', '\t', '\n', '\r'])

def expect (c : Char) (text : List Char) : Option (List Char) := stripPrefix [c] (skipSpace text)

def readHex4 : List Char → Option (Nat × List Char)
  | a :: b :: c :: d :: rest => do
    let digits ← [a, b, c, d].mapM (toDigit 16)
    some (ofPieces 16 digits, rest)
  | _ => none

def readUnicode (text : List Char) : Option (Char × List Char) := do
  let (unit, rest) ← readHex4 text
  if 0xd800 ≤ unit ∧ unit < 0xe000 then
    let (low, rest) ← readHex4 (← stripPrefix ['\\', 'u'] rest)
    if unit < 0xdc00 ∧ 0xdc00 ≤ low ∧ low < 0xe000 then
      some (Char.ofNat (0x10000 + (unit - 0xd800) * 0x400 + (low - 0xdc00)), rest)
    else none
  else some (Char.ofNat unit, rest)

def readEscape : List Char → Option (Char × List Char)
  | '"' :: rest => some ('"', rest)
  | '\\' :: rest => some ('\\', rest)
  | '/' :: rest => some ('/', rest)
  | 'b' :: rest => some ('\x08', rest)
  | 'f' :: rest => some ('\x0c', rest)
  | 'n' :: rest => some ('\n', rest)
  | 'r' :: rest => some ('\r', rest)
  | 't' :: rest => some ('\t', rest)
  | 'u' :: rest => readUnicode rest
  | _ => none

def readString : Nat → List Char → Option (List Char × List Char)
  | 0, _ => none
  | _, [] => none
  | fuel + 1, c :: rest =>
    if c = '"' then some ([], rest)
    else
      let first := if c = '\\' then readEscape rest
        else if c.toNat < 32 then none else some (c, rest)
      match first with
      | none => none
      | some (c, rest) => (readString fuel rest).map fun (text, rest) => (c :: text, rest)

def readDigits (text : List Char) : Option (List Char × List Char) :=
  let digits := text.takeWhile Char.isDigit
  if digits = [] then none else some (digits, text.dropWhile Char.isDigit)

def readInteger (text : List Char) : Option (List Char × List Char) :=
  match text with
  | '0' :: rest => some (['0'], rest)
  | _ => readDigits text

def readFraction (text : List Char) : Option (List Char × List Char) :=
  match text with
  | '.' :: rest => readDigits rest
  | _ => some ([], text)

def readExponent (text : List Char) : Option (Int × List Char) :=
  match text with
  | c :: rest =>
    if c = 'e' ∨ c = 'E' then do
      let (negative, rest) := match rest with
        | '-' :: rest => (true, rest)
        | '+' :: rest => (false, rest)
        | _ => (false, rest)
      let (digits, rest) ← readDigits rest
      some (if negative then -(digitsValue digits : Int) else digitsValue digits, rest)
    else some (0, text)
  | [] => some (0, text)

def readNumber (text : List Char) : Option (Json × List Char) := do
  let negative := text.head? == some '-'
  let (whole, rest) ← readInteger (if negative then text.drop 1 else text)
  let (fraction, rest) ← readFraction rest
  let (exponent, rest) ← readExponent rest
  some (number negative (digitsValue (whole ++ fraction)) (exponent - fraction.length), rest)

mutual

def readValue : Nat → List Char → Option (Json × List Char)
  | 0, _ => none
  | fuel + 1, text =>
    match skipSpace text with
    | '"' :: rest => (readString fuel rest).map fun (text, rest) => (string text, rest)
    | '\x7b' :: rest =>
      match skipSpace rest with
      | '\x7d' :: rest => some (object [], rest)
      | rest => (readMembers fuel rest).map fun (members, rest) => (object members, rest)
    | '[' :: rest =>
      match skipSpace rest with
      | ']' :: rest => some (array [], rest)
      | rest => (readElements fuel rest).map fun (elements, rest) => (array elements, rest)
    | 'n' :: 'u' :: 'l' :: 'l' :: rest => some (null, rest)
    | 't' :: 'r' :: 'u' :: 'e' :: rest => some (bool true, rest)
    | 'f' :: 'a' :: 'l' :: 's' :: 'e' :: rest => some (bool false, rest)
    | text => readNumber text

def readElements : Nat → List Char → Option (List Json × List Char)
  | 0, _ => none
  | fuel + 1, text => do
    let (element, rest) ← readValue fuel text
    match skipSpace rest with
    | ']' :: rest => some ([element], rest)
    | ',' :: rest =>
      (readElements fuel rest).map fun (elements, rest) => (element :: elements, rest)
    | _ => none

def readMembers : Nat → List Char → Option (List (List Char × Json) × List Char)
  | 0, _ => none
  | fuel + 1, text => do
    let (name, rest) ← readString fuel (← expect '"' text)
    let (value, rest) ← readValue fuel (← expect ':' rest)
    match skipSpace rest with
    | '\x7d' :: rest => some ([(name, value)], rest)
    | ',' :: rest =>
      (readMembers fuel rest).map fun (members, rest) => ((name, value) :: members, rest)
    | _ => none

end

def decode (text : List Char) : Option Json :=
  match readValue (text.length + 1) text with
  | some (value, rest) => if skipSpace rest = [] then some value else none
  | none => none

/-! ## Strings -/

variable {fuel : Nat} {text rest : List Char}

theorem readString_pieces {piece : Char → List Char}
    (h : ∀ c ∈ text, ∀ fuel rest, readString (fuel + 1) (piece c ++ rest) =
      (readString fuel rest).map fun (more, rest) => (c :: more, rest))
    (hFuel : text.length < fuel) :
    readString fuel (text.flatMap piece ++ '"' :: rest) = some (text, rest) := by
  induction text generalizing fuel with
  | nil =>
    obtain ⟨k, rfl⟩ := Nat.exists_eq_add_of_lt hFuel
    simp [readString]
  | cons c text ih =>
    obtain ⟨k, rfl⟩ := Nat.exists_eq_add_of_lt hFuel
    have hMore := @ih ((c :: text).length + k) (fun d hd => h d (List.mem_cons_of_mem _ hd))
      (by simp; omega)
    rw [List.flatMap_cons, List.append_assoc, h c List.mem_cons_self, hMore]
    rfl

def Plain (c : Char) : Prop := c ≠ '"' ∧ c ≠ '\\' ∧ 32 ≤ c.toNat

instance : DecidablePred Plain := fun _ => inferInstanceAs (Decidable (_ ∧ _))

theorem readString_plain {c : Char} (h : Plain c) (fuel : Nat) (rest : List Char) :
    readString (fuel + 1) ([c] ++ rest) =
      (readString fuel rest).map fun (more, rest) => (c :: more, rest) := by
  obtain ⟨hQuote, hEscape, hControl⟩ := h
  rw [List.singleton_append, readString, if_neg hQuote, if_neg hEscape, if_neg (by omega)]

theorem readUnicode_hexDigits {n : Nat} (h : n < 0xd800) :
    readUnicode (hexDigits n ++ rest) = some (Char.ofNat n, rest) := by
  have hDigit : ∀ d < 16, toDigit 16 (Nat.digitChar d) = some d := fun d hd =>
    (digitChar_hex ⟨d, hd⟩).1
  have hValue : readHex4 (hexDigits n ++ rest) = some (n, rest) := by
    simp [readHex4, hexDigits, hDigit _ (Nat.mod_lt _ (Nat.succ_pos 15)), ofPieces]
    omega
  rw [readUnicode, hValue]
  exact if_neg (by omega)

theorem skipSpace_cons {c : Char} (h : c ∉ [' ', '\t', '\n', '\r']) (rest : List Char) :
    skipSpace (c :: rest) = c :: rest :=
  List.dropWhile_cons_of_neg (by simpa using h)

/-- The text of a value, which is read back before another member or the end. -/
def Reads (text : List Char) (value : Json) : Prop :=
  ∀ fuel c rest, text.length ≤ fuel → c = ',' ∨ c = '\x7d' →
    readValue fuel (text ++ c :: rest) = some (value, c :: rest)

theorem reads_null : Reads "null".toList null := by
  intro fuel c rest hFuel _
  obtain ⟨k, rfl⟩ := Nat.exists_eq_add_of_le' hFuel
  rfl

theorem reads_bool (value : Bool) : Reads (toString value).toList (bool value) := by
  intro fuel c rest hFuel _
  cases value <;>
  · obtain ⟨k, rfl⟩ := Nat.exists_eq_add_of_le' hFuel
    rfl

theorem reads_string {piece : Char → List Char} (hNe : ∀ c, piece c ≠ [])
    (h : ∀ c ∈ text, ∀ fuel rest, readString (fuel + 1) (piece c ++ rest) =
      (readString fuel rest).map fun (more, rest) => (c :: more, rest)) :
    Reads ('"' :: (text.flatMap piece ++ ['"'])) (string text) := by
  have hLength : text.length ≤ (text.flatMap piece).length := by
    clear h
    induction text with
    | nil => exact Nat.le_refl 0
    | cons c text ih =>
      have := List.length_pos_iff.mpr (hNe c)
      rw [List.flatMap_cons, List.length_append, List.length_cons]
      omega
  intro fuel c rest hFuel _
  simp only [List.length_cons, List.length_append] at hFuel
  obtain ⟨k, rfl⟩ : ∃ k, fuel = k + 1 := ⟨fuel - 1, by omega⟩
  have hString : readString k (text.flatMap piece ++ '"' :: c :: rest) = some (text, c :: rest) :=
    readString_pieces h (by omega)
  rw [List.cons_append, List.append_assoc, List.singleton_append, readValue,
    skipSpace_cons (by decide)]
  simp only [hString]
  rfl

theorem reads_plain (h : ∀ c ∈ text, Plain c) : Reads ('"' :: (text ++ ['"'])) (string text) := by
  have hString := @reads_string text ([·]) (fun _ => List.cons_ne_nil _ _) fun c hc =>
    readString_plain (h c hc)
  rwa [List.flatMap_singleton'] at hString

theorem eq_zero_of_leading_zero {n : Nat} {more : List Char}
    (h : Nat.toDigits 10 n ++ rest = '0' :: more) : n = 0 := by
  induction n using Nat.strongRecOn generalizing rest with
  | ind n ih =>
    rcases Nat.lt_or_ge n 10 with hSmall | hLarge
    · have hDigit : ∀ d < 10, Nat.digitChar d = '0' → d = 0 := by decide
      rw [Nat.toDigits_of_lt_base hSmall] at h
      exact hDigit n hSmall (List.cons.inj h).1
    · rw [Nat.toDigits_of_base_le (by omega) hLarge, List.append_assoc] at h
      have hZero := ih (n / 10) (by omega) h
      omega

theorem readInteger_decimal (n : Nat) {c : Char} (hStop : c.isDigit = false) :
    readInteger (Nat.toDigits 10 n ++ c :: rest) = some (Nat.toDigits 10 n, c :: rest) := by
  unfold readInteger
  split
  · rename_i hText
    obtain rfl := eq_zero_of_leading_zero hText
    cases hText
    rfl
  · have hAll : ∀ c ∈ Nat.toDigits 10 n, c.isDigit = true := fun c => isDigit_of_mem_decimal
    rw [readDigits, List.takeWhile_append_of_pos hAll, List.dropWhile_append_of_pos hAll,
      List.takeWhile_cons_of_neg (by simp [hStop]), List.dropWhile_cons_of_neg (by simp [hStop]),
      List.append_nil]
    exact if_neg Nat.toDigits_ne_nil

theorem reads_number (n : Nat) : Reads (Nat.toDigits 10 n) (number false n 0) := by
  intro fuel c rest hFuel hEnd
  obtain ⟨d, digits, hDigits⟩ := List.exists_cons_of_ne_nil (@Nat.toDigits_ne_nil n 10)
  have hDigit : d.isDigit = true := isDigit_of_mem_decimal (hDigits ▸ List.mem_cons_self)
  have hNot : ∀ other : Char, other.isDigit = false → d ≠ other := by
    rintro other hOther rfl
    rw [hDigit] at hOther
    cases hOther
  have hStop : c.isDigit = false := by rcases hEnd with rfl | rfl <;> rfl
  have hNumber : readNumber (Nat.toDigits 10 n ++ c :: rest) =
      some (number false n 0, c :: rest) := by
    have hSign : ((Nat.toDigits 10 n ++ c :: rest).head? == some '-') = false := by
      simp [hDigits, hNot '-' rfl]
    have hValue : digitsValue (Nat.toDigits 10 n) = n :=
      Nat.ofDigitChars_toDigits (by omega) (by omega)
    rw [readNumber, hSign]
    simp only [Bool.false_eq_true, if_false, readInteger_decimal n hStop]
    rcases hEnd with rfl | rfl <;>
    · simp [readFraction, readExponent, hValue]
  rw [hDigits, List.length_cons] at hFuel
  obtain ⟨k, rfl⟩ : ∃ k, fuel = k + 1 := ⟨fuel - 1, by omega⟩
  rw [← hNumber, hDigits, List.cons_append, readValue, skipSpace_cons]
  · split <;> rename_i hHead
    all_goals first | rfl | exact absurd (List.cons.inj hHead).1 (hNot _ rfl)
  · simp [hNot ' ' rfl, hNot '\t' rfl, hNot '\n' rfl, hNot '\r' rfl]

/-! ## Objects -/

variable {name : List Char} {value : Json} {members : List (List Char × Json)}

theorem expect_cons {c : Char} (h : c ∉ [' ', '\t', '\n', '\r']) (rest : List Char) :
    expect c (c :: rest) = some rest := by
  rw [expect, skipSpace_cons h]
  simp [stripPrefix, List.isPrefixOf]

/-- The text of members with the brace behind them, which is read back. -/
def ReadsMembers (text : List Char) (members : List (List Char × Json)) : Prop :=
  ∀ fuel rest, text.length ≤ fuel → readMembers fuel (text ++ rest) = some (members, rest)

theorem readMembers_member {c : Char} (hName : ∀ c ∈ name, Plain c) (hValue : Reads text value)
    (hFuel : name.length + text.length < fuel) (hEnd : c = ',' ∨ c = '\x7d') :
    readMembers (fuel + 1) ('"' :: (name ++ '"' :: ':' :: (text ++ c :: rest))) =
      if c = '\x7d' then some ([(name, value)], rest)
      else (readMembers fuel rest).map fun (members, rest) => ((name, value) :: members, rest) := by
  have hRead := @readString_pieces fuel name (':' :: (text ++ c :: rest)) _
    (fun c hc => readString_plain (hName c hc)) (by omega)
  rw [List.flatMap_singleton'] at hRead
  rw [readMembers, expect_cons (by decide)]
  simp only [Option.bind_eq_bind, Option.bind_some, hRead]
  rw [expect_cons (by decide)]
  simp only [Option.bind_some, hValue fuel c rest (by omega) hEnd]
  rcases hEnd with rfl | rfl <;> rfl

theorem ReadsMembers.one (hName : ∀ c ∈ name, Plain c) (hValue : Reads text value) :
    ReadsMembers ('"' :: (name ++ '"' :: ':' :: (text ++ ['\x7d']))) [(name, value)] := by
  intro fuel rest hFuel
  simp only [List.length_cons, List.length_append] at hFuel
  obtain ⟨k, rfl⟩ : ∃ k, fuel = k + 1 := ⟨fuel - 1, by omega⟩
  simpa using @readMembers_member k text rest name value '\x7d' hName hValue (by omega) (.inr rfl)

theorem ReadsMembers.cons {more : List Char} (hName : ∀ c ∈ name, Plain c)
    (hValue : Reads text value) (h : ReadsMembers more members) :
    ReadsMembers ('"' :: (name ++ '"' :: ':' :: (text ++ ',' :: more)))
      ((name, value) :: members) := by
  intro fuel rest hFuel
  simp only [List.length_cons, List.length_append] at hFuel
  obtain ⟨k, rfl⟩ : ∃ k, fuel = k + 1 := ⟨fuel - 1, by omega⟩
  have hMember := @readMembers_member k text (more ++ rest) name value ',' hName hValue (by omega)
    (.inl rfl)
  rw [h k rest (by omega)] at hMember
  simpa using hMember

/-- **An object is read back** if its members are. -/
theorem decode_object {tail : List Char} (h : ReadsMembers ('"' :: tail) members) :
    decode ('\x7b' :: '"' :: tail) = some (object members) := by
  have hRead := h (tail.length + 2) [] (by simp)
  rw [List.append_nil] at hRead
  rw [decode, List.length_cons, List.length_cons, readValue, skipSpace_cons (by decide)]
  simp only [skipSpace_cons (c := '"') (by decide)]
  change (match (readMembers (tail.length + 2) ('"' :: tail)).map fun x => (object x.1, x.2) with
    | some (value, rest) => if skipSpace rest = [] then some value else none
    | none => none) = _
  rw [hRead]
  rfl

end Json

end Forward.Lib

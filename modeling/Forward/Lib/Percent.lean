import Mathlib.Data.List.Basic
import Forward.Lib.Nibbles

/-!
# Percent encoding

An encoded text is a list of tokens: a byte as it stands, or a byte as `%` and two digits. Texts
whose bare bytes are not `%` decode token by token.
-/

namespace Forward.Lib.Percent

def upperDigit (nibble : UInt8) : UInt8 := if nibble < 10 then 48 + nibble else 55 + nibble

def digitValue (byte : UInt8) : Option UInt8 :=
  if 48 ≤ byte ∧ byte ≤ 57 then some (byte - 48)
  else if 97 ≤ byte ∧ byte ≤ 102 then some (byte - 87)
  else if 65 ≤ byte ∧ byte ≤ 70 then some (byte - 55)
  else none

inductive Token
  | plain (byte : UInt8)
  | escape (byte : UInt8)

namespace Token

def byte : Token → UInt8
  | plain byte => byte
  | escape byte => byte

def text : Token → List UInt8
  | plain byte => [byte]
  | escape byte => [37, upperDigit (byte >>> 4), upperDigit (byte &&& 0x0f)]

end Token

/-- `%` and two digits are a byte; any other `%` stands for itself. -/
def decode : List UInt8 → List UInt8
  | [] => []
  | [byte] => [byte]
  | [byte, next] => byte :: decode [next]
  | byte :: high :: low :: rest =>
    if byte = 37 then
      match digitValue high, digitValue low with
      | some h, some l => (h * 16 + l) :: decode rest
      | _, _ => byte :: decode (high :: low :: rest)
    else byte :: decode (high :: low :: rest)

/-- How a byte is written where the bytes of a set are escaped. -/
def token (escaped : UInt8 → Bool) (byte : UInt8) : Token :=
  if escaped byte then .escape byte else .plain byte

def encode (escaped : UInt8 → Bool) (bytes : List UInt8) : List UInt8 :=
  (bytes.map (token escaped)).flatMap Token.text

theorem byte_token (escaped : UInt8 → Bool) (byte : UInt8) : (token escaped byte).byte = byte := by
  unfold token
  split <;> rfl

theorem decode_cons_of_ne {byte : UInt8} (h : byte ≠ 37) (rest : List UInt8) :
    decode (byte :: rest) = byte :: decode rest := by
  match rest with
  | [] => rfl
  | [_] => rfl
  | _ :: _ :: _ => rw [decode, if_neg h]

theorem digitValue_upperDigit {nibble : UInt8} (h : nibble < 16) :
    digitValue (upperDigit nibble) = some nibble :=
  forall_nibble (P := fun nibble => digitValue (upperDigit nibble) = some nibble) (by decide) h

theorem decode_escape (byte : UInt8) (rest : List UInt8) :
    decode ((Token.escape byte).text ++ rest) = byte :: decode rest := by
  obtain ⟨hHigh, hLow⟩ := nibbles_lt byte
  show decode (37 :: upperDigit (byte >>> 4) :: upperDigit (byte &&& 0x0f) :: rest) = _
  rw [decode, if_pos rfl, digitValue_upperDigit hHigh, digitValue_upperDigit hLow]
  simp only [byte_of_nibbles]

theorem decode_text {tokens : List Token} (h : .plain 37 ∉ tokens) (rest : List UInt8) :
    decode (tokens.flatMap Token.text ++ rest) = tokens.map Token.byte ++ decode rest := by
  induction tokens with
  | nil => rfl
  | cons t tokens ih =>
    obtain ⟨hHead, hTail⟩ := List.ne_and_not_mem_of_not_mem_cons h
    rw [List.flatMap_cons, List.append_assoc, List.map_cons, List.cons_append, ← ih hTail]
    cases t with
    | escape byte => exact decode_escape byte _
    | plain =>
      refine decode_cons_of_ne ?_ _
      rintro rfl
      exact hHead rfl

end Forward.Lib.Percent

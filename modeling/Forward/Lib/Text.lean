import Mathlib.Algebra.GroupWithZero.Nat

/-!
# Text functions of the standard library

Texts are lists of characters here, so that these functions are structural
recursions.
-/

namespace Forward.Lib

def splitOnce (sep : List Char) : List Char → Option (List Char × List Char)
  | [] => if sep.isEmpty then some ([], []) else none
  | c :: rest =>
    if sep.isPrefixOf (c :: rest) then some ([], (c :: rest).drop sep.length)
    else (splitOnce sep rest).map fun (before, after) => (c :: before, after)

def stripPrefix (start text : List Char) : Option (List Char) :=
  if start.isPrefixOf text then some (text.drop start.length) else none

def stripSuffix (last : Char) (text : List Char) : Option (List Char) :=
  if text.getLast? = some last then some text.dropLast else none

/-- The lines of a text, without their ends; the last one may be unterminated. -/
def lines (text : List Char) : List (List Char) :=
  let parts := text.splitOn '\n'
  let last := parts.getLast?.getD []
  parts.dropLast.map (fun line => (stripSuffix '\r' line).getD line) ++
    if last.isEmpty then [] else [last]

/-- Decided along the list; there are too many characters to go through. -/
theorem forall_mem_of_all {text : List Char} {P : Char → Prop} [DecidablePred P]
    (h : (text.all fun c => decide (P c)) = true) : ∀ c ∈ text, P c := by
  intro c hc
  exact of_decide_eq_true (List.all_eq_true.mp h c hc)

def isAsciiGraphic (c : Char) : Bool := '!' ≤ c && c ≤ '~'

def isAsciiControl (c : Char) : Bool := c.toNat < 32 || c.toNat == 127

def isControl (c : Char) : Bool := c.toNat < 32 || (127 ≤ c.toNat && c.toNat < 160)

def isAscii (c : Char) : Bool := c.toNat < 128

/-- `String::len`: the bytes of the UTF-8 form. -/
def utf8Len (text : List Char) : Nat := (text.map Char.utf8Size).sum

/-- The digits of `{:04x}`, below `2^16`. -/
def hexDigits (n : Nat) : List Char :=
  [n / 4096 % 16, n / 256 % 16, n / 16 % 16, n % 16].map Nat.digitChar

/-- A 64-bit number in decimal; one plus sign may stand before it. -/
def parseU64 (text : List Char) : Option Nat :=
  let digits := (stripPrefix ['+'] text).getD text
  if digits.isEmpty || !digits.all Char.isDigit then none
  else
    let value := digits.foldl (fun n c => 10 * n + (c.toNat - '0'.toNat)) 0
    if value < 2 ^ 64 then some value else none

def parseU32 (text : List Char) : Option Nat := (parseU64 text).filter (· < 2 ^ 32)

def parseU16 (text : List Char) : Option Nat := (parseU64 text).filter (· < 2 ^ 16)

/-- A 32-bit number with a sign; behind a minus no second sign may stand. -/
def parseI32 (text : List Char) : Option Int :=
  match text with
  | '-' :: '+' :: _ => none
  | '-' :: digits => ((parseU64 digits).filter (· ≤ 2 ^ 31)).map fun n => -n
  | _ => ((parseU64 text).filter (· < 2 ^ 31)).map fun n => n

end Forward.Lib

import Mathlib.Data.List.Infix
import Forward.Lib.Text

/-!
# Values in the audit log

`sanitize_audit_value` writes a value with its control characters escaped, and cuts it off
with an ellipsis where it would grow past the limit.
-/

namespace Forward.Secrets

open Lib

def maxAuditValueBytes : Nat := 256

def ellipsis : Char := '…'

def auditPiece (c : Char) : List Char :=
  if c = '\r' then ['\\', 'r']
  else if c = '\n' then ['\\', 'n']
  else if c = '\t' then ['\\', 't']
  else if c = '\x00' then ['\\', '0']
  else if isControl c then "\\u\x7b".toList ++ (hexDigits c.toNat).map Char.toUpper ++ ['\x7d']
  else [c]

/-- `while rendered.len() > limit { rendered.pop(); }`, over the reversed text. -/
def popWhile (limit : Nat) : List Char → List Char
  | [] => []
  | c :: rest => if limit < utf8Len (c :: rest) then popWhile limit rest else c :: rest

def appendAuditPiece (rendered piece : List Char) : Bool × List Char :=
  if maxAuditValueBytes < utf8Len rendered + utf8Len piece then
    (false, (popWhile (maxAuditValueBytes - ellipsis.utf8Size) rendered.reverse).reverse ++
      [ellipsis])
  else (true, rendered ++ piece)

def sanitizeFrom (rendered : List Char) : List Char → List Char
  | [] => rendered
  | c :: rest =>
    match appendAuditPiece rendered (auditPiece c) with
    | (true, rendered) => sanitizeFrom rendered rest
    | (false, rendered) => rendered

def sanitizeAuditValue (value : String) : String := String.ofList (sanitizeFrom [] value.toList)

/-! ## The loop -/

def escaped (value : List Char) : List Char := value.flatMap auditPiece

variable {rendered value : List Char}

theorem utf8Len_append (text more : List Char) :
    utf8Len (text ++ more) = utf8Len text + utf8Len more := by
  simp [utf8Len]

theorem popWhile_spec (limit : Nat) (text : List Char) :
    popWhile limit text <:+ text ∧ utf8Len (popWhile limit text) ≤ limit := by
  induction text with
  | nil => exact ⟨List.suffix_refl _, Nat.zero_le _⟩
  | cons c rest ih =>
    rw [popWhile]
    split
    · exact ⟨ih.1.trans (List.suffix_cons c rest), ih.2⟩
    · rename_i hShort
      exact ⟨List.suffix_refl _, by omega⟩

theorem utf8Len_reverse (text : List Char) : utf8Len text.reverse = utf8Len text := by
  rw [utf8Len, List.map_reverse, List.sum_reverse]
  rfl

theorem appendAuditPiece_false {piece text : List Char}
    (h : appendAuditPiece rendered piece = (false, text)) :
    ∃ front, front <+: rendered ∧ utf8Len front ≤ 253 ∧ text = front ++ [ellipsis] ∧
      256 < utf8Len rendered + utf8Len piece := by
  unfold appendAuditPiece at h
  split at h
  · rename_i hLong
    obtain ⟨hSuffix, hShort⟩ := popWhile_spec 253 rendered.reverse
    refine ⟨_, List.reverse_suffix.mp ?_, ?_, (Prod.mk.inj h).2.symm, hLong⟩
    · rw [List.reverse_reverse]
      exact hSuffix
    · rw [utf8Len_reverse]
      exact hShort
  · cases h

theorem sanitizeFrom_spec (hShort : utf8Len rendered ≤ 256) :
    (utf8Len (rendered ++ escaped value) ≤ 256 ∧
      sanitizeFrom rendered value = rendered ++ escaped value) ∨
    (256 < utf8Len (rendered ++ escaped value) ∧
      ∃ front, front <+: rendered ++ escaped value ∧ utf8Len front ≤ 253 ∧
        sanitizeFrom rendered value = front ++ [ellipsis]) := by
  induction value generalizing rendered with
  | nil =>
    refine .inl ?_
    simpa [escaped, sanitizeFrom] using hShort
  | cons c rest ih =>
    have hCons : rendered ++ escaped (c :: rest) = rendered ++ auditPiece c ++ escaped rest := by
      simp [escaped]
    rw [hCons, sanitizeFrom]
    rcases hPiece : appendAuditPiece rendered (auditPiece c) with ⟨_ | _, text⟩
    · obtain ⟨front, hFront, hRoom, rfl, hLong⟩ := appendAuditPiece_false hPiece
      refine .inr ⟨?_, front, ?_, hRoom, rfl⟩
      · rw [utf8Len_append, utf8Len_append]
        omega
      · rw [List.append_assoc]
        exact hFront.trans (List.prefix_append _ _)
    · unfold appendAuditPiece at hPiece
      split at hPiece
      · cases hPiece
      · rename_i hFits
        cases hPiece
        refine ih ?_
        rw [utf8Len_append]
        exact not_lt.mp hFits

/-! ## The log -/

theorem not_isControl_of_mem_escaped {c : Char} (h : c ∈ escaped value) : isControl c = false := by
  have hHex : ∀ d < 16, isControl (Nat.digitChar d).toUpper = false := by decide
  obtain ⟨d, -, hPiece⟩ := List.mem_flatMap.mp h
  have hFixed : ∀ text : List Char, text.all (fun c => isControl c = false) = true → c ∈ text →
      isControl c = false := fun text hText => forall_mem_of_all hText c
  unfold auditPiece at hPiece
  split_ifs at hPiece
  · exact hFixed _ (by decide) hPiece
  · exact hFixed _ (by decide) hPiece
  · exact hFixed _ (by decide) hPiece
  · exact hFixed _ (by decide) hPiece
  · rw [List.mem_append, List.mem_append] at hPiece
    rcases hPiece with (hStart | hDigit) | hEnd
    · exact hFixed _ (by decide) hStart
    · obtain ⟨_, hUpper, rfl⟩ := List.mem_map.mp hDigit
      obtain ⟨n, hn, rfl⟩ := List.mem_map.mp hUpper
      refine hHex n ?_
      simp only [List.mem_cons, List.not_mem_nil, or_false] at hn
      omega
    · exact hFixed _ (by decide) hEnd
  · rename_i hPlain
    rw [List.mem_singleton.mp hPiece]
    exact eq_false_of_ne_true hPlain

/-- **Values in the audit log.** Of every value, the log holds at most 256 bytes without control
characters: its escaped form if that fits, and else a proper part of it, from the start, with
the ellipsis. -/
theorem audit_values_inert (value : String) :
    utf8Len (sanitizeAuditValue value).toList ≤ 256 ∧
    (∀ c ∈ (sanitizeAuditValue value).toList, isControl c = false) ∧
    (utf8Len (escaped value.toList) ≤ 256 →
      (sanitizeAuditValue value).toList = escaped value.toList) ∧
    (256 < utf8Len (escaped value.toList) → ∃ front, front <+: escaped value.toList ∧
      front ≠ escaped value.toList ∧ (sanitizeAuditValue value).toList = front ++ ['…']) := by
  have hLoop := @sanitizeFrom_spec [] value.toList (Nat.zero_le _)
  rw [List.nil_append] at hLoop
  rw [sanitizeAuditValue, String.toList_ofList]
  rcases hLoop with ⟨hFits, hAll⟩ | ⟨hLong, front, hFront, hRoom, hCut⟩
  · rw [hAll]
    exact ⟨hFits, fun c hc => not_isControl_of_mem_escaped hc, fun _ => rfl, fun h => by omega⟩
  · rw [hCut]
    refine ⟨?_, ?_, fun h => by omega, fun _ => ⟨front, hFront, ?_, rfl⟩⟩
    · rw [utf8Len_append]
      have hMark : utf8Len [ellipsis] = 3 := by decide
      omega
    · intro c hc
      rcases List.mem_append.mp hc with hPart | hMark
      · exact not_isControl_of_mem_escaped (hFront.subset hPart)
      · rw [List.mem_singleton.mp hMark]
        decide
    · rintro rfl
      omega

end Forward.Secrets

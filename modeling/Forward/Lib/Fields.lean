import Mathlib.Data.List.Nodup
import Forward.Lib.Lists
import Forward.Lib.Text

/-!
# Texts of named fields

A text is split at a separator, and each part is a name and a value around the first equals sign. A
reader walks over the parts and refuses a name that it has seen; it accepts exactly the texts of
fields with different names.
-/

namespace Forward.Lib

universe u v

/-! ## Splitting -/

section

variable {c : Char} {sep text before after : List Char}

theorem isPrefixOf_cons_of_ne {d : Char} (h : c ≠ d) (rest tail : List Char) :
    (c :: rest).isPrefixOf (d :: tail) = false := by
  simp [List.isPrefixOf, h]

theorem splitOnce_append (h : c ∉ before) (rest after : List Char) :
    splitOnce (c :: rest) (before ++ (c :: rest ++ after)) = some (before, after) := by
  induction before with
  | nil =>
    have hFirst : (c :: rest).isPrefixOf (c :: (rest ++ after)) :=
      List.isPrefixOf_iff_prefix.mpr (List.prefix_append _ _)
    show splitOnce (c :: rest) (c :: (rest ++ after)) = some ([], after)
    rw [splitOnce, if_pos hFirst]
    simp
  | cons d before ih =>
    obtain ⟨hHead, hRest⟩ := List.ne_and_not_mem_of_not_mem_cons h
    rw [List.cons_append, splitOnce, isPrefixOf_cons_of_ne hHead, ih hRest]
    rfl

theorem splitOnce_char (h : c ∉ before) (after : List Char) :
    splitOnce [c] (before ++ c :: after) = some (before, after) := splitOnce_append h [] after

theorem eq_of_splitOnce (hSep : sep ≠ []) (h : splitOnce sep text = some (before, after)) :
    text = before ++ (sep ++ after) := by
  induction text generalizing before with
  | nil =>
    rw [splitOnce, if_neg (by simpa using hSep)] at h
    cases h
  | cons d text ih =>
    rw [splitOnce] at h
    split at h
    · rename_i hHere
      obtain ⟨tail, hTail⟩ := List.isPrefixOf_iff_prefix.mp hHere
      cases h
      rw [← hTail, List.drop_left, List.nil_append]
    · obtain ⟨⟨first, last⟩, hSplit, hEq⟩ := Option.map_eq_some_iff.mp h
      cases hEq
      rw [List.cons_append, ← ih hSplit]

theorem notMem_of_splitOnce (h : splitOnce [c] text = some (before, after)) : c ∉ before := by
  induction text generalizing before with
  | nil => cases h
  | cons d text ih =>
    rw [splitOnce] at h
    split at h
    · obtain ⟨rfl, -⟩ := Prod.mk.inj (Option.some.inj h)
      exact List.not_mem_nil
    · rename_i hNot
      obtain ⟨⟨first, last⟩, hSplit, hEq⟩ := Option.map_eq_some_iff.mp h
      cases hEq
      have hHead : c ≠ d := by
        rintro rfl
        exact hNot (by simp [List.isPrefixOf])
      simp only [List.mem_cons, not_or]
      exact ⟨hHead, ih hSplit⟩

theorem splitOnce_eq_none (h : c ∉ text) : splitOnce [c] text = none := by
  cases hSplit : splitOnce [c] text with
  | none => rfl
  | some =>
    refine absurd ?_ h
    rw [eq_of_splitOnce (List.cons_ne_nil _ _) hSplit]
    simp

theorem notMem_of_splitOnce_none (h : splitOnce [c] text = none) : c ∉ text := by
  intro hIn
  obtain ⟨before, after, rfl, hBefore⟩ := List.eq_append_cons_of_mem hIn
  rw [splitOnce_char hBefore] at h
  cases h

theorem stripPrefix_char_eq_none : stripPrefix [c] text = none ↔ text.head? ≠ some c := by
  cases text with
  | nil => simp [stripPrefix]
  | cons d =>
    by_cases hSame : c = d
    · simp [stripPrefix, hSame]
    · simp [stripPrefix, hSame, Ne.symm hSame]

theorem stripPrefix_append (start rest : List Char) :
    stripPrefix start (start ++ rest) = some rest := by
  simp [stripPrefix]

theorem eq_of_stripPrefix {start rest : List Char} (h : stripPrefix start text = some rest) :
    text = start ++ rest := by
  unfold stripPrefix at h
  split at h
  · rename_i hStart
    obtain ⟨tail, rfl⟩ := List.isPrefixOf_iff_prefix.mp hStart
    rw [← Option.some.inj h, List.drop_left]
  · cases h

theorem stripSuffix_concat (front : List Char) (last : Char) :
    stripSuffix last (front ++ [last]) = some front := by
  simp [stripSuffix]

theorem eq_of_stripSuffix {front : List Char} {last : Char}
    (h : stripSuffix last text = some front) : text = front ++ [last] := by
  unfold stripSuffix at h
  split at h
  · rename_i hLast
    obtain ⟨init, rfl⟩ := List.getLast?_eq_some_iff.mp hLast
    rw [← Option.some.inj h, List.dropLast_concat]
  · cases h

end

theorem notMem_of_mem_splitOn {α : Type u} [BEq α] [LawfulBEq α] {x : α} {xs part : List α}
    (h : part ∈ xs.splitOn x) : x ∉ part := by
  unfold List.splitOn at h
  induction xs generalizing part with
  | nil =>
    rw [List.splitOnP_nil, List.mem_singleton] at h
    rw [h]
    exact List.not_mem_nil
  | cons y xs ih =>
    rw [List.splitOnP_cons_eq_if_modifyHead] at h
    split at h
    · rcases List.mem_cons.mp h with rfl | hRest
      · exact List.not_mem_nil
      · exact ih hRest
    · rename_i hNot
      cases hParts : xs.splitOnP (· == x) with
      | nil => exact absurd hParts (List.splitOnP_ne_nil _ _)
      | cons =>
        rw [hParts] at h ih
        rw [List.modifyHead_cons] at h
        rcases List.mem_cons.mp h with rfl | hRest
        · rw [List.mem_cons, not_or]
          exact ⟨fun hEq => hNot (by simp [hEq]), ih List.mem_cons_self⟩
        · exact ih (List.mem_cons_of_mem _ hRest)

theorem notMem_intercalate {α : Type u} {x sep : α} (hx : x ≠ sep) {parts : List (List α)}
    (h : ∀ part ∈ parts, x ∉ part) : x ∉ [sep].intercalate parts := by
  induction parts with
  | nil => exact List.not_mem_nil
  | cons part parts ih =>
    obtain ⟨hPart, hParts⟩ := List.forall_mem_cons.mp h
    cases parts with
    | nil => simpa [List.intercalate] using hPart
    | cons next rest =>
      have hStep : [sep].intercalate (part :: next :: rest) =
          part ++ sep :: [sep].intercalate (next :: rest) := by simp [List.intercalate]
      rw [hStep, List.mem_append, List.mem_cons]
      rintro (hIn | rfl | hIn)
      · exact hPart hIn
      · exact hx rfl
      · exact ih hParts hIn

theorem lines_flatMap {ls : List (List Char)} (hNewline : ∀ l ∈ ls, '\n' ∉ l)
    (hReturn : ∀ l ∈ ls, l.getLast? ≠ some '\r') : lines (ls.flatMap (· ++ ['\n'])) = ls := by
  -- the text is split into the lines and nothing behind the last newline
  have hJoin : ls.flatMap (· ++ ['\n']) = ['\n'].intercalate (ls ++ [[]]) := by
    clear hNewline hReturn
    induction ls with
    | nil => rfl
    | cons l ls ih =>
      have hMore : ls ++ [[]] ≠ [] := by simp
      obtain ⟨first, rest, hRest⟩ := List.exists_cons_of_ne_nil hMore
      rw [List.flatMap_cons, ih, List.cons_append, hRest]
      simp [List.intercalate]
  have hSplit : (ls.flatMap (· ++ ['\n'])).splitOn '\n' = ls ++ [[]] := by
    rw [hJoin]
    refine List.splitOn_intercalate '\n' ?_ (by simp)
    intro l hl
    rcases List.mem_append.mp hl with hLine | hLast
    · exact hNewline l hLine
    · rw [List.mem_singleton.mp hLast]
      exact List.not_mem_nil
  have hSame : ls.map (fun line => (stripSuffix '\r' line).getD line) = ls := by
    calc ls.map (fun line => (stripSuffix '\r' line).getD line) = ls.map id :=
          List.map_congr_left fun l hl => by rw [stripSuffix, if_neg (hReturn l hl)]; rfl
      _ = ls := List.map_id ls
  unfold lines
  simp only [hSplit, List.dropLast_concat, List.getLast?_concat, Option.getD_some, hSame]
  simp

abbrev Field := List Char × List Char

def Field.text (f : Field) : List Char := f.1 ++ '=' :: f.2

variable {f : Field}

theorem splitOnce_text (h : '=' ∉ f.1) : splitOnce ['='] f.text = some f :=
  splitOnce_char h f.2

theorem splitOnce_equals_iff {part : List Char} :
    splitOnce ['='] part = some f ↔ part = f.text ∧ '=' ∉ f.1 := by
  constructor
  · intro h
    exact ⟨eq_of_splitOnce (by simp) h, notMem_of_splitOnce h⟩
  · rintro ⟨rfl, hName⟩
    exact splitOnce_text hName

theorem find?_of_nodup {fields : List Field} (hNames : (fields.map Prod.fst).Nodup)
    (h : f ∈ fields) : fields.find? (fun g => g.1 == f.1) = some f := by
  refine find?_of_unique h (beq_self_eq_true f.1) fun g hg hName => ?_
  exact List.inj_on_of_nodup_map hNames hg h (eq_of_beq hName)

section

variable {ε : Type u}

theorem bind_eq_ok_iff {α β : Type v} {x : Except ε α} {f : α → Except ε β} {b : β} :
    (x >>= f) = .ok b ↔ ∃ a, x = .ok a ∧ f a = .ok b := by
  cases x with
  | error | ok => simp [bind, Except.bind]

variable {step : List Field → List Char → Except ε (List Field)}
  {Good : Field → Prop} {seen out : List Field} {parts : List (List Char)}

/-- A step of a reader: the part is a field with a new name, and good. -/
def ReadsFields (step : List Field → List Char → Except ε (List Field)) (Good : Field → Prop) :
    Prop :=
  ∀ seen part out, step seen part = .ok out ↔
    ∃ f : Field, part = f.text ∧ '=' ∉ f.1 ∧ f.1 ∉ seen.map Prod.fst ∧ Good f ∧ out = seen ++ [f]

theorem ReadsFields.foldlM_iff (hStep : ReadsFields step Good)
    (hSeen : (seen.map Prod.fst).Nodup) :
    parts.foldlM step seen = .ok out ↔ ∃ fields : List Field, parts = fields.map Field.text ∧
      out = seen ++ fields ∧ (out.map Prod.fst).Nodup ∧ ∀ f ∈ fields, '=' ∉ f.1 ∧ Good f := by
  induction parts generalizing seen with
  | nil =>
    constructor
    · intro h
      obtain rfl : seen = out := Except.ok.inj h
      exact ⟨[], rfl, by simp, hSeen, by simp⟩
    · rintro ⟨fields, hParts, rfl, -, -⟩
      rw [List.map_eq_nil_iff.mp hParts.symm, List.append_nil]
      rfl
  | cons part parts ih =>
    -- the names stay different as a field with a new one comes behind
    have hNext : ∀ f : Field, f.1 ∉ seen.map Prod.fst →
        ((seen ++ [f]).map Prod.fst).Nodup := by
      intro f hNew
      rw [List.map_append, List.map_singleton]
      exact hSeen.append (List.nodup_singleton _) (by simpa using hNew)
    rw [List.foldlM_cons, bind_eq_ok_iff]
    constructor
    · rintro ⟨seen', hPart, h⟩
      obtain ⟨f, rfl, hName, hNew, hGood, rfl⟩ := (hStep _ _ _).mp hPart
      obtain ⟨fields, rfl, rfl, hNodup, hAll⟩ := (ih (hNext f hNew)).mp h
      refine ⟨f :: fields, rfl, by simp, hNodup, ?_⟩
      rintro g (_ | ⟨_, hg⟩)
      · exact ⟨hName, hGood⟩
      · exact hAll g hg
    · rintro ⟨fields, hParts, rfl, hNodup, hAll⟩
      obtain ⟨f, rest, rfl, rfl, rfl⟩ := List.map_eq_cons_iff.mp hParts.symm
      have hNew : f.1 ∉ seen.map Prod.fst := by
        rw [List.map_append, List.map_cons] at hNodup
        exact fun hIn => (List.nodup_append.mp hNodup).2.2 _ hIn _ List.mem_cons_self rfl
      obtain ⟨hFirst, hRest⟩ := List.forall_mem_cons.mp hAll
      have hPart : step seen f.text = .ok (seen ++ [f]) :=
        (hStep _ _ _).mpr ⟨f, rfl, hFirst.1, hNew, hFirst.2, rfl⟩
      exact ⟨_, hPart, (ih (hNext f hNew)).mpr ⟨rest, rfl, by simp, hNodup, hRest⟩⟩

end

end Forward.Lib

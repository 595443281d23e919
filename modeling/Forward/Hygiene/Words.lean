import Forward.Hygiene.Hex
import Forward.Lib.Fields

/-!
# Lines of words

Most requests are a few words in one line, with single spaces between them. A `Word` has only
visible ASCII characters, so a line of words has one byte a character and can be taken apart at its
spaces.
-/

namespace Forward.Hygiene

open Lib

structure Word where
  chars : List Char
  visible : ∀ c ∈ chars, isAsciiGraphic c = true

namespace Word

def decimal (n : Nat) : Word :=
  ⟨Nat.toDigits 10 n, fun _ hc => isAsciiGraphic_of_isDigit (isDigit_of_mem_decimal hc)⟩

def literal (text : String) (h : text.toList.all isAsciiGraphic = true) : Word :=
  ⟨text.toList, List.all_eq_true.mp h⟩

theorem space_notMem (w : Word) : ' ' ∉ w.chars := by
  intro hIn
  cases w.visible ' ' hIn

end Word

def spaced (words : List Word) : List Char := [' '].intercalate (words.map Word.chars)

variable {w v : Word} {words : List Word} {c : Char}

theorem spaced_singleton (w : Word) : spaced [w] = w.chars := by simp [spaced]

theorem spaced_cons (w v : Word) (words : List Word) :
    spaced (w :: v :: words) = w.chars ++ ' ' :: spaced (v :: words) := by
  simp [spaced, List.intercalate]

theorem splitOn_spaced (hNe : words ≠ []) : (spaced words).splitOn ' ' = words.map Word.chars := by
  refine List.splitOn_intercalate ' ' ?_ (by simpa using hNe)
  intro chars hIn
  obtain ⟨w, -, rfl⟩ := List.mem_map.mp hIn
  exact w.space_notMem

theorem mem_spaced (h : c ∈ spaced words) : c = ' ' ∨ isAsciiGraphic c := by
  induction words with
  | nil => cases h
  | cons w words ih =>
    cases words with
    | nil =>
      rw [spaced_singleton] at h
      exact .inr (w.visible c h)
    | cons =>
      rw [spaced_cons, List.mem_append, List.mem_cons] at h
      rcases h with hWord | hSpace | hRest
      · exact .inr (w.visible c hWord)
      · exact .inl hSpace
      · exact ih hRest

theorem plain_of_mem_spaced (h : c ∈ spaced words) :
    isAscii c ∧ asciiByte c ≠ 10 ∧ asciiByte c ≠ 13 := by
  rcases mem_spaced h with rfl | hVisible
  · decide
  · obtain ⟨hAscii, -, hRest⟩ := plain_of_graphic hVisible
    exact ⟨hAscii, hRest⟩

theorem textBytes_spaced (words : List Word) :
    textBytes (String.ofList (spaced words)) = (spaced words).map asciiByte := by
  have hText : (String.ofList (spaced words)).toList = spaced words := String.toList_ofList
  rw [textBytes_ascii, hText]
  rw [hText]
  exact fun _ hc => (plain_of_mem_spaced hc).1

theorem newline_notMem_spaced (words : List Word) :
    10 ∉ textBytes (String.ofList (spaced words)) := by
  rw [textBytes_spaced]
  intro hIn
  obtain ⟨c, hc, hByte⟩ := List.mem_map.mp hIn
  exact (plain_of_mem_spaced hc).2.1 hByte

theorem length_textBytes_spaced (words : List Word) :
    (textBytes (String.ofList (spaced words))).length = (spaced words).length := by
  rw [textBytes_spaced, List.length_map]

theorem textBytes_line (words : List Word) :
    textBytes (String.ofList (spaced words ++ ['\n'])) =
      textBytes (String.ofList (spaced words)) ++ [10] := by
  rw [String.ofList_append, textBytes_append]
  rfl

theorem textBytes_of_words {text : String} (h : text.toList = spaced words ++ ['\n']) :
    textBytes text = textBytes (String.ofList (spaced words)) ++ [10] := by
  rw [← textBytes_line, ← h, String.ofList_toList]

theorem fromUtf8_line (words : List Word) :
    fromUtf8 (textBytes (String.ofList (spaced words)) ++ [10]) =
      some (String.ofList (spaced words ++ ['\n'])) :=
  fromUtf8_eq_some_iff.mpr (textBytes_line words)

end Forward.Hygiene

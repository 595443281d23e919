import Forward.Edit.Doors

/-!
# The file of one key

A key has two possible file names, and its file holds one assignment. Both are read back exactly.
-/

namespace Forward.Edit

open Lib Hygiene Secrets

/-! ## Names -/

section

variable {text stem suffix : List Char}

theorem stripSuffix_append (text suffix : List Char) :
    Secrets.stripSuffix (text ++ suffix) suffix = some text := by
  simp [Secrets.stripSuffix]

theorem eq_of_stripSuffix (h : Secrets.stripSuffix text suffix = some stem) :
    text = stem ++ suffix := by
  unfold Secrets.stripSuffix at h
  split at h
  · rename_i hSuffix
    obtain ⟨front, rfl⟩ := List.isSuffixOf_iff_suffix.mp hSuffix
    rw [← Option.some.inj h]
    simp
  · cases h

theorem parse_secretName (name : SecretName) : SecretName.parse name.name = .ok name := by
  unfold SecretName.parse
  rw [dif_pos name.valid]

theorem toList_fileNameOf (name : SecretName) (isLocal : Bool) :
    (fileNameOf name isLocal).toList =
      (name.name.toList ++ if isLocal then ".local".toList else []) ++ ".env".toList := by
  cases isLocal <;> simp [fileNameOf, String.toList_append]

theorem parseHumanFileName_of (name : SecretName) (isLocal : Bool) :
    parseHumanFileName (fileNameOf name isLocal) = .key name isLocal := by
  unfold parseHumanFileName
  rw [toList_fileNameOf, stripSuffix_append]
  dsimp only
  cases isLocal with
  | false =>
    -- a name has no dot, so nothing more is stripped
    have hDot : Secrets.stripSuffix (name.name.toList ++ []) ".local".toList = none := by
      rw [List.append_nil]
      refine if_neg fun hSuffix => ?_
      have hMem : '.' ∈ name.name.toList :=
        (List.isSuffixOf_iff_suffix.mp hSuffix).subset (by decide)
      cases SecretName.alphanum_of_mem hMem
    rw [if_neg nofun, hDot]
    dsimp only
    rw [List.append_nil, String.ofList_toList, parse_secretName]
  | true =>
    rw [if_pos rfl, stripSuffix_append]
    dsimp only
    rw [String.ofList_toList, parse_secretName]

theorem eq_of_parseHumanFileName {fileName : String} {name : SecretName} {isLocal : Bool}
    (h : parseHumanFileName fileName = .key name isLocal) : fileName = fileNameOf name isLocal := by
  unfold parseHumanFileName at h
  split at h
  · cases h
  · rename_i stem hStem
    have hEnd := eq_of_stripSuffix hStem
    dsimp only at h
    refine String.toList_inj.mp ?_
    rw [toList_fileNameOf, hEnd]
    congr 1
    cases hLocal : Secrets.stripSuffix stem ".local".toList with
    | none =>
      rw [hLocal] at h
      split at h
      · rename_i key hKey
        obtain ⟨rfl, rfl⟩ := HumanFileName.key.inj h
        rw [SecretName.parse_ok hKey, String.toList_ofList, if_neg nofun, List.append_nil]
      · cases h
    | some =>
      rw [hLocal] at h
      split at h
      · rename_i key hKey
        obtain ⟨rfl, rfl⟩ := HumanFileName.key.inj h
        rw [SecretName.parse_ok hKey, String.toList_ofList, if_pos rfl, eq_of_stripSuffix hLocal]
      · cases h

/-- **File names and keys correspond.** A name is read as a key's committed or local file if and
only if it is built from the key; none of them leaves its directory; and what does not end in `.env`
is ignored. -/
theorem file_names_one_to_one :
    (∀ fileName name isLocal, parseHumanFileName fileName = .key name isLocal ↔
      fileName = fileNameOf name isLocal) ∧
    (∀ name other isLocal otherLocal,
      fileNameOf name isLocal = fileNameOf other otherLocal → name = other ∧ isLocal = otherLocal) ∧
    (∀ name isLocal, '/' ∉ (fileNameOf name isLocal).toList ∧
      '\x00' ∉ (fileNameOf name isLocal).toList ∧
      fileNameOf name isLocal ≠ "." ∧ fileNameOf name isLocal ≠ "..") ∧
    ∀ fileName, parseHumanFileName fileName = .ignored ↔ ¬ ".env".toList <:+ fileName.toList := by
  refine ⟨?_, ?_, ?_, ?_⟩
  · intro fileName name isLocal
    refine ⟨eq_of_parseHumanFileName, ?_⟩
    rintro rfl
    exact parseHumanFileName_of name isLocal
  · intro name other isLocal otherLocal hSame
    have hRead := parseHumanFileName_of name isLocal
    rw [hSame, parseHumanFileName_of] at hRead
    obtain ⟨hName, hLocal⟩ := HumanFileName.key.inj hRead
    exact ⟨hName.symm, hLocal.symm⟩
  · intro name isLocal
    -- the characters of a name are none of these, and those of the suffixes are fixed
    have hNone : ∀ c : Char, (c.isAlphanum || c == '_') = false → c ∉ ".local.env".toList →
        c ∉ (fileNameOf name isLocal).toList := by
      intro c hc hSuffix hMem
      rw [toList_fileNameOf, List.append_assoc] at hMem
      rcases List.mem_append.mp hMem with hName | hEnd
      · rw [SecretName.alphanum_of_mem hName] at hc
        cases hc
      · cases isLocal
        · exact hSuffix (List.mem_of_mem_drop (i := 6) hEnd)
        · exact hSuffix hEnd
    have hLong : 2 < (fileNameOf name isLocal).toList.length := by
      rw [toList_fileNameOf, List.length_append]
      show 2 < _ + 4
      omega
    refine ⟨hNone _ rfl (by decide), hNone _ rfl (by decide), ?_, ?_⟩
    · intro hDot
      rw [hDot] at hLong
      exact absurd hLong (by decide)
    · intro hDots
      rw [hDots] at hLong
      exact absurd hLong (by decide)
  · intro fileName
    unfold parseHumanFileName
    rw [← List.isSuffixOf_iff_suffix]
    by_cases hEnd : ".env".toList.isSuffixOf fileName.toList
    · refine iff_of_false ?_ (not_not.mpr hEnd)
      rw [Secrets.stripSuffix, if_pos hEnd]
      dsimp only
      split <;> exact nofun
    · rw [Secrets.stripSuffix, if_neg hEnd]
      exact iff_of_true rfl hEnd

end

/-! ## Contents -/

theorem trimPiped_cases (stdin : Bytes) :
    stdin = trimPiped stdin ++ [13, 10] ∨
    stdin = trimPiped stdin ++ [10] ∧ (trimPiped stdin).getLast? ≠ some 13 ∨
    stdin = trimPiped stdin ∧ stdin.getLast? ≠ some 10 := by
  unfold trimPiped
  split
  · rename_i hNewline
    have hText := List.dropLast_append_getLast? 10 hNewline
    unfold stripCarriageReturn
    split
    · rename_i hReturn
      left
      conv_lhs => rw [← hText, ← List.dropLast_append_getLast? 13 hReturn]
      rw [List.append_assoc]
      rfl
    · rename_i hNoReturn
      exact .inr (.inl ⟨hText.symm, hNoReturn⟩)
  · rename_i hNoNewline
    exact .inr (.inr ⟨rfl, hNoNewline⟩)

/-- **One assignment, and an unaltered value.** Contents are accepted if and only if, without empty
lines and comments, they are the one line that assigns the value to the key; a value that is piped
in is refused, or read back as it stood in the input, less one final newline. -/
theorem single_assignment (name : SecretName) :
    (∀ plaintext value, parseSingleAssignment plaintext name = .ok value ↔
      assignmentLines plaintext = [textBytes name.name ++ 61 :: value] ∧ 0 ∉ value) ∧
    ∀ stdin, (∃ e, readPipedAssignment stdin name = .error e) ∨
      ∃ assignment value, readPipedAssignment stdin name = .ok assignment ∧
        parseSingleAssignment assignment name = .ok value ∧
        (stdin = value ++ [13, 10] ∨ stdin = value ++ [10] ∧ value.getLast? ≠ some 13 ∨
          stdin = value ∧ stdin.getLast? ≠ some 10) := by
  refine ⟨fun _ _ => parseSingleAssignment_iff, ?_⟩
  intro stdin
  unfold readPipedAssignment
  dsimp only
  split
  · exact .inl ⟨_, rfl⟩
  · split
    · exact .inl ⟨_, rfl⟩
    · rename_i hOne
      split
      · exact .inl ⟨_, rfl⟩
      · rename_i value hRead
        refine .inr ⟨_, value, rfl, hRead, ?_⟩
        -- the value has no line break in it, so the line that was built is the only one
        rw [Bool.or_eq_true, not_or, List.contains_iff_mem, List.contains_iff_mem] at hOne
        have hEnd : (trimPiped stdin).getLast? ≠ some 13 :=
          fun hLast => hOne.2 (List.mem_of_getLast? hLast)
        have hLines := assignmentLines_one name (.inr rfl) hOne.1 hEnd
        rw [(parseSingleAssignment_iff.mp hRead).1, List.singleton_inj] at hLines
        rw [(List.cons.inj (List.append_cancel_left hLines)).2]
        exact trimPiped_cases stdin

end Forward.Edit

import Mathlib.Data.List.Perm.Subperm
import Forward.Secrets.Replies
import Forward.Secrets.Requests
import Forward.Secretsd.Client

/-!
# AUTHORIZE and REDEEM, from both ends

`forward` writes an AUTHORIZE frame and reads the fields of the replies to AUTHORIZE and REDEEM;
the broker parses the frame and writes these fields, with a grammar of its own.
-/

namespace Forward.Secretsd

open Lib Hygiene Proto Secrets

/-! ## The request -/

def requestScope : Option String → Option String → Option (String × String)
  | some token, _ => some ("token", token)
  | none, some tty => some ("tty", tty)
  | none, none => none

def authorizeRequest (cap : String) (token tty : Option String) : Except BrokerError String :=
  match requestScope token tty with
  | none => .error .noScope
  | some (scopeName, scope) =>
    if !validField cap.toList || !validField scope.toList then
      .error (.protocol "authorization request contains an invalid field")
    else
      let request := "AUTHORIZE\tcap=" ++ cap ++ "\t" ++ scopeName ++ "=" ++ scope
      if maxFrameBytes < (textBytes request).length + 1 then
        .error (.protocol "authorization request exceeds the broker frame limit")
      else .ok request

theorem notMem_of_validField {text : List Char} (h : validField text) : '\t' ∉ text := by
  intro hTab
  simp only [validField, Bool.and_eq_true, Bool.not_eq_true'] at h
  have hControl := List.any_eq_false.mp h.2 '\t' hTab
  exact hControl (by decide)

variable {cap : String}

theorem frame_of_scope {scopeName scope : String} (hCap : validField cap.toList)
    (hScope : validField scope.toList) (hName : scopeName = "token" ∨ scopeName = "tty")
    (hLength : (textBytes ("AUTHORIZE\tcap=" ++ cap ++ "\t" ++ scopeName ++ "=" ++ scope)).length ≤
      maxFrameBytes) :
    requestFields (textBytes ("AUTHORIZE\tcap=" ++ cap ++ "\t" ++ scopeName ++ "=" ++ scope)) =
      .ok ("AUTHORIZE".toList,
        [("cap".toList, cap.toList), (scopeName.toList, scope.toList)]) := by
  have hText : "AUTHORIZE\tcap=" ++ cap ++ "\t" ++ scopeName ++ "=" ++ scope =
      String.ofList (frameText "AUTHORIZE".toList
        [("cap".toList, cap.toList), (scopeName.toList, scope.toList)]) := by
    refine String.toList_inj.mp ?_
    rw [String.toList_ofList, frameText_eq]
    simp [Field.text, String.toList_append]
  have hNe : textBytes ("AUTHORIZE\tcap=" ++ cap ++ "\t" ++ scopeName ++ "=" ++ scope) ≠ [] := by
    simp only [textBytes_append, List.append_assoc]
    exact List.append_ne_nil_of_left_ne_nil (by decide +kernel) _
  have hPlain : '=' ∉ scopeName.toList ∧ '\t' ∉ scopeName.toList ∧ scopeName ≠ "cap" := by
    rcases hName with rfl | rfl <;> decide
  have hValue : '\t' ∉ cap.toList ∧ '\t' ∉ scope.toList :=
    ⟨notMem_of_validField hCap, notMem_of_validField hScope⟩
  refine requestFields_iff.mpr ⟨hNe, hLength, congrArg textBytes hText, by decide, ?_, ?_⟩
  · have hOther : "cap".toList ≠ scopeName.toList := fun hEq =>
      hPlain.2.2 (String.toList_inj.mp hEq).symm
    simpa using hOther
  · rintro f (_ | ⟨_, _ | ⟨_, ⟨⟩⟩⟩)
    · exact ⟨show '=' ∉ "cap".toList by decide, tab_notMem_text (by decide) hValue.1⟩
    · exact ⟨hPlain.1, tab_notMem_text hPlain.2.1 hValue.2⟩

/-- **The broker reads the frame as it was meant.** -/
theorem authorize_frame {frame : String} {token tty : Option String}
    (h : authorizeRequest cap token tty = .ok frame) :
    ∃ scopeName scope, requestScope token tty = some (scopeName, scope) ∧
      requestFields (textBytes frame) = .ok ("AUTHORIZE".toList,
        [("cap".toList, cap.toList), (scopeName.toList, scope.toList)]) ∧
      parseRequest (textBytes frame) =
        .ok (.authorize cap token (if token.isSome then none else tty)) := by
  unfold authorizeRequest at h
  split at h
  · cases h
  rename_i scopeName scope hScope
  split at h
  · cases h
  rename_i hValid
  simp only [Bool.or_eq_true, Bool.not_eq_true', not_or, Bool.not_eq_false] at hValid
  simp only at h
  split at h
  · cases h
  rename_i hLength
  cases h
  have hName : scopeName = "token" ∨ scopeName = "tty" := by
    unfold requestScope at hScope
    split at hScope
    · exact .inl (Prod.mk.inj (Option.some.inj hScope)).1.symm
    · exact .inr (Prod.mk.inj (Option.some.inj hScope)).1.symm
    · cases hScope
  have hFields := frame_of_scope hValid.1 hValid.2 hName (by omega)
  refine ⟨scopeName, scope, hScope, hFields, ?_⟩
  unfold parseRequest
  rw [hFields]
  show requestOf (String.ofList "AUTHORIZE".toList)
    [("cap".toList, cap.toList), (scopeName.toList, scope.toList)] = _
  have hCap : required [("cap".toList, cap.toList), (scopeName.toList, scope.toList)] "cap" =
      .ok cap := required_ok_iff.mpr ((owned_cons "cap" cap "cap" _).trans (if_pos rfl))
  have hOwned : ∀ name, "cap" ≠ name →
      owned [("cap".toList, cap.toList), (scopeName.toList, scope.toList)] name =
        if scopeName = name then some scope else none := by
    intro name hOther
    rw [owned_cons, if_neg hOther, owned_cons]
    rfl
  rw [String.ofList_toList]
  simp only [requestOf, hCap, hOwned "token" (by decide), hOwned "tty" (by decide)]
  unfold requestScope at hScope
  split at hScope
  · cases hScope
    rfl
  · cases hScope
    rfl
  · cases hScope

/-! ## Replies -/

def Expected (expected : List String) (f : Field) : Prop :=
  f.1 ≠ [] ∧ f.2 ≠ [] ∧ String.ofList f.1 ∈ expected

theorem readField_reads (expected : List String) :
    ReadsFields (readField expected) (Expected expected) := by
  intro seen part out
  unfold readField
  constructor
  · intro h
    split at h
    · cases h
    rename_i name value hSplit
    split at h
    · cases h
    rename_i hShape
    simp only [Bool.or_eq_true, List.isEmpty_iff, Bool.not_eq_true', not_or, List.any_eq_true,
      beq_iff_eq, Bool.not_eq_false, List.contains_iff_mem] at hShape
    obtain ⟨⟨⟨hName, hValue⟩, hExpected⟩, hNew⟩ := hShape
    obtain ⟨rfl, hEquals⟩ := splitOnce_equals_iff.mp hSplit
    refine ⟨(name, value), rfl, hEquals, ?_, ⟨hName, hValue, hExpected⟩,
      (Except.ok.inj h).symm⟩
    intro hSeen
    obtain ⟨f, hf, hEq⟩ := List.mem_map.mp hSeen
    exact hNew ⟨f, hf, hEq⟩
  · rintro ⟨f, rfl, hEquals, hNew, ⟨hName, hValue, hExpected⟩, rfl⟩
    rw [splitOnce_text hEquals]
    refine if_neg ?_
    simp only [Bool.or_eq_true, List.isEmpty_iff, Bool.not_eq_true', not_or, List.any_eq_true,
      beq_iff_eq, Bool.not_eq_false, List.contains_iff_mem]
    refine ⟨⟨⟨hName, hValue⟩, hExpected⟩, ?_⟩
    rintro ⟨seen', hSeen, hEq⟩
    exact hNew (List.mem_map.mpr ⟨seen', hSeen, hEq⟩)

def replyText (fields : List Field) : List Char := [' '].intercalate (fields.map Field.text)

variable {fields : String}

/-- **The replies with exactly the expected fields**, in any order. -/
theorem expectedFields_iff {expected : List String} {parsed : List Field}
    (hSome : expected ≠ []) (hNames : (expected.map String.toList).Nodup) :
    expectedFields fields expected = .ok parsed ↔
      fields.toList = replyText parsed ∧ (parsed.map Prod.fst).Perm (expected.map String.toList) ∧
      ∀ f ∈ parsed, ' ' ∉ f.text ∧ '=' ∉ f.1 ∧ f.1 ≠ [] ∧ f.2 ≠ [] := by
  unfold expectedFields
  rw [bind_eq_ok_iff]
  constructor
  · rintro ⟨found, hFold, hCount⟩
    split at hCount
    · rename_i hLength
      obtain rfl := Except.ok.inj hCount
      obtain ⟨all, hParts, hFound, hNodup, hAll⟩ :=
        ((readField_reads expected).foldlM_iff (by simp)).mp hFold
      rw [List.nil_append] at hFound
      subst hFound
      have hJoin : [' '].intercalate (fields.toList.splitOn ' ') = fields.toList :=
        List.intercalate_splitOn ' '
      have hSubset : found.map Prod.fst ⊆ expected.map String.toList := by
        intro name hName
        obtain ⟨f, hf, rfl⟩ := List.mem_map.mp hName
        exact List.mem_map.mpr ⟨_, (hAll f hf).2.2.2, String.toList_ofList⟩
      refine ⟨?_, ?_, ?_⟩
      · rw [replyText, ← hParts, hJoin]
      · refine (hNodup.subperm hSubset).perm_of_length_le ?_
        rw [List.length_map, List.length_map, hLength]
      · intro f hf
        have hPart : f.text ∈ fields.toList.splitOn ' ' := by
          rw [hParts]
          exact List.mem_map_of_mem hf
        exact ⟨notMem_of_mem_splitOn hPart, (hAll f hf).1, (hAll f hf).2.1, (hAll f hf).2.2.1⟩
    · cases hCount
  · rintro ⟨hText, hPerm, hAll⟩
    have hNe : parsed.map Field.text ≠ [] := by
      intro hNil
      have hLength := hPerm.length_eq
      rw [List.length_map, List.map_eq_nil_iff.mp hNil, List.length_map] at hLength
      exact hSome (List.eq_nil_of_length_eq_zero hLength.symm)
    have hSplit : fields.toList.splitOn ' ' = parsed.map Field.text := by
      rw [hText]
      refine List.splitOn_intercalate ' ' ?_ hNe
      intro part hPart
      obtain ⟨f, hf, rfl⟩ := List.mem_map.mp hPart
      exact (hAll f hf).1
    refine ⟨parsed, ?_, if_pos ?_⟩
    · rw [hSplit]
      refine ((readField_reads expected).foldlM_iff (by simp)).mpr
        ⟨parsed, rfl, rfl, hPerm.nodup_iff.mpr hNames, fun f hf => ?_⟩
      obtain ⟨-, hEquals, hName, hValue⟩ := hAll f hf
      obtain ⟨name, hIn, hEq⟩ := List.mem_map.mp (hPerm.subset (List.mem_map_of_mem hf))
      refine ⟨hEquals, hName, hValue, ?_⟩
      rw [← hEq, String.ofList_toList]
      exact hIn
    · have hLength := hPerm.length_eq
      rwa [List.length_map, List.length_map] at hLength

section

variable {parsed : List Field} {expected : List String}

theorem mem_of_fieldValue {name : String} {value : List Char}
    (h : fieldValue parsed name = some value) : (name.toList, value) ∈ parsed :=
  mem_of_field h

theorem fieldValue_of_mem {name : String} {value : List Char}
    (hPerm : (parsed.map Prod.fst).Perm (expected.map String.toList))
    (hNames : (expected.map String.toList).Nodup) (h : (name.toList, value) ∈ parsed) :
    fieldValue parsed name = some value :=
  field_of_mem (hPerm.nodup_iff.mpr hNames) h

end

/-- **What a reply to AUTHORIZE says if it is accepted.** -/
theorem authorizedReceipt_ok_iff {receipt : String} :
    authorizedReceipt fields = .ok receipt ↔
      ∃ parsed, expectedFields fields ["status", "receipt"] = .ok parsed ∧
        fieldValue parsed "status" = some "authorized".toList ∧
        fieldValue parsed "receipt" = some receipt.toList ∧
        validHexBytes (textBytes receipt) 64 := by
  unfold authorizedReceipt
  rw [bind_eq_ok_iff]
  refine exists_congr fun parsed => and_congr_right fun _ => ?_
  constructor
  · intro h
    simp only at h
    split at h
    · rename_i hStatus hReceipt
      split at h
      · rename_i hGood
        rw [Bool.and_eq_true, decide_eq_true_eq] at hGood
        cases h
        exact ⟨hStatus.trans (congrArg some hGood.1),
          hReceipt.trans (congrArg some String.toList_ofList.symm), hGood.2⟩
      · cases h
    · cases h
  · rintro ⟨hStatus, hReceipt, hHex⟩
    simp only [hStatus, hReceipt, String.ofList_toList, hHex]
    exact if_pos (by simp)

theorem redeemedCap_ok_iff {socket : SocketIdentity}
    {grant : RedeemedGrant} :
    redeemedCap fields cap socket = .ok grant ↔
      ∃ parsed, expectedFields fields ["status", "cap", "instance", "epoch", "ttl"] = .ok parsed ∧
        ∃ epochText ttlText, fieldValue parsed "status" = some "redeemed".toList ∧
          fieldValue parsed "cap" = some cap.toList ∧
          fieldValue parsed "instance" = some grant.authority.instanceId.toList ∧
          fieldValue parsed "epoch" = some epochText ∧ fieldValue parsed "ttl" = some ttlText ∧
          validField grant.authority.instanceId.toList ∧
          parseU64 epochText = some grant.authority.epoch ∧
          parseU64 ttlText = some grant.ttlSecs ∧ 0 < grant.ttlSecs ∧
          grant.authority.socket = socket := by
  unfold redeemedCap
  rw [bind_eq_ok_iff]
  refine exists_congr fun parsed => and_congr_right fun _ => ?_
  constructor
  · intro h
    simp only at h
    split at h
    · rename_i epochText ttlText hStatus hCap hInstance hEpoch hTtl
      split at h
      · rename_i hMatch
        rw [Bool.and_eq_true, decide_eq_true_eq, decide_eq_true_eq] at hMatch
        split at h
        · cases h
        rename_i hValid
        split at h
        · cases h
        · cases h
        rename_i hEpochValue hTtlValue
        cases h
        obtain ⟨hParsed, hPositive⟩ := Option.filter_eq_some_iff.mp hTtlValue
        refine ⟨epochText, ttlText, hStatus.trans (congrArg some hMatch.1),
          hCap.trans (congrArg some hMatch.2), ?_, hEpoch, hTtl, ?_, hEpochValue, hParsed,
          of_decide_eq_true hPositive, rfl⟩
        · rw [String.toList_ofList]
          exact hInstance
        · rw [String.toList_ofList]
          simpa using hValid
      · split at h <;> cases h
    · split at h <;> cases h
    · cases h
  · rintro ⟨epochText, ttlText, hStatus, hCap, hInstance, hEpoch, hTtl, hValid, hEpochValue,
      hTtlValue, hPositive, rfl⟩
    have hFilter : (parseU64 ttlText).filter (0 < ·) = some grant.ttlSecs := by
      rw [hTtlValue, Option.filter_some, if_pos (decide_eq_true hPositive)]
    simp only [hStatus, hCap, hInstance, hEpoch, hTtl, hValid, hEpochValue, hFilter]
    simp

/-! ## Round trips -/

theorem readable_field {name value : List Char} (hSpace : ' ' ∉ name ∧ '=' ∉ name ∧ name ≠ [])
    (hValue : ' ' ∉ value) (hSome : value ≠ []) :
    ' ' ∉ Field.text (name, value) ∧ '=' ∉ name ∧ name ≠ [] ∧ value ≠ [] := by
  refine ⟨?_, hSpace.2.1, hSpace.2.2, hSome⟩
  simp [Field.text, hSpace.1, hValue]

theorem plain_of_validHexBytes {text : String} (h : validHexBytes (textBytes text) 64) :
    ' ' ∉ text.toList ∧ text.toList ≠ [] := by
  unfold validHexBytes at h
  rw [Bool.and_eq_true, beq_iff_eq] at h
  have hBytes : textBytes text = text.toList.flatMap String.utf8EncodeChar := utf8_eq_flatMap text
  rw [hBytes] at h
  refine ⟨fun hSpace => ?_, fun hNil => ?_⟩
  · have hByte : (32 : UInt8) ∈ text.toList.flatMap String.utf8EncodeChar :=
      List.mem_flatMap.mpr ⟨' ', hSpace, by decide⟩
    exact absurd (List.all_eq_true.mp h.2 32 hByte) (by decide)
  · rw [hNil] at h
    exact absurd h.1 (by decide)

def authorizedReply (receipt : List Char) : List Field :=
  [("status".toList, "authorized".toList), ("receipt".toList, receipt)]

theorem replyText_authorizedReply (receipt : List Char) :
    replyText (authorizedReply receipt) = "status=authorized receipt=".toList ++ receipt := by
  have hStart : "status=authorized receipt=".toList =
      Field.text ("status".toList, "authorized".toList) ++ ' ' :: ("receipt".toList ++ ['=']) := by
    decide
  rw [hStart]
  simp [replyText, authorizedReply, Field.text, List.intercalate]

theorem authorizedReceipt_written {receipt : String}
    (hHex : validHexBytes (textBytes receipt) 64) :
    authorizedReceipt ("status=authorized receipt=" ++ receipt) = .ok receipt := by
  have hNames : (["status", "receipt"].map String.toList).Nodup := by decide
  have hPlain := plain_of_validHexBytes hHex
  have hPerm : ((authorizedReply receipt.toList).map Prod.fst).Perm
      (["status", "receipt"].map String.toList) := List.Perm.refl _
  have hText : ("status=authorized receipt=" ++ receipt).toList =
      replyText (authorizedReply receipt.toList) := by
    rw [replyText_authorizedReply, String.toList_append]
  refine authorizedReceipt_ok_iff.mpr ⟨authorizedReply receipt.toList,
    (expectedFields_iff (by simp) hNames).mpr ⟨hText, hPerm, ?_⟩, ?_, ?_, hHex⟩
  · refine List.forall_mem_cons.mpr ⟨?_, List.forall_mem_singleton.mpr ?_⟩
    · exact readable_field (by decide) (by decide) (by decide)
    · exact readable_field (by decide) hPlain.1 hPlain.2
  · exact fieldValue_of_mem hPerm hNames List.mem_cons_self
  · exact fieldValue_of_mem hPerm hNames (List.mem_cons_of_mem _ List.mem_cons_self)

def redeemedFields (cap instanceId : String) (epoch ttl : Nat) : String :=
  "status=redeemed cap=" ++ cap ++ " instance=" ++ instanceId ++ " epoch=" ++ toString epoch ++
    " ttl=" ++ toString ttl

def redeemedReply (cap instanceId epoch ttl : List Char) : List Field :=
  [("status".toList, "redeemed".toList), ("cap".toList, cap), ("instance".toList, instanceId),
    ("epoch".toList, epoch), ("ttl".toList, ttl)]

theorem replyText_redeemedReply (cap instanceId epoch ttl : List Char) :
    replyText (redeemedReply cap instanceId epoch ttl) =
      "status=redeemed cap=".toList ++ (cap ++ (" instance=".toList ++ (instanceId ++
        (" epoch=".toList ++ (epoch ++ (" ttl=".toList ++ ttl)))))) := by
  have hStart : "status=redeemed cap=".toList =
      Field.text ("status".toList, "redeemed".toList) ++ ' ' :: ("cap".toList ++ ['=']) := by decide
  have hName : " instance=".toList = ' ' :: ("instance".toList ++ ['=']) ∧
      " epoch=".toList = ' ' :: ("epoch".toList ++ ['=']) ∧
      " ttl=".toList = ' ' :: ("ttl".toList ++ ['=']) := by decide
  rw [hStart, hName.1, hName.2.1, hName.2.2]
  simp [replyText, redeemedReply, Field.text, List.intercalate]

theorem toList_redeemedFields (cap instanceId : String) (epoch ttl : Nat) :
    (redeemedFields cap instanceId epoch ttl).toList =
      replyText (redeemedReply cap.toList instanceId.toList (Nat.toDigits 10 epoch)
        (Nat.toDigits 10 ttl)) := by
  rw [replyText_redeemedReply]
  show ("status=redeemed cap=" ++ cap ++ " instance=" ++ instanceId ++ " epoch=" ++
    toString epoch ++ " ttl=" ++ toString ttl).toList = _
  simp only [String.toList_append, toList_toString, List.append_assoc]

theorem plain_capability (cap : Capability) : ' ' ∉ cap.name.toList ∧ cap.name.toList ≠ [] := by
  have hValid := cap.valid
  unfold validCapability at hValid
  split at hValid
  · cases hValid
  rename_i hName
  rw [Bool.and_eq_true] at hValid
  rw [hName]
  refine ⟨fun hSpace => ?_, List.cons_ne_nil _ _⟩
  exact absurd (List.all_eq_true.mp hValid.2 ' ' hSpace) (by decide)

theorem validField_of_graphic {text : List Char} (hSome : text ≠ [])
    (h : ∀ c ∈ text, isAsciiGraphic c) : validField text := by
  unfold validField
  simp only [Bool.and_eq_true, Bool.not_eq_true', List.isEmpty_eq_false_iff]
  refine ⟨⟨hSome, List.all_eq_true.mpr fun c hc => (plain_of_graphic (h c hc)).1⟩, ?_⟩
  refine List.any_eq_false.mpr fun c hc => ?_
  have hRange := isAsciiGraphic_iff.mp (h c hc)
  simp only [isAsciiControl, Bool.or_eq_true, decide_eq_true_eq, beq_iff_eq]
  omega

theorem redeemedCap_written (cap : Capability) {id : List UInt8} (hId : id.length = 16)
    {epoch ttl : Nat} (hEpoch : epoch < 2 ^ 64) (hPositive : 1 ≤ ttl) (hTtl : ttl < 2 ^ 64)
    (socket : SocketIdentity) :
    redeemedCap (redeemedFields cap.name (encode id) epoch ttl) cap.name socket =
      .ok ⟨⟨encode id, epoch, socket⟩, ttl⟩ := by
  have hNames : (["status", "cap", "instance", "epoch", "ttl"].map String.toList).Nodup := by
    decide
  have hInstance : (encode id).toList ≠ [] := by
    intro hNil
    have hLength := length_encode id
    rw [hNil, hId] at hLength
    cases hLength
  have hSpace : ' ' ∉ (encode id).toList := fun hIn => (plain_of_mem_encode hIn).2.1 rfl
  have hDecimal : ∀ n, ' ' ∉ Nat.toDigits 10 n := fun n hIn => (plain_of_mem_decimal hIn).2.1 rfl
  obtain ⟨hCapSpace, hCap⟩ := plain_capability cap
  have hPerm : ((redeemedReply cap.name.toList (encode id).toList (Nat.toDigits 10 epoch)
      (Nat.toDigits 10 ttl)).map Prod.fst).Perm
      (["status", "cap", "instance", "epoch", "ttl"].map String.toList) := List.Perm.refl _
  have hFields : ∀ f ∈ redeemedReply cap.name.toList (encode id).toList (Nat.toDigits 10 epoch)
      (Nat.toDigits 10 ttl), ' ' ∉ f.text ∧ '=' ∉ f.1 ∧ f.1 ≠ [] ∧ f.2 ≠ [] := by
    refine List.forall_mem_cons.mpr ⟨?_, List.forall_mem_cons.mpr ⟨?_, List.forall_mem_cons.mpr
      ⟨?_, List.forall_mem_cons.mpr ⟨?_, List.forall_mem_singleton.mpr ?_⟩⟩⟩⟩
    · exact readable_field (by decide) (by decide) (by decide)
    · exact readable_field (by decide) hCapSpace hCap
    · exact readable_field (by decide) hSpace hInstance
    · exact readable_field (by decide) (hDecimal epoch) Nat.toDigits_ne_nil
    · exact readable_field (by decide) (hDecimal ttl) Nat.toDigits_ne_nil
  refine redeemedCap_ok_iff.mpr ⟨_, (expectedFields_iff (by simp) hNames).mpr
    ⟨toList_redeemedFields _ _ _ _, hPerm, hFields⟩, Nat.toDigits 10 epoch, Nat.toDigits 10 ttl,
    fieldValue_of_mem hPerm hNames List.mem_cons_self,
    fieldValue_of_mem hPerm hNames (.tail _ (.head _)),
    fieldValue_of_mem hPerm hNames (.tail _ (.tail _ (.head _))),
    fieldValue_of_mem hPerm hNames (.tail _ (.tail _ (.tail _ (.head _)))),
    fieldValue_of_mem hPerm hNames (.tail _ (.tail _ (.tail _ (.tail _ (.head _))))),
    ?_, ?_, ?_, hPositive, rfl⟩
  · exact validField_of_graphic hInstance fun c hc =>
      isAsciiGraphic_of_isHexDigit (isHexDigit_of_mem_encode hc)
  · rw [parseU64_decimal, if_pos hEpoch]
  · rw [parseU64_decimal, if_pos hTtl]

end Forward.Secretsd

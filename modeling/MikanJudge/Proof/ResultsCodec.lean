import MikanJudge.Model.Pages

/-!
# The results of the test cases as text

The column `testcase_results` is written in one format and read in two, by
`into_submission` and by `tc_summary_from_json`. What is written is read back
(`decodeResults_of_results`), so is a list in the old format
(`decodeResults_of_strings`), and the two readers agree on every text
(`verdictsFromJson_eq`). `serde_json` is given: of it a result needs that it
parses a text it has written to the value it has written.
-/

namespace MikanJudge

open MikanJudge.Lib

/-- The text of a value parses to that value. -/
def ReadsBack (ext : Externals) (j : Json) : Prop :=
  ext.parseJson (String.ofList (Json.render ext.fmtDecimal j)) = some j

namespace TestcaseVerdict

/-- The numbers of a result are of their types, and its score is finite. -/
structure Storable (v : TestcaseVerdict) : Prop where
  timeMs : ∀ n ∈ v.timeMs, n < 2 ^ 64
  memoryKb : ∀ n ∈ v.memoryKb, n < 2 ^ 64
  score : ∀ s ∈ v.score, s = .fin s.value

theorem decodeOpt_optJson_nat {n : Option Nat} (h : ∀ m ∈ n, m < 2 ^ 64) :
    decodeOpt decodeU64 (optJson natJson n) = some n := by
  cases n with
  | none => rfl
  | some m =>
    have hm : (0 : Int) ≤ m ∧ (m : Int) < 2 ^ 64 := ⟨by omega, by exact_mod_cast h m rfl⟩
    simp only [optJson, natJson, decodeOpt, decodeU64, if_pos hm, Option.map_some, Int.toNat_natCast]

theorem decodeOpt_toJson_score {s : F64} (h : s = .fin s.value) :
    decodeOpt decodeF64 (F64.toJson s) = some (some s) := by
  rw [h]
  rfl

/-- A result is decoded from what it is encoded as. -/
theorem ofJson_toJson {v : TestcaseVerdict} (h : v.Storable) : ofJson v.toJson = some v := by
  obtain ⟨verdict, timeMs, memoryKb, score⟩ := v
  have htime := decodeOpt_optJson_nat h.timeMs
  have hmemory := decodeOpt_optJson_nat h.memoryKb
  dsimp only at htime hmemory
  cases score with
  | none => simp [toJson, ofJson, optField, field, decodeStr, htime, hmemory]
  | some s =>
    have hscore := decodeOpt_toJson_score (h.score s rfl)
    simp [toJson, ofJson, optField, field, decodeStr, htime, hmemory, hscore]

theorem mapM_ofJson_toJson {results : List TestcaseVerdict} (h : ∀ v ∈ results, v.Storable) :
    (results.map toJson).mapM ofJson = some results := by
  induction results with
  | nil => rfl
  | cons v results ih =>
    rw [List.map_cons, List.mapM_cons, ofJson_toJson (h v List.mem_cons_self),
      ih fun w hw => h w (List.mem_cons_of_mem _ hw)]
    rfl

theorem mapM_decodeStr (strings : List String) :
    (strings.map Json.str).mapM decodeStr = some strings := by
  induction strings with
  | nil => rfl
  | cons s strings ih =>
    rw [List.map_cons, List.mapM_cons, ih]
    rfl

/-- A verdict of the old format: nothing else is known. -/
def ofVerdict (verdict : String) : TestcaseVerdict :=
  { verdict, timeMs := none, memoryKb := none, score := none }

end TestcaseVerdict

section

variable {ext : Externals} {results : List TestcaseVerdict} {strings : List String}

theorem fromStrVec_of_readsBack {α : Type} {decode : Json → Option α} {items : List Json}
    (h : ReadsBack ext (.arr items)) :
    fromStrVec ext decode (String.ofList (Json.render ext.fmtDecimal (.arr items))) =
      items.mapM decode := by
  rw [ReadsBack] at h
  rw [fromStrVec, h]

theorem decodeResults_of_results (hstorable : ∀ v ∈ results, v.Storable)
    (hread : ReadsBack ext (.arr (results.map TestcaseVerdict.toJson))) :
    decodeResults ext (encodeResults ext results) = some results := by
  rw [decodeResults, encodeResults, fromStrVec_of_readsBack hread,
    TestcaseVerdict.mapM_ofJson_toJson hstorable]

/-- The empty list is read in the new format, any other in the old one. -/
theorem decodeResults_of_strings (hread : ReadsBack ext (.arr (strings.map .str))) :
    decodeResults ext (String.ofList (Json.render ext.fmtDecimal (.arr (strings.map .str)))) =
      some (strings.map .ofVerdict) := by
  rw [decodeResults, fromStrVec_of_readsBack hread, fromStrVec_of_readsBack hread]
  cases strings with
  | nil => rfl
  | cons s strings =>
    have hnew : ((s :: strings).map Json.str).mapM TestcaseVerdict.ofJson = none := by
      rw [List.map_cons, List.mapM_cons]
      rfl
    rw [hnew, TestcaseVerdict.mapM_decodeStr]
    rfl

/-- Both readers take the verdicts from the same format. -/
theorem verdictsFromJson_eq (ext : Externals) (s : String) :
    verdictsFromJson ext s = (decodeResults ext s).map fun results => results.map (·.verdict) := by
  rw [verdictsFromJson, decodeResults]
  cases fromStrVec ext TestcaseVerdict.ofJson s with
  | some v => rfl
  | none =>
    cases fromStrVec ext TestcaseVerdict.decodeStr s with
    | none => rfl
    | some strings =>
      simp only [Option.map_some, List.map_map]
      exact congrArg some (List.map_id strings).symm

/-- A test case that succeeded. -/
def TestcaseVerdict.succeeded (v : TestcaseVerdict) : Bool := v.verdict == "AC" || v.verdict == "SCORED"

theorem tcSummaryFromJson_eq (ext : Externals) (s : String) :
    tcSummaryFromJson ext s = (decodeResults ext s).map fun results =>
      toString (results.countP (·.succeeded)) ++ "/" ++ toString results.length := by
  rw [tcSummaryFromJson, verdictsFromJson_eq, Option.map_map]
  congr 1
  funext results
  simp only [Function.comp, List.length_map, ← List.countP_eq_length_filter, List.countP_map]
  rfl

theorem testcaseResults_of_updateResult {rows rows' : List SubmissionRow} {id : Uuid}
    {status : JudgeStatus} {time memory : Option Nat} {stdout stderr : Option String}
    {score : Option F64}
    (hwrite : updateResult ext rows id status time memory stdout stderr (some results) score =
      .ok rows') {r : SubmissionRow} (hr : r ∈ rows') (hid : r.id = id) :
    r.testcaseResults = some (encodeResults ext results) := by
  rw [updateResult] at hwrite
  split_ifs at hwrite
  obtain rfl := Except.ok.inj hwrite
  obtain ⟨r₀, -, rfl⟩ := mem_updateWhere.mp hr
  split_ifs at hid ⊢ with h
  · rfl
  · exact absurd hid h

end

/-- The results that `update_result` writes are those that are read, a list of
verdicts in the old format is read with nothing but the verdicts, and on every
text the summary is that of the list that is read, if there is one. -/
theorem results_codec (ext : Externals) (results : List TestcaseVerdict) (strings : List String)
    (hstorable : ∀ v ∈ results, v.Storable)
    (hread : ReadsBack ext (.arr (results.map TestcaseVerdict.toJson)))
    (hreadOld : ReadsBack ext (.arr (strings.map .str))) :
    (∀ rows rows' id status time memory stdout stderr score,
      updateResult ext rows id status time memory stdout stderr (some results) score = .ok rows' →
      ∀ r ∈ rows', r.id = id → (r.intoSubmission ext).testcaseResults = some results) ∧
    (∀ r : SubmissionRow, r.testcaseResults =
        some (String.ofList (Json.render ext.fmtDecimal (.arr (strings.map .str)))) →
      (r.intoSubmission ext).testcaseResults = some (strings.map .ofVerdict)) ∧
    ∀ (r : SubmissionRow) (s : String), r.testcaseResults = some s →
      ((tcSummaryFromJson ext s).isSome ↔ (r.intoSubmission ext).testcaseResults.isSome) ∧
      ∀ list, (r.intoSubmission ext).testcaseResults = some list →
        tcSummaryFromJson ext s =
          some (toString (list.countP (·.succeeded)) ++ "/" ++ toString list.length) := by
  have hcolumn : ∀ {r : SubmissionRow} {s : String}, r.testcaseResults = some s →
      (r.intoSubmission ext).testcaseResults = decodeResults ext s := by
    intro r s hs
    rw [SubmissionRow.intoSubmission, hs, Option.bind_some]
  refine ⟨?_, fun r hr => ?_, fun r s hs => ?_⟩
  · intro rows rows' id status time memory stdout stderr score hwrite r hr hid
    rw [hcolumn (testcaseResults_of_updateResult hwrite hr hid),
      decodeResults_of_results hstorable hread]
  · rw [hcolumn hr, decodeResults_of_strings hreadOld]
  · rw [hcolumn hs, tcSummaryFromJson_eq, Option.isSome_map]
    refine ⟨Iff.rfl, fun list hlist => ?_⟩
    rw [hlist, Option.map_some]

/-- The results of two test cases. -/
def twoResults : List TestcaseVerdict := [⟨"AC", some 12, some 3400, none⟩, ⟨"TLE", none, none, none⟩]

def twoVerdicts : List String := ["AC", "WA"]

def textOf (items : List Json) : String :=
  String.ofList (Json.render Externals.simple.fmtDecimal (.arr items))

/-- The values of the texts of two lists. -/
def parseTwo (s : String) : Option Json :=
  if s = textOf (twoResults.map TestcaseVerdict.toJson) then
    some (.arr (twoResults.map TestcaseVerdict.toJson))
  else if s = textOf (twoVerdicts.map .str) then some (.arr (twoVerdicts.map .str)) else none

/-- An instance that knows the texts of two lists. -/
def twoResultsExternals : Externals := { Externals.simple with parseJson := parseTwo }

/-- A row without results. -/
def emptyRow : SubmissionRow :=
  Submission.toRow ⟨0, none, none, "", .cpp, "a", .pending, none, none, none, none, none, none⟩ 0

/-- The row with the results of two test cases. -/
def twoResultsRow : SubmissionRow :=
  { emptyRow with
    status := JudgeStatus.timeLimitExceeded.toDb
    testcaseResults := some (encodeResults twoResultsExternals twoResults) }

/-- Results that are written are read back, and so are verdicts in the old format. -/
theorem results_codec_two :
    updateResult twoResultsExternals [emptyRow] 0 .timeLimitExceeded none none none none
      (some twoResults) none = .ok [twoResultsRow] ∧
    (twoResultsRow.intoSubmission twoResultsExternals).testcaseResults = some twoResults ∧
    ({ emptyRow with testcaseResults := some (textOf (twoVerdicts.map .str)) }.intoSubmission
      twoResultsExternals).testcaseResults = some (twoVerdicts.map .ofVerdict) ∧
    tcSummaryFromJson twoResultsExternals (encodeResults twoResultsExternals twoResults) =
      some (toString (twoResults.countP (·.succeeded)) ++ "/" ++ toString twoResults.length) := by
  have hread : parseTwo (textOf (twoResults.map TestcaseVerdict.toJson)) =
      some (.arr (twoResults.map TestcaseVerdict.toJson)) := by
    rw [parseTwo, if_pos rfl]
  have hreadOld : parseTwo (textOf (twoVerdicts.map .str)) = some (.arr (twoVerdicts.map .str)) := by
    rw [parseTwo, if_neg (by decide +kernel), if_pos rfl]
  have hstorable : ∀ v ∈ twoResults, v.Storable :=
    List.forall_mem_cons.mpr ⟨⟨by decide, by decide, by decide⟩,
      List.forall_mem_singleton.mpr ⟨by decide, by decide, by decide⟩⟩
  obtain ⟨hroundTrip, hold, hsummary⟩ :=
    results_codec twoResultsExternals twoResults twoVerdicts hstorable hread hreadOld
  have htexts : optTextOk (some (encodeResults twoResultsExternals twoResults)) = true := by
    decide +kernel
  have hwrite : updateResult twoResultsExternals [emptyRow] 0 .timeLimitExceeded none none none none
      (some twoResults) none = .ok [twoResultsRow] := by
    rw [updateResult, Option.map_some, htexts]
    rfl
  have hback := hroundTrip _ _ _ _ _ _ _ _ _ hwrite twoResultsRow List.mem_cons_self rfl
  exact ⟨hwrite, hback, hold _ rfl, (hsummary twoResultsRow _ rfl).2 twoResults hback⟩

end MikanJudge

import MikanJudge.Proof.Verdict

/-!
# The result of a job

What the columns of a result are for the cases of a job (`Aggregates`), and
that `judge` writes these for a job whose cases could all be run
(`judge_aggregates`). It writes no results for any other.
-/

namespace MikanJudge

open MikanJudge.Lib

def TestcaseVerdict.Passed (v : TestcaseVerdict) : Prop := v.verdict = "AC" ∨ v.verdict = "SCORED"

/-- The columns of a result, for the cases of a job: an entry for each case;
the status and the outputs of the first case that does not pass; the greatest
time and memory, `none` for zero; the scores, added up in order. -/
structure Aggregates (ext : Externals) (job : JudgeJob) (compiled : CompileOutput)
    (cases : List CaseOutcome) (status : JudgeStatus) (timeUsedMs memoryUsedKb : Option Nat)
    (stdout stderr : Option String) (testcaseResults : List TestcaseVerdict)
    (score : Option F64) : Prop where
  entries : testcaseResults = cases.map (·.verdict ext job)
  success : status = job.successStatus ↔ ∀ v ∈ testcaseResults, v.Passed
  noFailure : (∀ v ∈ testcaseResults, v.Passed) → stdout = some "" ∧ stderr = some ""
  firstFailure {before after : List CaseOutcome} {c : CaseOutcome} :
    cases = before ++ c :: after → (∀ b ∈ before, (b.verdict ext job).Passed) →
    ¬ (c.verdict ext job).Passed →
    status = (c.status ext job).val ∧ stdout = some c.stdout ∧ stderr = some (c.stderr compiled)
  time : timeUsedMs.getD 0 = (cases.map (·.timeMs)).max?.getD 0
  time_null : timeUsedMs = none ↔ (cases.map (·.timeMs)).max?.getD 0 = 0
  memory : memoryUsedKb.getD 0 = (cases.map (·.memoryKb)).max?.getD 0
  memory_null : memoryUsedKb = none ↔ (cases.map (·.memoryKb)).max?.getD 0 = 0
  score : score = if job.judgeType = .heuristic then
    some ((cases.filterMap (·.score ext job)).foldl (F64.add F64.round) 0) else none

section

variable {ext : Externals} {job : JudgeJob} {compiled : CompileOutput} {cases : List CaseOutcome}
  {c : CaseOutcome}

/-! ## Cases that pass -/

theorem isSuccess_iff_verdictStr {s : JudgeStatus} :
    s.isSuccess = true ↔ verdictStr s = "AC" ∨ verdictStr s = "SCORED" := by
  cases s <;> simp [JudgeStatus.isSuccess, verdictStr]

theorem CaseOutcome.passed_iff : (c.verdict ext job).Passed ↔ c.fails ext job = false := by
  rw [TestcaseVerdict.Passed, verdict, ← isSuccess_iff_verdictStr, fails, Bool.not_eq_false']

/-- No case fails exactly if all entries pass. -/
theorem find?_fails_eq_none :
    cases.find? (·.fails ext job) = none ↔
      ∀ v ∈ cases.map (·.verdict ext job), v.Passed := by
  rw [List.find?_eq_none, List.forall_mem_map]
  refine forall₂_congr fun c _ => ?_
  rw [CaseOutcome.passed_iff, Bool.not_eq_true]

/-! ## The columns -/

theorem getD_ite_pos (n : Nat) : (if n > 0 then some n else none).getD 0 = n := by
  split_ifs with h
  · rfl
  · exact (Nat.eq_zero_of_not_pos h).symm

theorem ite_pos_eq_none (n : Nat) : (if n > 0 then some n else none) = none ↔ n = 0 := by
  rw [ite_eq_right_iff]
  refine ⟨fun h => Nat.eq_zero_of_not_pos fun hn => ?_, fun h hn => ?_⟩
  · cases h hn
  · omega

/-- The closed form of the variables says what the columns are. -/
theorem Accum.aggregates (cases : List CaseOutcome) :
    let acc := Accum.of ext job compiled cases
    Aggregates ext job compiled cases acc.finalStatus.val
      (if acc.maxTimeMs > 0 then some acc.maxTimeMs else none)
      (if acc.maxMemoryKb > 0 then some acc.maxMemoryKb else none)
      (some acc.outputs.1) (some acc.outputs.2) acc.tcVerdicts
      (if job.isHeuristic then some acc.totalScore else none) where
  entries := rfl
  success := by
    refine Iff.trans ⟨fun h => ?_, fun h => ?_⟩ find?_fails_eq_none
    · have hs : (Accum.of ext job compiled cases).finalStatus.val.isSuccess = true := by
        rw [h, isSuccess_successStatus]
      rw [Accum.isSuccess_of] at hs
      exact Option.isNone_iff_eq_none.mp hs
    · rw [(Accum.of_none h).1]
  noFailure h := by
    rw [(Accum.of_none (find?_fails_eq_none.mpr h)).2]
    exact ⟨rfl, rfl⟩
  firstFailure {before after c} hcases hbefore hc := by
    have hfind : cases.find? (·.fails ext job) = some c := by
      rw [List.find?_eq_some_iff_append]
      refine ⟨?_, before, after, hcases, fun b hb => ?_⟩
      · rwa [CaseOutcome.passed_iff, Bool.not_eq_false] at hc
      · rw [CaseOutcome.passed_iff.mp (hbefore b hb), Bool.not_false]
    rw [(Accum.of_some hfind).1, (Accum.of_some hfind).2]
    exact ⟨rfl, rfl, rfl⟩
  time := getD_ite_pos _
  time_null := ite_pos_eq_none _
  memory := getD_ite_pos _
  memory_null := ite_pos_eq_none _
  score := by
    simp only [JudgeJob.isHeuristic, beq_iff_eq]
    rfl

variable {env : JudgeEnv} {results : Nat → RunResult}

/-- Results are written only for a job judged to the end. -/
theorem judgedWith_of_results {status : JudgeStatus} {time memory : Option Nat}
    {stdout stderr : Option String} {entries : List TestcaseVerdict} {score : Option F64}
    (h : (judgeFinal ext job env).val =
      .result status time memory stdout stderr (some entries) score) :
    ∃ compiled results, JudgedWith job env compiled results := by
  have hends := judgeEnds ext job env
  generalize judgeFinal ext job env = u at h hends
  cases hends with
  | internalError e _ _ => cases h
  | compileError _ _ _ => cases h
  | finished hjudged => exact ⟨_, _, hjudged⟩

/-- Whatever is written for a job judged to the end is what its cases add up to. -/
theorem JudgedWith.aggregates (h : JudgedWith job env compiled results) {status : JudgeStatus}
    {time memory : Option Nat} {stdout stderr : Option String} {entries : List TestcaseVerdict}
    {score : Option F64} (hfinal : (judgeFinal ext job env).val =
      .result status time memory stdout stderr (some entries) score) :
    Aggregates ext job compiled (outcomes env.runs results 0 job.testcases) status time memory
      stdout stderr entries score := by
  rw [h.judgeFinal_eq, Accum.finish_eq] at hfinal
  cases hfinal
  exact Accum.aggregates _

/-- A success means that all cases pass. -/
theorem JudgedWith.passed_iff (h : JudgedWith job env compiled results) {status : JudgeStatus}
    {time memory : Option Nat} {stdout stderr : Option String} {entries : List TestcaseVerdict}
    {score : Option F64} (hfinal : (judgeFinal ext job env).val =
      .result status time memory stdout stderr (some entries) score) :
    status.isSuccess = true ↔ ∀ v ∈ entries, v.Passed := by
  rw [h.judgeFinal_eq, Accum.finish_eq] at hfinal
  cases hfinal
  rw [Accum.isSuccess_of, Option.isNone_iff_eq_none]
  exact find?_fails_eq_none

end

/-- If the program compiles and all cases can be run, `judge` writes what the
cases add up to. Of the status, the row keeps its kind only. -/
theorem judge_aggregates (ext : Externals) (job : JudgeJob) (env : JudgeEnv)
    (compiled : CompileOutput) (results : Nat → RunResult)
    (hjudged : JudgedWith job env compiled results) :
    ∃ status timeUsedMs memoryUsedKb stdout stderr testcaseResults score,
      (judgeFinal ext job env).val = .result status timeUsedMs memoryUsedKb stdout stderr
        (some testcaseResults) score ∧
      Aggregates ext job compiled (outcomes env.runs results 0 job.testcases) status timeUsedMs
        memoryUsedKb stdout stderr testcaseResults score ∧
      ∀ rows, judge ext job env rows =
        match updateResult ext (updateStatus rows job.id .running) job.id status timeUsedMs
          memoryUsedKb stdout stderr (some testcaseResults) score with
        | .ok rows' => rows'
        | .error _ => updateStatus rows job.id .running := by
  refine ⟨_, _, _, _, _, _, _, (congrArg (·.val) hjudged.judgeFinal_eq).trans (Accum.finish_eq _),
    Accum.aggregates _, fun rows => ?_⟩
  rw [judge, hjudged.judgeFinal_eq, Accum.finish_eq]
  rfl

/-- An exact job with two cases, of which the second expects `2`. -/
def twoCaseJob : JudgeJob := { oneJob with testcases := [("", some "1"), ("", some "2")] }

/-- The run of a case of it in which the program prints `1`. -/
def printsOne (expected : String) : CaseOutcome where
  expectedOutput := some expected
  result := parentCollect twoCaseJob.sandboxConfig (printing [.byte 49])
  scorer := .failed ""

/-- A program that always prints `1` gets the status and the output of the
second case. -/
theorem judge_aggregates_two :
    ∃ testcaseResults, (judgeFinal .simple twoCaseJob (envOf (printing [.byte 49]))).val =
      .result .wrongAnswer none none (some "1") (some "") (some testcaseResults) none := by
  obtain ⟨status, time, memory, stdout, stderr, entries, score, hu, h, -⟩ :=
    judge_aggregates .simple twoCaseJob (envOf (printing [.byte 49])) _
      (fun _ => (printsOne "").result) ⟨rfl, rfl, rfl, fun i _ => rfl⟩
  have hfirst : ∀ b ∈ [printsOne "1"], (b.verdict .simple twoCaseJob).Passed := by
    intro b hb
    rw [List.mem_singleton.mp hb]
    exact .inl (by decide)
  have hsecond : ¬ ((printsOne "2").verdict .simple twoCaseJob).Passed := by
    rw [CaseOutcome.passed_iff]
    decide
  obtain ⟨hstatus, hstdout, hstderr⟩ :=
    h.firstFailure (show _ = [printsOne "1"] ++ printsOne "2" :: [] from rfl) hfirst hsecond
  have htime := h.time_null.mpr (by decide)
  have hmemory := h.memory_null.mpr (by decide)
  have hscore := h.score.trans (if_neg (by decide))
  have e₁ : ((printsOne "2").status .simple twoCaseJob).val = .wrongAnswer := by decide
  have e₂ : (printsOne "2").stdout = "1" := by decide
  have e₃ : (printsOne "2").stderr ⟨"solution", [], none, ""⟩ = "" := by decide
  rw [hstatus, hstdout, hstderr, htime, hmemory, hscore, e₁, e₂, e₃] at hu
  exact ⟨entries, hu⟩

end MikanJudge

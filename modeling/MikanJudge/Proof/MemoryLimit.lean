import MikanJudge.Proof.Aggregate

/-!
# Cases above the memory limit

`judge` compares the memory of a case with the limit only where the program
failed. A case above the limit is kept from passing exactly if it would not
pass anyway: its program fails, or what it writes is not accepted
(`memory_within_limit_iff`).
-/

namespace MikanJudge

open MikanJudge.Lib

/-- What the program writes is right: the scorer gives it a score, or it
matches what is expected. -/
def CaseOutcome.OutputAccepted (ext : Externals) (job : JudgeJob) (c : CaseOutcome) : Prop :=
  if job.judgeType = .heuristic then ∃ score, runScorer ext job.scorerPath c.scorer = .ok score
  else trim c.stdout = trim (c.expectedOutput.getD "")

section

variable {ext : Externals} {job : JudgeJob} {c : CaseOutcome}

/-- A case passes exactly if its program ends well and its output is accepted,
whatever memory it took. -/
theorem CaseOutcome.passed_iff_accepted :
    (c.verdict ext job).Passed ↔ c.result.status = .ok ∧ c.OutputAccepted ext job := by
  rw [passed_iff, fails, Bool.not_eq_false', status, OutputAccepted, caseStatus, stdout]
  cases hs : c.result.status with
  | timeLimitExceeded => simp [JudgeStatus.isSuccess]
  | runtimeError | killed => split_ifs <;> simp [JudgeStatus.isSuccess]
  | ok =>
    simp only [JudgeJob.isHeuristic, beq_iff_eq, true_and]
    split_ifs with hh he
    · cases runScorer ext job.scorerPath c.scorer with
      | ok score => simp [JudgeStatus.isSuccess]
      | error e => simp [JudgeStatus.isSuccess]
    · simp [JudgeStatus.isSuccess, he]
    · simp [JudgeStatus.isSuccess, he]

end

/-- A case above the memory limit does not pass, in exactly those runs in which
it does not end well with an accepted output. A job has no success with a case
above the limit exactly if not all of its cases pass, or all are within it. -/
theorem memory_within_limit_iff (ext : Externals) (job : JudgeJob) :
    (∀ c : CaseOutcome,
      (job.memoryLimitKb < c.memoryKb → ¬ (c.verdict ext job).Passed) ↔
        (c.result.status = .ok → c.OutputAccepted ext job → c.memoryKb ≤ job.memoryLimitKb)) ∧
    ∀ env compiled results, JudgedWith job env compiled results →
      (((judgeFinal ext job env).val.newStatus.isSuccess = true →
          ∀ c ∈ outcomes env.runs results 0 job.testcases, c.memoryKb ≤ job.memoryLimitKb) ↔
        ((∀ c ∈ outcomes env.runs results 0 job.testcases,
            c.result.status = .ok ∧ c.OutputAccepted ext job) →
          ∀ c ∈ outcomes env.runs results 0 job.testcases, c.memoryKb ≤ job.memoryLimitKb)) := by
  constructor
  · intro c
    rw [CaseOutcome.passed_iff_accepted]
    constructor
    · intro h hs ho
      exact Nat.le_of_not_lt fun hlt => h hlt ⟨hs, ho⟩
    · rintro h hlt ⟨hs, ho⟩
      exact absurd (h hs ho) (Nat.not_le_of_lt hlt)
  · intro env compiled results hjudged
    refine imp_congr_left ?_
    rw [hjudged.judgeFinal_eq, Accum.finish_eq]
    change (Accum.of ext job compiled _).finalStatus.val.isSuccess = true ↔ _
    rw [Accum.isSuccess_of, Option.isNone_iff_eq_none, find?_fails_eq_none, List.forall_mem_map]
    exact forall₂_congr fun c _ => CaseOutcome.passed_iff_accepted

/-- A program that prints `1` and takes 300 MiB. -/
def largeRun : ProcRun := { printing [.byte 49] with memoryPeak := some (300 * 1024 * 1024) }

/-- It is accepted, with a limit of 256 MiB. -/
theorem memory_within_limit_fails :
    oneJob.memoryLimitKb < (parentCollect oneJob.sandboxConfig largeRun).memoryUsedBytes / 1024 ∧
    (judgeFinal .simple oneJob (envOf largeRun)).val.newStatus = .accepted ∧
    (judgeFinal .simple oneJob (envOf largeRun)).val.verdictAt 0 = some "AC" := by
  exact ⟨by decide, by decide, by decide⟩

end MikanJudge

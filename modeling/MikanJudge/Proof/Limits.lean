import MikanJudge.Model.Limits
import MikanJudge.Model.Submit

/-!
# The limits do not overflow

What is computed from the limits of a job is exact, in both builds, except for
the memory in bytes, which `judge` multiplies out without a check
(`limitsExact_iff`). The times leave room: a `u64` of milliseconds is less
than `2 ^ 55` seconds. The soft `RLIMIT_CPU` is a whole number of seconds above
the time limit.
-/

namespace MikanJudge

/-- All that is computed from the limits of a job is its mathematical value,
and the soft `RLIMIT_CPU` lies above the time limit: `SIGXCPU` is raised when
a process has used that many seconds of CPU time. -/
structure LimitsExact (b : Build) (start : Instant) (job : JudgeJob) : Prop where
  mem : job.mem b = some (job.memoryLimitKb * 1024)
  vmLimitBytes : job.vmLimitBytes b =
    some (if job.language.needsUnlimitedVm then none else some (job.memoryLimitKb * 1024 * 2))
  cpuLimit : job.sandboxConfig.cpuLimit b =
    some (max (job.timeLimitMs / 1000) 1 + 1, max (job.timeLimitMs / 1000) 1 + 1 + 1)
  deadline : job.sandboxConfig.deadline start =
    some (start + job.timeLimitMs * 1000000 + 100 * 1000000)
  threshold : job.sandboxConfig.threshold = some (job.timeLimitMs * 1000000 + 50 * 1000000)
  cpuLimit_gt {soft hard : Nat} : job.sandboxConfig.cpuLimit b = some (soft, hard) →
    job.sandboxConfig.timeLimit < soft * 1000000000
  no_early_xcpu {soft hard : Nat} {used : Duration} :
    job.sandboxConfig.cpuLimit b = some (soft, hard) → soft * 1000000000 ≤ used →
    job.sandboxConfig.timeLimit < used

/-- The bytes of a job's memory limit, and twice them where they are a limit,
fit into 64 bits. -/
def JudgeJob.MemoryFits (job : JudgeJob) : Prop :=
  job.memoryLimitKb < if job.language.needsUnlimitedVm then 2 ^ 54 else 2 ^ 53

instance (job : JudgeJob) : Decidable job.MemoryFits := inferInstanceAs (Decidable (_ < _))

section

variable {b : Build} {start : Nat} {job : JudgeJob}

theorem asSecs_timeLimit (job : JudgeJob) :
    Duration.asSecs job.sandboxConfig.timeLimit = job.timeLimitMs / 1000 := by
  change job.timeLimitMs * 1000000 / 1000000000 = _
  omega

theorem cpuLimit_eq (htime : job.timeLimitMs < 2 ^ 64) :
    job.sandboxConfig.cpuLimit b =
      some (max (job.timeLimitMs / 1000) 1 + 1, max (job.timeLimitMs / 1000) 1 + 1 + 1) := by
  rw [SandboxConfig.cpuLimit, asSecs_timeLimit, Build.u64_of_lt (by omega), Option.bind_some,
    Build.u64_of_lt (by omega), Option.map_some]

theorem deadline_eq (htime : job.timeLimitMs < 2 ^ 64)
    (hstart : start < 2 ^ 62 * 1000000000) :
    job.sandboxConfig.deadline start =
      some (start + job.timeLimitMs * 1000000 + 100 * 1000000) := by
  have hlimit : job.sandboxConfig.timeLimit = job.timeLimitMs * 1000000 := rfl
  rw [SandboxConfig.deadline, hlimit, Instant.add_of_lt (by omega), Option.bind_some,
    Duration.fromMillis, Instant.add_of_lt (by omega)]

theorem threshold_eq (htime : job.timeLimitMs < 2 ^ 64) :
    job.sandboxConfig.threshold = some (job.timeLimitMs * 1000000 + 50 * 1000000) := by
  have hlimit : job.sandboxConfig.timeLimit = job.timeLimitMs * 1000000 := rfl
  rw [SandboxConfig.threshold, hlimit, Duration.fromMillis, Duration.add_of_lt (by omega)]

/-- The memory is exact exactly if it fits. -/
theorem memory_exact_iff :
    (job.mem b = some (job.memoryLimitKb * 1024) ∧ job.vmLimitBytes b =
      some (if job.language.needsUnlimitedVm then none else some (job.memoryLimitKb * 1024 * 2))) ↔
      job.MemoryFits := by
  have hmem : job.mem b = some (job.memoryLimitKb * 1024) ↔ job.memoryLimitKb * 1024 < 2 ^ 64 :=
    Build.u64_eq_iff
  rw [JudgeJob.MemoryFits]
  by_cases hvm : job.language.needsUnlimitedVm = true
  · rw [if_pos hvm, if_pos hvm, JudgeJob.vmLimitBytes]
    constructor
    · rintro ⟨h, -⟩
      have := hmem.mp h
      omega
    · intro h
      have h := hmem.mpr (by omega)
      rw [h, Option.bind_some, if_pos hvm]
      exact ⟨rfl, rfl⟩
  · rw [if_neg hvm, if_neg hvm, JudgeJob.vmLimitBytes]
    constructor
    · rintro ⟨h, h₂⟩
      rw [h, Option.bind_some, if_neg hvm, Option.map_eq_some_iff] at h₂
      obtain ⟨m, hm, e⟩ := h₂
      rw [Option.some.inj e] at hm
      have := Build.u64_eq_iff.mp hm
      omega
    · intro h
      have h₁ := hmem.mpr (by omega)
      have h₂ : b.u64 (job.memoryLimitKb * 1024 * 2) = some (job.memoryLimitKb * 1024 * 2) :=
        Build.u64_eq_iff.mpr (by omega)
      rw [h₁, Option.bind_some, if_neg hvm, h₂]
      exact ⟨rfl, rfl⟩

end

/-- In either build, all that is computed from `u64` limits is exact exactly if
the memory limit fits. -/
theorem limitsExact_iff (b : Build) (start : Instant) (job : JudgeJob)
    (htime : job.timeLimitMs < 2 ^ 64) (hstart : start < 2 ^ 62 * 1000000000) :
    LimitsExact b start job ↔ job.MemoryFits := by
  constructor
  · intro h
    exact memory_exact_iff.mp ⟨h.mem, h.vmLimitBytes⟩
  · intro h
    obtain ⟨hmem, hvm⟩ := memory_exact_iff.mpr h
    have hgt : ∀ soft hard, job.sandboxConfig.cpuLimit b = some (soft, hard) →
        job.sandboxConfig.timeLimit < soft * 1000000000 := by
      intro soft hard hcpu
      rw [cpuLimit_eq htime, Option.some.injEq, Prod.mk.injEq] at hcpu
      rw [← hcpu.1]
      change job.timeLimitMs * 1000000 < _
      omega
    exact ⟨hmem, hvm, cpuLimit_eq htime, deadline_eq htime hstart, threshold_eq htime, hgt _ _,
      fun hcpu hused => Nat.lt_of_lt_of_le (hgt _ _ hcpu) hused⟩

/-! ### A large memory limit -/

/-- A request to `POST /submit` with the given memory limit. -/
def limitRequest (memoryLimitKb : Nat) : SubmitRequest where
  sourceCode := ""
  language := .cpp
  problemId := "a"
  stdin := ""
  expectedOutput := ""
  timeLimitMs := 2000
  memoryLimitKb := memoryLimitKb

theorem limitsExact_256MiB :
    ∃ task, apiSubmit (limitRequest 262144) 1 = .ok task ∧ LimitsExact .debug 0 task.job := by
  refine ⟨_, rfl, ?_⟩
  exact (limitsExact_iff .debug 0 _ (by decide) (by decide)).mpr (by decide)

/-- A limit of `2 ^ 54` KiB is taken as it is. A debug build panics on it, and
a release build makes it a limit of no bytes. -/
theorem limitsExact_fails :
    ∃ task, apiSubmit (limitRequest (2 ^ 54)) 1 = .ok task ∧ task.job.mem .debug = none ∧
      task.job.vmLimitBytes .release = some (some 0) ∧ ∀ b, ¬ LimitsExact b 0 task.job := by
  refine ⟨_, rfl, by decide, by decide, fun b h => ?_⟩
  have hfits := Build.u64_eq_iff.mp h.mem
  exact absurd hfits (by decide)

end MikanJudge

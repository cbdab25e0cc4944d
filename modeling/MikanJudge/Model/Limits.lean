import MikanJudge.Model.Worker

/-!
# The arithmetic on the limits

What `judge`, `child_exec`, `parent_collect` and `determine_status` compute
from the limits of a job, in the arithmetic of the source: a `u64` result that
does not fit panics in a debug build and wraps in a release build; durations
and instants panic in both. `none` is a panic.
-/

namespace MikanJudge

inductive Build where
  | debug
  | release
  deriving DecidableEq

/-- A `u64` result. -/
def Build.u64 (b : Build) (n : Nat) : Option Nat :=
  if n < 2 ^ 64 then some n
  else match b with
    | debug => none
    | release => some (n % 2 ^ 64)

/-- `as_secs`. -/
def Duration.asSecs (d : Duration) : Nat := d / 1000000000

/-- The sum of two durations: the seconds are a `u64`. -/
def Duration.add (d e : Duration) : Option Duration :=
  if Duration.asSecs (d + e) < 2 ^ 64 then some (d + e) else none

/-- A reading of the monotonic clock: nanoseconds since its start. -/
abbrev Instant := Nat

/-- An instant and a duration: the seconds are an `i64`. -/
def Instant.add (t : Instant) (d : Duration) : Option Instant :=
  if Duration.asSecs (t + d) < 2 ^ 63 then some (t + d) else none

/-- `memory_limit_kb * 1024`. -/
def JudgeJob.mem (b : Build) (job : JudgeJob) : Option Nat := b.u64 (job.memoryLimitKb * 1024)

/-- The `vm_limit_bytes` of a job's configuration. -/
def JudgeJob.vmLimitBytes (b : Build) (job : JudgeJob) : Option (Option Nat) :=
  (job.mem b).bind fun mem =>
    if job.language.needsUnlimitedVm then some none else (b.u64 (mem * 2)).map some

/-- The soft and the hard `RLIMIT_CPU` of `child_exec`, in seconds. -/
def SandboxConfig.cpuLimit (b : Build) (config : SandboxConfig) : Option (Nat × Nat) :=
  (b.u64 (max config.timeLimit.asSecs 1 + 1)).bind fun cpuSecs =>
    (b.u64 (cpuSecs + 1)).map fun hard => (cpuSecs, hard)

/-- When `parent_collect` kills a program that was started at `start`. -/
def SandboxConfig.deadline (config : SandboxConfig) (start : Instant) : Option Instant :=
  (Instant.add start config.timeLimit).bind (Instant.add · (Duration.fromMillis 100))

/-- The time `determine_status` compares with. -/
def SandboxConfig.threshold (config : SandboxConfig) : Option Duration :=
  Duration.add config.timeLimit (Duration.fromMillis 50)

/-! ## Results that fit -/

section

variable {b : Build} {n m : Nat}

theorem Build.u64_of_lt (h : n < 2 ^ 64) : b.u64 n = some n := if_pos h

/-- A result is the mathematical one exactly if that fits. -/
theorem Build.u64_eq_iff : b.u64 n = some n ↔ n < 2 ^ 64 := by
  refine ⟨fun h => ?_, Build.u64_of_lt⟩
  unfold u64 at h
  split_ifs at h with hlt
  · exact hlt
  · cases b with
    | debug => cases h
    | release =>
      have := Option.some.inj h
      omega

theorem Duration.add_of_lt {d e : Nat} (h : d + e < 2 ^ 64 * 1000000000) :
    Duration.add d e = some (d + e) :=
  if_pos ((Nat.div_lt_iff_lt_mul (by decide)).mpr h)

theorem Instant.add_of_lt {t d : Nat} (h : t + d < 2 ^ 63 * 1000000000) :
    Instant.add t d = some (t + d) :=
  if_pos ((Nat.div_lt_iff_lt_mul (by decide)).mpr h)

/-- In a release build, the configuration of `Model/Worker.lean` is the result. -/
theorem JudgeJob.vmLimitBytes_release (job : JudgeJob) :
    job.vmLimitBytes .release = some job.sandboxConfig.vmLimitBytes := by
  have hu64 : ∀ k, Build.release.u64 k = some (k % 2 ^ 64) := by
    intro k
    rw [Build.u64]
    split_ifs with h
    · rw [Nat.mod_eq_of_lt h]
    · rfl
  rw [vmLimitBytes, mem, hu64, Option.bind_some, hu64, sandboxConfig]
  dsimp only
  split_ifs <;> rfl

end

end MikanJudge

import MikanJudge.Model.Limits

/-!
# Waiting for the child (`sandbox/runner.rs`)

The loop of `parent_collect` that polls `wait4` until the child is reaped, a
call fails, or the deadline has come: then the child is killed and waited for.
What the calls return and what the clock reads is given (`WaitEnv`); from it
come the parts of a `ProcRun` that say how the run ended.
-/

namespace MikanJudge

/-! ## Wait statuses -/

/-- `WIFEXITED`. -/
def wifexited (raw : BitVec 32) : Bool := raw &&& 0x7f == 0

/-- `WEXITSTATUS`. -/
def wexitstatus (raw : BitVec 32) : Int := (raw.sshiftRight 8 &&& 0xff).toInt

/-- `WTERMSIG`. -/
def wtermsig (raw : BitVec 32) : Int := (raw &&& 0x7f).toInt

/-- `WIFSIGNALED`: the sum is taken as an `i8`. -/
def wifsignaled (raw : BitVec 32) : Bool := 2 ≤ (((raw &&& 0x7f) + 1).setWidth 8).toInt

def sigKill : Nat := 9

/-- `Signal::try_from`. -/
def signalTryFrom (sig : Int) : Option Nat := if 1 ≤ sig ∧ sig ≤ 31 then some sig.toNat else none

def parseWaitStatus (raw : BitVec 32) : WaitStatus :=
  if wifexited raw then .exited (wexitstatus raw)
  else if wifsignaled raw then .signaled ((signalTryFrom (wtermsig raw)).getD sigKill)
  else .stillAlive

/-! ## The loop -/

/-- What a call of `wait4` returns and writes. -/
structure Wait4 where
  ret : Int
  wstatus : BitVec 32
  /-- `ru_maxrss`. -/
  maxRss : Nat

/-- What the loop meets. -/
structure WaitEnv where
  child : Int
  /-- The calls with `WNOHANG`, by their position. -/
  polls : Nat → Wait4
  /-- The call that waits for a child that was killed. -/
  blocking : Wait4
  /-- The readings of the clock, by their position. -/
  clock : Nat → Instant

/-- The variables after the loop, and the calls it has made. -/
structure WaitVars where
  finalStatus : Option WaitStatus
  maxRss : Nat
  killed : Bool
  calls : List Wait4

/-- `start + config.time_limit + Duration::from_millis(100)`. -/
def SandboxConfig.deadlineFrom (config : SandboxConfig) (start : Instant) : Instant :=
  start + config.timeLimit + Duration.fromMillis 100

/-- The loop, before the poll at position `i` and after the calls before it.
The number is that of the next reading of the clock. -/
def waitLoop (env : WaitEnv) (deadline : Instant) : Nat → Nat → List Wait4 → Option (WaitVars × Nat)
  | 0, _, _ => none
  | fuel + 1, i, calls =>
    let w := env.polls i
    if w.ret = env.child then
      some ({
        finalStatus := some (parseWaitStatus w.wstatus), maxRss := w.maxRss, killed := false,
        calls := calls ++ [w] }, i)
    else if w.ret = 0 then
      if env.clock i ≥ deadline then
        let w₂ := env.blocking
        some ({
          finalStatus := if w₂.ret = env.child then some (parseWaitStatus w₂.wstatus) else none
          maxRss := if w₂.ret = env.child then w₂.maxRss else 0
          killed := true
          calls := calls ++ [w, w₂] }, i + 1)
      else waitLoop env deadline fuel (i + 1) (calls ++ [w])
    else some ({ finalStatus := none, maxRss := 0, killed := false, calls := calls ++ [w] }, i)

/-- The time since the start, at a reading of the clock. -/
def WaitEnv.elapsed (env : WaitEnv) (start : Instant) (i : Nat) : Duration := env.clock i - start

/-- What the program did, with what its pipes delivered and the peak of its
memory. -/
def WaitEnv.procRun (env : WaitEnv) (start : Instant) (stdout stderr : List Chunk)
    (memoryPeak : Option Nat) (v : WaitVars) (i : Nat) : ProcRun where
  stdout := stdout
  stderr := stderr
  killed := v.killed
  timeUsed := env.elapsed start i
  finalStatus := v.finalStatus
  memoryPeak := memoryPeak
  maxRss := v.maxRss

/-! ## How the loop ends -/

/-- The deadline that does not overflow is the one the loop compares with. -/
theorem deadlineFrom_of_deadline {config : SandboxConfig} {start deadline : Instant}
    (h : config.deadline start = some deadline) : config.deadlineFrom start = deadline := by
  have hadd : ∀ t d e : Nat, Instant.add t d = some e → t + d = e := by
    intro t d e ht
    rw [Instant.add] at ht
    split_ifs at ht
    exact Option.some.inj ht
  obtain ⟨t, ht, hd⟩ := Option.bind_eq_some_iff.mp h
  rw [SandboxConfig.deadlineFrom, hadd _ _ _ ht, hadd _ _ _ hd]

end MikanJudge

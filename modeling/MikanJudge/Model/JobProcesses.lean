import MikanJudge.Model.Runner
import MikanJudge.Model.Worker

/-!
# The processes of jobs (`worker/mod.rs`, `sandbox/mod.rs`)

What judging a job starts and waits for: `compile` runs `which` and the
compiler with `Command::output`, the compiler under a timeout; each test
case is a call of `run_sandboxed_blocking`; `run_scorer` runs the scorer with
`Command::output`. The workers judge any number of jobs at once.

`Command::output` completes when the process has exited and its outputs are
at their end. Dropping its future, as the timeout does, leaves the process
running. A `kill` ends one process.

The started programs do as they like: a process may fork, close and duplicate
what it has open and exit; a test case's may fork only if the limits of its
job let it. What they open themselves is left out, and so is what judging
computes and writes, of which this only takes which way it goes.
-/

namespace MikanJudge

open MikanJudge.Lib

/-! ## Judging a job -/

inductive CompileStep where
  /-- `resolve_command`, which may run `which`. -/
  | resolve
  /-- The compiler or the syntax check, under a timeout. -/
  | compile
  deriving DecidableEq

/-- The steps of `compile` for a language. -/
def Language.compileSteps : Language → List CompileStep
  | .text => [.resolve]
  | .java => [.resolve, .compile, .resolve]
  | _ => [.resolve, .compile]

inductive JobStage where
  /-- `judge` is called. -/
  | start
  /-- `compile` has these steps left; `ok` if there is no error to report. -/
  | compiling (ok : Bool) (steps : List CompileStep)
  /-- A command is awaited, with how to go on if it succeeds or fails. -/
  | waiting (timed : Bool) (child : Pid) (done failed : JobStage)
  | cases (left : Nat)
  /-- `run_in_sandbox` is awaited. -/
  | running (call left : Nat)
  /-- `run_scorer` is called. -/
  | scoring (left : Nat)
  | returned
  deriving DecidableEq

/-- A command, and how judging goes on after it: if it exits with success,
without, or cannot be started. -/
structure JobCommand where
  timed : Bool
  done : JobStage
  failed : JobStage
  notStarted : JobStage

/-- The command a stage may start. -/
def JobStage.command? : JobStage → Option JobCommand
  | compiling ok (.resolve :: steps) => some ⟨false, compiling ok steps, returned, returned⟩
  | compiling _ (.compile :: steps) =>
    some ⟨true, compiling true steps, compiling false steps, returned⟩
  | scoring left => some ⟨false, cases left, cases left, cases left⟩
  | _ => none

structure JobState where
  job : JudgeJob
  stage : JobStage

inductive JobAction where
  /-- The temporary directory and the source file are made, or fail to be. -/
  | setup (ok : Bool)
  /-- `resolve_command` ends without `which`: found, or without a `PATH`. -/
  | resolved (found : Bool)
  | spawn
  | spawnFails
  /-- `Command::output` completes. -/
  | output (success : Bool)
  | timeout
  | compiled
  /-- The next test case is run. -/
  | run
  /-- `run_in_sandbox` returns a result; `ok` for `RunStatus::Ok`. -/
  | runReturns (ok : Bool)
  /-- It returns the error of `pipe` or `fork`. -/
  | runFails
  /-- A thread of `parent_collect` cannot be spawned, which panics. -/
  | runPanics
  /-- There is no scorer, or its files cannot be written. -/
  | noScore
  | finish

namespace Runner

/-- `pipe` or `fork` failed in the call. -/
def failed (s : Runner) (c : Nat) : Bool :=
  s.calls[c]?.any fun call =>
    match call.stage with
    | .failed _ => true
    | _ => false

/-- `Command::spawn`: the process has the server's descriptors, and new pipes
as its outputs. -/
def spawn (s : Runner) (job : Nat) : Runner :=
  let p := s.kernel.next
  let k := s.kernel.fork server (.command job)
  { s with kernel := (k.install p 1 (.output p .stdout)).install p 2 (.output p .stderr) }

/-- A process has exited, and its outputs are at their end. -/
def outputComplete (s : Runner) (child : Pid) : Prop :=
  s.kernel.origin? child = none ∧ ¬s.kernel.Held (.output child .stdout) ∧
    ¬s.kernel.Held (.output child .stderr)

instance (s : Runner) (child : Pid) : Decidable (s.outputComplete child) :=
  inferInstanceAs (Decidable (_ ∧ _ ∧ _))

/-- The child has been waited for, and the two readers joined. -/
def Collected (s : Runner) (q : Collect) : Prop :=
  q.closes = [] ∧ s.kernel.origin? q.child = none ∧ .stdoutR ∉ q.threads ∧ .stderrR ∉ q.threads

instance (s : Runner) (q : Collect) : Decidable (s.Collected q) :=
  inferInstanceAs (Decidable (_ ∧ _ ∧ _))

end Runner

/-- A step of judging the `j`-th job. -/
def JobState.step (s : Runner) (j : Nat) (x : JobState) (a : JobAction) :
    Option (Runner × JobStage) :=
  match x.stage, a with
  | .start, .setup ok => some (s, if ok then .compiling true x.job.language.compileSteps else .returned)
  | .compiling ok (.resolve :: steps), .resolved found =>
    some (s, if found then .compiling ok steps else .returned)
  | .compiling ok [], .compiled =>
    some (s, if ok then .cases x.job.testcases.length else .returned)
  | .waiting _ child done failed, .output success =>
    if s.outputComplete child then some (s, if success then done else failed) else none
  | .waiting true _ _ _, .timeout => some (s, .returned)
  | .cases (left + 1), .run => some (s.begin j, .running s.calls.length left)
  | .cases 0, .finish => some (s, .returned)
  | .running c left, .runReturns ok =>
    if (s.collect? c).any fun q => s.Collected q then
      some (s, if ok && x.job.isHeuristic then .scoring left else .cases left)
    else none
  | .running c _, .runFails => if s.failed c then some (s, .returned) else none
  | .running c _, .runPanics =>
    if (s.collect? c).any fun q => q.closes = [] then some (s, .returned) else none
  | .scoring left, .noScore => some (s, .cases left)
  | stage, .spawn =>
    stage.command?.map fun cmd =>
      (s.spawn j, .waiting cmd.timed s.kernel.next cmd.done cmd.failed)
  | stage, .spawnFails => stage.command?.map fun cmd => (s, cmd.notStarted)
  | _, _ => none

/-! ## All jobs -/

structure Workers where
  runner : Runner
  jobs : List JobState

inductive WorkersAction where
  /-- A worker takes a job from the queue. -/
  | judge (job : JudgeJob)
  | job (j : Nat) (a : JobAction)
  /-- A call of `run_sandboxed_blocking` goes on. -/
  | call (c : Nat) (a : CallAction)
  | exit (p : Pid)
  | fork (p : Pid)
  | close (p : Pid) (n : Fd)
  | dup2 (p : Pid) (old new : Fd)

namespace Workers

def start : Workers where
  runner := .start
  jobs := []

/-- The processes of an origin run a program: they are past their `execvp`. -/
def runsProgram (w : Workers) : Origin → Bool
  | .server => false
  | .run _ c => (w.runner.collect? c).any (·.script = [])
  | .command _ => true

/-- The origin of a process that runs a program. -/
def program? (w : Workers) (p : Pid) : Option Origin :=
  (w.runner.kernel.origin? p).filter w.runsProgram

/-- Whether the limits a process runs under let it fork. -/
def mayFork (w : Workers) : Origin → Bool
  | .run j _ => w.jobs[j]?.any fun x =>
    x.job.sandboxConfig.nprocLimit.isNone && !x.job.sandboxConfig.enableSeccomp
  | _ => true

def withKernel (w : Workers) (k : Processes) : Workers :=
  { w with runner := { w.runner with kernel := k } }

def step (w : Workers) : WorkersAction → Option Workers
  | .judge job => some { w with jobs := w.jobs ++ [⟨job, .start⟩] }
  | .job j a =>
    w.jobs[j]?.bind fun x => (x.step w.runner j a).map fun r =>
      ⟨r.1, w.jobs.set j { x with stage := r.2 }⟩
  | .call c a => (w.runner.call c a).map fun s => { w with runner := s }
  | .exit p => (w.runner.exit p).map fun s => { w with runner := s }
  | .fork p => (w.program? p).bind fun o =>
    if w.mayFork o then some (w.withKernel (w.runner.kernel.fork p o)) else none
  | .close p n => (w.program? p).map fun _ => w.withKernel (w.runner.kernel.close p n)
  | .dup2 p old new => (w.program? p).map fun _ => w.withKernel (w.runner.kernel.dup2 p old new)

end Workers

/-- The workers and every process they start. -/
def workers : System Workers WorkersAction := System.ofStep (· = Workers.start) Workers.step

end MikanJudge

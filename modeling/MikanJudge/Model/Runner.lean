import MikanJudge.Lib.Processes
import MikanJudge.Lib.Transition

/-!
# Running programs at once (`sandbox/runner.rs`)

The judge's workers are threads of one process, the server, so the calls of
`run_sandboxed_blocking` share one table of descriptors. A call makes three
pipes, forks, and closes the ends the child uses; the child gets a copy of
the whole table, moves its ends to the standard numbers, closes the six
numbers it knows of and calls `execvp`. `pipe(2)` sets no close-on-exec flag.

The system takes one system call of one party at a time: `runSandboxed` has
any number of calls, and any of them may take the next step. What the
program reads and writes, the limits set before `execvp` and the control group
change no descriptor and are left out, as are the descriptors std and tokio
open, which are closed on exec.
-/

namespace MikanJudge

open MikanJudge.Lib

/-! ## Ends of pipes -/

inductive Stream where
  | stdin
  | stdout
  | stderr
  deriving DecidableEq

inductive Side where
  | read
  | write
  deriving DecidableEq

/-- A variable `stdin_r`, `stdin_w`, …, and the end of a pipe it is for. -/
structure PipeEnd where
  stream : Stream
  side : Side
  deriving DecidableEq

namespace PipeEnd

def stdinR : PipeEnd := ⟨.stdin, .read⟩
def stdinW : PipeEnd := ⟨.stdin, .write⟩
def stdoutR : PipeEnd := ⟨.stdout, .read⟩
def stdoutW : PipeEnd := ⟨.stdout, .write⟩
def stderrR : PipeEnd := ⟨.stderr, .read⟩
def stderrW : PipeEnd := ⟨.stderr, .write⟩

/-- The ends the child keeps, as its standard streams. -/
def kept : List PipeEnd := [stdinR, stdoutW, stderrW]

/-- The ends the parent's threads work with. -/
def threaded : List PipeEnd := [stdinW, stdoutR, stderrR]

end PipeEnd

/-- What a descriptor stands for. -/
inductive Handle where
  /-- A stream the server was started with. -/
  | inherited (n : Fd)
  /-- An end of a pipe of a call. -/
  | pipe (call : Nat) (e : PipeEnd)
  /-- The write end of a pipe from which `Command::output` collects what a
  process prints. -/
  | output (child : Pid) (stream : Stream)
  deriving DecidableEq

/-- What a process was started for. -/
inductive Origin where
  | server
  /-- The test case a call of `run_sandboxed_blocking` runs, for a job. -/
  | run (job call : Nat)
  /-- A command `compile` or `run_scorer` starts for a job. -/
  | command (job : Nat)
  deriving DecidableEq

abbrev Processes := Kernel Handle Origin

/-- The server is the first process. -/
def server : Pid := 0

/-! ## The child -/

inductive ChildStep where
  | dup2 (old new : Fd)
  | close (fd : Fd)
  | exec
  deriving DecidableEq

/-- `child_exec`, given the six numbers. -/
def childExec (fd : PipeEnd → Fd) : List ChildStep :=
  [.dup2 (fd .stdinR) 0, .dup2 (fd .stdoutW) 1, .dup2 (fd .stderrW) 2,
    .close (fd .stdinR), .close (fd .stdinW), .close (fd .stdoutR),
    .close (fd .stdoutW), .close (fd .stderrR), .close (fd .stderrW), .exec]

def ChildStep.run (k : Processes) (child : Pid) : ChildStep → Processes
  | dup2 old new => k.dup2 child old new
  | close fd => k.close child fd
  | exec => k

/-! ## A call -/

/-- `parent_collect`: what the parent and its threads have still to close. -/
structure Collect where
  child : Pid
  /-- What the child has still to do; nothing after its `execvp`. -/
  script : List ChildStep
  closes : List PipeEnd
  /-- The ends the writer and the two readers have not closed yet. -/
  threads : List PipeEnd
  /-- The child was killed at the deadline. -/
  killed : Bool

inductive CallStage where
  /-- The pipes for these streams are still to be made, before the fork. -/
  | piping (left : List Stream)
  /-- `pipe` or `fork` failed: the call returns its error. -/
  | failed (left : List Stream)
  | collecting (q : Collect)

structure Call where
  job : Nat
  /-- The numbers in the variables assigned so far. -/
  fd : PipeEnd → Fd
  stage : CallStage

inductive CallAction where
  | pipe
  | pipeFails
  | fork
  | forkFails
  /-- The child takes its next step. -/
  | child
  /-- The parent closes its next end. -/
  | close
  /-- A thread has written or read everything, and closes its end. -/
  | threadClose (e : PipeEnd)
  /-- The deadline has passed: the parent kills the child and waits for it. -/
  | kill

namespace Call

/-- A call of `run_sandboxed_blocking`. -/
def start (job : Nat) : Call where
  job := job
  fd := fun _ => 0
  stage := .piping [.stdin, .stdout, .stderr]

/-- `let (r, w) = make_pipe()?`, for the next stream. -/
def makePipe (call : Call) (k : Processes) (c : Nat) (stream : Stream) (left : List Stream) :
    Processes × Call :=
  let (k', r, w) := k.pipe server (.pipe c ⟨stream, .read⟩) (.pipe c ⟨stream, .write⟩)
  (k', { call with
    fd := fun e => if e = ⟨stream, .read⟩ then r else if e = ⟨stream, .write⟩ then w else call.fd e
    stage := .piping left })

/-- The parent and the child after `fork`. -/
def collect (call : Call) (child : Pid) : Collect where
  child := child
  script := childExec call.fd
  closes := [.stdinR, .stdoutW, .stderrW]
  threads := PipeEnd.threaded
  killed := false

/-- One step of a call, the `c`-th. A reader closes its end at the end of
the stream, when no process has the write end open. -/
def step (k : Processes) (c : Nat) (call : Call) (a : CallAction) : Option (Processes × Call) :=
  match call.stage, a with
  | .piping (stream :: left), .pipe => some (call.makePipe k c stream left)
  | .piping (stream :: left), .pipeFails => some (k, { call with stage := .failed (stream :: left) })
  | .piping [], .fork =>
    some (k.fork server (.run call.job c), { call with stage := .collecting (call.collect k.next) })
  | .piping [], .forkFails => some (k, { call with stage := .failed [] })
  | .collecting q, .child =>
    match q.script with
    | [] => none
    | op :: script =>
      if (k.origin? q.child).isSome then
        some (op.run k q.child, { call with stage := .collecting { q with script := script } })
      else none
  | .collecting q, .close =>
    match q.closes with
    | [] => none
    | e :: closes =>
      some (k.close server (call.fd e),
        { call with stage := .collecting { q with closes := closes } })
  | .collecting q, .threadClose e =>
    if q.closes = [] ∧ e ∈ q.threads ∧
        (e.side = .read → ¬k.Held (.pipe c ⟨e.stream, .write⟩)) then
      some (k.close server (call.fd e),
        { call with stage := .collecting { q with threads := q.threads.erase e } })
    else none
  | .collecting q, .kill =>
    if q.closes = [] ∧ (k.origin? q.child).isSome then
      some (k.exit q.child, { call with stage := .collecting { q with killed := true } })
    else none
  | _, _ => none

end Call

/-! ## All calls -/

structure Runner where
  kernel : Processes
  calls : List Call

inductive RunnerAction where
  | begin (job : Nat)
  | call (c : Nat) (a : CallAction)
  /-- A process exits, or is killed by someone else. -/
  | exit (p : Pid)

namespace Runner

/-- The server with its standard streams, before the first call. -/
def start : Runner where
  kernel := ⟨[some ⟨.server, ((∅ : AList fun _ : Fd => Handle).insert 0 (.inherited 0)).insert 1
    (.inherited 1) |>.insert 2 (.inherited 2)⟩]⟩
  calls := []

def begin (s : Runner) (job : Nat) : Runner := { s with calls := s.calls ++ [Call.start job] }

def call (s : Runner) (c : Nat) (a : CallAction) : Option Runner :=
  s.calls[c]?.bind fun call => (call.step s.kernel c a).map fun r => ⟨r.1, s.calls.set c r.2⟩

def exit (s : Runner) (p : Pid) : Option Runner :=
  if p = server then none else some { s with kernel := s.kernel.exit p }

def step (s : Runner) : RunnerAction → Option Runner
  | .begin job => some (s.begin job)
  | .call c a => s.call c a
  | .exit p => s.exit p

/-- What the parent of a call that has forked is at. -/
def collect? (s : Runner) (c : Nat) : Option Collect :=
  s.calls[c]?.bind fun call =>
    match call.stage with
    | .collecting q => some q
    | _ => none

end Runner

/-- Calls of `run_sandboxed_blocking`, any number at once. -/
def runSandboxed : System Runner RunnerAction := System.ofStep (· = Runner.start) Runner.step

end MikanJudge

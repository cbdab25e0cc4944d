import MikanJudge.Lib.ControlGroups
import MikanJudge.Model.Runner
import MikanJudge.Model.Sandbox

/-!
# Measuring the memory of runs (`sandbox/runner.rs`)

A call of `run_sandboxed_blocking` makes a control group for its run, if it can,
moves the child there and reads the peak of its memory once it has waited for the
child. The group is removed when the call is left, in whatever way. Any number of
calls go on at once, each of them one file or one system call at a time; the
programs fork, ask for memory and exit meanwhile.

The sandbox does not keep a program from writing to the files of the control groups
(`openat` and `write` are open to it, and it keeps its user and mounts): after such
a step they are in any state (`MeasuringAction.writeGroups`). Without one, the
groups below the server's directory are its own, and what an earlier server left
there stays. The pipes of a call are in `Model.Runner`.
-/

namespace MikanJudge

open MikanJudge.Lib

/-- What a process was started for. -/
inductive RunOrigin where
  | server
  /-- The program of a call. -/
  | run (call : Nat)
  | other
  deriving DecidableEq

abbrev RunGroups := ControlGroups String RunOrigin

def withoutPlus : List Char → List Char
  | '+' :: cs => cs
  | cs => cs

/-- `str::parse::<u64>`. -/
def parseU64 (s : String) : Option Nat :=
  let digits := withoutPlus s.toList
  let n := Nat.ofDigitChars 10 digits 0
  if digits ≠ [] ∧ digits.all Char.isDigit ∧ n < 2 ^ 64 then some n else none

structure LinuxCgroup where
  dir : String
  deriving DecidableEq

namespace LinuxCgroup

/-- The name of a group below the server's directory. -/
def runDir (pid seq : Nat) : String := "run-" ++ toString pid ++ "-" ++ toString seq

def addProcess (g : LinuxCgroup) (k : RunGroups) (child : Pid) : RunGroups := k.enter child g.dir

/-- `memory_peak_bytes`, where the file can be read or not. -/
def memoryPeakBytes (g : LinuxCgroup) (k : RunGroups) (readable : Bool) : Option Nat :=
  if readable then (k.groups g.dir).bind fun m => parseU64 (trim (toString m.peak ++ "\n"))
  else none

def drop (g : LinuxCgroup) (k : RunGroups) : RunGroups := k.remove g.dir

end LinuxCgroup

/-! ## A call -/

inductive MeasureStage where
  /-- The pipes are made, and `LinuxCgroup::new` is called. -/
  | piped
  /-- In `LinuxCgroup::new`, with a number taken from `CGROUP_SEQ`. -/
  | numbered (seq : Nat)
  | created
  | forked
  | added
  | measured
  /-- The call has returned or panicked. -/
  | left
  deriving DecidableEq

structure MeasuredCall where
  config : SandboxConfig
  /-- The group made for it, also when it has been dropped. -/
  cgroup : Option LinuxCgroup
  child : Option Pid
  /-- `wait4` has returned the child. -/
  waited : Bool
  /-- What `memory_peak_bytes` has returned. -/
  memoryPeak : Option Nat
  stage : MeasureStage

inductive MeasureAction where
  | ensureDir (ok : Bool)
  | createDir (ok : Bool)
  | fork
  | forkFails
  | addProcess (ok : Bool)
  /-- A thread cannot be spawned, which panics. -/
  | panics
  /-- The loop of `wait4` is over, with the child or with an error, and the peak is read. -/
  | measure (waited readable : Bool)
  | drop

/-- The call is left by this step. -/
def MeasureAction.leaves : MeasureAction → Bool
  | forkFails | panics | drop => true
  | _ => false

namespace MeasuredCall

def start (config : SandboxConfig) : MeasuredCall where
  config := config
  cgroup := none
  child := none
  waited := false
  memoryPeak := none
  stage := .piped

/-- Its limits let the program fork. -/
def mayFork (x : MeasuredCall) : Bool := x.config.nprocLimit.isNone && !x.config.enableSeccomp

/-- Its group is there to be dropped. -/
def Holds (x : MeasuredCall) (g : LinuxCgroup) : Prop := x.cgroup = some g ∧ x.stage ≠ .left

/-- Leaving the call drops its group. -/
def leave (x : MeasuredCall) (k : RunGroups) : RunGroups :=
  match x.cgroup with
  | some g => g.drop k
  | none => k

/-- One step of a call, the `c`-th, with what is in `CGROUP_SEQ` before and after. -/
def step (pid seq : Nat) (k : RunGroups) (c : Nat) (x : MeasuredCall) (a : MeasureAction) :
    Option (Nat × RunGroups × MeasuredCall) :=
  match x.stage, a with
  | .piped, .ensureDir true => some ((seq + 1) % 2 ^ 64, k, { x with stage := .numbered seq })
  | .piped, .ensureDir false => some (seq, k, { x with stage := .created })
  | .numbered n, .createDir ok =>
    let g : LinuxCgroup := ⟨LinuxCgroup.runDir pid n⟩
    match if ok then k.create g.dir else none with
    | some k' => some (seq, k', { x with cgroup := some g, stage := .created })
    | none => some (seq, k, { x with stage := .created })
  | .created, .fork =>
    some (seq, k.fork server (.run c), { x with child := some k.procs.next, stage := .forked })
  | .created, .forkFails => some (seq, x.leave k, { x with stage := .left })
  | .forked, .addProcess ok =>
    match x.cgroup, x.child with
    | some g, some child =>
      some (seq, if ok then g.addProcess k child else k, { x with stage := .added })
    | _, _ => some (seq, k, { x with stage := .added })
  | .added, .panics => some (seq, x.leave k, { x with stage := .left })
  | .added, .measure waited readable =>
    if waited && x.child.any fun p => (k.origin? p).isSome then none
    else some (seq, k, { x with
      waited := waited
      memoryPeak := x.cgroup.bind fun g => g.memoryPeakBytes k readable
      stage := .measured })
  | .measured, .drop => some (seq, x.leave k, { x with stage := .left })
  | _, _ => none

end MeasuredCall

/-! ## All calls -/

structure Measuring where
  /-- `CGROUP_SEQ`. -/
  seq : Nat
  groups : RunGroups
  calls : List MeasuredCall

inductive MeasuringAction where
  | begin (config : SandboxConfig)
  | call (c : Nat) (a : MeasureAction)
  /-- The server starts another process, such as a compiler. -/
  | spawn
  | fork (p : Pid)
  | exit (p : Pid)
  | charge (p : Pid) (n : Nat)
  | free (d : String) (i : Nat)
  /-- A program writes to the files of the control groups, which are as given then. -/
  | writeGroups (groups : String → Option (MemGroup RunOrigin)) (member : Pid → Option String)

/-- No program writes to the control groups in this step. -/
def MeasuringAction.leavesGroups : MeasuringAction → Bool
  | writeGroups _ _ => false
  | _ => true

namespace Measuring

/-- A server that has started, with what is left of those before it. -/
structure Fresh (s : Measuring) : Prop where
  seq : s.seq = 0
  calls : s.calls = []
  sound : s.groups.Sound
  root : s.groups.origin? server = some .server
  /-- The server is in none of the groups below its directory. -/
  outside : s.groups.member server = none
  others : ∀ p c, s.groups.origin? p ≠ some (.run c)

/-- Whether a process may fork: the server starts its own children. -/
def mayFork (s : Measuring) : RunOrigin → Bool
  | .server => false
  | .run c => s.calls[c]?.any (·.mayFork)
  | .other => true

def withGroups (s : Measuring) (k : RunGroups) : Measuring := { s with groups := k }

def step (pid : Nat) (s : Measuring) : MeasuringAction → Option Measuring
  | .begin config => some { s with calls := s.calls ++ [.start config] }
  | .call c a =>
    s.calls[c]?.bind fun x => (x.step pid s.seq s.groups c a).map fun r =>
      ⟨r.1, r.2.1, s.calls.set c r.2.2⟩
  | .spawn => some (s.withGroups (s.groups.fork server .other))
  | .fork p =>
    (s.groups.origin? p).bind fun o =>
      if s.mayFork o then some (s.withGroups (s.groups.fork p o)) else none
  | .exit p => if p = server then none else some (s.withGroups (s.groups.exit p))
  | .charge p n => some (s.withGroups (s.groups.charge p n))
  | .free d i => some (s.withGroups (s.groups.free d i))
  | .writeGroups groups member =>
    some (s.withGroups { s.groups with groups := groups, member := member })

/-- What the processes of a call have asked for in its group and not freed, if the
group is there. -/
def charged (s : Measuring) (c : Nat) : Option Nat :=
  (s.calls[c]?.bind (·.cgroup)).bind fun g => (s.groups.groups g.dir).map (·.totalOf (.run c))

end Measuring

/-- Calls of `run_sandboxed_blocking` of the server with this process id. -/
def measuring (pid : Nat) : System Measuring MeasuringAction :=
  System.ofStep Measuring.Fresh (Measuring.step pid)

end MikanJudge

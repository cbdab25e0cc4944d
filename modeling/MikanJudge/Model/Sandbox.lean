import MikanJudge.Lib.Trim
import MikanJudge.Lib.Utf8
import MikanJudge.Model.Types

/-!
# Running a program (`sandbox/`)

What a run of the submitted program does is given (`ProcRun`): the chunks its
pipes deliver, how it ended and what it used. From it and the configuration,
`parentCollect` computes the result the judge works with. `drainFd` is the
loop that reads a pipe: it keeps a bounded prefix of what it reads.

`compile` is given by its result (`CompileOutput`).
-/

namespace MikanJudge

open MikanJudge.Lib (trimBy)

/-- A `Duration`, in nanoseconds. -/
abbrev Duration := Nat

def Duration.fromMillis (ms : Nat) : Duration := ms * 1000000

/-- `as_millis() as u64`. -/
def Duration.asMillis (d : Duration) : Nat := d / 1000000 % 2 ^ 64

structure SandboxConfig where
  timeLimit : Duration
  maxOutputBytes : Nat
  vmLimitBytes : Option Nat
  nprocLimit : Option Nat
  enableSeccomp : Bool

structure CompileOutput where
  executable : String
  runArgs : List String
  /-- `some msg` for a compile error. -/
  error : Option String
  warnings : String

inductive RunStatus where
  | ok
  | timeLimitExceeded
  | runtimeError
  | killed
  deriving DecidableEq

structure RunResult where
  stdout : List UInt8
  stderr : List UInt8
  exitCode : Option Int
  wallTimeUsed : Duration
  memoryUsedBytes : Nat
  status : RunStatus

/-! ## Reading a pipe -/

/-- What one successful `read` into the 4096-byte buffer delivers. -/
abbrev Chunk := { bytes : List UInt8 // 0 < bytes.length ∧ bytes.length ≤ 4096 }

def Chunk.byte (b : UInt8) : Chunk := ⟨[b], Nat.zero_lt_one, by rw [List.length_singleton]; decide⟩

/-- The byte stream a sequence of reads delivers. -/
def stream (chunks : List Chunk) : List UInt8 := chunks.flatMap (·.val)

/-- The loop of `drain_fd`, with `out` read so far, over the reads up to the
one that returns no bytes. -/
def drainLoop (maxBytes : Nat) : List UInt8 → List Chunk → List UInt8
  | out, [] => out
  | out, c :: cs =>
    let n := c.val.length
    let remaining := maxBytes - out.length
    drainLoop maxBytes (if remaining > 0 then out ++ c.val.take (min n remaining) else out) cs

/-- `drain_fd`: what is beyond `maxBytes` is read and dropped. -/
def drainFd (chunks : List Chunk) (maxBytes : Nat) : List UInt8 := drainLoop maxBytes [] chunks

/-! ## How a run ended -/

inductive WaitStatus where
  | exited (code : Int)
  | signaled (sig : Nat)
  | stillAlive
  deriving DecidableEq

def sigXcpu : Nat := 24

/-- `determine_status`: the exit code and the status of a run. -/
def determineStatus (killed : Bool) (timeUsed timeLimit : Duration)
    (finalStatus : Option WaitStatus) : Option Int × RunStatus :=
  if killed || timeUsed > timeLimit + Duration.fromMillis 50 then (none, .timeLimitExceeded)
  else match finalStatus with
    | some (.exited code) => if code = 0 then (some code, .ok) else (some code, .runtimeError)
    | some (.signaled sig) =>
      if sig = sigXcpu then (none, .timeLimitExceeded) else (none, .killed)
    | _ => (none, .runtimeError)

/-- What a run of the submitted program does: the reads of its two pipes, and
what waiting for it ended with. -/
structure ProcRun where
  stdout : List Chunk
  stderr : List Chunk
  killed : Bool
  timeUsed : Duration
  finalStatus : Option WaitStatus
  /-- The cgroup's `memory.peak`, when it can be read. -/
  memoryPeak : Option Nat
  /-- `ru_maxrss`, in KiB. -/
  maxRss : Nat

/-- A run that ends well with the given output. -/
def printing (stdout : List Chunk) : ProcRun where
  stdout := stdout
  stderr := []
  killed := false
  timeUsed := 0
  finalStatus := some (.exited 0)
  memoryPeak := none
  maxRss := 0

/-- `parent_collect`, after the fork. -/
def parentCollect (config : SandboxConfig) (p : ProcRun) : RunResult :=
  let (exitCode, status) := determineStatus p.killed p.timeUsed config.timeLimit p.finalStatus
  { stdout := drainFd p.stdout config.maxOutputBytes
    stderr := drainFd p.stderr 65536
    exitCode := exitCode
    wallTimeUsed := p.timeUsed
    memoryUsedBytes := p.memoryPeak.getD (min (p.maxRss * 1024) (2 ^ 64 - 1))
    status := status }

/-- `run_in_sandbox`: pipes, fork or thread may fail. -/
def runInSandbox (config : SandboxConfig) (p : Except String ProcRun) : Except String RunResult :=
  p.map (parentCollect config)

/-! ## Strings -/

/-- `char::is_whitespace`: the property White_Space. -/
def isWhitespace (c : Char) : Bool :=
  let n := c.toNat
  (9 ≤ n && n ≤ 13) || n == 0x20 || n == 0x85 || n == 0xA0 || n == 0x1680 ||
    (0x2000 ≤ n && n ≤ 0x200A) || n == 0x2028 || n == 0x2029 || n == 0x202F || n == 0x205F ||
    n == 0x3000

/-- `str::trim`. -/
def trim (s : String) : String := String.ofList (trimBy isWhitespace s.toList)

/-- `String::from_utf8_lossy`. -/
def fromUtf8Lossy (bytes : List UInt8) : String := String.ofList (Lib.Utf8.decodeLossy bytes)

theorem nul_mem_fromUtf8Lossy {bytes : List UInt8} :
    '\x00' ∈ (fromUtf8Lossy bytes).toList ↔ 0 ∈ bytes := by
  rw [fromUtf8Lossy, String.toList_ofList, Lib.Utf8.nul_mem_decodeLossy]

theorem trim_eq_iff {s t : String} :
    trim s = trim t ↔ trimBy isWhitespace s.toList = trimBy isWhitespace t.toList := by
  rw [trim, trim, String.ofList_inj]

/-! ## What is kept of a stream -/

theorem drainLoop_eq (maxBytes : Nat) (out : List UInt8) (chunks : List Chunk)
    (h : out.length ≤ maxBytes) :
    drainLoop maxBytes out chunks = out ++ (stream chunks).take (maxBytes - out.length) := by
  induction chunks generalizing out with
  | nil => simp [drainLoop, stream]
  | cons c cs ih =>
    have hs : stream (c :: cs) = c.val ++ stream cs := rfl
    rw [drainLoop, hs, List.take_append]
    by_cases hr : maxBytes - out.length > 0
    · rw [if_pos hr, ih]
      · rw [List.append_assoc, List.length_append, List.length_take]
        congr 2
        · rw [← List.take_take, List.take_of_length_le (by rw [List.length_take]; omega)]
        · congr 1; omega
      · rw [List.length_append, List.length_take]; omega
    · rw [if_neg hr, ih out h, show maxBytes - out.length = 0 by omega]
      simp

/-- `drain_fd` keeps the first `maxBytes` bytes of the stream, however it is
delivered. -/
theorem drainFd_eq (chunks : List Chunk) (maxBytes : Nat) :
    drainFd chunks maxBytes = (stream chunks).take maxBytes := by
  rw [drainFd, drainLoop_eq _ _ _ (Nat.zero_le _), List.nil_append, List.length_nil, Nat.sub_zero]

end MikanJudge

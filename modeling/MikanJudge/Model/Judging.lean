import MikanJudge.Lib.FileTree
import MikanJudge.Lib.Program
import MikanJudge.Model.Worker

/-!
# Judging as a program (`worker/mod.rs`, `sandbox/mod.rs`)

`judge` with all it asks of its surroundings: the row it updates, the files it
writes, the commands it runs and the runs of the submitted program. `compile`,
`resolve_command` and `run_scorer` are parts of it. A reply is whatever the
surroundings give; the system's messages are in the replies. `interpreter`,
`compiler` and `compile_args` panic for the languages they are not meant for.

Paths are texts: `to_str().unwrap()`, which panics for a path that is not one,
is left out, as is what is only logged. The limits are computed as in a build
without overflow checks (`JudgeJob.sandboxConfig`).
-/

namespace MikanJudge

open MikanJudge.Lib
open MikanJudge.Lib.Program (ask)

/-! ## Languages (`types.rs`) -/

namespace Language

def isInterpreted : Language → Bool
  | python | pyPy => true
  | _ => false

def sourceFileName : Language → String
  | java => "Main.java"
  | text => "solution.txt"
  | cpp => "solution.cpp"
  | rust => "solution.rs"
  | python | pyPy => "solution.py"
  | go => "solution.go"

/-- `none` where it panics. -/
def interpreter : Language → Option String
  | python => some "python3"
  | pyPy => some "pypy3"
  | _ => none

/-- `none` where it panics. -/
def compiler : Language → Option String
  | cpp => some "g++"
  | rust => some "rustc"
  | java => some "javac"
  | go => some "go"
  | _ => none

/-- `none` where it panics. -/
def compileArgs (source output : String) : Language → Option (List String)
  | cpp => some [source, "-o", output, "-O2", "-std=c++17"]
  | rust => some [source, "-o", output, "-C", "opt-level=2"]
  | java => some ["-encoding", "UTF-8", source]
  | go => some ["build", "-o", output, source]
  | _ => none

end Language

/-! ## Requests -/

structure Command where
  program : String
  args : List String
  /-- `current_dir`, if it is set. -/
  currentDir : Option String
  deriving DecidableEq

structure Output where
  success : Bool
  stdout : List UInt8
  stderr : List UInt8

inductive JudgeRequest where
  /-- A statement on the row of the job. -/
  | write (u : RowUpdate)
  | tempdir
  | writeFile (path content : String)
  /-- `var_os("PATH")`. -/
  | path
  | isFile (path : String)
  /-- `Command::output`. -/
  | output (cmd : Command)
  /-- The same, under a timeout of so many seconds. -/
  | outputWithin (secs : Nat) (cmd : Command)
  /-- The run of `run_in_sandbox`. -/
  | sandbox (executable : String) (args : List String) (stdin : String) (config : SandboxConfig)

/-- What a request is replied; `none` for a timeout. -/
def JudgeRequest.Reply : JudgeRequest → Type
  | write _ => Unit
  | tempdir => Except String String
  | writeFile _ _ => Except String Unit
  | path => Option String
  | isFile _ => Bool
  | output _ => Except String Output
  | outputWithin _ _ => Option (Except String Output)
  | sandbox _ _ _ _ => Except String ProcRun

abbrev JudgeProgram := Program JudgeRequest.Reply

namespace Ask

abbrev write (u : RowUpdate) : JudgeProgram Unit := ask (JudgeRequest.write u)

abbrev tempdir : JudgeProgram (Except String String) := ask JudgeRequest.tempdir

abbrev writeFile (path content : String) : JudgeProgram (Except String Unit) :=
  ask (JudgeRequest.writeFile path content)

abbrev path : JudgeProgram (Option String) := ask JudgeRequest.path

abbrev isFile (path : String) : JudgeProgram Bool := ask (JudgeRequest.isFile path)

abbrev output (cmd : Command) : JudgeProgram (Except String Output) := ask (JudgeRequest.output cmd)

abbrev outputWithin (secs : Nat) (cmd : Command) : JudgeProgram (Option (Except String Output)) :=
  ask (JudgeRequest.outputWithin secs cmd)

abbrev sandbox (executable : String) (args : List String) (stdin : String)
    (config : SandboxConfig) : JudgeProgram (Except String ProcRun) :=
  ask (JudgeRequest.sandbox executable args stdin config)

end Ask

/-- How a function ends early. -/
inductive Fault where
  | error (message : String)
  | panic

abbrev Fallible := ExceptT Fault JudgeProgram

/-- `?`. -/
def orFail {α : Type} (x : JudgeProgram (Except String α)) : Fallible α :=
  ExceptT.mk do return (← x).mapError .error

def orPanic {α : Type} : Option α → Fallible α
  | some a => pure a
  | none => throw .panic

/-! ## `resolve_command` -/

/-- `split_paths`. -/
def splitPaths (path : String) : List String := (path.toList.splitOn ':').map String.ofList

/-- The files called `name` in the directories, in order. -/
def candidates (name : String) : List String → JudgeProgram (List String)
  | [] => pure []
  | dir :: dirs => do
    let file ← Ask.isFile (Path.join dir name)
    let rest ← candidates name dirs
    return if file then Path.join dir name :: rest else rest

/-- Where `String::from_utf8` stops, having read up to `start` and then `carry`,
and how many bytes are wrong there, or `none` if more would have to follow. -/
def utf8Error : Nat → List UInt8 → List UInt8 → Option (Nat × Option Nat)
  | start, carry, [] => if carry = [] then none else some (start, none)
  | start, carry, b :: bs =>
    if Lib.Utf8.complete (carry ++ [b]) then utf8Error (start + carry.length + 1) [] bs
    else if Lib.Utf8.incomplete (carry ++ [b]) then utf8Error start (carry ++ [b]) bs
    else some (start, some (max carry.length 1))

/-- `String::from_utf8`. -/
def fromUtf8 (bytes : List UInt8) : Except String String :=
  match utf8Error 0 [] bytes with
  | none => .ok (fromUtf8Lossy bytes)
  | some (start, some n) => .error ("invalid utf-8 sequence of " ++ toString n ++
      " bytes from index " ++ toString start)
  | some (start, none) => .error ("incomplete utf-8 byte sequence from index " ++ toString start)

def resolveCommand (name : String) : Fallible String := do
  match ← Ask.path with
  | none => throw (.error "PATH is not set")
  | some path =>
    match ← candidates name (splitPaths path) with
    | found :: _ => return found
    | [] =>
      let out ← orFail (Ask.output ⟨"which", [name], none⟩)
      if out.success then
        return trim (← orFail (pure (fromUtf8 out.stdout)))
      else throw (.error ("command '" ++ name ++ "' not found in PATH"))

/-! ## `compile` -/

/-- What `compile` makes of the compiler's exit, given the executable and its arguments
if it went well. -/
def compileOutput (executable : String) (runArgs : List String) (out : Output) : CompileOutput :=
  if out.success then
    { executable := executable, runArgs := runArgs, error := none
      warnings := fromUtf8Lossy out.stderr }
  else
    { executable := executable, runArgs := [], error := some (fromUtf8Lossy out.stderr)
      warnings := "" }

/-- The syntax check of an interpreted language. -/
def compileInterpreted (language : Language) (srcPath : String) : Fallible CompileOutput := do
  let interpPath ← resolveCommand (← orPanic language.interpreter)
  let result ← Ask.outputWithin 10 ⟨interpPath, ["-m", "py_compile", srcPath], none⟩
  let (error, warnings) := match result with
    | none => (some "構文チェックがタイムアウトしました", "")
    | some (.error e) => (some ("インタプリタの起動に失敗しました: " ++ e), "")
    | some (.ok out) =>
      if out.success then (none, fromUtf8Lossy out.stderr)
      else (some (fromUtf8Lossy out.stderr), "")
  return { executable := interpPath, runArgs := [srcPath], error := error, warnings := warnings }

/-- The compiler under its timeout. -/
def runCompiler (cmd : Command) : Fallible Output := do
  match ← Ask.outputWithin 30 cmd with
  | none => throw (.error "コンパイルが30秒でタイムアウトしました")
  | some (.error e) => throw (.error ("コンパイラの起動に失敗しました: " ++ e))
  | some (.ok out) => return out

def compileJava (language : Language) (srcPath workDir : String) : Fallible CompileOutput := do
  let compiler ← resolveCommand (← orPanic language.compiler)
  let args ← orPanic (language.compileArgs srcPath "")
  let out ← runCompiler ⟨compiler, args, some workDir⟩
  let java ← resolveCommand "java"
  return compileOutput java ["-cp", workDir, "Main"] out

def compileNative (language : Language) (srcPath workDir : String) : Fallible CompileOutput := do
  let compiler ← resolveCommand (← orPanic language.compiler)
  let outputPath := Path.join workDir "solution"
  let args ← orPanic (language.compileArgs srcPath outputPath)
  let out ← runCompiler ⟨compiler, args, none⟩
  return compileOutput outputPath [] out

def compile (sourceCode : String) (language : Language) (workDir : String) :
    Fallible CompileOutput := do
  let srcPath := Path.join workDir language.sourceFileName
  orFail (Ask.writeFile srcPath sourceCode)
  if language = .text then
    return { executable := ← resolveCommand "cat", runArgs := [], error := none, warnings := "" }
  else if language.isInterpreted then compileInterpreted language srcPath
  else if language = .java then compileJava language srcPath workDir
  else compileNative language srcPath workDir

/-! ## `run_scorer` -/

def scorerInput (workDir : String) : String := Path.join workDir "scorer_input.txt"

def scorerOutput (workDir : String) : String := Path.join workDir "scorer_output.txt"

def scorerCommand (scorer workDir : String) : Command :=
  ⟨"python3", [scorer, scorerInput workDir, scorerOutput workDir], none⟩

def scoreOf (ext : Externals) (out : Output) : Except String F64 :=
  if !out.success then .error ("スコアラー実行失敗: " ++ fromUtf8Lossy out.stderr)
  else
    let scoreStr := trim (fromUtf8Lossy out.stdout)
    match ext.parseF64 scoreStr with
    | .ok score => .ok score
    | .error e => .error ("スコアのパース失敗 (" ++ ext.fmtDebug scoreStr ++ "): " ++ e)

/-- `run_scorer`. -/
def scoreRun (ext : Externals) (scorerPath : Option String) (input output workDir : String) :
    ExceptT String JudgeProgram F64 := do
  match scorerPath with
  | none => throw "scorer.py が見つかりません（judge_type=heuristic にも関わらず）"
  | some scorer =>
    ExceptT.mk (Ask.writeFile (scorerInput workDir) input)
    ExceptT.mk (Ask.writeFile (scorerOutput workDir) output)
    let out ← ExceptT.mk (Ask.output (scorerCommand scorer workDir))
    ExceptT.mk (pure (scoreOf ext out))

/-! ## `judge` -/

def setStatus (status : JudgeStatus) : JudgeProgram Unit := Ask.write (.status status)

/-- A status as that of a judged case. -/
def FinalStatus.of (status : JudgeStatus)
    (h : status ≠ .pending ∧ status ≠ .running := by simp) : FinalStatus :=
  ⟨status, by cases status <;> simp_all [JudgeStatus.isTerminal]⟩

/-- The status and the score of a case that is scored. -/
def scoredCase : Except String F64 → FinalStatus × Option F64
  | .ok score => (.of .scored, some score)
  | .error e => (.of (.internalError e), none)

/-- The status and the score of a case. -/
def judgeCase (ext : Externals) (job : JudgeJob) (workDir stdin : String)
    (expectedOutput : Option String) (run : RunResult) :
    JudgeProgram (FinalStatus × Option F64) :=
  match run.status with
  | .timeLimitExceeded => return (.of .timeLimitExceeded, none)
  | .runtimeError | .killed =>
    if run.memoryUsedBytes / 1024 > job.memoryLimitKb then
      return (.of .memoryLimitExceeded, none)
    else return (.of (.runtimeError (run.exitCode.getD (-1))), none)
  | .ok =>
    if job.isHeuristic then do
      let score ← (scoreRun ext job.scorerPath stdin (fromUtf8Lossy run.stdout) workDir).run
      return scoredCase score
    else if trim (fromUtf8Lossy run.stdout) = trim (expectedOutput.getD "") then
      return (.of .accepted, none)
    else return (.of .wrongAnswer, none)

/-- What the body of the loop does with the status and the score of a case. -/
def Accum.add (compiled : CompileOutput) (run : RunResult) (case : FinalStatus × Option F64)
    (acc : Accum) : Accum :=
  let timeMs := run.wallTimeUsed.asMillis
  let memoryUsedKb := run.memoryUsedBytes / 1024
  let firstFail := acc.finalStatus.val.isSuccess && !case.1.val.isSuccess
  { finalStatus := if firstFail then case.1 else acc.finalStatus
    maxTimeMs := max acc.maxTimeMs timeMs
    maxMemoryKb := max acc.maxMemoryKb memoryUsedKb
    firstFailStdout := if firstFail then fromUtf8Lossy run.stdout else acc.firstFailStdout
    firstFailStderr :=
      if firstFail then caseStderr compiled.warnings (fromUtf8Lossy run.stderr)
      else acc.firstFailStderr
    tcVerdicts := acc.tcVerdicts ++ [{
      verdict := verdictStr case.1.val, timeMs := some timeMs, memoryKb := some memoryUsedKb,
      score := case.2 }]
    totalScore := match case.2 with
      | some s => acc.totalScore.add F64.round s
      | none => acc.totalScore }

/-- The loop over the test cases, to the last write. -/
def judgeLoop (ext : Externals) (job : JudgeJob) (workDir : String) (compiled : CompileOutput) :
    List (String × Option String) → Accum → JudgeProgram Unit
  | [], acc => Ask.write (acc.finish job).val
  | (stdin, expectedOutput) :: rest, acc => do
    let p ← Ask.sandbox compiled.executable compiled.runArgs stdin job.sandboxConfig
    match runInSandbox job.sandboxConfig p with
    | .error e => setStatus (.internalError e)
    | .ok run =>
      let case ← judgeCase ext job workDir stdin expectedOutput run
      judgeLoop ext job workDir compiled rest (acc.add compiled run case)

inductive Ending where
  | returned
  | panicked
  deriving DecidableEq

/-- `judge` after `compile`. -/
def judgeCompiled (ext : Externals) (job : JudgeJob) (workDir : String) :
    Except Fault CompileOutput → JudgeProgram Ending
  | .error .panic => return .panicked
  | .error (.error e) => do
    setStatus (.internalError e)
    return .returned
  | .ok compiled =>
    match compiled.error with
    | some msg => do
      Ask.write (compileErrorUpdate msg).val
      return .returned
    | none => do
      judgeLoop ext job workDir compiled job.testcases (.init job)
      return .returned

/-- `judge`. -/
def judgeProgram (ext : Externals) (job : JudgeJob) : JudgeProgram Ending := do
  setStatus .running
  match ← Ask.tempdir with
  | .error e => do
    setStatus (.internalError e)
    return .returned
  | .ok workDir => do
    let compiled ← (compile job.sourceCode job.language workDir).run
    judgeCompiled ext job workDir compiled

end MikanJudge

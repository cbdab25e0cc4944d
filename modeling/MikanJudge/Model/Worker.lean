import MikanJudge.Model.Db
import MikanJudge.Model.Sandbox

/-!
# Judging a job (`worker/mod.rs`)

`judge` writes the row of its job twice: `running` first, then, at one of its
exits, an update with a terminal status (`FinalUpdate`). What happens outside
the program meanwhile is its environment (`JudgeEnv`): the temporary
directory, the compiler, the runs of the submitted program and of the scorer.

`judge` is stated twice: as one function of the environment (`judgeFinal`,
`judge`), and as the steps a worker takes (`JudgeState`), which other workers
and the handlers may come between. `judge_steps` connects the two.

The arithmetic is that of a build without overflow checks, which the Dockerfile
makes. In a debug build a memory limit that does not fit when doubled in bytes
makes `judge` panic, which ends its worker; `Model/Limits.lean` has both builds.
-/

namespace MikanJudge

open MikanJudge.Lib (F64)

structure JudgeJob where
  id : Uuid
  sourceCode : String
  language : Language
  /-- The standard input and the expected output of each case. -/
  testcases : List (String × Option String)
  timeLimitMs : Nat
  memoryLimitKb : Nat
  judgeType : JudgeType
  /-- The scorer in the problem's directory. -/
  scorerPath : Option String

/-! ## Updates of the job's row -/

inductive RowUpdate where
  | status (status : JudgeStatus)
  | result (status : JudgeStatus) (timeUsedMs memoryUsedKb : Option Nat)
    (stdout stderr : Option String) (testcaseResults : Option (List TestcaseVerdict))
    (score : Option F64)

namespace RowUpdate

def newStatus : RowUpdate → JudgeStatus
  | status s => s
  | result s _ _ _ _ _ _ => s

/-- The statement an update stands for. -/
def exec (ext : Externals) (rows : List SubmissionRow) (id : Uuid) :
    RowUpdate → Except DbError (List SubmissionRow)
  | status s => .ok (updateStatus rows id s)
  | result s time mem stdout stderr results score =>
    updateResult ext rows id s time mem stdout stderr results score

/-- Whether the database accepts the texts of an update. -/
def textsOk (ext : Externals) : RowUpdate → Bool
  | status _ => true
  | result _ _ _ stdout stderr results _ =>
    optTextOk stdout && optTextOk stderr && optTextOk (results.map (encodeResults ext))

/-- What an update makes of its row. -/
def apply (ext : Externals) : RowUpdate → SubmissionRow → SubmissionRow
  | status s, r => { r with status := s.toDb }
  | result s time mem stdout stderr results score, r => { r with
      status := s.toDb
      timeUsedMs := time.map toI64
      memoryUsedKb := mem.map toI64
      stdout := stdout
      stderr := stderr
      testcaseResults := results.map (encodeResults ext)
      score := score }

/-- The table after the statement: a failure is logged, and nothing more. -/
def write (ext : Externals) (rows : List SubmissionRow) (id : Uuid) (u : RowUpdate) :
    List SubmissionRow :=
  match u.exec ext rows id with
  | .ok rows' => rows'
  | .error _ => rows

section

variable {ext : Externals} {rows : List SubmissionRow} {id : Uuid} {u : RowUpdate}

/-- A statement the database accepts changes the rows with its id, and any
other changes nothing. -/
theorem write_eq :
    u.write ext rows id = if u.textsOk ext then updateWhere id (u.apply ext) rows else rows := by
  cases u with
  | status s => rfl
  | result s time mem stdout stderr results score =>
    cases h : optTextOk stdout && optTextOk stderr && optTextOk (results.map (encodeResults ext)) <;>
      simp only [write, exec, updateResult, textsOk, h] <;> rfl

theorem write_status (s : JudgeStatus) :
    (status s).write ext rows id = updateStatus rows id s := rfl

@[simp] theorem apply_id (r : SubmissionRow) : (u.apply ext r).id = r.id := by cases u <;> rfl

@[simp] theorem apply_status (r : SubmissionRow) : (u.apply ext r).status = u.newStatus.toDb := by
  cases u <;> rfl

end

end RowUpdate

abbrev FinalStatus := { s : JudgeStatus // s.isTerminal = true }

/-- An update judging can end with. -/
abbrev FinalUpdate := { u : RowUpdate // u.newStatus.isTerminal = true }

/-- A row it is written to is judged. -/
theorem FinalUpdate.not_unfinished_apply {ext : Externals} (u : FinalUpdate) (r : SubmissionRow) :
    ¬ (u.val.apply ext r).Unfinished := by
  rw [SubmissionRow.Unfinished, RowUpdate.apply_status]
  exact not_or.mpr ((JudgeStatus.isTerminal_iff_toDb _).mp u.property)

/-- `set_status` to an internal error. -/
def internalError (message : String) : FinalUpdate := ⟨.status (.internalError message), rfl⟩

/-! ## The environment -/

inductive ScorerRun where
  /-- A file could not be written, or `python3` not be started. -/
  | failed (message : String)
  | exited (success : Bool) (stdout stderr : List UInt8)

structure CaseRun where
  run : Except String ProcRun
  scorer : ScorerRun

structure JudgeEnv where
  tempdir : Except String Unit
  compiled : Except String CompileOutput
  /-- The runs, by the position of the test case. -/
  runs : Nat → CaseRun

/-! ## One test case -/

/-- The configuration of a job's runs, in a build without overflow checks. -/
def JudgeJob.sandboxConfig (job : JudgeJob) : SandboxConfig where
  timeLimit := Duration.fromMillis job.timeLimitMs
  maxOutputBytes := 16 * 1024 * 1024
  vmLimitBytes :=
    if job.language.needsUnlimitedVm then none
    else some (job.memoryLimitKb * 1024 % 2 ^ 64 * 2 % 2 ^ 64)
  nprocLimit := if job.language.needsRelaxedNproc then none else some 1
  enableSeccomp := !job.language.needsRelaxedSeccomp

def JudgeJob.isHeuristic (job : JudgeJob) : Bool := job.judgeType == .heuristic

def runScorer (ext : Externals) (scorerPath : Option String) (run : ScorerRun) :
    Except String F64 :=
  match scorerPath with
  | none => .error "scorer.py が見つかりません（judge_type=heuristic にも関わらず）"
  | some _ =>
    match run with
    | .failed message => .error message
    | .exited false _ stderr => .error ("スコアラー実行失敗: " ++ fromUtf8Lossy stderr)
    | .exited true stdout _ =>
      let scoreStr := trim (fromUtf8Lossy stdout)
      match ext.parseF64 scoreStr with
      | .ok score => .ok score
      | .error e => .error ("スコアのパース失敗 (" ++ ext.fmtDebug scoreStr ++ "): " ++ e)

/-- The text recorded as the standard error of a case. -/
def caseStderr (warnings runtimeStderr : String) : String :=
  if warnings = "" then runtimeStderr
  else if runtimeStderr = "" then "[Compile warnings]\n" ++ warnings
  else "[Compile warnings]\n" ++ warnings ++ "\n[Runtime stderr]\n" ++ runtimeStderr

/-- The status and the score of a case, from its run. -/
def caseStatus (ext : Externals) (job : JudgeJob) (expectedOutput : Option String)
    (r : RunResult) (scorer : ScorerRun) : FinalStatus × Option F64 :=
  match r.status with
  | .timeLimitExceeded => (⟨.timeLimitExceeded, rfl⟩, none)
  | .runtimeError | .killed =>
    if r.memoryUsedBytes / 1024 > job.memoryLimitKb then (⟨.memoryLimitExceeded, rfl⟩, none)
    else (⟨.runtimeError (r.exitCode.getD (-1)), rfl⟩, none)
  | .ok =>
    if job.isHeuristic then
      match runScorer ext job.scorerPath scorer with
      | .ok score => (⟨.scored, rfl⟩, some score)
      | .error e => (⟨.internalError e, rfl⟩, none)
    else if trim (fromUtf8Lossy r.stdout) = trim (expectedOutput.getD "") then
      (⟨.accepted, rfl⟩, none)
    else (⟨.wrongAnswer, rfl⟩, none)

def verdictStr : JudgeStatus → String
  | .accepted => "AC"
  | .wrongAnswer => "WA"
  | .timeLimitExceeded => "TLE"
  | .memoryLimitExceeded => "MLE"
  | .runtimeError _ => "RE"
  | .scored => "SCORED"
  | _ => "IE"

/-! ## The loop over the test cases -/

/-- The variables of the loop. -/
structure Accum where
  finalStatus : FinalStatus
  maxTimeMs : Nat
  maxMemoryKb : Nat
  firstFailStdout : String
  firstFailStderr : String
  tcVerdicts : List TestcaseVerdict
  totalScore : F64

def Accum.init (job : JudgeJob) : Accum where
  finalStatus := if job.isHeuristic then ⟨.scored, rfl⟩ else ⟨.accepted, rfl⟩
  maxTimeMs := 0
  maxMemoryKb := 0
  firstFailStdout := ""
  firstFailStderr := ""
  tcVerdicts := []
  totalScore := 0

/-- The body of the loop, once the case has run. -/
def Accum.record (ext : Externals) (job : JudgeJob) (compiled : CompileOutput)
    (expectedOutput : Option String) (r : RunResult) (scorer : ScorerRun) (acc : Accum) : Accum :=
  let timeMs := r.wallTimeUsed.asMillis
  let memoryUsedKb := r.memoryUsedBytes / 1024
  let (status, score) := caseStatus ext job expectedOutput r scorer
  let firstFail := acc.finalStatus.val.isSuccess && !status.val.isSuccess
  { finalStatus := if firstFail then status else acc.finalStatus
    maxTimeMs := max acc.maxTimeMs timeMs
    maxMemoryKb := max acc.maxMemoryKb memoryUsedKb
    firstFailStdout := if firstFail then fromUtf8Lossy r.stdout else acc.firstFailStdout
    firstFailStderr :=
      if firstFail then caseStderr compiled.warnings (fromUtf8Lossy r.stderr)
      else acc.firstFailStderr
    tcVerdicts := acc.tcVerdicts ++ [{
      verdict := verdictStr status.val, timeMs := some timeMs, memoryKb := some memoryUsedKb,
      score := score }]
    totalScore := match score with
      | some s => acc.totalScore.add F64.round s
      | none => acc.totalScore }

/-- The final write, after the loop. -/
def Accum.finish (job : JudgeJob) (acc : Accum) : FinalUpdate :=
  let (lastStdout, lastStderr) :=
    if acc.finalStatus.val.isSuccess then ("", "")
    else (acc.firstFailStdout, acc.firstFailStderr)
  ⟨.result acc.finalStatus.val
    (if acc.maxTimeMs > 0 then some acc.maxTimeMs else none)
    (if acc.maxMemoryKb > 0 then some acc.maxMemoryKb else none)
    (some lastStdout) (some lastStderr) (some acc.tcVerdicts)
    (if job.isHeuristic then some acc.totalScore else none), acc.finalStatus.property⟩

/-! ## The steps of `judge` -/

inductive JudgeState where
  /-- Before `set_status(Running)`. -/
  | start
  | tempdir
  | compile
  /-- In the loop, before the first case of `rest`. -/
  | cases (compiled : CompileOutput) (rest : List (String × Option String)) (acc : Accum)
  /-- Before the last write. -/
  | finish (u : FinalUpdate)

def afterTempdir : Except String Unit → JudgeState
  | .ok _ => .compile
  | .error e => .finish (internalError e)

/-- The write of a compile error. -/
def compileErrorUpdate (msg : String) : FinalUpdate :=
  ⟨.result (.compileError msg) none none none (some msg) none none, rfl⟩

def afterCompile (job : JudgeJob) : Except String CompileOutput → JudgeState
  | .error e => .finish (internalError e)
  | .ok compiled =>
    match compiled.error with
    | some msg => .finish (compileErrorUpdate msg)
    | none => .cases compiled job.testcases (.init job)

def afterCase (ext : Externals) (job : JudgeJob) (compiled : CompileOutput)
    (tc : String × Option String) (rest : List (String × Option String)) (acc : Accum)
    (c : CaseRun) : JudgeState :=
  match runInSandbox job.sandboxConfig c.run with
  | .error e => .finish (internalError e)
  | .ok r => .cases compiled rest (acc.record ext job compiled tc.2 r c.scorer)

/-- What happens outside, between two writes. -/
inductive JudgeEvent where
  | tempdir (r : Except String Unit)
  | compiled (r : Except String CompileOutput)
  | ran (c : CaseRun)
  /-- The loop ends. -/
  | loopEnd

/-- A step that writes nothing. -/
def JudgeState.step (ext : Externals) (job : JudgeJob) : JudgeState → JudgeEvent → Option JudgeState
  | .tempdir, .tempdir r => some (afterTempdir r)
  | .compile, .compiled r => some (afterCompile job r)
  | .cases compiled (tc :: rest) acc, .ran c => some (afterCase ext job compiled tc rest acc c)
  | .cases _ [] acc, .loopEnd => some (.finish (acc.finish job))
  | _, _ => none

/-! ## `judge` as a whole -/

/-- The loop from the case at position `i`. -/
def judgeCases (ext : Externals) (job : JudgeJob) (compiled : CompileOutput) (runs : Nat → CaseRun) :
    Nat → List (String × Option String) → Accum → FinalUpdate
  | _, [], acc => acc.finish job
  | i, tc :: rest, acc =>
    match runInSandbox job.sandboxConfig (runs i).run with
    | .error e => internalError e
    | .ok r =>
      judgeCases ext job compiled runs (i + 1) rest
        (acc.record ext job compiled tc.2 r (runs i).scorer)

/-- The update `judge` ends with. -/
def judgeFinal (ext : Externals) (job : JudgeJob) (env : JudgeEnv) : FinalUpdate :=
  match env.tempdir with
  | .error e => internalError e
  | .ok _ =>
    match env.compiled with
    | .error e => internalError e
    | .ok compiled =>
      match compiled.error with
      | some msg => compileErrorUpdate msg
      | none => judgeCases ext job compiled env.runs 0 job.testcases (.init job)

/-- `judge`, on the table of submissions. -/
def judge (ext : Externals) (job : JudgeJob) (env : JudgeEnv) (rows : List SubmissionRow) :
    List SubmissionRow :=
  let rows := (RowUpdate.status .running).write ext rows job.id
  (judgeFinal ext job env).val.write ext rows job.id

/-! ## Which cases are run -/

/-- The run of the case at position `j` took place. -/
def Ran (runs : Nat → CaseRun) (j : Nat) : Prop := ∃ p, (runs j).run = .ok p

/-- `judge` gets to the end of its loop: nothing outside the program fails,
and the program compiles. -/
def JudgeEnv.Completes (env : JudgeEnv) (job : JudgeJob) : Prop :=
  (∃ u, env.tempdir = .ok u) ∧ (∃ compiled, env.compiled = .ok compiled ∧ compiled.error = none) ∧
    ∀ j < job.testcases.length, Ran env.runs j

section

variable {ext : Externals} {job : JudgeJob} {compiled : CompileOutput} {runs : Nat → CaseRun}

/-- The loop goes past a case exactly if its run took place. -/
theorem judgeCases_cons (ext : Externals) (job : JudgeJob) (compiled : CompileOutput)
    (runs : Nat → CaseRun) (k : Nat) (tc : String × Option String)
    (rest : List (String × Option String)) (acc : Accum) :
    (∃ p, (runs k).run = .ok p ∧ judgeCases ext job compiled runs k (tc :: rest) acc =
      judgeCases ext job compiled runs (k + 1) rest
        (acc.record ext job compiled tc.2 (parentCollect job.sandboxConfig p) (runs k).scorer)) ∨
    (¬ Ran runs k ∧ ∃ e, judgeCases ext job compiled runs k (tc :: rest) acc = internalError e) := by
  rw [judgeCases]
  cases hr : (runs k).run with
  | ok p => exact .inl ⟨p, rfl, rfl⟩
  | error e => exact .inr ⟨fun ⟨_, hp⟩ => (nomatch hr.symm.trans hp), e, rfl⟩

/-- Once the first case has run, all of them have exactly if the others have. -/
theorem ran_range_cons {k : Nat} (hk : Ran runs k) {tc : String × Option String}
    {rest : List (String × Option String)} :
    (∀ j, k ≤ j → j < k + (tc :: rest).length → Ran runs j) ↔
      ∀ j, k + 1 ≤ j → j < k + 1 + rest.length → Ran runs j := by
  simp only [List.length_cons]
  refine ⟨fun h j h₁ h₂ => h j (by omega) (by omega), fun h j h₁ h₂ => ?_⟩
  rcases Nat.eq_or_lt_of_le h₁ with rfl | h₁
  · exact hk
  · exact h j h₁ (by omega)

end

/-! ## The steps make up the whole -/

/-- Steps that write nothing, one after another. -/
inductive JudgeSteps (ext : Externals) (job : JudgeJob) : JudgeState → List JudgeEvent → JudgeState → Prop
  | nil (st : JudgeState) : JudgeSteps ext job st [] st
  | cons {st st' st'' : JudgeState} {e : JudgeEvent} {es : List JudgeEvent} :
    st.step ext job e = some st' → JudgeSteps ext job st' es st'' →
    JudgeSteps ext job st (e :: es) st''

theorem judgeCases_steps (ext : Externals) (job : JudgeJob) (compiled : CompileOutput)
    (runs : Nat → CaseRun) (i : Nat) (rest : List (String × Option String)) (acc : Accum) :
    ∃ es, JudgeSteps ext job (.cases compiled rest acc) es
      (.finish (judgeCases ext job compiled runs i rest acc)) := by
  induction rest generalizing i acc with
  | nil => exact ⟨[.loopEnd], .cons rfl (.nil _)⟩
  | cons tc rest ih =>
    rw [judgeCases]
    cases hr : runInSandbox job.sandboxConfig (runs i).run with
    | error e =>
      refine ⟨[.ran (runs i)], .cons ?_ (.nil _)⟩
      simp only [JudgeState.step, afterCase, hr]
    | ok r =>
      obtain ⟨es, hes⟩ := ih (i + 1) (acc.record ext job compiled tc.2 r (runs i).scorer)
      refine ⟨.ran (runs i) :: es, .cons ?_ hes⟩
      simp only [JudgeState.step, afterCase, hr]

/-- In any environment, the steps lead from the first write to the last one
of `judge`. -/
theorem judge_steps (ext : Externals) (job : JudgeJob) (env : JudgeEnv) :
    ∃ es, JudgeSteps ext job .tempdir es (.finish (judgeFinal ext job env)) := by
  cases ht : env.tempdir with
  | error e =>
    refine ⟨[.tempdir env.tempdir], .cons ?_ (.nil _)⟩
    simp only [JudgeState.step, afterTempdir, judgeFinal, ht]
  | ok _ =>
    have h₁ : JudgeState.tempdir.step ext job (.tempdir env.tempdir) = some .compile := by
      simp only [JudgeState.step, afterTempdir, ht]
    cases hc : env.compiled with
    | error e =>
      refine ⟨[.tempdir env.tempdir, .compiled env.compiled], .cons h₁ (.cons ?_ (.nil _))⟩
      simp only [JudgeState.step, afterCompile, judgeFinal, ht, hc]
    | ok compiled =>
      cases he : compiled.error with
      | some msg =>
        refine ⟨[.tempdir env.tempdir, .compiled env.compiled], .cons h₁ (.cons ?_ (.nil _))⟩
        simp only [JudgeState.step, afterCompile, judgeFinal, ht, hc, he]
      | none =>
        have h₂ : JudgeState.compile.step ext job (.compiled env.compiled) =
            some (.cases compiled job.testcases (.init job)) := by
          simp only [JudgeState.step, afterCompile, hc, he]
        obtain ⟨es, hes⟩ := judgeCases_steps ext job compiled env.runs 0 job.testcases (.init job)
        refine ⟨.tempdir env.tempdir :: .compiled env.compiled :: es, .cons h₁ (.cons h₂ ?_)⟩
        simpa only [judgeFinal, ht, hc, he] using hes

end MikanJudge

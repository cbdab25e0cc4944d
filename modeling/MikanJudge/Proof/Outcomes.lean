import MikanJudge.Model.Worker

/-!
# The cases of a job

The loop of `judge` in closed form. Each of its variables is a function of the
list of cases judged so far, each with its run and its scorer's (`Accum.of`),
and the body of the loop keeps this (`Accum.record_of`). So the last update of a
job all of whose cases can be run is a function of the list of its cases
(`JudgedWith.judgeFinal_eq`); any other job has no results.
-/

namespace MikanJudge

open MikanJudge.Lib

/-- A test case that was run: what is expected, the run and the scorer's. -/
structure CaseOutcome where
  expectedOutput : Option String
  result : RunResult
  scorer : ScorerRun

namespace CaseOutcome

section

variable (ext : Externals) (job : JudgeJob) (compiled : CompileOutput) (c : CaseOutcome)

def status : FinalStatus := (caseStatus ext job c.expectedOutput c.result c.scorer).1

def score : Option F64 := (caseStatus ext job c.expectedOutput c.result c.scorer).2

def timeMs : Nat := c.result.wallTimeUsed.asMillis

def memoryKb : Nat := c.result.memoryUsedBytes / 1024

def stdout : String := fromUtf8Lossy c.result.stdout

/-- The standard error, after the warnings of the compiler. -/
def stderr : String := caseStderr compiled.warnings (fromUtf8Lossy c.result.stderr)

/-- The entry of the case among the results. -/
def verdict : TestcaseVerdict where
  verdict := verdictStr (c.status ext job).val
  timeMs := some c.timeMs
  memoryKb := some c.memoryKb
  score := c.score ext job

def fails : Bool := !(c.status ext job).val.isSuccess

end

end CaseOutcome

/-- The status of a job none of whose cases fails. -/
def JudgeJob.successStatus (job : JudgeJob) : JudgeStatus :=
  if job.judgeType = .heuristic then .scored else .accepted

section

variable {ext : Externals} {job : JudgeJob} {compiled : CompileOutput} {cases : List CaseOutcome}
  {c : CaseOutcome}

/-! ## The variables of the loop -/

/-- The variables of the loop after some cases. -/
def Accum.of (ext : Externals) (job : JudgeJob) (compiled : CompileOutput)
    (cases : List CaseOutcome) : Accum :=
  let firstFail := cases.find? (·.fails ext job)
  { finalStatus := firstFail.elim (Accum.init job).finalStatus (·.status ext job)
    maxTimeMs := (cases.map (·.timeMs)).max?.getD 0
    maxMemoryKb := (cases.map (·.memoryKb)).max?.getD 0
    firstFailStdout := firstFail.elim "" (·.stdout)
    firstFailStderr := firstFail.elim "" (·.stderr compiled)
    tcVerdicts := cases.map (·.verdict ext job)
    totalScore := (cases.filterMap (·.score ext job)).foldl (F64.add F64.round) 0 }

theorem Accum.init_finalStatus (job : JudgeJob) :
    (Accum.init job).finalStatus.val = job.successStatus := by
  rw [Accum.init, JudgeJob.successStatus, JudgeJob.isHeuristic]
  cases job.judgeType <;> rfl

theorem isSuccess_successStatus (job : JudgeJob) : job.successStatus.isSuccess = true := by
  rw [JudgeJob.successStatus]
  split <;> rfl

/-- The status is still a success exactly if no case has failed. -/
theorem Accum.isSuccess_of :
    (Accum.of ext job compiled cases).finalStatus.val.isSuccess =
      (cases.find? (·.fails ext job)).isNone := by
  rw [Accum.of]
  cases h : cases.find? (·.fails ext job) with
  | none =>
    rw [Option.elim_none, init_finalStatus, isSuccess_successStatus, Option.isNone_none]
  | some c =>
    have hc : c.fails ext job = true := List.find?_some h
    rw [CaseOutcome.fails, Bool.not_eq_true'] at hc
    exact hc

theorem max?_getD_concat (xs : List Nat) (x : Nat) :
    (xs ++ [x]).max?.getD 0 = max (xs.max?.getD 0) x := by
  have h (ys : List Nat) : ys.max?.getD 0 = ys.foldl max 0 := by
    rw [List.foldl_max, Nat.zero_max]
  rw [h, h, List.foldl_append, List.foldl_cons, List.foldl_nil]

/-- The body of the loop, for a case. -/
theorem Accum.record_eq (acc : Accum) (c : CaseOutcome) :
    acc.record ext job compiled c.expectedOutput c.result c.scorer =
      let firstFail := acc.finalStatus.val.isSuccess && c.fails ext job
      { finalStatus := if firstFail then c.status ext job else acc.finalStatus
        maxTimeMs := max acc.maxTimeMs c.timeMs
        maxMemoryKb := max acc.maxMemoryKb c.memoryKb
        firstFailStdout := if firstFail then c.stdout else acc.firstFailStdout
        firstFailStderr := if firstFail then c.stderr compiled else acc.firstFailStderr
        tcVerdicts := acc.tcVerdicts ++ [c.verdict ext job]
        totalScore := (c.score ext job).elim acc.totalScore (acc.totalScore.add F64.round) } := by
  have hc : caseStatus ext job c.expectedOutput c.result c.scorer =
      (c.status ext job, c.score ext job) := rfl
  unfold Accum.record
  rw [hc]
  cases hs : c.score ext job <;> simp only [CaseOutcome.verdict, hs] <;> rfl

/-- The body of the loop brings the variables from some cases to one more. -/
theorem Accum.record_of (cases : List CaseOutcome) (c : CaseOutcome) :
    (Accum.of ext job compiled cases).record ext job compiled c.expectedOutput c.result c.scorer =
      .of ext job compiled (cases ++ [c]) := by
  have hfind : (cases ++ [c]).find? (·.fails ext job) =
      (cases.find? (·.fails ext job)).or (if c.fails ext job then some c else none) := by
    rw [List.find?_append, List.find?_singleton]
  have hscore : (c.score ext job).elim (Accum.of ext job compiled cases).totalScore
      ((Accum.of ext job compiled cases).totalScore.add F64.round) =
        (Accum.of ext job compiled (cases ++ [c])).totalScore := by
    simp only [Accum.of, List.filterMap_append, List.foldl_append]
    cases h : c.score ext job <;> simp [h]
  rw [Accum.record_eq, Accum.isSuccess_of, hscore]
  simp only [Accum.of, hfind, List.map_append, List.map_cons, List.map_nil, max?_getD_concat,
    Accum.mk.injEq, true_and, and_true]
  -- the case is the first to fail if none has failed before
  cases cases.find? (·.fails ext job) with
  | some d => exact ⟨rfl, rfl, rfl⟩
  | none => cases c.fails ext job <;> exact ⟨rfl, rfl, rfl⟩

/-! ## The whole loop -/

/-- The cases from a position on, with their runs. -/
def outcomes (runs : Nat → CaseRun) (results : Nat → RunResult) :
    Nat → List (String × Option String) → List CaseOutcome
  | _, [] => []
  | k, tc :: rest =>
    { expectedOutput := tc.2, result := results k, scorer := (runs k).scorer } ::
      outcomes runs results (k + 1) rest

theorem judgeCases_of {runs : Nat → CaseRun} {results : Nat → RunResult} (k : Nat)
    (rest : List (String × Option String))
    (hrun : ∀ i, k ≤ i → i < k + rest.length →
      runInSandbox job.sandboxConfig (runs i).run = .ok (results i)) :
    judgeCases ext job compiled runs k rest (.of ext job compiled cases) =
      (Accum.of ext job compiled (cases ++ outcomes runs results k rest)).finish job := by
  induction rest generalizing k cases with
  | nil => rw [judgeCases, outcomes, List.append_nil]
  | cons tc rest ih =>
    have hk := hrun k (Nat.le_refl k) (by simp only [List.length_cons]; omega)
    have hrest : ∀ i, k + 1 ≤ i → i < k + 1 + rest.length →
        runInSandbox job.sandboxConfig (runs i).run = .ok (results i) := fun i h₁ h₂ =>
      hrun i (by omega) (by simp only [List.length_cons]; omega)
    have hc : (Accum.of ext job compiled cases).record ext job compiled tc.2 (results k)
        (runs k).scorer = _ := Accum.record_of cases ⟨tc.2, results k, (runs k).scorer⟩
    simp only [judgeCases, hk]
    rw [hc, ih (k + 1) hrest, List.append_assoc]
    rfl

/-- The case at a position. -/
theorem getElem?_outcomes (runs : Nat → CaseRun) (results : Nat → RunResult) (k : Nat)
    (testcases : List (String × Option String)) (i : Nat) :
    (outcomes runs results k testcases)[i]? = testcases[i]?.map fun tc =>
      { expectedOutput := tc.2, result := results (k + i), scorer := (runs (k + i)).scorer } := by
  induction testcases generalizing k i with
  | nil => rfl
  | cons tc rest ih =>
    cases i with
    | zero => rfl
    | succ i => rw [outcomes, List.getElem?_cons_succ, ih, List.getElem?_cons_succ,
        show k + 1 + i = k + (i + 1) by omega]

@[simp] theorem length_outcomes (runs : Nat → CaseRun) (results : Nat → RunResult) (k : Nat)
    (testcases : List (String × Option String)) :
    (outcomes runs results k testcases).length = testcases.length := by
  induction testcases generalizing k with
  | nil => rfl
  | cons tc rest ih => rw [outcomes, List.length_cons, List.length_cons, ih]

/-- The outputs `judge` writes. -/
def Accum.outputs (acc : Accum) : String × String :=
  if acc.finalStatus.val.isSuccess then ("", "") else (acc.firstFailStdout, acc.firstFailStderr)

theorem Accum.finish_eq (acc : Accum) :
    (acc.finish job).val = .result acc.finalStatus.val
      (if acc.maxTimeMs > 0 then some acc.maxTimeMs else none)
      (if acc.maxMemoryKb > 0 then some acc.maxMemoryKb else none)
      (some acc.outputs.1) (some acc.outputs.2) (some acc.tcVerdicts)
      (if job.isHeuristic then some acc.totalScore else none) := rfl

/-- While no case fails, the status is that of success and there are no outputs. -/
theorem Accum.of_none (h : cases.find? (·.fails ext job) = none) :
    (Accum.of ext job compiled cases).finalStatus.val = job.successStatus ∧
      (Accum.of ext job compiled cases).outputs = ("", "") := by
  have hs : (Accum.of ext job compiled cases).finalStatus.val.isSuccess = true := by
    rw [Accum.isSuccess_of, h, Option.isNone_none]
  refine ⟨?_, if_pos hs⟩
  rw [Accum.of, h]
  exact Accum.init_finalStatus job

/-- The first case that fails gives the status and the outputs. -/
theorem Accum.of_some (h : cases.find? (·.fails ext job) = some c) :
    (Accum.of ext job compiled cases).finalStatus = c.status ext job ∧
      (Accum.of ext job compiled cases).outputs = (c.stdout, c.stderr compiled) := by
  have hs : ¬ (Accum.of ext job compiled cases).finalStatus.val.isSuccess = true := by
    rw [Accum.isSuccess_of, h, Option.isNone_some]
    exact Bool.false_ne_true
  rw [Accum.outputs, if_neg hs]
  simp only [Accum.of, h, Option.elim_some, and_self]

/-- A case that cannot be run ends the loop. -/
theorem judgeCases_of_not_ran (ext : Externals) (job : JudgeJob) (compiled : CompileOutput)
    {runs : Nat → CaseRun} (k : Nat) (rest : List (String × Option String)) (acc : Accum)
    (h : ¬ ∀ j, k ≤ j → j < k + rest.length → Ran runs j) :
    ∃ e, judgeCases ext job compiled runs k rest acc = internalError e := by
  induction rest generalizing k acc with
  | nil =>
    refine absurd (fun j h₁ h₂ => ?_) h
    simp only [List.length_nil] at h₂
    omega
  | cons tc rest ih =>
    rcases judgeCases_cons ext job compiled runs k tc rest acc with ⟨p, hp, e⟩ | ⟨-, e, he⟩
    · rw [e]
      exact ih _ _ fun h' => h ((ran_range_cons ⟨p, hp⟩).mpr h')
    · exact ⟨e, he⟩

/-! ## Jobs judged to the end -/

/-- A job is judged to the end: the program compiles, and all cases are run. -/
structure JudgedWith (job : JudgeJob) (env : JudgeEnv) (compiled : CompileOutput)
    (results : Nat → RunResult) : Prop where
  tempdir : env.tempdir = .ok ()
  compiles : env.compiled = .ok compiled
  no_error : compiled.error = none
  run : ∀ i < job.testcases.length,
    runInSandbox job.sandboxConfig (env.runs i).run = .ok (results i)

variable {env : JudgeEnv} {results : Nat → RunResult}

theorem JudgedWith.judgeFinal_eq (h : JudgedWith job env compiled results) :
    judgeFinal ext job env =
      (Accum.of ext job compiled (outcomes env.runs results 0 job.testcases)).finish job := by
  have hcases : judgeCases ext job compiled env.runs 0 job.testcases (.of ext job compiled []) =
      (Accum.of ext job compiled (outcomes env.runs results 0 job.testcases)).finish job :=
    judgeCases_of 0 job.testcases fun i _ hi => h.run i (by omega)
  simp only [judgeFinal, h.tempdir, h.compiles, h.no_error]
  exact hcases

theorem JudgedWith.completes (h : JudgedWith job env compiled results) : env.Completes job := by
  refine ⟨⟨(), h.tempdir⟩, ⟨compiled, h.compiles, h.no_error⟩, fun j hj => ?_⟩
  have hrun := h.run j hj
  rw [Ran]
  cases hp : (env.runs j).run with
  | ok p => exact ⟨p, rfl⟩
  | error e =>
    rw [hp] at hrun
    cases hrun

/-- The result of a case is that of its run. -/
theorem JudgedWith.results_eq (h : JudgedWith job env compiled results) {i : Nat} {p : ProcRun}
    (hi : i < job.testcases.length) (hp : (env.runs i).run = .ok p) :
    results i = parentCollect job.sandboxConfig p := by
  have hrun := h.run i hi
  rw [hp] at hrun
  exact (Except.ok.inj hrun).symm

theorem not_completes_of_error {msg : String} (hcompiled : env.compiled = .ok compiled)
    (herror : compiled.error = some msg) : ¬ env.Completes job := by
  rintro ⟨-, ⟨c, hc, he⟩, -⟩
  obtain rfl := Except.ok.inj (hcompiled.symm.trans hc)
  rw [herror] at he
  cases he

/-- How judging a job ends: outside of the program something fails, the program
does not compile, or the job is judged to the end. -/
inductive JudgeEnds (ext : Externals) (job : JudgeJob) (env : JudgeEnv) : FinalUpdate → Prop
  | internalError (e : String) (hdone : ¬ env.Completes job)
    (hcompile : ∀ compiled, env.tempdir = .ok () → env.compiled = .ok compiled →
      compiled.error = none) : JudgeEnds ext job env (internalError e)
  | compileError {compiled : CompileOutput} {msg : String} (htemp : env.tempdir = .ok ())
    (hcompiled : env.compiled = .ok compiled) (herror : compiled.error = some msg) :
    JudgeEnds ext job env (compileErrorUpdate msg)
  | finished {compiled : CompileOutput} {results : Nat → RunResult}
    (h : JudgedWith job env compiled results) : JudgeEnds ext job env
      ((Accum.of ext job compiled (outcomes env.runs results 0 job.testcases)).finish job)

theorem judgeEnds (ext : Externals) (job : JudgeJob) (env : JudgeEnv) :
    JudgeEnds ext job env (judgeFinal ext job env) := by
  cases ht : env.tempdir with
  | error e =>
    have hno : ∀ u, env.tempdir ≠ .ok u := by
      intro u hu
      cases ht.symm.trans hu
    simp only [judgeFinal, ht]
    exact .internalError e (fun h => h.1.elim hno) fun _ h => absurd h (hno _)
  | ok u =>
    cases hc : env.compiled with
    | error e =>
      have hno : ∀ compiled, env.compiled ≠ .ok compiled := by
        intro compiled h
        cases hc.symm.trans h
      simp only [judgeFinal, ht, hc]
      exact .internalError e (fun h => h.2.1.elim fun c hc => hno c hc.1)
        fun c _ h => absurd h (hno c)
    | ok compiled =>
      have hcompiled : ∀ {c}, env.compiled = .ok c → c = compiled := fun h =>
        (Except.ok.inj (hc.symm.trans h)).symm
      cases he : compiled.error with
      | some msg =>
        simp only [judgeFinal, ht, hc, he]
        exact .compileError ht hc he
      | none =>
        by_cases hran : ∀ j < job.testcases.length, Ran env.runs j
        · have hrun : ∀ i, ∃ r, i < job.testcases.length →
              runInSandbox job.sandboxConfig (env.runs i).run = .ok r := by
            intro i
            by_cases hi : i < job.testcases.length
            · obtain ⟨p, hp⟩ := hran i hi
              exact ⟨_, fun _ => congrArg (·.map (parentCollect job.sandboxConfig)) hp⟩
            · exact ⟨parentCollect job.sandboxConfig (printing []), fun h => absurd h hi⟩
          choose results hrun using hrun
          have h : JudgedWith job env compiled results := ⟨ht, hc, he, hrun⟩
          rw [h.judgeFinal_eq]
          exact .finished h
        · obtain ⟨e, hfinal⟩ := judgeCases_of_not_ran ext job compiled 0
            job.testcases (.init job) fun h => hran fun j hj => h j (Nat.zero_le j) (by rwa [Nat.zero_add])
          simp only [judgeFinal, ht, hc, he, hfinal]
          refine .internalError e (fun h => hran h.2.2) fun c _ h => ?_
          rw [hcompiled h, he]

end

end MikanJudge

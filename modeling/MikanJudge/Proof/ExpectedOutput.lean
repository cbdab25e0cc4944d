import MikanJudge.Model.Submit
import MikanJudge.Proof.AllCases

/-!
# Cases without an expected output

A test case has the expected output its `.out` file holds, and none where that
is missing or not UTF-8 (`testcases_of_check`). `judge` takes none for an empty
text: such a case is accepted exactly when the program ends well and what it
writes is blank (`ac_has_expected_iff`).
-/

namespace MikanJudge

open MikanJudge.Lib

/-- The problem a form submits to. -/
def SubmitRoute.formProblem : SubmitRoute → Option String
  | .contestProblem _ problemId _ => some problemId
  | .problem problemId _ => some problemId
  | .api _ => none

/-- The input files a problem has a test case for. -/
def caseFiles (fs : FileTree) (dir : String) : List String :=
  (inFiles fs dir).filter fun inName => (fs.readToString (Path.join dir inName)).isSome

/-- The expected output of an input file's test case. -/
def expectedOf (fs : FileTree) (dir inName : String) : Option String :=
  fs.readToString (outPath dir inName)

section

variable {ext : Externals} {fs : FileTree} {dir inName problemsDir id : String} {prob : Problem}

/-! ## What a form submits -/

theorem exists?_of_readToString {p s : String} (h : fs.readToString p = some s) :
    fs.exists? p = true := by
  rw [FileTree.readToString, Option.map_eq_some_iff] at h
  obtain ⟨cs, h, -⟩ := h
  rw [Option.bind_eq_some_iff] at h
  obtain ⟨bytes, h, -⟩ := h
  rw [FileTree.read, Option.bind_eq_some_iff] at h
  obtain ⟨loc, hloc, h⟩ := h
  rw [FileTree.exists?, hloc, Option.bind_some]
  rw [FileTree.fileAt] at h
  split at h
  · rename_i h'
    rw [h']
    rfl
  · cases h

/-- A file that does not exist has no contents. -/
theorem expectedOf_eq :
    (if fs.exists? (outPath dir inName) then fs.readToString (outPath dir inName) else none) =
      expectedOf fs dir inName := by
  rw [expectedOf]
  split_ifs with h
  · rfl
  · cases hs : fs.readToString (outPath dir inName) with
    | none => rfl
    | some s => exact absurd (exists?_of_readToString hs) h

/-- The test case of an input file. -/
theorem loaded_faultless (fs : FileTree) (dir inName : String) :
    (FaultyTree.faultless fs).loaded dir inName =
      (fs.readToString (Path.join dir inName)).map fun input =>
        { input := input, expected := expectedOf fs dir inName } := by
  rw [FaultyTree.loaded, if_pos ⟨rfl, rfl⟩, FaultyTree.loadTestcase]
  simp only [FaultyTree.readToString_faultless, FaultyTree.exists?_faultless]
  rw [← expectedOf_eq]
  rfl

/-- The test cases of a problem that loads, from its files. -/
theorem testcases_eq_of_loadOne (h : (loadOne ext fs problemsDir id).result = .ok prob) :
    prob.testcases.map (fun tc => (tc.input, tc.expected)) =
      (caseFiles fs (testcasesDir problemsDir id)).map fun inName =>
        ((fs.readToString (Path.join (testcasesDir problemsDir id) inName)).getD "",
          expectedOf fs (testcasesDir problemsDir id) inName) := by
  rw [← FaultyTree.loadOne_faultless] at h
  rw [(FaultyTree.loadOne_eq_ok h).2.2, caseFiles]
  change ((inFiles fs _).filterMap ((FaultyTree.faultless fs).loaded _)).map _ = _
  generalize testcasesDir problemsDir id = dir
  induction inFiles fs dir with
  | nil => rfl
  | cons inName rest ih =>
    cases hr : fs.readToString (Path.join dir inName) with
    | none =>
      rw [List.filterMap_cons_none (by rw [loaded_faultless, hr]; rfl),
        List.filter_cons_of_neg (by rw [hr]; exact Bool.false_ne_true), ih]
    | some input =>
      rw [List.filterMap_cons_some (by rw [loaded_faultless, hr]; rfl),
        List.filter_cons_of_pos (by rw [hr]; rfl), List.map_cons, List.map_cons, ih, hr]
      rfl

variable {app : AppState} {db : Db} {session : SessionRecord} {now₁ now₂ : Time} {uuid : Uuid}
  {route : SubmitRoute} {task : SubmitTask}

/-- The job of a form has the test cases of its problem's files. -/
theorem testcases_of_check (h : route.check ext app db session now₁ now₂ uuid = .ok task)
    {problemId : String} (hroute : route.formProblem = some problemId) :
    task.job.testcases =
      (caseFiles app.fs (testcasesDir app.problemsDir problemId)).map fun inName =>
        ((app.fs.readToString (Path.join (testcasesDir app.problemsDir problemId) inName)).getD "",
          expectedOf app.fs (testcasesDir app.problemsDir problemId) inName) := by
  cases route with
  | contestProblem contestId problem form =>
    obtain rfl : problem = problemId := Option.some.inj hroute
    obtain ⟨contest, prob, -, -, -, -, hprob, -, rfl⟩ := contestProblemSubmit_ok h
    exact testcases_eq_of_loadOne hprob
  | problem problem form =>
    obtain rfl : problem = problemId := Option.some.inj hroute
    obtain ⟨prob, hprob, -, rfl⟩ := problemsSubmit_ok h
    exact testcases_eq_of_loadOne hprob
  | api req => cases hroute

/-! ## Accepted cases -/

/-- What is kept of a program's output. -/
def ProcRun.kept (p : ProcRun) : List UInt8 := (stream p.stdout).take (16 * 1024 * 1024)

/-- The case at position `i` has an expected output, which its `.out` file
holds and `out` matches. -/
def MatchesExpected (fs : FileTree) (outFile : String) (job : JudgeJob) (i : Nat)
    (out : List UInt8) : Prop :=
  ∃ stdin e, job.testcases[i]? = some (stdin, some e) ∧ fs.readToString outFile = some e ∧
    trim (fromUtf8Lossy out) = trim e

theorem matchesExpected_iff {job : JudgeJob} {outFile stdin : String} {i : Nat}
    {out : List UInt8} (htc : job.testcases[i]? = some (stdin, fs.readToString outFile)) :
    MatchesExpected fs outFile job i out ↔
      ∃ e, fs.readToString outFile = some e ∧ trim (fromUtf8Lossy out) = trim e := by
  constructor
  · rintro ⟨-, e, -, h⟩
    exact ⟨e, h⟩
  · rintro ⟨e, he, h⟩
    exact ⟨stdin, e, by rw [htc, he], he, h⟩

/-- An output that matches what is expected, or is empty where nothing is, has
been expected exactly if it is not empty there. -/
theorem getD_imp_exists_iff {P : Prop} {expected : Option String} {out : String}
    {Q : String → Prop} :
    (P ∧ out = trim (expected.getD "") → ∃ e, expected = some e ∧ Q e) ↔
      (expected = none → P → out ≠ "") ∧ ∀ e, expected = some e → P → out = trim e → Q e := by
  have hblank : trim "" = "" := by decide
  cases expected with
  | none =>
    rw [Option.getD_none, hblank]
    constructor
    · refine fun h => ⟨fun _ hP hout => ?_, fun e he => ?_⟩
      · obtain ⟨e, he, -⟩ := h ⟨hP, hout⟩
        cases he
      · cases he
    · rintro ⟨h, -⟩ ⟨hP, hout⟩
      exact absurd hout (h rfl hP)
  | some e =>
    rw [Option.getD_some]
    constructor
    · refine fun h => ⟨fun he => ?_, fun e' he hP hout => ?_⟩
      · cases he
      · cases he
        obtain ⟨e', he, hQ⟩ := h ⟨hP, hout⟩
        cases he
        exact hQ
    · rintro ⟨-, h⟩ ⟨hP, hout⟩
      exact ⟨e, rfl, h e rfl hP hout⟩

end

/-- In an exact job of a form, a case is accepted only if its `.out` file was
loaded and matches, in exactly those runs in which a case without one does not
end well with a blank output. For the output before it is cut, what is cut off
must be blank as well. -/
theorem ac_has_expected_iff (ext : Externals) (app : AppState) (db : Db) (session : SessionRecord)
    (now₁ now₂ : Time) (uuid : Uuid) (route : SubmitRoute) (problemId inName : String)
    (task : SubmitTask) (env : JudgeEnv) (i : Nat) (p : ProcRun)
    (hcheck : route.check ext app db session now₁ now₂ uuid = .ok task)
    (hroute : route.formProblem = some problemId) (hexact : task.job.judgeType = .exact)
    (hname : (caseFiles app.fs (testcasesDir app.problemsDir problemId))[i]? = some inName)
    (hp : (env.runs i).run = .ok p) :
    let outFile := outPath (testcasesDir app.problemsDir problemId) inName
    let ac := (judgeFinal ext task.job env).val.verdictAt i = some "AC"
    let endsWell := env.Completes task.job ∧ p.status task.job = .ok
    let notBlank := app.fs.readToString outFile = none → endsWell →
      trim (fromUtf8Lossy p.kept) ≠ ""
    ((ac → MatchesExpected app.fs outFile task.job i p.kept) ↔ notBlank) ∧
      ((ac → MatchesExpected app.fs outFile task.job i (stream p.stdout)) ↔
        notBlank ∧ ∀ e, app.fs.readToString outFile = some e → endsWell →
          trim (fromUtf8Lossy p.kept) = trim e →
          TailBlank (16 * 1024 * 1024) (stream p.stdout)) := by
  intro outFile ac endsWell notBlank
  obtain ⟨stdin, htc⟩ : ∃ stdin, task.job.testcases[i]? =
      some (stdin, app.fs.readToString outFile) := by
    rw [testcases_of_check hcheck hroute, List.getElem?_map, hname]
    exact ⟨_, rfl⟩
  have hac : ac ↔ endsWell ∧ trim (fromUtf8Lossy p.kept) =
      trim ((app.fs.readToString outFile).getD "") := by
    rw [and_assoc]
    exact verdictAt_ac_iff ext hexact env htc hp
  rw [hac, matchesExpected_iff htc, matchesExpected_iff htc, getD_imp_exists_iff,
    getD_imp_exists_iff]
  refine ⟨and_iff_left fun e _ _ h => h, and_congr_right fun _ => ?_⟩
  refine forall_congr' fun e => imp_congr_right fun _ => imp_congr_right fun _ =>
    imp_congr_right fun h => ?_
  rw [← trim_take_eq_iff, ← ProcRun.kept, h]

/-! ### A case with and without its `.out` file -/

/-- The problem `a` with one case. -/
def oneCaseProblem (expected : Option String) : Problem where
  id := "a"
  title := "A"
  timeLimitMs := 2000
  memoryLimitKb := 262144
  score := 100
  htmlContent := ""
  testcases := [⟨"", expected⟩]
  scorerPath := none

/-- A submission to it outside of contests. -/
def oneCaseRoute : SubmitRoute := .problem "a" { language := "cpp", sourceCode := "" }

def oneCaseTask (expected : Option String) : SubmitTask :=
  submitTask ((oneCaseProblem expected).job 1 "" .cpp .exact none) (some 1) none "a" none
    (.redirect ("/submissions/" ++ Uuid.toString 1))

theorem check_oneCaseRoute {fs : FileTree} {expected : Option String}
    (h : (loadOne .titled fs "problems" "a").result = .ok (oneCaseProblem expected)) :
    oneCaseRoute.check .titled { AppState.empty with fs := fs } ⟨[], [], [], []⟩
      { SessionRecord.empty with userId := some 1 } 0 0 1 = .ok (oneCaseTask expected) := by
  rw [oneCaseRoute, SubmitRoute.check, problemsSubmit, if_neg (by decide)]
  dsimp only [AppState.empty]
  rw [h]
  rfl

theorem ac_has_expected_one :
    (judgeFinal .titled (oneCaseTask (some "1")).job (envOf (printing [.byte 49]))).val.verdictAt 0 =
      some "AC" ∧
    MatchesExpected (FaultyTree.caseTree [(⟨"1.out", by decide⟩, .file [49])])
      "problems/a/testcases/1.out" (oneCaseTask (some "1")).job 0 [49] := by
  have hac : (judgeFinal .titled (oneCaseTask (some "1")).job
      (envOf (printing [.byte 49]))).val.verdictAt 0 = some "AC" := by decide
  have h := ac_has_expected_iff .titled
    { AppState.empty with fs := FaultyTree.caseTree [(⟨"1.out", by decide⟩, .file [49])] } ⟨[], [], [], []⟩
    { SessionRecord.empty with userId := some 1 } 0 0 1 oneCaseRoute "a" "1.in"
    (oneCaseTask (some "1")) (envOf (printing [.byte 49])) 0 (printing [.byte 49])
    (check_oneCaseRoute (by decide)) rfl rfl (by decide) rfl
  refine ⟨hac, h.1.mpr (fun hnone => ?_) hac⟩
  exact absurd hnone (by decide)

/-- Without the `.out` file, a program that writes nothing is accepted. -/
theorem ac_has_expected_fails :
    oneCaseRoute.check .titled { AppState.empty with fs := FaultyTree.caseTree [] } ⟨[], [], [], []⟩
      { SessionRecord.empty with userId := some 1 } 0 0 1 = .ok (oneCaseTask none) ∧
    (judgeFinal .titled (oneCaseTask none).job (envOf (printing []))).val.verdictAt 0 = some "AC" ∧
    ¬ MatchesExpected (FaultyTree.caseTree []) "problems/a/testcases/1.out" (oneCaseTask none).job 0 [] := by
  refine ⟨check_oneCaseRoute (by decide), by decide, ?_⟩
  rintro ⟨stdin, e, htc, -⟩
  cases htc

end MikanJudge

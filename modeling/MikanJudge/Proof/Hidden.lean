import MikanJudge.Model.Server
import MikanJudge.Proof.Statement

/-!
# Problems of contests that have not started

A problem all of whose contests are upcoming should be hidden: no answer
depends on its statement, and no job runs its test cases. The pages and the
submit route of a contest ask for its phase, those without a contest do not.
`concealed_iff` says for each request to any route whether it conceals the
problem.
-/

namespace MikanJudge

open MikanJudge.Lib

/-! ## What a request reveals -/

/-- The result is the same for every two texts at a location. -/
def AppState.Independent {β : Type} (app : AppState) (loc : List String) (f : AppState → β) :
    Prop :=
  ∀ bytes bytes', (Utf8.decodeStrict bytes).isSome = true → (Utf8.decodeStrict bytes').isSome = true →
    f (app.withStatement loc bytes) = f (app.withStatement loc bytes')

/-- A problem is in a contest, and all its contests are upcoming. -/
structure Db.Hidden (db : Db) (clock : Nat → Time) (id : String) : Prop where
  listed : ∃ cp ∈ db.contestProblems, cp.problemId = id
  upcoming : ∀ cp ∈ db.contestProblems, cp.problemId = id →
    ∀ contest, db.getContest cp.contestId = .ok (some contest) →
      ∀ k, contest.status (clock k) = .upcoming

/-- The problem in the path of a submit request. -/
def Route.problemId : Route → Option String
  | submit (.contestProblem _ problemId _) => some problemId
  | submit (.problem problemId _) => some problemId
  | _ => none

section

variable (ext : Externals) (app : AppState) (db : Db) (visit : Visit) (id : String)

/-- The request enqueues a job that runs the test cases in the directory of a
problem. -/
def Route.RunsCases (route : Route) : Prop :=
  (route.job ext app db visit).isSome = true ∧
    ∃ problemId, route.problemId = some problemId ∧ app.casesLoc problemId = app.casesLoc id

def AppState.loads (problemId : String) : Bool :=
  (loadOne ext app.fs app.problemsDir problemId).result.isOk

/-- The contest exists and has started at the first reading of the clock. -/
def Db.started (contestId : String) : Prop :=
  ∃ contest, db.getContest contestId = .ok (some contest) ∧
    contest.status (visit.clock 0) ≠ .upcoming

/-- The database takes a submission of the visitor. -/
def Db.takes (problemId sourceCode : String) : Bool :=
  textOk problemId && textOk sourceCode && !db.submissions.any (·.id == visit.id) &&
    visit.session.userId.all fun u => db.users.any (·.id == u)

/-- A request for the page of a problem whose statement this is: any without a
contest, and in a contest that has started one for a listed problem under
another spelling of the id. -/
def Route.ShowsStatement : Route → Prop
  | problemsDetail problemId =>
    app.loads ext problemId = true ∧ app.statementLoc problemId = app.statementLoc id
  | contestProblemDetail contestId problemId _ =>
    problemId ≠ id ∧ db.started visit contestId ∧
      (∃ cp ∈ db.problemsForContest contestId, cp.problemId = problemId) ∧
      app.loads ext problemId = true ∧ app.statementLoc problemId = app.statementLoc id
  | _ => False

/-- What the submit handlers ask of a form for a problem. -/
def SubmitRoute.Passes : SubmitRoute → Prop
  | contestProblem contestId problemId form =>
    visit.session.userId ≠ none ∧ (∃ contest, db.getContest contestId = .ok (some contest) ∧
      contest.status (visit.clock 0) ≠ .upcoming ∧
      checkSubmitCooldown visit.session contest.cooldown.1 contest.cooldown.2 (visit.clock 1) ≤ 0) ∧
    sourceCodeTooLarge form.sourceCode = false ∧ app.loads ext problemId = true ∧
    db.takes visit problemId form.sourceCode = true
  | problem problemId form =>
    visit.session.userId ≠ none ∧ app.loads ext problemId = true ∧
      db.takes visit problemId form.sourceCode = true
  | api _ => False

/-- A request that submits to a problem with these test cases, and passes. -/
def Route.SubmitsTo : Route → Prop
  | submit route => route.Passes ext app db visit ∧
    ∃ problemId, Route.problemId (.submit route) = some problemId ∧
      app.casesLoc problemId = app.casesLoc id
  | _ => False

end

section

variable {ext : Externals} {app : AppState} {db : Db} {visit : Visit} {loc : List String} {id : String}

/-! ### Submitting -/

theorem isOk_of_ok {ε α : Type} {e : Except ε α} {a : α} (h : e = .ok a) : e.isOk = true := by
  rw [h]; rfl

theorem ok_of_isOk {ε α : Type} {e : Except ε α} (h : e.isOk = true) : ∃ a, e = .ok a := by
  cases e with
  | error e => cases h
  | ok a => exact ⟨a, rfl⟩

/-- The insert succeeds if the contest exists and the database takes the rest. -/
theorem insertSubmission_isOk {sub : Submission} {now : Time} (hid : sub.id = visit.id)
    (hu : sub.userId = visit.session.userId)
    (hc : ∀ c, sub.contestId = some c → ∃ contest, db.getContest c = .ok (some contest)) :
    (db.insertSubmission sub now).isOk = db.takes visit sub.problemId sub.sourceCode := by
  have hct : optTextOk sub.contestId = true ∧
      (sub.contestId.all fun c => db.contests.any (·.id == c)) = true := by
    cases h : sub.contestId with
    | none => exact ⟨rfl, rfl⟩
    | some c =>
      obtain ⟨contest, hget⟩ := hc c h
      rw [Db.getContest] at hget
      split_ifs at hget with ht
      obtain ⟨row, hrow, -⟩ := Option.map_eq_some_iff.mp (Except.ok.inj hget)
      have hname := List.find?_some hrow
      refine ⟨by simpa [optTextOk] using ht, ?_⟩
      exact List.any_eq_true.mpr ⟨row, List.mem_of_find?_eq_some hrow, hname⟩
  rw [Db.insertSubmission, Db.takes, hct.1, hct.2, hid, hu]
  cases textOk sub.problemId <;> cases textOk sub.sourceCode <;>
    cases db.submissions.any (·.id == visit.id) <;>
    cases (visit.session.userId.all fun u => db.users.any (·.id == u)) <;> rfl

/-- A request enqueues a job if it passes its check and the row is inserted. -/
theorem job_isSome_of_check {route : SubmitRoute} {task : SubmitTask}
    (ht : route.check ext app db visit.session (visit.clock 0) (visit.clock 1) visit.id = .ok task) :
    (Route.job ext app db visit (.submit route)).isSome =
      (db.insertSubmission task.sub (visit.clock 2)).isOk := by
  rw [Route.job, SubmitRoute.handle, ht]
  dsimp only
  cases db.insertSubmission task.sub (visit.clock 2) <;> rfl

theorem check_of_job {route : SubmitRoute}
    (h : (Route.job ext app db visit (.submit route)).isSome = true) :
    ∃ task, route.check ext app db visit.session (visit.clock 0) (visit.clock 1) visit.id =
      .ok task := by
  rw [Route.job, SubmitRoute.handle] at h
  split at h
  · cases h
  · exact ⟨_, ‹_›⟩

/-- A form for a problem is enqueued exactly if it passes. -/
theorem job_isSome_iff {route : SubmitRoute} {problemId : String}
    (h : Route.problemId (.submit route) = some problemId) :
    (Route.job ext app db visit (.submit route)).isSome = true ↔ route.Passes ext app db visit := by
  cases route with
  | contestProblem contestId problemId form =>
    constructor
    · intro hj
      obtain ⟨task, ht⟩ := check_of_job hj
      rw [job_isSome_of_check ht] at hj
      obtain ⟨contest, prob, hget, hst, hsize, hcd, hp, hu, rfl⟩ := contestProblemSubmit_ok ht
      refine ⟨hu, ⟨contest, hget, hst, hcd⟩, hsize, isOk_of_ok hp, ?_⟩
      rwa [insertSubmission_isOk rfl rfl fun c hc => ⟨contest, Option.some.inj hc ▸ hget⟩] at hj
    · rintro ⟨hu, ⟨contest, hget, hst, hcd⟩, hsize, hl, htakes⟩
      obtain ⟨prob, hp⟩ := ok_of_isOk hl
      have ht : (SubmitRoute.contestProblem contestId problemId form).check ext app db visit.session
          (visit.clock 0) (visit.clock 1) visit.id = .ok (submitTask
            (prob.job visit.id form.sourceCode (Language.fromDb form.language) contest.judgeType
              prob.scorerPath)
            visit.session.userId (some contestId) problemId (some contest.cooldown.1)
            (.redirectTo ("/contests/" ++ contestId ++ "/submissions/" ++ visit.id.toString))) := by
        simp only [SubmitRoute.check, contestProblemSubmit, hu, hget, hst, hsize, hp, if_false,
          not_lt.mpr hcd, Bool.false_eq_true]
      rw [job_isSome_of_check ht,
        insertSubmission_isOk rfl rfl fun c hc => ⟨contest, Option.some.inj hc ▸ hget⟩]
      exact htakes
  | problem problemId form =>
    have hnone : ∀ c, (none : Option String) = some c →
        ∃ contest, db.getContest c = .ok (some contest) := fun c h => by cases h
    constructor
    · intro hj
      obtain ⟨task, ht⟩ := check_of_job hj
      rw [job_isSome_of_check ht] at hj
      obtain ⟨prob, hp, hu, rfl⟩ := problemsSubmit_ok ht
      refine ⟨hu, isOk_of_ok hp, ?_⟩
      rwa [insertSubmission_isOk rfl rfl hnone] at hj
    · rintro ⟨hu, hl, htakes⟩
      obtain ⟨prob, hp⟩ := ok_of_isOk hl
      have ht : (SubmitRoute.problem problemId form).check ext app db visit.session
          (visit.clock 0) (visit.clock 1) visit.id = .ok (submitTask
            (prob.job visit.id form.sourceCode (Language.fromDb form.language) .exact none)
            visit.session.userId none problemId none
            (.redirect ("/submissions/" ++ visit.id.toString))) := by
        simp only [SubmitRoute.check, problemsSubmit, hu, hp, if_false]
      rw [job_isSome_of_check ht, insertSubmission_isOk rfl rfl hnone]
      exact htakes
  | api req => cases h

theorem runsCases_iff (route : Route) :
    route.RunsCases ext app db visit id ↔ route.SubmitsTo ext app db visit id := by
  cases route with
  | submit route =>
    rw [Route.RunsCases, Route.SubmitsTo]
    exact and_congr_left fun ⟨_, hq, _⟩ => job_isSome_iff hq
  | _ => exact iff_of_false (fun h => Bool.false_ne_true h.1) fun h => h

/-! ### The test cases of a job -/

/-- The test cases in a directory, however its path is spelled. -/
theorem loadTestcases_congr {fs : FileTree} {dir dir' : String} (h : fs.resolve dir = some loc)
    (h' : fs.resolve dir' = some loc) :
    (loadTestcases fs dir).result = (loadTestcases fs dir').result := by
  have hread : ∀ {name : String}, plainName name = true →
      fs.readToString (Path.join dir name) = fs.readToString (Path.join dir' name) ∧
        fs.exists? (Path.join dir name) = fs.exists? (Path.join dir' name) := by
    intro name hn
    have hr := FileTree.resolve_join_congr hn h h'
    constructor
    · rw [FileTree.readToString, FileTree.read, hr, FileTree.readToString, FileTree.read]
    · rw [FileTree.exists?, hr, FileTree.exists?]
  have hcase : ∀ name : Lib.Name,
      (loadTestcase fs dir name.val).result = (loadTestcase fs dir' name.val).result := by
    intro name
    have hout := Path.plainName_withExtension name.property (by decide : plainName "out" = true)
      (by decide)
    unfold loadTestcase
    dsimp only
    rw [(hread name.property).1, (hread hout).1, (hread hout).2]
    cases fs.readToString (Path.join dir' name.val) with
    | none => rfl
    | some input => dsimp only; split_ifs <;> rfl
  have hdir : fs.readDir dir = fs.readDir dir' := by rw [FileTree.readDir, FileTree.readDir, h, h']
  unfold loadTestcases
  rw [hdir]
  cases fs.readDir dir' with
  | none => rfl
  | some entries =>
    dsimp only
    rw [List.filterMap_map, List.filterMap_map]
    refine congrArg Except.ok (List.filterMap_congr fun n hn => ?_)
    simp only [List.mem_insertionSort, List.mem_filter, List.mem_map] at hn
    obtain ⟨⟨name, -, rfl⟩, -⟩ := hn
    rw [Function.comp_apply, Function.comp_apply, hcase]

theorem testcases_of_loadOne {prob : Problem}
    (h : (loadOne ext app.fs app.problemsDir id).result = .ok prob) :
    (loadTestcases app.fs (Path.join (app.dirOf id) "testcases")).result = .ok prob.testcases ∧
      (app.casesLoc id).isSome = true := by
  have hsome : ∀ {tcs}, (loadTestcases app.fs (Path.join (app.dirOf id) "testcases")).result =
      .ok tcs → tcs ≠ [] → (app.casesLoc id).isSome = true := by
    intro tcs htcs hne
    rw [loadTestcases, FileTree.readDir, ← AppState.casesLoc] at htcs
    cases hloc : app.casesLoc id with
    | none =>
      rw [hloc] at htcs
      exact absurd (Except.ok.inj htcs).symm hne
    | some l => rfl
  unfold loadOne at h
  dsimp only at h
  split at h
  · cases h
  · split at h
    · cases h
    · split at h
      · cases h
      · split at h
        · cases h
        · cases h
        · rename_i htcs
          cases h
          exact ⟨htcs, hsome htcs (List.cons_ne_nil _ _)⟩

/-- A job that runs the test cases of a problem has those that `load_one`
finds. -/
theorem testcases_of_runsCases {route : Route} {prob : Problem}
    (hp : (loadOne ext app.fs app.problemsDir id).result = .ok prob)
    (h : route.RunsCases ext app db visit id) :
    ∃ job, route.job ext app db visit = some job ∧
      job.testcases = prob.testcases.map fun tc => (tc.input, tc.expected) := by
  obtain ⟨hj, q, hq, hloc⟩ := h
  obtain ⟨htcs, hsome⟩ := testcases_of_loadOne hp
  obtain ⟨l, hl⟩ := Option.isSome_iff_exists.mp hsome
  have hsame : ∀ {prob' : Problem}, (loadOne ext app.fs app.problemsDir q).result = .ok prob' →
      prob'.testcases = prob.testcases := by
    intro prob' hp'
    have e := loadTestcases_congr (hloc.trans hl) hl
    rw [(testcases_of_loadOne hp').1, htcs] at e
    exact Except.ok.inj e
  cases route with
  | submit route =>
    obtain ⟨task, ht⟩ := check_of_job hj
    have hjob : Route.job ext app db visit (.submit route) = some task.job := by
      rw [job_isSome_of_check ht] at hj
      obtain ⟨db', hi⟩ := ok_of_isOk hj
      rw [Route.job, SubmitRoute.handle, ht]
      dsimp only
      rw [hi]
    refine ⟨task.job, hjob, ?_⟩
    cases route with
    | contestProblem contestId problemId form =>
      cases hq
      obtain ⟨contest, prob', -, -, -, -, hp', -, rfl⟩ := contestProblemSubmit_ok ht
      exact congrArg (List.map _) (hsame hp')
    | problem problemId form =>
      cases hq
      obtain ⟨prob', hp', -, rfl⟩ := problemsSubmit_ok ht
      exact congrArg (List.map _) (hsame hp')
    | api req => cases hq
  | _ => cases hj

/-! ### Showing the statement -/

/-- A problem that does not load, or has another statement, loads as before. -/
theorem loadOne_withStatement_of_not (hs : app.StatementAt loc) {bytes : List UInt8} {cs : List Char}
    (hb : Utf8.decodeStrict bytes = some cs)
    (h : ¬ (app.loads ext id = true ∧ app.statementLoc id = some loc)) :
    (loadOne ext (app.withStatement loc bytes).fs app.problemsDir id).result =
      (loadOne ext app.fs app.problemsDir id).result := by
  rw [loadOne_withStatement hs hb]
  cases hp : (loadOne ext app.fs app.problemsDir id).result with
  | error e => rfl
  | ok prob =>
    have hloc : app.statementLoc prob.id ≠ some loc := fun e =>
      h ⟨isOk_of_ok hp, id_of_loadOne hp ▸ e⟩
    rw [Except.map, AppState.reword, if_neg hloc]

/-- A page that is the same for every text of the statement as for this one. -/
theorem AppState.Independent.of_eq {β : Type} {f : AppState → β}
    (h : ∀ bytes cs, Utf8.decodeStrict bytes = some cs → f (app.withStatement loc bytes) = f app) :
    app.Independent loc f := by
  intro bytes bytes' hb hb'
  obtain ⟨cs, hb⟩ := Option.isSome_iff_exists.mp hb
  obtain ⟨cs', hb'⟩ := Option.isSome_iff_exists.mp hb'
  rw [h bytes cs hb, h bytes' cs' hb']

/-- The HTML of the problem a page shows. -/
def Response.htmlContent (r : Response) : Option Json :=
  (r.field "problem").bind fun j =>
    match j with
    | .obj fields => fields.lookup "html_content"
    | _ => none

/-- A page that shows the HTML of a text depends on it. -/
theorem not_independent_of_htmlContent {f : AppState → Option Response}
    (hmd : ext.markdownToHtml "a" ≠ ext.markdownToHtml "b")
    (h : ∀ bytes cs, Utf8.decodeStrict bytes = some cs →
      (f (app.withStatement loc bytes)).bind Response.htmlContent =
        some (.str (ext.markdownToHtml (String.ofList cs)))) :
    ¬ app.Independent loc f := by
  intro hi
  have ha : Utf8.decodeStrict [97] = some ['a'] := by decide
  have hb : Utf8.decodeStrict [98] = some ['b'] := by decide
  have e := congrArg (Option.bind · Response.htmlContent)
    (hi [97] [98] (by rw [ha]; rfl) (by rw [hb]; rfl))
  rw [h _ _ ha, h _ _ hb] at e
  exact hmd (Json.str.inj (Option.some.inj e))

theorem htmlContent_of_lookup {prob : Problem} {ctx : Ctx} (template : String)
    (h : ctx.lookup "problem" = some prob.toJson) :
    (Response.html template ctx).htmlContent = some (.str prob.htmlContent) := by
  rw [Response.htmlContent, Response.field, h]
  rfl

/-- A problem that loads has the HTML of its statement. -/
theorem loadOne_withStatement_of_loads (hs : app.StatementAt loc) (hl : app.loads ext id = true)
    (hloc : app.statementLoc id = some loc) {bytes : List UInt8} {cs : List Char}
    (hb : Utf8.decodeStrict bytes = some cs) :
    ∃ prob, (loadOne ext (app.withStatement loc bytes).fs app.problemsDir id).result = .ok prob ∧
      prob.htmlContent = ext.markdownToHtml (String.ofList cs) := by
  obtain ⟨prob, hp⟩ := ok_of_isOk hl
  have hloc' : app.statementLoc prob.id = some loc := by rw [id_of_loadOne hp, hloc]
  refine ⟨_, by rw [loadOne_withStatement hs hb, hp]; rfl, ?_⟩
  rw [AppState.reword, if_pos hloc']

theorem htmlContent_problemsDetail (hs : app.StatementAt loc) (hl : app.loads ext id = true)
    (hloc : app.statementLoc id = some loc) {bytes : List UInt8} {cs : List Char}
    (hb : Utf8.decodeStrict bytes = some cs) (session : SessionRecord) :
    (problemsDetail ext (app.withStatement loc bytes) db session id).htmlContent =
      some (.str (ext.markdownToHtml (String.ofList cs))) := by
  obtain ⟨prob, hp, hh⟩ := loadOne_withStatement_of_loads hs hl hloc hb
  unfold problemsDetail
  rw [withStatement_problemsDir, hp]
  dsimp only
  rw [← hh]
  exact htmlContent_of_lookup _ rfl

/-- The page of a problem, where it does not show the statement. -/
theorem problemsDetail_withStatement (hs : app.StatementAt loc) {bytes : List UInt8}
    {cs : List Char} (hb : Utf8.decodeStrict bytes = some cs)
    (h : ¬ (app.loads ext id = true ∧ app.statementLoc id = some loc)) (session : SessionRecord) :
    problemsDetail ext (app.withStatement loc bytes) db session id =
      problemsDetail ext app db session id := by
  unfold problemsDetail
  rw [withStatement_problemsDir, loadOne_withStatement_of_not hs hb h, withStatement_langVersions]

theorem htmlContent_contestProblemDetail (hs : app.StatementAt loc) (hl : app.loads ext id = true)
    (hloc : app.statementLoc id = some loc) {contestId : String}
    (hstarted : db.started visit contestId)
    (hlisted : ∃ cp ∈ db.problemsForContest contestId, cp.problemId = id)
    {bytes : List UInt8} {cs : List Char} (hb : Utf8.decodeStrict bytes = some cs)
    (cooldownRemainingMs : Option Int) :
    (contestProblemDetail ext (app.withStatement loc bytes) db visit.session (visit.clock 0)
      contestId id cooldownRemainingMs).htmlContent =
        some (.str (ext.markdownToHtml (String.ofList cs))) := by
  obtain ⟨prob, hp, hh⟩ := loadOne_withStatement_of_loads hs hl hloc hb
  obtain ⟨contest, hget, hst⟩ := hstarted
  have hfind : ((db.problemsForContest contestId).find? (·.problemId == id)).isSome = true := by
    obtain ⟨cp, hcp, e⟩ := hlisted
    exact List.find?_isSome.mpr ⟨cp, hcp, beq_iff_eq.mpr e⟩
  obtain ⟨cp, hcp⟩ := Option.isSome_iff_exists.mp hfind
  unfold contestProblemDetail withContest
  rw [hget]
  dsimp only
  rw [if_neg hst, hcp]
  dsimp only
  rw [withStatement_problemsDir, hp]
  dsimp only
  rw [← hh]
  exact htmlContent_of_lookup _ rfl

/-- The page of a problem in a contest, where it does not show the statement. -/
theorem contestProblemDetail_withStatement (hs : app.StatementAt loc) {bytes : List UInt8}
    {cs : List Char} (hb : Utf8.decodeStrict bytes = some cs) {contestId : String}
    (h : ¬ (db.started visit contestId ∧
      (∃ cp ∈ db.problemsForContest contestId, cp.problemId = id) ∧
      app.loads ext id = true ∧ app.statementLoc id = some loc)) (cooldownRemainingMs : Option Int) :
    contestProblemDetail ext (app.withStatement loc bytes) db visit.session (visit.clock 0)
      contestId id cooldownRemainingMs =
    contestProblemDetail ext app db visit.session (visit.clock 0) contestId id
      cooldownRemainingMs := by
  unfold contestProblemDetail withContest
  rcases hget : db.getContest contestId with e | _ | contest
  · rfl
  · rfl
  · dsimp only
    split_ifs with hst
    · rfl
    · cases hcp : (db.problemsForContest contestId).find? (·.problemId == id) with
      | none => rfl
      | some cp =>
        have hname := List.find?_some hcp
        have hlisted : ∃ cp ∈ db.problemsForContest contestId, cp.problemId = id :=
          ⟨cp, List.mem_of_find?_eq_some hcp, beq_iff_eq.mp hname⟩
        dsimp only
        rw [withStatement_problemsDir, loadOne_withStatement_of_not hs hb fun hl =>
          h ⟨⟨contest, hget, hst⟩, hlisted, hl⟩, withStatement_langVersions]

theorem mem_problemsForContest {contestId : String} {cp : ContestProblem}
    (h : cp ∈ db.problemsForContest contestId) :
    ∃ r ∈ db.contestProblems, r.contestId = contestId ∧ r.problemId = cp.problemId := by
  simp only [Db.problemsForContest, List.mem_map, List.mem_insertionSort, List.mem_filter,
    beq_iff_eq] at h
  obtain ⟨r, ⟨hr, hc⟩, rfl⟩ := h
  exact ⟨r, hr, hc, rfl⟩

/-- A hidden problem is in no contest that has started. -/
theorem ne_of_hidden (hidden : db.Hidden visit.clock id) {contestId problemId : String}
    (hstarted : db.started visit contestId)
    (hlisted : ∃ cp ∈ db.problemsForContest contestId, cp.problemId = problemId) :
    problemId ≠ id := by
  rintro rfl
  obtain ⟨cp, hcp, e⟩ := hlisted
  obtain ⟨r, hr, rfl, er⟩ := mem_problemsForContest hcp
  obtain ⟨contest, hget, hst⟩ := hstarted
  exact hst (hidden.upcoming r hr (er.trans e) contest hget 0)

/-- The answer to a request is the same for every text of the statement,
exactly if the request does not show it. -/
theorem independent_respond_iff (hmd : ext.markdownToHtml "a" ≠ ext.markdownToHtml "b")
    (hs : app.StatementAt loc) (hloc : app.statementLoc id = some loc)
    (hidden : db.Hidden visit.clock id) (route : Route) :
    app.Independent loc (fun app => route.respond ext app db visit) ↔
      ¬ route.ShowsStatement ext app db visit id := by
  constructor
  · intro hi hshow
    cases route with
    | problemsDetail problemId =>
      obtain ⟨hl, e⟩ := hshow
      refine not_independent_of_htmlContent hmd (fun bytes cs hb => ?_) hi
      exact htmlContent_problemsDetail hs hl (e.trans hloc) hb _
    | contestProblemDetail contestId problemId cooldown =>
      obtain ⟨-, hstarted, hlisted, hl, e⟩ := hshow
      refine not_independent_of_htmlContent hmd (fun bytes cs hb => ?_) hi
      exact htmlContent_contestProblemDetail hs hl (e.trans hloc) hstarted hlisted hb _
    | _ => exact hshow
  · intro hshow
    refine .of_eq fun bytes cs hb => ?_
    cases route with
    | problemsDetail problemId =>
      have hnot : ¬ (app.loads ext problemId = true ∧ app.statementLoc problemId = some loc) :=
        fun ⟨hl, e⟩ => hshow ⟨hl, e.trans hloc.symm⟩
      exact congrArg some (problemsDetail_withStatement hs hb hnot _)
    | contestProblemDetail contestId problemId cooldown =>
      refine congrArg some (contestProblemDetail_withStatement hs hb ?_ _)
      rintro ⟨hstarted, hlisted, hl, e⟩
      exact hshow ⟨ne_of_hidden hidden hstarted hlisted, hstarted, hlisted, hl, e.trans hloc.symm⟩
    | contestProblemsIndex contestId =>
      rw [Route.respond, contestProblemsIndex_withStatement hs hb, Route.respond]
    | contestSubmissionsIndex contestId page =>
      simp only [Route.respond, contestSubmissionsIndex, contestSubmissionItems_withStatement hs hb]
    | contestSubmissionsMy contestId page =>
      simp only [Route.respond, contestSubmissionsMy, contestSubmissionItems_withStatement hs hb]
    | contestSubmissionDetail contestId id =>
      rw [Route.respond, contestSubmissionDetail_withStatement hs hb, Route.respond]
    | contestStandings contestId page =>
      rw [Route.respond, contestStandings_withStatement hs hb, Route.respond]
    | problemsIndex => rw [Route.respond, problemsIndex_withStatement hs hb, Route.respond]
    | submissionsIndex => rw [Route.respond, submissionsIndex_withStatement hs hb, Route.respond]
    | submissionsDetail id => rw [Route.respond, submissionsDetail_withStatement hs hb, Route.respond]
    | submit route =>
      simp only [Route.respond, SubmitRoute.handle, check_withStatement hs hb]
    | languages => simp only [Route.respond, languages, withStatement_langVersions]
    | registerForm | loginForm | account | settings | index | contestsIndex | contestDetail
    | contestSubmissionPoll | submissionsPoll | health | apiGetResult => simp only [Route.respond]

end

/-- For a problem all of whose contests are upcoming: the answer to a request
does not depend on its statement and no job with its test cases is enqueued,
exactly if the request neither shows the statement nor submits to the problem
and passes. -/
theorem concealed_iff (ext : Externals) (hmd : ext.markdownToHtml "a" ≠ ext.markdownToHtml "b")
    (app : AppState) (db : Db) (visit : Visit) (id : String) (hidden : db.Hidden visit.clock id)
    (hread : (app.fs.readToString (Path.join (app.dirOf id) "statement.md")).isSome = true)
    (loc : List String) (hloc : app.statementLoc id = some loc) (route : Route) :
    app.Independent loc (fun app => route.respond ext app db visit) ∧
      ¬ route.RunsCases ext app db visit id ↔
    ¬ route.ShowsStatement ext app db visit id ∧ ¬ route.SubmitsTo ext app db visit id :=
  and_congr (independent_respond_iff hmd (.of_readToString hread hloc) hloc hidden route)
    (not_congr (runsCases_iff route))

/-! ### A problem of an upcoming contest -/

/-- An instance that makes a paragraph of a line. -/
def Externals.paragraphs : Externals :=
  { Externals.titled with
    markdownToHtml := fun s => if s = "" then "" else "<p>" ++ s ++ "</p>\n" }

/-- The problem `a` in a contest from time 100 to time 200. -/
def upcomingDb : Db :=
  { contestDb "a" with
    contests := [{
      id := "c", title := "C", description := "", startTime := 100, endTime := 200
      judgeType := "exact" }] }

/-- A visit of the user at time 10. -/
def earlyVisit : Visit where
  session := { SessionRecord.empty with userId := some 1 }
  clock _ := 10
  id := 7
  users := .inserted
  rows := .table _
  contests := .table _

theorem hidden_upcomingDb : upcomingDb.Hidden earlyVisit.clock "a" where
  listed := ⟨_, List.mem_singleton_self _, rfl⟩
  upcoming := by
    intro cp hcp _ contest hget k
    rw [List.mem_singleton.mp hcp] at hget
    have hall : ∀ c ∈ upcomingDb.contests, c.intoContest.status 10 = .upcoming := by decide
    rw [Db.getContest] at hget
    split_ifs at hget
    obtain ⟨row, hrow, rfl⟩ := Option.map_eq_some_iff.mp (Except.ok.inj hget)
    exact hall row (List.mem_of_find?_eq_some hrow)

theorem concealed_upcomingDb :
    contestConfig.app.Independent ["problems", "a", "statement.md"] (fun app =>
      (Route.contestProblemDetail "c" "a" none).respond .paragraphs app upcomingDb earlyVisit) ∧
    ¬ (Route.contestProblemDetail "c" "a" none).RunsCases .paragraphs contestConfig.app upcomingDb
      earlyVisit "a" :=
  (concealed_iff .paragraphs (by decide : Externals.paragraphs.markdownToHtml "a" ≠
    Externals.paragraphs.markdownToHtml "b") contestConfig.app upcomingDb earlyVisit "a"
    hidden_upcomingDb (by decide +kernel) ["problems", "a", "statement.md"] (by decide +kernel)
    (Route.contestProblemDetail "c" "a" none)).mpr ⟨fun h => h.1 rfl, fun h => h⟩

/-- Before the contest starts, `/problems/a` shows the statement, and a form
posted to `/problems/a/submit` enqueues a job with the test case. -/
theorem concealed_fails :
    ¬ contestConfig.app.Independent ["problems", "a", "statement.md"] (fun app =>
      (Route.problemsDetail "a").respond .paragraphs app upcomingDb earlyVisit) ∧
    (Route.submit (.problem "a" { language := "cpp", sourceCode := "" })).RunsCases .paragraphs
      contestConfig.app upcomingDb earlyVisit "a" ∧
    upcomingDb.Hidden earlyVisit.clock "a" := by
  have hloc : contestConfig.app.statementLoc "a" = some ["problems", "a", "statement.md"] := by
    decide +kernel
  have hs : contestConfig.app.StatementAt ["problems", "a", "statement.md"] :=
    .of_readToString (by decide +kernel) hloc
  refine ⟨?_, ⟨by decide +kernel, "a", rfl, rfl⟩, hidden_upcomingDb⟩
  have hmd : Externals.paragraphs.markdownToHtml "a" ≠ Externals.paragraphs.markdownToHtml "b" := by
    decide
  refine not_independent_of_htmlContent hmd fun bytes cs hb => ?_
  exact htmlContent_problemsDetail hs (by decide +kernel) hloc hb _

end MikanJudge

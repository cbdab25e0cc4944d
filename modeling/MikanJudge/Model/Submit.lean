import MikanJudge.Model.Pages
import MikanJudge.Model.Worker

/-!
# The submit handlers (`api/handlers.rs`)

Each of the three handlers first checks its request; what passes becomes a
`SubmitTask`: the submission to insert, the job to enqueue, the session key to
record the time under, and the answer. The insert, the record and the send
follow in this order, as steps of their own (`Model/Server.lean`).
-/

namespace MikanJudge

/-! ## The cooldown -/

inductive CooldownKey where
  | lastSubmitAt
  | lastHeuristicSubmitAt
  deriving DecidableEq

namespace SessionRecord

def get (r : SessionRecord) : CooldownKey → Option Int
  | .lastSubmitAt => r.lastSubmitAt
  | .lastHeuristicSubmitAt => r.lastHeuristicSubmitAt

def insert (r : SessionRecord) (key : CooldownKey) (ms : Int) : SessionRecord :=
  match key with
  | .lastSubmitAt => { r with lastSubmitAt := some ms }
  | .lastHeuristicSubmitAt => { r with lastHeuristicSubmitAt := some ms }

end SessionRecord

/-- The milliseconds that remain, `0` if there are none. -/
def checkSubmitCooldown (session : SessionRecord) (key : CooldownKey) (cooldownMs : Int)
    (now : Time) : Int :=
  let lastMs := (session.get key).getD 0
  let elapsed := now.millis - lastMs
  if elapsed < cooldownMs then cooldownMs - elapsed else 0

def recordSubmitTime (session : SessionRecord) (key : CooldownKey) (now : Time) : SessionRecord :=
  session.insert key now.millis

/-- The session key of a contest, and how long its cooldown is. -/
def Contest.cooldown (c : Contest) : CooldownKey × Int :=
  if c.judgeType = .heuristic then (.lastHeuristicSubmitAt, 5 * 60 * 1000)
  else (.lastSubmitAt, 5000)

/-! ## What a request comes to -/

/-- A request that passed its checks. -/
structure SubmitTask where
  sub : Submission
  job : JudgeJob
  cooldownKey : Option CooldownKey
  response : Response
  job_id : job.id = sub.id
  pending : sub.status = .pending

/-- The pending submission of a job. -/
def JudgeJob.submission (job : JudgeJob) (userId : Option Uuid) (contestId : Option String)
    (problemId : String) : Submission where
  id := job.id
  userId := userId
  contestId := contestId
  sourceCode := job.sourceCode
  language := job.language
  problemId := problemId
  status := .pending
  timeUsedMs := none
  memoryUsedKb := none
  stdout := none
  stderr := none
  testcaseResults := none
  score := none

def submitTask (job : JudgeJob) (userId : Option Uuid) (contestId : Option String)
    (problemId : String) (cooldownKey : Option CooldownKey) (response : Response) : SubmitTask where
  sub := job.submission userId contestId problemId
  job := job
  cooldownKey := cooldownKey
  response := response
  job_id := rfl
  pending := rfl

/-- The job of a form that submits to a loaded problem. -/
def Problem.job (prob : Problem) (id : Uuid) (sourceCode : String) (language : Language)
    (judgeType : JudgeType) (scorerPath : Option String) : JudgeJob where
  id := id
  sourceCode := sourceCode
  language := language
  testcases := prob.testcases.map fun tc => (tc.input, tc.expected)
  timeLimitMs := prob.timeLimitMs
  memoryLimitKb := prob.memoryLimitKb
  judgeType := judgeType
  scorerPath := scorerPath

structure ProblemSubmitForm where
  language : String
  sourceCode : String

/-! ## The handlers, up to the insert -/

section

variable (ext : Externals) (app : AppState) (db : Db) (session : SessionRecord)

/-- `contest_problem_submit`, with the clock as read for the contest and for
the cooldown. -/
def contestProblemSubmit (now₁ now₂ : Time) (contestId problemId : String)
    (form : ProblemSubmitForm) (id : Uuid) : Except Response SubmitTask :=
  if session.userId = none then .error (.redirect "/login")
  else match db.getContest contestId with
  | .error e => .error (.htmlError (ext.dbErrorText e))
  | .ok none => .error (.htmlError "contest not found")
  | .ok (some contest) =>
    if contest.status now₁ = .upcoming then .error (.redirectTo ("/contests/" ++ contestId))
    else if sourceCodeTooLarge form.sourceCode then .error sourceCodeTooLargeResponse
    else
      let (cooldownKey, cooldownMs) := contest.cooldown
      let remaining := checkSubmitCooldown session cooldownKey cooldownMs now₂
      if remaining > 0 then
        .error (.redirectTo ("/contests/" ++ contestId ++ "/problems/" ++ problemId ++
          "?cooldown_remaining_ms=" ++ toString remaining))
      else match (loadOne ext app.fs app.problemsDir problemId).result with
      | .error _ => .error (.htmlError ("problem '" ++ problemId ++ "' not found"))
      | .ok prob =>
        -- the source checks the size a second time
        if sourceCodeTooLarge form.sourceCode then .error sourceCodeTooLargeResponse
        else .ok (submitTask
          (prob.job id form.sourceCode (Language.fromDb form.language) contest.judgeType
            prob.scorerPath)
          session.userId (some contestId) problemId (some cooldownKey)
          (.redirectTo ("/contests/" ++ contestId ++ "/submissions/" ++ id.toString)))

/-- `problems_submit`: no size limit and no cooldown. -/
def problemsSubmit (problemId : String) (form : ProblemSubmitForm) (id : Uuid) :
    Except Response SubmitTask :=
  if session.userId = none then .error (.redirect "/login")
  else match (loadOne ext app.fs app.problemsDir problemId).result with
  | .error _ => .error (.htmlError ("problem '" ++ problemId ++ "' not found"))
  | .ok prob => .ok (submitTask
      (prob.job id form.sourceCode (Language.fromDb form.language) .exact none)
      session.userId none problemId none (.redirect ("/submissions/" ++ id.toString)))

end

def apiSubmit (req : SubmitRequest) (id : Uuid) : Except Response SubmitTask :=
  if sourceCodeTooLarge req.sourceCode then .error (.text 413 "")
  else .ok (submitTask
    { id := id
      sourceCode := req.sourceCode
      language := req.language
      testcases := [(req.stdin, some req.expectedOutput)]
      timeLimitMs := req.timeLimitMs
      memoryLimitKb := req.memoryLimitKb
      judgeType := .exact
      scorerPath := none }
    none none req.problemId none (.json (.obj [("id", .str id.toString)])))

/-- A request to one of the submit routes. -/
inductive SubmitRoute where
  | contestProblem (contestId problemId : String) (form : ProblemSubmitForm)
  | problem (problemId : String) (form : ProblemSubmitForm)
  | api (req : SubmitRequest)

def SubmitRoute.check (ext : Externals) (app : AppState) (db : Db) (session : SessionRecord)
    (now₁ now₂ : Time) (id : Uuid) : SubmitRoute → Except Response SubmitTask
  | contestProblem contestId problemId form =>
    contestProblemSubmit ext app db session now₁ now₂ contestId problemId form id
  | problem problemId form => problemsSubmit ext app session problemId form id
  | api req => apiSubmit req id

/-- The answer to a failed insert. -/
def SubmitRoute.insertFailed (ext : Externals) (e : DbError) : SubmitRoute → Response
  | api _ => .text 500 ""
  | _ => .htmlError (ext.dbErrorText e)

/-! ## What passes -/

section

variable {ext : Externals} {app : AppState} {db : Db} {session : SessionRecord}
  {now₁ now₂ : Time} {id : Uuid} {task : SubmitTask}

/-- What `contest_problem_submit` lets through: the contest exists and has
started, no cooldown remains, the problem loads. -/
theorem contestProblemSubmit_ok {contestId problemId : String} {form : ProblemSubmitForm}
    (h : contestProblemSubmit ext app db session now₁ now₂ contestId problemId form id = .ok task) :
    ∃ contest prob, db.getContest contestId = .ok (some contest) ∧
      contest.status now₁ ≠ .upcoming ∧ sourceCodeTooLarge form.sourceCode = false ∧
      checkSubmitCooldown session contest.cooldown.1 contest.cooldown.2 now₂ ≤ 0 ∧
      (loadOne ext app.fs app.problemsDir problemId).result = .ok prob ∧
      session.userId ≠ none ∧
      task = submitTask
        (prob.job id form.sourceCode (Language.fromDb form.language) contest.judgeType
          prob.scorerPath)
        session.userId (some contestId) problemId (some contest.cooldown.1)
        (.redirectTo ("/contests/" ++ contestId ++ "/submissions/" ++ id.toString)) := by
  unfold contestProblemSubmit at h
  split at h
  · cases h
  · rename_i hu
    split at h
    · cases h
    · cases h
    · rename_i contest hc
      split at h
      · cases h
      · rename_i hs
        split at h
        · cases h
        · rename_i hl
          dsimp only at h
          split at h
          · cases h
          · rename_i hr
            split at h
            · cases h
            · rename_i prob hp
              cases h
              exact ⟨contest, prob, hc, hs, Bool.eq_false_iff.mpr hl, not_lt.mp hr, hp, hu, rfl⟩

theorem problemsSubmit_ok {problemId : String} {form : ProblemSubmitForm}
    (h : problemsSubmit ext app session problemId form id = .ok task) :
    ∃ prob, (loadOne ext app.fs app.problemsDir problemId).result = .ok prob ∧
      session.userId ≠ none ∧
      task = submitTask (prob.job id form.sourceCode (Language.fromDb form.language) .exact none)
        session.userId none problemId none (.redirect ("/submissions/" ++ id.toString)) := by
  unfold problemsSubmit at h
  split at h
  · cases h
  · rename_i hu
    split at h
    · cases h
    · rename_i prob hp
      cases h
      exact ⟨prob, hp, hu, rfl⟩

theorem apiSubmit_ok {req : SubmitRequest} (h : apiSubmit req id = .ok task) :
    task.sub.id = id ∧ task.sub.userId = none ∧ task.sub.contestId = none ∧
      task.cooldownKey = none := by
  unfold apiSubmit at h
  split_ifs at h
  cases h
  exact ⟨rfl, rfl, rfl, rfl⟩

end

end MikanJudge

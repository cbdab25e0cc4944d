import MikanJudge.Model.Account
import MikanJudge.Model.ContestPages
import MikanJudge.Model.Submit

/-!
# The routes (`api/mod.rs`)

Every route of the router but the static files, and what one request to it
comes to: an answer, and for a submit request the job it enqueues.
-/

namespace MikanJudge

/-- What a request finds apart from the files and the tables: its session, the
clock at each of its readings, the id that `Uuid::new_v4` draws, and the orders
that are left open. -/
structure Visit where
  session : SessionRecord
  clock : Nat → Time
  id : Uuid
  users : HashOrder
  rows : RowOrder SubmissionRow
  contests : RowOrder ContestRow

inductive Route where
  | registerForm
  | loginForm
  | account (route : AccountRoute)
  | settings
  | index
  | languages
  | contestsIndex
  | contestDetail (contestId : String)
  | contestProblemsIndex (contestId : String)
  | contestProblemDetail (contestId problemId : String) (cooldownRemainingMs : Option Int)
  | contestSubmissionsIndex (contestId : String) (page : Option Int)
  | contestSubmissionsMy (contestId : String) (page : Option Int)
  | contestSubmissionDetail (contestId : String) (id : Uuid)
  | contestSubmissionPoll (contestId : String) (id : Uuid)
  | contestStandings (contestId : String) (page : Option Int)
  | problemsIndex
  | problemsDetail (id : String)
  | submissionsIndex
  | submissionsDetail (id : Uuid)
  | submissionsPoll (id : Uuid)
  | health
  | submit (route : SubmitRoute)
  | apiGetResult (id : Uuid)

/-- `register_form` and `login_form`. -/
def authForm (db : Db) (session : SessionRecord) (template : String) : Response :=
  .html template [
    ("current_user", optStrJson (currentUsername db session)),
    ("contest_id", .null),
    ("error", .null)]

def settingsGet (db : Db) (session : SessionRecord) : Response :=
  (withUser db session fun _ user =>
    .refuse db (settingsPage user user.defaultLanguage none false)).response

/-- The answer of a submit request, and the job it sends. -/
def SubmitRoute.handle (ext : Externals) (app : AppState) (db : Db) (visit : Visit)
    (route : SubmitRoute) : Response × Option JudgeJob :=
  match route.check ext app db visit.session (visit.clock 0) (visit.clock 1) visit.id with
  | .error r => (r, none)
  | .ok task =>
    match db.insertSubmission task.sub (visit.clock 2) with
    | .error e => (route.insertFailed ext e, none)
    | .ok _ => (task.response, some task.job)

section

variable (ext : Externals) (app : AppState) (db : Db) (visit : Visit)

/-- The answer to a request. -/
def Route.respond : Route → Option Response
  | registerForm => some (authForm db visit.session "auth/register.html")
  | loginForm => some (authForm db visit.session "auth/login.html")
  | account route => some (route.handle ext db visit.session).response
  | settings => some (settingsGet db visit.session)
  | index => some (MikanJudge.index ext db visit.session visit.contests visit.clock)
  | languages => some (MikanJudge.languages app db visit.session)
  | contestsIndex => some (MikanJudge.contestsIndex ext db visit.session visit.contests visit.clock)
  | contestDetail contestId =>
    some (MikanJudge.contestDetail ext db visit.session (visit.clock 0) contestId)
  | contestProblemsIndex contestId =>
    some (MikanJudge.contestProblemsIndex ext app db visit.session (visit.clock 0) contestId)
  | contestProblemDetail contestId problemId cooldownRemainingMs =>
    some (MikanJudge.contestProblemDetail ext app db visit.session (visit.clock 0) contestId
      problemId cooldownRemainingMs)
  | contestSubmissionsIndex contestId page =>
    some (MikanJudge.contestSubmissionsIndex ext app db visit.session visit.rows (visit.clock 0)
      (visit.clock 1) contestId page)
  | contestSubmissionsMy contestId page =>
    some (MikanJudge.contestSubmissionsMy ext app db visit.session visit.rows (visit.clock 0)
      contestId page)
  | contestSubmissionDetail contestId id =>
    some (MikanJudge.contestSubmissionDetail ext app db visit.session (visit.clock 0)
      (visit.clock 1) contestId id)
  | contestSubmissionPoll contestId id => MikanJudge.contestSubmissionPoll ext db contestId id
  | contestStandings contestId page =>
    some (MikanJudge.contestStandings ext app db visit.users visit.session (visit.clock 0)
      contestId page)
  | problemsIndex => some (MikanJudge.problemsIndex ext app db visit.session)
  | problemsDetail id => some (MikanJudge.problemsDetail ext app db visit.session id)
  | submissionsIndex => some (MikanJudge.submissionsIndex ext app db visit.session)
  | submissionsDetail id => some (MikanJudge.submissionsDetail ext app db visit.session id)
  | submissionsPoll id => MikanJudge.submissionsPoll ext db id
  | health => some (.json (.obj [("status", .str "ok")]))
  | submit route => some (route.handle ext app db visit).1
  | apiGetResult id => some (MikanJudge.apiGetResult ext db id)

/-- The job a request enqueues. -/
def Route.job : Route → Option JudgeJob
  | submit route => (route.handle ext app db visit).2
  | _ => none

end

end MikanJudge

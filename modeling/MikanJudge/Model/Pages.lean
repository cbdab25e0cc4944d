import MikanJudge.Model.Db
import MikanJudge.Model.Problem
import Mathlib.Data.List.DropRight

/-!
# Responses and pages (`api/handlers.rs`)

A page is a template and the context it is rendered with; the templates show
the values of the context. The handlers here only read. Each takes the session
record of the request and, where it asks for the time, the readings of the
clock in the order it makes them.
-/

namespace MikanJudge

open MikanJudge.Lib

abbrev Ctx := List (String × Json)

inductive Response where
  | html (template : String) (ctx : Ctx)
  | redirect (location : String)
  /-- `204` with an `hx-redirect` header. -/
  | hxRedirect (location : String)
  | json (body : Json)
  /-- A status code with a text, empty where there is none. -/
  | text (code : Nat) (body : String)

/-- `HeaderValue::from_str` accepts it: tabs, and no other control characters. -/
def headerValueOk (s : String) : Bool :=
  s.toList.all fun c => c == '\t' || (32 ≤ c.toNat && c.toNat != 127)

/-- `Redirect::to`, of a text that is not fixed: an error where a header cannot hold
it. -/
def Response.redirectTo (location : String) : Response :=
  if headerValueOk location then .redirect location else .text 500 "failed to parse header value"

/-- `HtmlError`. -/
def Response.htmlError (message : String) : Response := .text 500 ("Error: " ++ message)

/-- The value a page is given for a key. -/
def Response.field (key : String) : Response → Option Json
  | .html _ ctx => ctx.lookup key
  | _ => none

/-- `AppState`, with the files it looks at. -/
structure AppState where
  problemsDir : String
  langVersions : LanguageVersions
  fs : FileTree

/-- A server without files. -/
def AppState.empty : AppState where
  problemsDir := "problems"
  langVersions := ⟨"", "", "", "", "", "", ""⟩
  fs := ⟨.dir [], []⟩

/-! ## Sessions -/

/-- The record of a session: who is logged in, and the times of the last
submissions, in milliseconds. -/
structure SessionRecord where
  userId : Option Uuid
  lastSubmitAt : Option Int
  lastHeuristicSubmitAt : Option Int
  deriving DecidableEq

def SessionRecord.empty : SessionRecord := ⟨none, none, none⟩

/-- The name of the user who is logged in. -/
def currentUsername (db : Db) (session : SessionRecord) : Option String :=
  (session.userId.bind db.findUserById).map (·.username)

/-! ## Helpers -/

def optStrJson : Option String → Json := optJson .str

def maxSourceCodeBytes : Nat := 512 * 1024

def sourceCodeTooLarge (sourceCode : String) : Bool := sourceCode.utf8ByteSize > maxSourceCodeBytes

def sourceCodeTooLargeResponse : Response :=
  .text 413 ("提出ソースコードが大きすぎます。上限は " ++ toString (maxSourceCodeBytes / 1024) ++
    " KiB です。")

/-- `timestamp_millis`. -/
def Time.millis (t : Time) : Int := t / 1000

def renderContestLocked (ext : Externals) (db : Db) (session : SessionRecord) (contest : Contest)
    (targetPath : String) : Response :=
  .html "errors/contest_locked.html" [
    ("contest_id", .str contest.id),
    ("contest_title", .str contest.title),
    ("contest_start_time", .str (ext.fmtJst contest.startTime)),
    ("target_path", .str targetPath),
    ("start_time_unix_ms", .int contest.startTime.millis),
    ("current_user", optStrJson (currentUsername db session))]

/-- What a verdict is called, the class of its badge, and whether it is
still to come. -/
def verdictInfo : JudgeStatus → String × String × Bool
  | .pending => ("待機中", "pending", true)
  | .running => ("ジャッジ中...", "running", true)
  | .accepted => ("AC", "ac", false)
  | .wrongAnswer => ("WA", "wa", false)
  | .timeLimitExceeded => ("TLE", "tle", false)
  | .memoryLimitExceeded => ("MLE", "mle", false)
  | .runtimeError _ => ("RE", "re", false)
  | .compileError _ => ("CE", "ce", false)
  | .internalError _ => ("IE", "ce", false)
  | .scored => ("Scored", "ac", false)

/-- The verdicts in a text of either format. -/
def verdictsFromJson (ext : Externals) (jsonStr : String) : Option (List String) :=
  match fromStrVec ext TestcaseVerdict.ofJson jsonStr with
  | some v => some (v.map (·.verdict))
  | none => fromStrVec ext TestcaseVerdict.decodeStr jsonStr

/-- How many of the test cases succeeded, as `AC/N`. -/
def tcSummaryFromJson (ext : Externals) (jsonStr : String) : Option String :=
  (verdictsFromJson ext jsonStr).map fun verdicts =>
    let ac := (verdicts.filter fun s => s == "AC" || s == "SCORED").length
    toString ac ++ "/" ++ toString verdicts.length

/-- A score without the zeros at its end. -/
def formatScore (ext : Externals) (value : F64) : String :=
  String.ofList (((ext.fmtFixed6 value).toList.rdropWhile (· == '0')).rdropWhile (· == '.'))

/-! ## JSON of a submission -/

def JudgeStatus.toJson : JudgeStatus → Json
  | .runtimeError exitCode => .obj [("type", .str "runtime_error"), ("exit_code", .int exitCode)]
  | .compileError message => .obj [("type", .str "compile_error"), ("message", .str message)]
  | .internalError message => .obj [("type", .str "internal_error"), ("message", .str message)]
  | s => .obj [("type", .str s.toDb)]

def resultsJson : Option (List TestcaseVerdict) → Json :=
  optJson fun results => .arr (results.map TestcaseVerdict.toJson)

/-- `#[derive(Serialize)]` of `Submission`. -/
def Submission.toJson (sub : Submission) : Json :=
  .obj [
    ("id", .str sub.id.toString),
    ("user_id", optJson (fun u => .str (Uuid.toString u)) sub.userId),
    ("contest_id", optStrJson sub.contestId),
    ("source_code", .str sub.sourceCode),
    ("language", .str sub.language.toDb),
    ("problem_id", .str sub.problemId),
    ("status", sub.status.toJson),
    ("time_used_ms", optJson natJson sub.timeUsedMs),
    ("memory_used_kb", optJson natJson sub.memoryUsedKb),
    ("stdout", optStrJson sub.stdout),
    ("stderr", optStrJson sub.stderr),
    ("testcase_results", resultsJson sub.testcaseResults),
    ("score", optJson F64.toJson sub.score)]

/-! ## A submission in its contest -/

section

variable (ext : Externals) (app : AppState) (db : Db)

def contestSubmissionDetail (session : SessionRecord) (now₁ now₂ : Time) (contestId : String)
    (id : Uuid) : Response :=
  match db.getContest contestId with
  | .error e => .htmlError (ext.dbErrorText e)
  | .ok none => .htmlError "contest not found"
  | .ok (some contest) =>
    if contest.status now₁ = .upcoming then
      renderContestLocked ext db session contest
        ("/contests/" ++ contestId ++ "/submissions/" ++ id.toString)
    else match db.getSubmission ext id with
    | none => .htmlError "submission not found"
    | some sub =>
      let (verdict, badgeClass, isPending) := verdictInfo sub.status
      let prob := (loadOne ext app.fs app.problemsDir sub.problemId).result.toOption
      let problemTitle := (prob.map (·.title)).getD sub.problemId
      let problemLabel := (((db.problemsForContest contestId).find?
        (·.problemId == sub.problemId)).map (·.label)).getD ""
      let isOwner := sub.userId.any fun uid => some uid == session.userId
      if contest.status now₂ = .ongoing && !isOwner then
        .html "errors/forbidden.html" [
          ("contest_id", .str contestId),
          ("contest_title", .str contest.title),
          ("current_user", optStrJson (currentUsername db session))]
      else
        .html "contests/submissions/detail.html" [
          ("contest_id", .str contestId),
          ("contest_title", .str contest.title),
          ("id", .str sub.id.toString),
          ("problem_id", .str sub.problemId),
          ("problem_title", .str problemTitle),
          ("problem_label", .str problemLabel),
          ("language", .str (sub.language.displayNameVersioned app.langVersions)),
          ("lang_codemirror", .str sub.language.toDb),
          ("source_code", .str sub.sourceCode),
          ("verdict", .str verdict),
          ("badge_class", .str badgeClass),
          ("is_pending", .bool isPending),
          ("time_used_ms", optJson natJson sub.timeUsedMs),
          ("memory_used_kb", optJson natJson sub.memoryUsedKb),
          ("stdout", optStrJson sub.stdout),
          ("stderr", optStrJson sub.stderr),
          ("testcase_results", resultsJson sub.testcaseResults),
          ("problem_score", optJson natJson (prob.map (·.score))),
          ("submission_score", optStrJson (sub.score.map (formatScore ext))),
          ("is_accepted", .bool (sub.status == .accepted)),
          ("is_scored", .bool (sub.status == .scored)),
          ("is_heuristic", .bool (contest.judgeType == .heuristic)),
          ("current_user", optStrJson (currentUsername db session))]

/-! ## The routes without a contest -/

/-- `SubmissionListItem`. -/
def submissionListItem (label title : String) (s : SubmissionListRow) : Json :=
  let (verdict, badgeClass, _) := verdictInfo (JudgeStatus.fromDb s.status)
  .obj [
    ("id", .str s.id.toString),
    ("problem_id", .str s.problemId),
    ("problem_label", .str label),
    ("problem_title", .str title),
    ("username", optStrJson s.username),
    ("language", .str ((Language.fromDb s.language).displayNameVersioned app.langVersions)),
    ("verdict", .str verdict),
    ("badge_class", .str badgeClass),
    ("time_used_ms", optJson natJson (s.timeUsedMs.map toU64)),
    ("memory_used_kb", optJson natJson (s.memoryUsedKb.map toU64)),
    ("tc_summary", optStrJson (s.testcaseResults.bind (tcSummaryFromJson ext))),
    ("score", optStrJson (s.score.map (formatScore ext)))]

def submissionsIndex (session : SessionRecord) : Response :=
  let problems := loadAll ext app.fs app.problemsDir
  let title := fun id => ((problems.find? (·.id == id)).map (·.title)).getD id
  .html "submissions/index.html" [
    ("submissions", .arr ((db.listRecent 50).map fun s =>
      submissionListItem ext app "" (title s.problemId) s)),
    ("contest_id", .null),
    ("current_user", optStrJson (currentUsername db session))]

def submissionsDetail (session : SessionRecord) (id : Uuid) : Response :=
  match db.getSubmission ext id with
  | none => .htmlError "submission not found"
  | some sub =>
    let (verdict, badgeClass, isPending) := verdictInfo sub.status
    let prob := (loadOne ext app.fs app.problemsDir sub.problemId).result.toOption
    let problemTitle := (prob.map (·.title)).getD sub.problemId
    .html "submissions/detail.html" [
      ("contest_id", .null),
      ("id", .str sub.id.toString),
      ("problem_id", .str sub.problemId),
      ("problem_title", .str problemTitle),
      ("language", .str (sub.language.displayNameVersioned app.langVersions)),
      ("lang_codemirror", .str sub.language.toDb),
      ("source_code", .str sub.sourceCode),
      ("verdict", .str verdict),
      ("badge_class", .str badgeClass),
      ("is_pending", .bool isPending),
      ("time_used_ms", optJson natJson sub.timeUsedMs),
      ("memory_used_kb", optJson natJson sub.memoryUsedKb),
      ("stdout", optStrJson sub.stdout),
      ("stderr", optStrJson sub.stderr),
      ("testcase_results", resultsJson sub.testcaseResults),
      ("problem_score", optJson natJson (prob.map (·.score))),
      ("is_accepted", .bool (sub.status == .accepted)),
      ("current_user", optStrJson (currentUsername db session))]

def apiGetResult (id : Uuid) : Response :=
  match db.getSubmission ext id with
  | none => .text 404 ""
  | some sub => .json sub.toJson

end

end MikanJudge

import MikanJudge.Model.Standings

/-!
# The other pages (`api/handlers.rs`, `db/contest.rs`, `db/submission.rs`)

The lists of contests, the problems of a contest and those without one, the
lists of a contest's submissions, and the fragments that are polled. The order
in which the database returns rows that are equal under the `ORDER BY` of a
query is a parameter (`RowOrder`).
-/

namespace MikanJudge

open MikanJudge.Lib

/-- The order in which rows come before they are sorted. -/
structure RowOrder (α : Type) where
  arrange : List α → List α
  perm : ∀ rows, (arrange rows).Perm rows

/-- The order of the table. -/
def RowOrder.table (α : Type) : RowOrder α := ⟨id, fun _ => .refl _⟩

/-- The value a map collected from a list has for a key, or else the key. -/
def collectedGet (entries : List (String × String)) (key : String) : String :=
  (entries.reverse.lookup key).getD key

/-! ## Queries -/

namespace Db

variable (db : Db)

def listAll (order : RowOrder ContestRow) : List Contest :=
  ((order.arrange db.contests).insertionSort fun a b => b.startTime ≤ a.startTime).map
    (·.intoContest)

/-- The submissions of a contest, of one user if one is given. -/
def contestRows (contestId : String) (userId : Option Uuid) : List SubmissionRow :=
  db.submissions.filter fun r =>
    r.contestId == some contestId && userId.all fun u => r.userId == some u

/-- `ORDER BY s.created_at DESC LIMIT .. OFFSET ..`. -/
def latestRows (order : RowOrder SubmissionRow) (rows : List SubmissionRow) (page perPage : Int) :
    List SubmissionListRow :=
  (((order.arrange rows).insertionSort fun a b => b.createdAt ≤ a.createdAt).drop
    ((page - 1) * perPage).toNat |>.take perPage.toNat).map db.listRow

def listForContest (order : RowOrder SubmissionRow) (contestId : String) (page perPage : Int) :
    List SubmissionListRow :=
  db.latestRows order (db.contestRows contestId none) page perPage

def countForContest (contestId : String) : Int := (db.contestRows contestId none).length

def listForContestByUser (order : RowOrder SubmissionRow) (contestId : String) (userId : Uuid)
    (page perPage : Int) : List SubmissionListRow :=
  db.latestRows order (db.contestRows contestId (some userId)) page perPage

def countForContestByUser (contestId : String) (userId : Uuid) : Int :=
  (db.contestRows contestId (some userId)).length

end Db

structure ContestLists where
  ongoing : List Contest
  upcoming : List Contest
  past : List Contest

/-- `list_grouped`, which reads the clock for each contest. -/
def Db.listGrouped (db : Db) (order : RowOrder ContestRow) (clock : Nat → Time) : ContestLists :=
  let all := (db.listAll order).zipIdx
  let group := fun status =>
    (all.filter fun (c, i) => c.status (clock i) = status).map (·.1)
  { ongoing := group .ongoing
    upcoming := (group .upcoming).insertionSort fun a b => a.startTime ≤ b.startTime
    past := group .past }

/-! ## Lists of contests -/

def ContestStatus.label : ContestStatus → String
  | .upcoming => "予定"
  | .ongoing => "開催中"
  | .past => "終了"

def ContestStatus.badgeClass : ContestStatus → String
  | .upcoming => "pending"
  | .ongoing => "ac"
  | .past => "ce"

/-- The labels of the languages in a form. -/
def buildLangLabels (versions : LanguageVersions) : Json :=
  .obj ([Language.cpp, .rust, .python, .pyPy, .java, .go, .text].map fun l =>
    (l.toDb, .str (l.displayNameVersioned versions)))

/-- A `LanguageGuideItem`. -/
def languageGuideItem (name version sourceFile compileCommand runCommand libraries notes : String) :
    Json :=
  .obj [
    ("name", .str name),
    ("version", .str version),
    ("source_file", .str sourceFile),
    ("compile_command", .str compileCommand),
    ("run_command", .str runCommand),
    ("libraries", .str libraries),
    ("notes", .str notes)]

def buildLanguageGuideItems (versions : LanguageVersions) : List Json := [
  languageGuideItem "C++17" ("GCC " ++ versions.cpp) "solution.cpp"
    "g++ solution.cpp -o solution -O2 -std=c++17" "./solution" "標準ライブラリのみ"
    "通常のネイティブ実行です。",
  languageGuideItem "Rust" ("rustc " ++ versions.rust) "solution.rs"
    "rustc solution.rs -o solution -C opt-level=2" "./solution" "標準ライブラリのみ"
    "Cargo は使わず、単一ファイルを rustc で直接コンパイルします。",
  languageGuideItem "Python (CPython)" versions.python "solution.py"
    "python3 -m py_compile solution.py" "python3 solution.py" "標準ライブラリのみ"
    "提出前に構文チェックだけ行います。",
  languageGuideItem "Python (PyPy)" versions.pypy "solution.py"
    "pypy3 -m py_compile solution.py" "pypy3 solution.py" "標準ライブラリのみ"
    "提出前に構文チェックだけ行います。",
  languageGuideItem "Java" ("OpenJDK " ++ versions.java) "Main.java"
    "javac -encoding UTF-8 Main.java" "java -cp <work_dir> Main" "標準ライブラリのみ"
    "クラス名は Main で固定です。",
  languageGuideItem "Go" versions.go "solution.go"
    "go build -o solution solution.go" "./solution" "標準ライブラリのみ"
    "単一ファイルを go build でビルドします。",
  languageGuideItem "Text" ("cat " ++ versions.text) "solution.txt"
    "なし" "cat" "なし"
    "ソースコードは使わず、標準入力をそのまま標準出力に返します。"]

section

variable (ext : Externals) (app : AppState) (db : Db) (session : SessionRecord)

/-- A `ContestItem`. -/
def toContestItem (c : Contest) (now : Time) : Json :=
  .obj [
    ("id", .str c.id),
    ("title", .str c.title),
    ("description", .str c.description),
    ("start_time", .str (ext.fmtJst c.startTime)),
    ("end_time", .str (ext.fmtJst c.endTime)),
    ("status_label", .str (c.status now).label),
    ("status_class", .str (c.status now).badgeClass)]

/-- Items of contests, with the readings of the clock from number `k` on. -/
def contestItems (clock : Nat → Time) (k : Nat) (cs : List Contest) : Json :=
  .arr (cs.zipIdx.map fun (c, i) => toContestItem ext c (clock (k + i)))

def index (order : RowOrder ContestRow) (clock : Nat → Time) : Response :=
  let lists := db.listGrouped order clock
  .html "index.html" [
    ("ongoing", contestItems ext clock db.contests.length lists.ongoing),
    ("current_user", optStrJson (currentUsername db session)),
    ("contest_id", .null)]

def contestsIndex (order : RowOrder ContestRow) (clock : Nat → Time) : Response :=
  let lists := db.listGrouped order clock
  let k := db.contests.length
  .html "contests/list.html" [
    ("ongoing", contestItems ext clock k lists.ongoing),
    ("upcoming", contestItems ext clock (k + lists.ongoing.length) lists.upcoming),
    ("past", contestItems ext clock (k + lists.ongoing.length + lists.upcoming.length) lists.past),
    ("current_user", optStrJson (currentUsername db session)),
    ("contest_id", .null)]

def languages : Response :=
  .html "languages.html" [
    ("current_user", optStrJson (currentUsername db session)),
    ("contest_id", .null),
    ("languages", .arr (buildLanguageGuideItems app.langVersions))]

/-! ## Problems -/

/-- What the pages of a contest begin with. -/
def withContest (now : Time) (contestId target : String) (page : Contest → Response) : Response :=
  match db.getContest contestId with
  | .error e => .htmlError (ext.dbErrorText e)
  | .ok none => .htmlError "contest not found"
  | .ok (some contest) =>
    if contest.status now = .upcoming then
      renderContestLocked ext db session contest ("/contests/" ++ contestId ++ target)
    else page contest

def contestDetail (now : Time) (contestId : String) : Response :=
  withContest ext db session now contestId "/problems" fun _ =>
    .redirectTo ("/contests/" ++ contestId ++ "/problems")

def contestProblemsIndex (now : Time) (contestId : String) : Response :=
  withContest ext db session now contestId "/problems" fun contest =>
    .html "contests/problems/index.html" [
      ("contest_id", .str contestId),
      ("contest_title", .str contest.title),
      ("problems", .arr ((db.problemsForContest contestId).filterMap fun cp =>
        (loadOne ext app.fs app.problemsDir cp.problemId).result.toOption.map fun prob =>
          .obj [
            ("label", .str cp.label),
            ("id", .str prob.id),
            ("title", .str prob.title),
            ("score", natJson prob.score),
            ("time_limit_ms", natJson prob.timeLimitMs),
            ("memory_limit_kb", natJson prob.memoryLimitKb)])),
      ("current_user", optStrJson (currentUsername db session))]

/-- `#[derive(Serialize)]` of `Problem`. -/
def Problem.toJson (prob : Problem) : Json :=
  .obj [
    ("id", .str prob.id),
    ("title", .str prob.title),
    ("time_limit_ms", natJson prob.timeLimitMs),
    ("memory_limit_kb", natJson prob.memoryLimitKb),
    ("score", natJson prob.score),
    ("html_content", .str prob.htmlContent)]

/-- The language a form begins with. -/
def defaultLanguage : Option String :=
  (session.userId.bind db.findUserById).bind (·.defaultLanguage)

def contestProblemDetail (now : Time) (contestId problemId : String)
    (cooldownRemainingMs : Option Int) : Response :=
  withContest ext db session now contestId ("/problems/" ++ problemId) fun contest =>
    match (db.problemsForContest contestId).find? (·.problemId == problemId) with
    | none => .htmlError "problem not in contest"
    | some cp =>
      match (loadOne ext app.fs app.problemsDir problemId).result with
      | .error _ => .htmlError ("problem '" ++ problemId ++ "' not found")
      | .ok prob =>
        .html "contests/problems/detail.html" [
          ("contest_id", .str contestId),
          ("contest_title", .str contest.title),
          ("problem", prob.toJson),
          ("problem_label", .str cp.label),
          ("lang_labels", buildLangLabels app.langVersions),
          ("current_user", optStrJson (currentUsername db session)),
          ("cooldown_remaining_ms", optJson .int cooldownRemainingMs),
          ("default_language", optStrJson (defaultLanguage db session))]

/-- The list shows of each problem these values only. -/
def problemsIndex : Response :=
  .html "problems/index.html" [
    ("problems", .arr ((loadAll ext app.fs app.problemsDir).map fun prob =>
      .obj [
        ("id", .str prob.id),
        ("title", .str prob.title),
        ("score", natJson prob.score),
        ("time_limit_ms", natJson prob.timeLimitMs),
        ("memory_limit_kb", natJson prob.memoryLimitKb)])),
    ("contest_id", .null),
    ("current_user", optStrJson (currentUsername db session))]

def problemsDetail (id : String) : Response :=
  match (loadOne ext app.fs app.problemsDir id).result with
  | .error _ => .htmlError ("problem '" ++ id ++ "' not found")
  | .ok prob =>
    .html "problems/detail.html" [
      ("problem", prob.toJson),
      ("lang_labels", buildLangLabels app.langVersions),
      ("contest_id", .null),
      ("current_user", optStrJson (currentUsername db session)),
      ("cooldown_remaining_ms", .null),
      ("default_language", optStrJson (defaultLanguage db session))]

/-! ## Submissions of a contest -/

/-- The items of a list, with the labels of a contest. -/
def contestSubmissionItems (contestId : String) (rows : List SubmissionListRow) : List Json :=
  let labels := (db.problemsForContest contestId).map fun cp => (cp.problemId, cp.label)
  let titles := (loadAll ext app.fs app.problemsDir).map fun p => (p.id, p.title)
  rows.map fun s =>
    submissionListItem ext app (collectedGet labels s.problemId) (collectedGet titles s.problemId) s

def contestSubmissionsIndex (order : RowOrder SubmissionRow) (now₁ now₂ : Time)
    (contestId : String) (page : Option Int) : Response :=
  let page := max (page.getD 1) 1
  withContest ext db session now₁ contestId "/submissions" fun contest =>
    if contest.status now₂ = .ongoing then
      .html "contests/submissions/index.html" [
        ("contest_id", .str contestId),
        ("contest_title", .str contest.title),
        ("is_restricted", .bool true),
        ("is_heuristic", .bool (contest.judgeType == .heuristic)),
        ("submissions", .arr []),
        ("current_page", .int 1),
        ("total_pages", .int 1),
        ("pagination", .arr []),
        ("current_user", optStrJson (currentUsername db session))]
    else
      let totalPages := totalPages (db.countForContest contestId)
      let page := min page totalPages
      let rows := db.listForContest order contestId page perPage
      .html "contests/submissions/index.html" [
        ("contest_id", .str contestId),
        ("contest_title", .str contest.title),
        ("is_restricted", .bool false),
        ("is_heuristic", .bool (contest.judgeType == .heuristic)),
        ("submissions", .arr (contestSubmissionItems ext app db contestId rows)),
        ("current_page", .int page),
        ("total_pages", .int totalPages),
        ("pagination", .arr ((buildPagination page totalPages).map .int)),
        ("current_user", optStrJson (currentUsername db session))]

/-- The page shows nothing to a visitor who is not logged in. -/
def contestSubmissionsMy (order : RowOrder SubmissionRow) (now : Time) (contestId : String)
    (page : Option Int) : Response :=
  let page := max (page.getD 1) 1
  withContest ext db session now contestId "/submissions/my" fun contest =>
    let (items, totalPages, page) : List Json × Int × Int :=
      match session.userId with
      | some uid =>
        let totalPages := totalPages (db.countForContestByUser contestId uid)
        let page := min page totalPages
        let rows := db.listForContestByUser order contestId uid page perPage
        (contestSubmissionItems ext app db contestId rows, totalPages, page)
      | none => ([], 1, 1)
    .html "contests/submissions/my.html" [
      ("contest_id", .str contestId),
      ("contest_title", .str contest.title),
      ("is_heuristic", .bool (contest.judgeType == .heuristic)),
      ("submissions", .arr items),
      ("current_page", .int page),
      ("total_pages", .int totalPages),
      ("pagination", .arr ((buildPagination page totalPages).map .int)),
      ("current_user", optStrJson (currentUsername db session))]

end

/-! ## Polling -/

/-- The answer to a poll: a redirect once the submission is judged, and until
then a fragment. There is no answer where `HeaderValue::from_str` fails. -/
def pollResponse (ext : Externals) (db : Db) (location : String) (contestId : List (String × Json))
    (id : Uuid) : Option Response :=
  match db.getSubmission ext id with
  | none => some (.htmlError "submission not found")
  | some sub =>
    let (verdict, badgeClass, isPending) := verdictInfo sub.status
    if !isPending then
      if headerValueOk location then some (.hxRedirect location) else none
    else some (.html "submissions/poll.html" ([("id", .str sub.id.toString)] ++ contestId ++ [
      ("verdict", .str verdict),
      ("badge_class", .str badgeClass),
      ("is_pending", .bool isPending)]))

def contestSubmissionPoll (ext : Externals) (db : Db) (contestId : String) (id : Uuid) :
    Option Response :=
  pollResponse ext db ("/contests/" ++ contestId ++ "/submissions/" ++ id.toString)
    [("contest_id", .str contestId)] id

def submissionsPoll (ext : Externals) (db : Db) (id : Uuid) : Option Response :=
  pollResponse ext db ("/submissions/" ++ id.toString) [] id

end MikanJudge

import MikanJudge.Lib.GroupBy
import MikanJudge.Model.Pages
import Mathlib.Data.String.Basic

/-!
# The standings of a contest (`db/submission.rs`, `api/handlers.rs`)

The standings are computed from the table on each request: the two aggregate
queries, a hash map of the users they name, a row per user, the sort, the
ranks, and the page. The order in which a hash map lists its keys is a
parameter (`HashOrder`). Sorting is stable; `sort_by` leaves the order open,
or panics, where `compareRows` is no total preorder (a NaN among the totals).
-/

namespace MikanJudge

open MikanJudge.Lib

/-! ## The aggregate queries -/

/-- The columns of `GROUP BY s.user_id, u.username, s.problem_id`. Names are a
function of ids, so this is the order of `s.user_id, s.problem_id`. -/
abbrev GroupKey := Uuid ×ₗ String ×ₗ String

/-- A row of a result: the group, and the aggregate of it. -/
structure ResultRow (V : Type) where
  userId : Uuid
  username : String
  problemId : String
  value : V

/-- `first_ac_at` of a user and a problem. -/
abbrev FirstAcRow := ResultRow Time

/-- `best_score` of a user and a problem. -/
abbrev BestScoreRow := ResultRow F64

def ResultRow.ofGroup {V : Type} (p : GroupKey × V) : ResultRow V where
  userId := (ofLex p.1).1
  username := (ofLex (ofLex p.1).2).1
  problemId := (ofLex (ofLex p.1).2).2
  value := p.2

/-- The group of a submission joined with its user, if the user exists. -/
def SubmissionRow.groupKey (users : List UserRow) (r : SubmissionRow) : Option GroupKey :=
  (users.find? fun u => r.userId == some u.id).map fun u =>
    toLex (u.id, toLex (u.username, r.problemId))

namespace Db

/-- The submissions of a contest with a status, joined with their users. -/
def countedRows {V : Type} (db : Db) (contestId status : String)
    (value : SubmissionRow → Option V) : List (GroupKey × V) :=
  (db.submissions.filter fun r => r.contestId == some contestId && r.status == status).filterMap
    fun r => (r.groupKey db.users).bind fun k => (value r).map fun v => (k, v)

def firstAcsForContest (db : Db) (contestId : String) : List FirstAcRow :=
  (groupBy List.min? (db.countedRows contestId "accepted" fun r => some r.createdAt)).map .ofGroup

def bestScoresForContest (db : Db) (contestId : String) : List BestScoreRow :=
  (groupBy List.max? (db.countedRows contestId "scored" fun r => r.score)).map .ofGroup

end Db

/-! ## Users -/

/-- The order in which a `HashMap` lists its keys. -/
structure HashOrder where
  iterate : List Uuid → List Uuid
  perm : ∀ ids, (iterate ids).Perm ids

/-- The order of insertion. -/
def HashOrder.inserted : HashOrder := ⟨id, fun _ => .refl _⟩

/-- The name of a user, and what the user has for each problem. -/
structure UserData (V : Type) where
  username : String
  results : List (String × V)

def UserData.insert {V : Type} (ud : UserData V) (problemId : String) (value : V) : UserData V :=
  { ud with results := (problemId, value) :: ud.results.filter (·.1 != problemId) }

/-- `user_map.entry(..).or_insert_with(..)`, and the insert of the result. -/
def addResult {V : Type} : List (Uuid × UserData V) → ResultRow V → List (Uuid × UserData V)
  | [], row => [(row.userId, ({ username := row.username, results := [] } : UserData V).insert
      row.problemId row.value)]
  | (userId, ud) :: m, row =>
    if userId = row.userId then (userId, ud.insert row.problemId row.value) :: m
    else (userId, ud) :: addResult m row

def userMap {V : Type} (rows : List (ResultRow V)) : List (Uuid × UserData V) :=
  rows.foldl addResult []

/-- `user_map.values()`. -/
def HashOrder.values {V : Type} (order : HashOrder) (m : List (Uuid × UserData V)) :
    List (UserData V) :=
  (order.iterate (m.map (·.1))).filterMap fun userId => m.lookup userId

/-! ## Rows -/

structure ProblemCell where
  label : String
  acTime : Option String
  score : String
  hasResult : Bool
  deriving DecidableEq

structure StandingRow where
  rank : Nat
  username : String
  totalScore : String
  elapsedFromStart : Option String
  problems : List ProblemCell
  deriving DecidableEq

structure RowWithRaw where
  row : StandingRow
  totalScoreRaw : F64
  lastAcRaw : Option Time

/-- A number with at least two digits. -/
def pad2 (n : Int) : String := String.ofList (List.leftpad 2 '0' (toString n).toList)

def fmtElapsed (secs : Int) : String :=
  let h := secs.tdiv 3600
  let m := (secs.tmod 3600).tdiv 60
  let s := secs.tmod 60
  toString h ++ ":" ++ pad2 m ++ ":" ++ pad2 s

/-- The time since the start in whole seconds, at least 0. -/
def Contest.elapsed (c : Contest) (t : Time) : Int := max ((t - c.startTime).tdiv 1000000) 0

section

variable (ext : Externals) (app : AppState)

/-- What `score_map` has for a problem, 0 if the problem does not load. -/
def problemScore (problemId : String) : Nat :=
  ((loadOne ext app.fs app.problemsDir problemId).result.toOption.map (·.score)).getD 0

/-- The row of a user in a heuristic contest. -/
def heuristicRow (cpList : List ContestProblem) (ud : UserData F64) : RowWithRaw :=
  let score := fun cp : ContestProblem => ud.results.lookup cp.problemId
  let totalScore := cpList.foldl (fun (total : F64) cp =>
    match score cp with
    | some s => total.add F64.round s
    | none => total) 0
  { row := {
      rank := 0
      username := ud.username
      totalScore := formatScore ext totalScore
      elapsedFromStart := none
      problems := cpList.map fun cp => {
        label := cp.label
        acTime := none
        score := ((score cp).map (formatScore ext)).getD ""
        hasResult := (score cp).isSome } }
    totalScoreRaw := totalScore
    lastAcRaw := none }

/-- The row of a user in an exact contest. -/
def exactRow (contest : Contest) (cpList : List ContestProblem) (ud : UserData Time) : RowWithRaw :=
  let acAt := fun cp : ContestProblem => ud.results.lookup cp.problemId
  let totalScore := cpList.foldl (fun total cp =>
    if (acAt cp).isSome then (total + problemScore ext app cp.problemId) % 2 ^ 64 else total) 0
  let lastAc := cpList.foldl (fun (last : Option Time) cp =>
    match acAt cp with
    | some t => some (last.elim t fun prev => max prev t)
    | none => last) none
  { row := {
      rank := 0
      username := ud.username
      totalScore := toString totalScore
      elapsedFromStart := lastAc.map fun t => fmtElapsed (contest.elapsed t)
      problems := cpList.map fun cp => {
        label := cp.label
        acTime := (acAt cp).map fun t => fmtElapsed (contest.elapsed t)
        score := if (acAt cp).isSome then toString (problemScore ext app cp.problemId) else ""
        hasResult := (acAt cp).isSome } }
    totalScoreRaw := F64.round totalScore
    lastAcRaw := lastAc }

/-! ## Sort and ranks -/

/-- More points first; then the earlier last AC, or else the user name. -/
def compareRows (a b : RowWithRaw) : Ordering :=
  ((b.totalScoreRaw.partialCmp a.totalScoreRaw).getD .eq).then
    (match a.lastAcRaw, b.lastAcRaw with
    | some t, some u => compare t u
    | none, some _ => .gt
    | some _, none => .lt
    | none, none => compare a.row.username b.row.username)

def sortRows (rows : List RowWithRaw) : List RowWithRaw :=
  rows.insertionSort fun a b => compareRows a b ≠ .gt

/-- `f64::EPSILON`. -/
def epsilon : F64 := .fin (1 / 2 ^ 52)

/-- The loop that gives the ranks, from position `i` on. -/
def rankRows (isHeuristic : Bool) : Nat → Option F64 → Option String → Nat → List RowWithRaw →
    List StandingRow
  | _, _, _, _, [] => []
  | i, prevScore, prevElapsed, currentRank, r :: rows =>
    let sameScore := prevScore.any fun s => (r.totalScoreRaw.sub F64.round s).abs.le epsilon
    if !sameScore || (!isHeuristic && r.row.elapsedFromStart != prevElapsed) then
      { r.row with rank := i + 1 } ::
        rankRows isHeuristic (i + 1) (some r.totalScoreRaw) r.row.elapsedFromStart (i + 1) rows
    else
      { r.row with rank := currentRank } ::
        rankRows isHeuristic (i + 1) prevScore prevElapsed currentRank rows

variable (db : Db)

/-- The rows before they are sorted. -/
def rawRows (order : HashOrder) (contest : Contest) (contestId : String) : List RowWithRaw :=
  let cpList := db.problemsForContest contestId
  if contest.judgeType = .heuristic then
    (order.values (userMap (db.bestScoresForContest contestId))).map (heuristicRow ext cpList)
  else
    (order.values (userMap (db.firstAcsForContest contestId))).map (exactRow ext app contest cpList)

/-- The standings, over all pages. -/
def standingRows (order : HashOrder) (contest : Contest) (contestId : String) : List StandingRow :=
  rankRows (contest.judgeType == .heuristic) 0 none none 0
    (sortRows (rawRows ext app db order contest contestId))

/-! ## The page -/

def ProblemCell.toJson (c : ProblemCell) : Json :=
  .obj [
    ("label", .str c.label),
    ("ac_time", optStrJson c.acTime),
    ("score", .str c.score),
    ("has_result", .bool c.hasResult)]

def StandingRow.toJson (r : StandingRow) : Json :=
  .obj [
    ("rank", natJson r.rank),
    ("username", .str r.username),
    ("total_score", .str r.totalScore),
    ("elapsed_from_start", optStrJson r.elapsedFromStart),
    ("problems", .arr (r.problems.map ProblemCell.toJson))]

/-- The columns: the problems that load. -/
def problemHeaders (cpList : List ContestProblem) : List Json :=
  cpList.filterMap fun cp =>
    (loadOne ext app.fs app.problemsDir cp.problemId).result.toOption.map fun p =>
      .obj [
        ("label", .str cp.label),
        ("problem_id", .str cp.problemId),
        ("title", .str p.title),
        ("score", natJson p.score)]

def perPage : Int := 20

def totalPages (total : Int) : Int := max ((total + perPage - 1).tdiv perPage) 1

/-- The page shown for a query, among so many. -/
def clampPage (page : Option Int) (totalPages : Int) : Int := min (max (page.getD 1) 1) totalPages

/-- `&rows[start..end]`. -/
def pageRows {α : Type*} (rows : List α) (page : Int) : List α :=
  let start := ((page - 1) * perPage).toNat
  let stop := min (start + perPage.toNat) rows.length
  (rows.drop start).take (stop - start)

/-- The numbers from `first` to `last`. -/
def pagesFrom (first last : Int) : List Int :=
  (List.range (last - first + 1).toNat).map fun (n : Nat) => first + n

/-- The pages linked to, with 0 for an ellipsis. -/
def buildPagination (current total : Int) : List Int :=
  if total ≤ 7 then pagesFrom 1 total
  else
    let left := max (current - 2) 2
    let right := min (current + 2) (total - 1)
    [1] ++ (if left > 2 then [0] else []) ++ pagesFrom left right ++
      (if right < total - 1 then [0] else []) ++ [total]

def contestStandings (order : HashOrder) (session : SessionRecord) (now : Time)
    (contestId : String) (page : Option Int) : Response :=
  match db.getContest contestId with
  | .error e => .htmlError (ext.dbErrorText e)
  | .ok none => .htmlError "contest not found"
  | .ok (some contest) =>
    if contest.status now = .upcoming then
      renderContestLocked ext db session contest ("/contests/" ++ contestId ++ "/standings")
    else
      let rows := standingRows ext app db order contest contestId
      let totalPages := totalPages rows.length
      let page := clampPage page totalPages
      .html "contests/standings.html" [
        ("contest_id", .str contestId),
        ("contest_title", .str contest.title),
        ("is_heuristic", .bool (contest.judgeType == .heuristic)),
        ("problem_headers", .arr (problemHeaders ext app (db.problemsForContest contestId))),
        ("standings", .arr ((pageRows rows page).map StandingRow.toJson)),
        ("current_page", .int page),
        ("total_pages", .int totalPages),
        ("pagination", .arr ((buildPagination page totalPages).map .int)),
        ("current_user", optStrJson (currentUsername db session))]

end

end MikanJudge

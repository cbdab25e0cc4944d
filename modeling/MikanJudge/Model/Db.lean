import MikanJudge.Model.Externals
import Mathlib.Data.List.Sort

/-!
# The tables and their queries (`migrations/`, `db/`)

The tables are lists of rows. A statement that binds a TEXT value holding
U+0000 is refused by the database; so is one that breaks a constraint of the
schema. `update_status` and `update_result` change the rows with the given id
and no others.
-/

namespace MikanJudge

open MikanJudge.Lib (F64 Json)

structure UserRow where
  id : Uuid
  username : String
  passwordHash : String
  defaultLanguage : Option String
  deriving DecidableEq

structure ContestRow where
  id : String
  title : String
  description : String
  startTime : Time
  endTime : Time
  judgeType : String
  deriving DecidableEq

structure ContestProblemRow where
  contestId : String
  problemId : String
  displayOrder : Int
  label : String
  deriving DecidableEq

structure SubmissionRow where
  id : Uuid
  problemId : String
  userId : Option Uuid
  contestId : Option String
  language : String
  sourceCode : String
  status : String
  timeUsedMs : Option Int
  memoryUsedKb : Option Int
  stdout : Option String
  stderr : Option String
  testcaseResults : Option String
  score : Option F64
  createdAt : Time
  deriving DecidableEq

structure Db where
  users : List UserRow
  contests : List ContestRow
  contestProblems : List ContestProblemRow
  submissions : List SubmissionRow

/-- A TEXT value the database accepts. -/
def textOk (s : String) : Bool := !s.toList.contains '\x00'

def optTextOk (s : Option String) : Bool := s.all textOk

/-- `v as i64` of a `u64`. -/
def toI64 (n : Nat) : Int := if n % 2 ^ 64 < 2 ^ 63 then n % 2 ^ 64 else n % 2 ^ 64 - 2 ^ 64

/-- `v as u64` of an `i64`. -/
def toU64 (i : Int) : Nat := (i % 2 ^ 64).toNat

/-! ## `testcase_results` as JSON -/

def F64.toJson : F64 → Json
  | .fin q => .float q
  | _ => .null

def optJson {α : Type*} (f : α → Json) : Option α → Json
  | some x => f x
  | none => .null

def natJson (n : Nat) : Json := .int n

namespace TestcaseVerdict

/-- `#[derive(Serialize)]`; `score` is left out when there is none. -/
def toJson (v : TestcaseVerdict) : Json :=
  .obj ([("verdict", .str v.verdict), ("time_ms", optJson natJson v.timeMs),
    ("memory_kb", optJson natJson v.memoryKb)] ++
    match v.score with
    | some s => [("score", F64.toJson s)]
    | none => [])

def decodeStr : Json → Option String
  | .str s => some s
  | _ => none

def decodeU64 : Json → Option Nat
  | .int n => if 0 ≤ n ∧ n < 2 ^ 64 then some n.toNat else none
  | _ => none

def decodeF64 : Json → Option F64
  | .int n => some (F64.round n)
  | .float q => some (.fin q)
  | _ => none

def decodeOpt {α : Type*} (f : Json → Option α) : Json → Option (Option α)
  | .null => some none
  | j => (f j).map some

/-- The value of a field: a field given twice is an error, a missing one is
`null` where it is optional. -/
def field (fs : List (String × Json)) (k : String) : Option (Option Json) :=
  match fs.filter (·.1 == k) with
  | [] => some none
  | [f] => some (some f.2)
  | _ => none

def optField {α : Type*} (fs : List (String × Json)) (k : String) (f : Json → Option α) :
    Option (Option α) :=
  match field fs k with
  | none => none
  | some none => some none
  | some (some j) => decodeOpt f j

/-- `#[derive(Deserialize)]`: from an object, or from an array of the fields
in order. -/
def ofJson : Json → Option TestcaseVerdict
  | .obj fs => do
    let verdict ← (← field fs "verdict").bind decodeStr
    let timeMs ← optField fs "time_ms" decodeU64
    let memoryKb ← optField fs "memory_kb" decodeU64
    let score ← optField fs "score" decodeF64
    return { verdict, timeMs, memoryKb, score }
  | .arr [v, t, m, s] => do
    return {
      verdict := ← decodeStr v, timeMs := ← decodeOpt decodeU64 t,
      memoryKb := ← decodeOpt decodeU64 m, score := ← decodeOpt decodeF64 s }
  | _ => none

end TestcaseVerdict

/-- `serde_json::to_string` of a list of results. -/
def encodeResults (ext : Externals) (results : List TestcaseVerdict) : String :=
  String.ofList (Json.render ext.fmtDecimal (.arr (results.map TestcaseVerdict.toJson)))

/-- `serde_json::from_str` to a `Vec`, with the decoder of its items. -/
def fromStrVec {α : Type} (ext : Externals) (decode : Json → Option α) (s : String) :
    Option (List α) :=
  match ext.parseJson s with
  | some (.arr items) => items.mapM decode
  | _ => none

/-- A list of results in the new format, or else of verdicts in the old one. -/
def decodeResults (ext : Externals) (s : String) : Option (List TestcaseVerdict) :=
  match fromStrVec ext TestcaseVerdict.ofJson s with
  | some v => some v
  | none => (fromStrVec ext TestcaseVerdict.decodeStr s).map fun strings =>
    strings.map fun v => { verdict := v, timeMs := none, memoryKb := none, score := none }

/-! ## Submissions (`db/submission.rs`) -/

namespace SubmissionRow

def intoSubmission (ext : Externals) (r : SubmissionRow) : Submission where
  id := r.id
  userId := r.userId
  contestId := r.contestId
  sourceCode := r.sourceCode
  language := Language.fromDb r.language
  problemId := r.problemId
  status := JudgeStatus.fromDb r.status
  timeUsedMs := r.timeUsedMs.map toU64
  memoryUsedKb := r.memoryUsedKb.map toU64
  stdout := r.stdout
  stderr := r.stderr
  testcaseResults := r.testcaseResults.bind (decodeResults ext)
  score := r.score

/-- The columns only `update_result` writes. -/
def NoResult (r : SubmissionRow) : Prop :=
  r.timeUsedMs = none ∧ r.memoryUsedKb = none ∧ r.stdout = none ∧ r.stderr = none ∧
    r.testcaseResults = none ∧ r.score = none

/-- Pending or running. -/
def Unfinished (r : SubmissionRow) : Prop := r.status = "pending" ∨ r.status = "running"

instance (r : SubmissionRow) : Decidable r.NoResult := by unfold NoResult; infer_instance

instance (r : SubmissionRow) : Decidable r.Unfinished := by unfold Unfinished; infer_instance

end SubmissionRow

/-- A row of a list of submissions, with the name of its user. -/
structure SubmissionListRow where
  id : Uuid
  username : Option String
  problemId : String
  language : String
  status : String
  timeUsedMs : Option Int
  memoryUsedKb : Option Int
  testcaseResults : Option String
  score : Option F64
  deriving DecidableEq

/-- `UPDATE submissions SET … WHERE id = id`. -/
def updateWhere (id : Uuid) (f : SubmissionRow → SubmissionRow) (rows : List SubmissionRow) :
    List SubmissionRow :=
  rows.map fun r => if r.id = id then f r else r

/-- The row `insert` adds for a submission, at the time of the insert. -/
def Submission.toRow (sub : Submission) (now : Time) : SubmissionRow where
  id := sub.id
  problemId := sub.problemId
  userId := sub.userId
  contestId := sub.contestId
  language := sub.language.toDb
  sourceCode := sub.sourceCode
  status := sub.status.toDb
  timeUsedMs := none
  memoryUsedKb := none
  stdout := none
  stderr := none
  testcaseResults := none
  score := none
  createdAt := now

namespace Db

/-- `INSERT INTO submissions`: the id is the primary key, and the user and the
contest it names have to exist. -/
def insertSubmission (db : Db) (sub : Submission) (now : Time) : Except DbError Db :=
  if !(textOk sub.problemId && optTextOk sub.contestId && textOk sub.sourceCode) then
    .error .nulInText
  else if db.submissions.any (·.id == sub.id) then .error .uniqueViolation
  else if !(sub.userId.all fun u => db.users.any (·.id == u)) ||
      !(sub.contestId.all fun c => db.contests.any (·.id == c)) then
    .error .foreignKeyViolation
  else .ok { db with submissions := db.submissions ++ [sub.toRow now] }

/-- A row joined with its user. -/
def listRow (db : Db) (r : SubmissionRow) : SubmissionListRow where
  id := r.id
  username := r.userId.bind fun u => (db.users.find? (·.id == u)).map (·.username)
  problemId := r.problemId
  language := r.language
  status := r.status
  timeUsedMs := r.timeUsedMs
  memoryUsedKb := r.memoryUsedKb
  testcaseResults := r.testcaseResults
  score := r.score

/-- The rows of the latest submissions; of two inserted at the same time, the
one that comes first in the table. -/
def recentRows (db : Db) (limit : Nat) : List SubmissionRow :=
  (db.submissions.insertionSort fun a b => b.createdAt ≤ a.createdAt).take limit

def listRecent (db : Db) (limit : Nat) : List SubmissionListRow :=
  (db.recentRows limit).map db.listRow

def getSubmission (ext : Externals) (db : Db) (id : Uuid) : Option Submission :=
  (db.submissions.find? (·.id == id)).map (·.intoSubmission ext)

end Db

def updateStatus (rows : List SubmissionRow) (id : Uuid) (status : JudgeStatus) :
    List SubmissionRow :=
  updateWhere id (fun r => { r with status := status.toDb }) rows

def updateResult (ext : Externals) (rows : List SubmissionRow) (id : Uuid) (status : JudgeStatus)
    (timeUsedMs memoryUsedKb : Option Nat) (stdout stderr : Option String)
    (testcaseResults : Option (List TestcaseVerdict)) (score : Option F64) :
    Except DbError (List SubmissionRow) :=
  let tcJson := testcaseResults.map (encodeResults ext)
  if !(optTextOk stdout && optTextOk stderr && optTextOk tcJson) then .error .nulInText
  else .ok (updateWhere id (fun r => { r with
    status := status.toDb
    timeUsedMs := timeUsedMs.map toI64
    memoryUsedKb := memoryUsedKb.map toI64
    stdout := stdout
    stderr := stderr
    testcaseResults := tcJson
    score := score }) rows)

/-! ## Contests (`db/contest.rs`) -/

def ContestRow.intoContest (r : ContestRow) : Contest where
  id := r.id
  title := r.title
  description := r.description
  startTime := r.startTime
  endTime := r.endTime
  judgeType := JudgeType.fromDb r.judgeType

namespace Db

/-- `contest::get_by_id`. -/
def getContest (db : Db) (contestId : String) : Except DbError (Option Contest) :=
  if !textOk contestId then .error .nulInText
  else .ok ((db.contests.find? (·.id == contestId)).map (·.intoContest))

def problemsForContest (db : Db) (contestId : String) : List ContestProblem :=
  ((db.contestProblems.filter (·.contestId == contestId)).insertionSort
    fun a b => a.displayOrder ≤ b.displayOrder).map fun r =>
      { label := r.label, problemId := r.problemId, displayOrder := r.displayOrder }

/-! ## Users (`db/user.rs`) -/

def findUserById (db : Db) (id : Uuid) : Option UserRow := db.users.find? (·.id == id)

def findUserByUsername (db : Db) (username : String) : Except DbError (Option UserRow) :=
  if !textOk username then .error .nulInText
  else .ok (db.users.find? (·.username == username))

/-- `INSERT INTO users`, with the id the database generated: user names are unique. -/
def insertUser (db : Db) (id : Uuid) (username passwordHash : String) : Except DbError Db :=
  if !(textOk username && textOk passwordHash) then .error .nulInText
  else if db.users.any fun u => u.id == id || u.username == username then .error .uniqueViolation
  else .ok { db with users := db.users ++ [⟨id, username, passwordHash, none⟩] }

def updateUser (db : Db) (id : Uuid) (f : UserRow → UserRow) : Db :=
  { db with users := db.users.map fun u => if u.id = id then f u else u }

def updateDefaultLanguage (db : Db) (id : Uuid) (language : Option String) : Except DbError Db :=
  if !optTextOk language then .error .nulInText
  else .ok (db.updateUser id fun u => { u with defaultLanguage := language })

def updatePassword (db : Db) (id : Uuid) (passwordHash : String) : Except DbError Db :=
  if !textOk passwordHash then .error .nulInText
  else .ok (db.updateUser id fun u => { u with passwordHash := passwordHash })

/-- `DELETE FROM users`: the user's submissions stay, without an owner. -/
def deleteUser (db : Db) (id : Uuid) : Db :=
  { db with
    users := db.users.filter (·.id != id)
    submissions := db.submissions.map fun r => if r.userId = some id then { r with userId := none }
      else r }

end Db

/-! ## Updates and the rows they touch -/

section

variable {id : Uuid} {f : SubmissionRow → SubmissionRow} {rows : List SubmissionRow}

theorem mem_updateWhere {r : SubmissionRow} :
    r ∈ updateWhere id f rows ↔ ∃ r₀ ∈ rows, (if r₀.id = id then f r₀ else r₀) = r := by
  simp only [updateWhere, List.mem_map]

/-- An update that keeps ids changes no id of the table. -/
theorem map_id_updateWhere (hf : ∀ r, (f r).id = r.id) :
    (updateWhere id f rows).map (·.id) = rows.map (·.id) := by
  simp only [updateWhere, List.map_map]
  refine List.map_congr_left fun r _ => ?_
  simp only [Function.comp]
  split
  · exact hf r
  · rfl

/-- What is found for an id is what the update makes of the row found before. -/
theorem find?_updateWhere (hf : ∀ r, (f r).id = r.id) :
    (updateWhere id f rows).find? (·.id == id) = (rows.find? (·.id == id)).map f := by
  induction rows with
  | nil => rfl
  | cons r rows ih =>
    rw [updateWhere] at ih ⊢
    rw [List.map_cons]
    by_cases h : r.id = id
    · rw [if_pos h, List.find?_cons_of_pos, List.find?_cons_of_pos, Option.map_some]
      · exact beq_iff_eq.mpr h
      · exact beq_iff_eq.mpr ((hf r).trans h)
    · rw [if_neg h, List.find?_cons_of_neg, List.find?_cons_of_neg, ih]
      · exact fun e => h (beq_iff_eq.mp e)
      · exact fun e => h (beq_iff_eq.mp e)

/-- The rows with another id are left as they are. -/
theorem filter_updateWhere_of_ne {id' : Uuid} (hf : ∀ r, (f r).id = r.id) (hne : id' ≠ id) :
    (updateWhere id f rows).filter (·.id == id') = rows.filter (·.id == id') := by
  induction rows with
  | nil => rfl
  | cons r rows ih =>
    simp only [updateWhere, List.map_cons, List.filter_cons] at ih ⊢
    rw [ih]
    by_cases h : r.id = id
    · have hr : (r.id == id') = false := beq_eq_false_iff_ne.mpr fun e => hne (e.symm.trans h)
      simp only [h, if_true, hf]
      rw [← h, hr]
      rfl
    · simp only [h, if_false]

end

end MikanJudge

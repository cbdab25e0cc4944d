import MikanJudge.Model.ContestPages

/-!
# What the lists of an ongoing contest show

The list of all submissions is empty while the contest goes on; a user's own
list is made of their own rows. Two databases that agree but for the submissions
of others give the same pages.
-/

namespace MikanJudge

open MikanJudge.Lib

/-- The databases agree but for the submissions of others to the contest. -/
structure Db.AgreesFor (db db' : Db) (session : SessionRecord) (contestId : String) : Prop where
  users : db'.users = db.users
  contests : db'.contests = db.contests
  contestProblems : db'.contestProblems = db.contestProblems
  own : ∀ u, session.userId = some u →
    db'.contestRows contestId (some u) = db.contestRows contestId (some u)

section

variable {ext : Externals} {app : AppState} {db db' : Db} {session : SessionRecord}
  {contestId : String} {contest : Contest}

namespace Db.AgreesFor

variable (h : db.AgreesFor db' session contestId)

include h

theorem getContest : db'.getContest contestId = db.getContest contestId := by
  rw [Db.getContest, Db.getContest, h.contests]

theorem problemsForContest : db'.problemsForContest contestId = db.problemsForContest contestId := by
  rw [Db.problemsForContest, Db.problemsForContest, h.contestProblems]

theorem currentUsername :
    MikanJudge.currentUsername db' session = MikanJudge.currentUsername db session := by
  have hfind : db'.findUserById = db.findUserById := by
    funext u
    rw [findUserById, findUserById, h.users]
  rw [MikanJudge.currentUsername, MikanJudge.currentUsername, hfind]

theorem listRow : db'.listRow = db.listRow := by
  funext r
  rw [Db.listRow, Db.listRow, h.users]

theorem countForContestByUser {u : Uuid} (hu : session.userId = some u) :
    db'.countForContestByUser contestId u = db.countForContestByUser contestId u := by
  rw [Db.countForContestByUser, Db.countForContestByUser, h.own u hu]

theorem listForContestByUser {u : Uuid} (hu : session.userId = some u)
    (order : RowOrder SubmissionRow) (page perPage : Int) :
    db'.listForContestByUser order contestId u page perPage =
      db.listForContestByUser order contestId u page perPage := by
  rw [Db.listForContestByUser, Db.listForContestByUser, Db.latestRows, Db.latestRows, h.own u hu,
    h.listRow]

theorem contestSubmissionItems (rows : List SubmissionListRow) :
    MikanJudge.contestSubmissionItems ext app db' contestId rows =
      MikanJudge.contestSubmissionItems ext app db contestId rows := by
  rw [MikanJudge.contestSubmissionItems, MikanJudge.contestSubmissionItems, h.problemsForContest]

theorem withContest {now : Time} {target : String} {page page' : Contest → Response}
    (hpage : ∀ contest, db.getContest contestId = .ok (some contest) → page' contest = page contest) :
    MikanJudge.withContest ext db' session now contestId target page' =
      MikanJudge.withContest ext db session now contestId target page := by
  have hlocked : renderContestLocked ext db' session = renderContestLocked ext db session := by
    funext contest path
    rw [renderContestLocked, renderContestLocked, h.currentUsername]
  rw [MikanJudge.withContest, MikanJudge.withContest, h.getContest, hlocked]
  split
  · rfl
  · rfl
  · rename_i contest hc
    rw [hpage contest hc]

/-- The list of a user's own submissions. -/
theorem contestSubmissionsMy (order : RowOrder SubmissionRow) (now : Time) (page : Option Int) :
    MikanJudge.contestSubmissionsMy ext app db' session order now contestId page =
      MikanJudge.contestSubmissionsMy ext app db session order now contestId page := by
  refine h.withContest fun contest _ => ?_
  rw [h.currentUsername]
  cases hu : session.userId with
  | none => rfl
  | some u =>
    dsimp only
    rw [h.countForContestByUser hu, h.listForContestByUser hu, h.contestSubmissionItems]

end Db.AgreesFor

/-! ## The list of all submissions -/

theorem withContest_eq {now : Time} {target : String} {page : Contest → Response}
    (hc : db.getContest contestId = .ok (some contest)) (hstarted : contest.status now ≠ .upcoming) :
    withContest ext db session now contestId target page = page contest := by
  rw [withContest, hc]
  exact if_neg hstarted

theorem status_of_le {now₁ now₂ : Time} (hstarted : contest.status now₁ ≠ .upcoming)
    (hle : now₁ ≤ now₂) :
    contest.status now₂ = if now₂ ≤ contest.endTime then .ongoing else .past := by
  have hstart : contest.startTime ≤ now₁ := by
    by_contra hlt
    exact hstarted (if_pos (not_le.mp hlt))
  exact if_neg (not_lt.mpr (hstart.trans hle))

/-- While the contest goes on, the list is the same whoever submitted what. -/
theorem contestSubmissionsIndex_congr (h : db.AgreesFor db' session contestId)
    (order : RowOrder SubmissionRow) {now₁ now₂ : Time} (page : Option Int)
    (hc : db.getContest contestId = .ok (some contest))
    (hongoing : contest.status now₂ = .ongoing) :
    contestSubmissionsIndex ext app db' session order now₁ now₂ contestId page =
      contestSubmissionsIndex ext app db session order now₁ now₂ contestId page := by
  refine h.withContest fun contest' hc' => ?_
  obtain rfl : contest = contest' := Option.some.inj (Except.ok.inj (hc.symm.trans hc'))
  rw [if_pos hongoing, if_pos hongoing, h.currentUsername]

/-- The list is shown only once the contest is over, by the clock as last read. -/
theorem endTime_lt_of_not_restricted {order : RowOrder SubmissionRow} {now₁ now₂ : Time}
    {page : Option Int} (hc : db.getContest contestId = .ok (some contest)) (hle : now₁ ≤ now₂)
    (hshown : (contestSubmissionsIndex ext app db session order now₁ now₂ contestId page).field
      "is_restricted" = some (.bool false)) : contest.endTime < now₂ := by
  by_cases hstarted : contest.status now₁ = .upcoming
  · rw [contestSubmissionsIndex, withContest, hc] at hshown
    dsimp only at hshown
    rw [if_pos hstarted] at hshown
    cases hshown
  · rw [contestSubmissionsIndex, withContest_eq hc hstarted, status_of_le hstarted hle] at hshown
    by_contra hend
    rw [if_pos (not_lt.mp hend), if_pos rfl] at hshown
    cases hshown

/-- On two databases that agree but for the submissions of others to an ongoing
contest, a viewer's own list is the same, and so is the list of all submissions
until the end time, by the last reading of the clock; whatever the phase at the
start, all submissions are only listed after the end time by that reading. -/
theorem ongoing_lists_own_only (ext : Externals) (app : AppState) (order : RowOrder SubmissionRow)
    {db db' : Db} {session : SessionRecord} {contestId : String} {contest : Contest}
    {now₁ : Time} (h : db.AgreesFor db' session contestId)
    (hc : db.getContest contestId = .ok (some contest)) (hongoing : contest.status now₁ = .ongoing)
    (page : Option Int) :
    contestSubmissionsMy ext app db' session order now₁ contestId page =
      contestSubmissionsMy ext app db session order now₁ contestId page ∧
    (∀ now₂, now₁ ≤ now₂ → now₂ ≤ contest.endTime →
      contestSubmissionsIndex ext app db' session order now₁ now₂ contestId page =
        contestSubmissionsIndex ext app db session order now₁ now₂ contestId page) ∧
    ∀ start now₂, start ≤ now₂ →
      (contestSubmissionsIndex ext app db session order start now₂ contestId page).field
        "is_restricted" = some (.bool false) → contest.endTime < now₂ := by
  have hstarted : contest.status now₁ ≠ .upcoming := by simp [hongoing]
  refine ⟨h.contestSubmissionsMy order now₁ page, fun now₂ hle hend => ?_,
    fun start now₂ hle hshown => endTime_lt_of_not_restricted hc hle hshown⟩
  refine contestSubmissionsIndex_congr h order page hc ?_
  rw [status_of_le hstarted hle, if_pos hend]

end

/-! ### Two users -/

/-- A contest from time 0 to time 100, with submissions. -/
def listedDb (submissions : List SubmissionRow) : Db where
  users := [{ id := 1, username := "alice", passwordHash := "", defaultLanguage := none },
    { id := 2, username := "bob", passwordHash := "", defaultLanguage := none }]
  contests := [{
    id := "c", title := "C", description := "", startTime := 0, endTime := 100
    judgeType := "exact" }]
  contestProblems := []
  submissions := submissions

def listedRow (id user : Uuid) : SubmissionRow where
  id := id
  problemId := "a"
  userId := some user
  contestId := some "c"
  language := "cpp"
  sourceCode := ""
  status := "accepted"
  timeUsedMs := none
  memoryUsedKb := none
  stdout := none
  stderr := none
  testcaseResults := none
  score := none
  createdAt := 50

theorem agreesFor_listedDb :
    (listedDb [listedRow 3 1]).AgreesFor (listedDb [listedRow 4 2, listedRow 3 1])
      { SessionRecord.empty with userId := some 1 } "c" where
  users := rfl
  contests := rfl
  contestProblems := rfl
  own u hu := by
    obtain rfl : 1 = u := Option.some.inj hu
    decide

/-- The lists of the first user do not show that the second submitted. -/
theorem ongoing_lists_own_only_alice :
    contestSubmissionsMy .simple .empty (listedDb [listedRow 4 2, listedRow 3 1])
        { SessionRecord.empty with userId := some 1 } (.table _) 60 "c" none =
      contestSubmissionsMy .simple .empty (listedDb [listedRow 3 1])
        { SessionRecord.empty with userId := some 1 } (.table _) 60 "c" none :=
  (ongoing_lists_own_only .simple .empty (.table _) agreesFor_listedDb rfl (by decide) none).1

end MikanJudge

import MikanJudge.Model.Server
import MikanJudge.Model.Standings

/-!
# The standings after the contest

Neither the two queries nor the submit handler look at the end of the
contest. A late submission leaves the standings as they are if one in time of
the same user to the same problem is at least as good (`LateCovered`); the
results the standings are computed from stay the same in no other case.
-/

namespace MikanJudge

open MikanJudge.Lib

/-- The tables without the submissions made after a time. -/
def Db.upTo (db : Db) (time : Time) : Db :=
  { db with submissions := db.submissions.filter fun r => r.createdAt ≤ time }

/-- A submission that a query for a status counts. -/
structure SubmissionRow.Counts (r : SubmissionRow) (db : Db) (contestId status : String) : Prop where
  mem : r ∈ db.submissions
  contest : r.contestId = some contestId
  status : r.status = status
  user : ∃ u ∈ db.users, r.userId = some u.id

/-- Each late submission that counts has one in time, of the same user to the
same problem, whose value is at least as good. -/
def Covered {V : Type} (db : Db) (contestId status : String) (time : Time)
    (value : SubmissionRow → Option V) (better : V → V → Prop) : Prop :=
  ∀ r v, r.Counts db contestId status → time < r.createdAt → value r = some v →
    ∃ r' v', r'.Counts db contestId status ∧ r'.createdAt ≤ time ∧ r'.userId = r.userId ∧
      r'.problemId = r.problemId ∧ value r' = some v' ∧ better v' v

/-- The late submissions of a contest that count, by the mode of the contest:
accepted ones, or those with a score. -/
def Db.LateCovered (db : Db) (contest : Contest) (contestId : String) : Prop :=
  if contest.judgeType = .heuristic then
    Covered db contestId "scored" contest.endTime (·.score) (fun v' v => v ≤ v')
  else Covered db contestId "accepted" contest.endTime (fun r => some r.createdAt) (· ≤ ·)

/-- Two states give the same results to compute the standings from. -/
def Db.SameResults (db db' : Db) (contest : Contest) (contestId : String) : Prop :=
  if contest.judgeType = .heuristic then
    db'.bestScoresForContest contestId = db.bestScoresForContest contestId
  else db'.firstAcsForContest contestId = db.firstAcsForContest contestId

section

variable {db : Db} {contestId status : String} {time : Time} {V : Type}
  {value : SubmissionRow → Option V}

/-! ## What the queries count -/

theorem groupKey_eq_some {users : List UserRow} {r : SubmissionRow} {k : GroupKey}
    (h : r.groupKey users = some k) :
    (∃ u ∈ users, r.userId = some u.id) ∧ r.userId = some (ofLex k).1 ∧
      r.problemId = (ofLex (ofLex k).2).2 := by
  obtain ⟨u, hu, rfl⟩ := Option.map_eq_some_iff.mp h
  have hid := List.find?_some hu
  rw [beq_iff_eq] at hid
  exact ⟨⟨u, List.mem_of_find?_eq_some hu, hid⟩, hid, rfl⟩

theorem isSome_groupKey {users : List UserRow} {r : SubmissionRow}
    (h : ∃ u ∈ users, r.userId = some u.id) : ∃ k, r.groupKey users = some k := by
  obtain ⟨u, hu, hid⟩ := h
  rw [← Option.isSome_iff_exists, SubmissionRow.groupKey, Option.isSome_map, List.find?_isSome]
  exact ⟨u, hu, beq_iff_eq.mpr hid⟩

theorem groupKey_congr {users : List UserRow} {r r' : SubmissionRow} (hu : r'.userId = r.userId)
    (hp : r'.problemId = r.problemId) : r'.groupKey users = r.groupKey users := by
  rw [SubmissionRow.groupKey, SubmissionRow.groupKey, hu, hp]

/-- A query counts the submissions that `Counts` says, with their groups. -/
theorem mem_countedRows {k : GroupKey} {v : V} :
    (k, v) ∈ db.countedRows contestId status value ↔
      ∃ r, r.Counts db contestId status ∧ r.groupKey db.users = some k ∧ value r = some v := by
  simp only [Db.countedRows, List.mem_filterMap, List.mem_filter, Bool.and_eq_true, beq_iff_eq,
    Option.bind_eq_some_iff, Option.map_eq_some_iff, Prod.mk.injEq]
  constructor
  · rintro ⟨r, ⟨hr, hc, hs⟩, k', hk, v', hv, rfl, rfl⟩
    exact ⟨r, ⟨hr, hc, hs, (groupKey_eq_some hk).1⟩, hk, hv⟩
  · rintro ⟨r, ⟨hr, hc, hs, -⟩, hk, hv⟩
    exact ⟨r, ⟨hr, hc, hs⟩, k, hk, v, hv, rfl, rfl⟩

theorem counts_upTo {r : SubmissionRow} :
    r.Counts (db.upTo time) contestId status ↔
      r.Counts db contestId status ∧ r.createdAt ≤ time := by
  constructor
  · rintro ⟨hr, hc, hs, hu⟩
    obtain ⟨hr, ht⟩ := List.mem_filter.mp hr
    exact ⟨⟨hr, hc, hs, hu⟩, of_decide_eq_true ht⟩
  · rintro ⟨⟨hr, hc, hs, hu⟩, ht⟩
    exact ⟨List.mem_filter.mpr ⟨hr, decide_eq_true ht⟩, hc, hs, hu⟩

theorem countedRows_upTo_subset :
    (db.upTo time).countedRows contestId status value ⊆ db.countedRows contestId status value := by
  rintro ⟨k, v⟩ h
  obtain ⟨r, hr, hk, hv⟩ := mem_countedRows.mp h
  exact mem_countedRows.mpr ⟨r, (counts_upTo.mp hr).1, hk, hv⟩

/-- The rows in time cover all rows exactly if they cover the late ones. -/
theorem covered_iff {better : V → V → Prop} (hrefl : ∀ v, better v v) :
    Covered db contestId status time value better ↔
      ∀ k v, (k, v) ∈ db.countedRows contestId status value →
        ∃ v', (k, v') ∈ (db.upTo time).countedRows contestId status value ∧ better v' v := by
  simp only [mem_countedRows, counts_upTo]
  constructor
  · rintro h k v ⟨r, hr, hk, hv⟩
    by_cases ht : r.createdAt ≤ time
    · exact ⟨v, ⟨r, ⟨hr, ht⟩, hk, hv⟩, hrefl v⟩
    · obtain ⟨r', v', hr', ht', hu, hp, hv', hb⟩ := h r v hr (not_le.mp ht) hv
      exact ⟨v', ⟨r', ⟨hr', ht'⟩, (groupKey_congr hu hp).trans hk, hv'⟩, hb⟩
  · intro h r v hr _ hv
    obtain ⟨k, hk⟩ := isSome_groupKey hr.user
    obtain ⟨v', ⟨r', ⟨hr', ht'⟩, hk', hv'⟩, hb⟩ := h k v ⟨r, hr, hk, hv⟩
    obtain ⟨-, hu, hp⟩ := groupKey_eq_some hk
    obtain ⟨-, hu', hp'⟩ := groupKey_eq_some hk'
    exact ⟨r', v', hr', ht', hu'.trans hu.symm, hp'.trans hp.symm, hv', hb⟩

theorem ofGroup_injective : Function.Injective (ResultRow.ofGroup (V := V)) := by
  rintro ⟨⟨u, n, p⟩, v⟩ ⟨⟨u', n', p'⟩, v'⟩ h
  injection h with h₁ h₂ h₃ h₄
  cases h₁
  cases h₂
  cases h₃
  cases h₄
  rfl

/-! ## Without the late submissions -/

theorem firstAcsForContest_upTo_iff :
    (db.upTo time).firstAcsForContest contestId = db.firstAcsForContest contestId ↔
      Covered db contestId "accepted" time (fun r => some r.createdAt) (· ≤ ·) := by
  rw [Db.firstAcsForContest, Db.firstAcsForContest, List.map_inj_right ofGroup_injective,
    groupBy_min?_eq_iff countedRows_upTo_subset]
  exact (covered_iff fun v => le_refl v).symm

theorem bestScoresForContest_upTo_iff :
    (db.upTo time).bestScoresForContest contestId = db.bestScoresForContest contestId ↔
      Covered db contestId "scored" time (·.score) (fun v' v => v ≤ v') := by
  rw [Db.bestScoresForContest, Db.bestScoresForContest, List.map_inj_right ofGroup_injective,
    groupBy_max?_eq_iff countedRows_upTo_subset]
  refine Iff.symm (covered_iff ?_)
  exact fun v => le_refl v

theorem sameResults_upTo_iff {contest : Contest} :
    db.SameResults (db.upTo contest.endTime) contest contestId ↔ db.LateCovered contest contestId := by
  rw [Db.SameResults, Db.LateCovered]
  split_ifs
  · exact bestScoresForContest_upTo_iff
  · exact firstAcsForContest_upTo_iff

/-- The standings are a function of the results, for one order of the map. -/
theorem standingRows_congr {ext : Externals} {app : AppState} {order : HashOrder} {contest : Contest}
    {db' : Db} (hp : db'.contestProblems = db.contestProblems)
    (h : db.SameResults db' contest contestId) :
    standingRows ext app db' order contest contestId =
      standingRows ext app db order contest contestId := by
  have hcp : db'.problemsForContest contestId = db.problemsForContest contestId := by
    rw [Db.problemsForContest, Db.problemsForContest, hp]
  have hraw : rawRows ext app db' order contest contestId =
      rawRows ext app db order contest contestId := by
    rw [Db.SameResults] at h
    rw [rawRows, rawRows, hcp]
    split_ifs at h ⊢ <;> rw [h]
  rw [standingRows, standingRows, hraw]

/-- Without the late submissions, the standings are computed from the same
results exactly if the late ones that count are covered; rows and pages are
then the same. -/
theorem contestStandings_upTo (ext : Externals) (app : AppState) (db : Db) (contest : Contest)
    (contestId : String) (hc : db.getContest contestId = .ok (some contest)) :
    (db.SameResults (db.upTo contest.endTime) contest contestId ↔
      db.LateCovered contest contestId) ∧
    (db.LateCovered contest contestId → ∀ order : HashOrder,
      standingRows ext app (db.upTo contest.endTime) order contest contestId =
        standingRows ext app db order contest contestId ∧
      ∀ (session : SessionRecord) (now : Time) (page : Option Int),
        contestStandings ext app (db.upTo contest.endTime) order session now contestId page =
          contestStandings ext app db order session now contestId page) := by
  refine ⟨sameResults_upTo_iff, fun h order => ?_⟩
  have hc' : (db.upTo contest.endTime).getContest contestId = .ok (some contest) := hc
  have hrows : standingRows ext app (db.upTo contest.endTime) order contest contestId =
      standingRows ext app db order contest contestId :=
    standingRows_congr rfl (sameResults_upTo_iff.mpr h)
  refine ⟨hrows, fun session now page => ?_⟩
  unfold contestStandings
  rw [hc', hc]
  dsimp only
  rw [hrows]
  rfl

end

/-! ### Late submissions -/

/-- The contest of `contestDb`. -/
def smallContest : Contest where
  id := "c"
  title := "C"
  description := ""
  startTime := 0
  endTime := 100
  judgeType := .exact

/-- An accepted submission at a time. -/
def acceptedRow (id : Uuid) (createdAt : Time) : SubmissionRow where
  id := id
  problemId := "a"
  userId := some 1
  contestId := some "c"
  language := "cpp"
  sourceCode := ""
  status := "accepted"
  timeUsedMs := none
  memoryUsedKb := none
  stdout := some ""
  stderr := some ""
  testcaseResults := none
  score := none
  createdAt := createdAt

/-- One submission in time, and a late one. -/
def coveredDb : Db := { contestDb "a" with submissions := [acceptedRow 1 50, acceptedRow 2 200] }

theorem contestStandings_upTo_coveredDb :
    standingRows .simple .empty (coveredDb.upTo 100) .inserted smallContest "c" =
      standingRows .simple .empty coveredDb .inserted smallContest "c" := by
  have hcounts : (acceptedRow 1 50).Counts coveredDb "c" "accepted" :=
    ⟨List.mem_cons_self, rfl, rfl, _, List.mem_cons_self, rfl⟩
  refine ((contestStandings_upTo .simple .empty coveredDb smallContest "c" rfl).2 ?_ .inserted).1
  intro r v hr hlate hv
  obtain rfl : r.createdAt = v := Option.some.inj hv
  rcases List.mem_cons.mp hr.mem with rfl | h
  · exact absurd hlate (by decide)
  · obtain rfl := List.mem_singleton.mp h
    exact ⟨_, _, hcounts, by decide, rfl, rfl, rfl, by decide⟩

/-- A submission is made after the end, and accepted. -/
def lateActions : List Action :=
  contestSubmitActions 0 7 ++ judgeActions [
    .tempdir (.ok ()),
    .compiled (.ok { executable := "solution", runArgs := [], error := none, warnings := "" }),
    .ran {
      run := .ok (printing [.byte 49])
      scorer := .failed "" },
    .loopEnd]

/-- The tables after that. -/
def lateDb : Db := (Server.lastOf contestConfig (contestServer "a") lateActions).db

/-- After a late submission the user is in the standings; without it, no one is. -/
theorem contestStandings_upTo_fails :
    (Server.system contestConfig).Run (contestServer "a")
      (Server.traceOf contestConfig (contestServer "a") lateActions)
      (Server.lastOf contestConfig (contestServer "a") lateActions) ∧
    (contestServer "a").clock > smallContest.endTime ∧
    lateDb.getContest "c" = .ok (some smallContest) ∧
    standingRows .titled contestConfig.app lateDb .inserted smallContest "c" ≠
      standingRows .titled contestConfig.app (lateDb.upTo 100) .inserted smallContest "c" :=
  ⟨Server.run_traceOf _ _ _ (by decide +kernel), by decide, rfl, by decide +kernel⟩

end MikanJudge

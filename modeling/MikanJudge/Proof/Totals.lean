import MikanJudge.Proof.UserRows

/-!
# The totals of the standings

Each user with a submission that counts has one row. In an exact contest its
total is the points for the problems of the contest the user solved, and its
time that of the last first AC; in a heuristic contest the total is the sum of
the best scores. The standings are a function of the first ACs, or the best
scores, of the users.
-/

namespace MikanJudge

open MikanJudge.Lib

section

variable {ext : Externals} {app : AppState} {db db' : Db} {contest : Contest} {contestId : String}
  {us : UserRow}

theorem exactUserRow_total (h : exactTotal ext app db contestId us < 2 ^ 53) :
    (exactUserRow ext app db contest contestId us).totalScoreRaw =
        .fin (exactTotal ext app db contestId us) ∧
      (exactUserRow ext app db contest contestId us).row.totalScore =
        toString (exactTotal ext app db contestId us) := by
  have hmod : exactTotal ext app db contestId us % 2 ^ 64 = exactTotal ext app db contestId us :=
    Nat.mod_eq_of_lt (h.trans (by decide))
  simp only [exactUserRow, hmod]
  exact ⟨F64.round_natCast h, trivial⟩

theorem heuristicUserRow_total (h : F64.AddsExactly F64.round (bestScores db contestId us)) :
    (heuristicUserRow ext db contestId us).totalScoreRaw =
        .fin ((bestScores db contestId us).map F64.value).sum ∧
      (heuristicUserRow ext db contestId us).row.totalScore =
        formatScore ext (.fin ((bestScores db contestId us).map F64.value).sum) := by
  have htotal := F64.foldl_add_of_addsExactly h
  simp only [heuristicUserRow]
  exact ⟨htotal, congrArg (formatScore ext) htotal⟩

/-- A query finds the same if the aggregates of all users are the same. -/
theorem groupBy_countedRows_congr {V : Type} {status : String} {value : SubmissionRow → Option V}
    {agg : List V → Option V} (hids : (db.users.map (·.id)).Nodup) (hnil : agg [] = none)
    (husers : db'.users = db.users)
    (h : ∀ us ∈ db.users, ∀ p, agg (db'.resultsOf contestId status value us.id p) =
      agg (db.resultsOf contestId status value us.id p)) :
    groupBy agg (db'.countedRows contestId status value) =
      groupBy agg (db.countedRows contestId status value) := by
  have hkey : ∀ (db : Db) (k : GroupKey), (∀ us ∈ db.users, ∀ p, k ≠ us.groupKey p) →
      valuesAt k (db.countedRows contestId status value) = [] := by
    refine fun db k hk => valuesAt_eq_nil fun hmem => ?_
    obtain ⟨⟨k', v⟩, hv, rfl⟩ := List.mem_map.mp hmem
    obtain ⟨r, -, hg, -⟩ := mem_countedRows.mp hv
    obtain ⟨us, hus, rfl⟩ := Option.map_eq_some_iff.mp hg
    exact hk us (List.mem_of_find?_eq_some hus) r.problemId rfl
  refine (groupBy_eq_iff hnil).mpr fun k => ?_
  by_cases hk : ∃ us ∈ db.users, ∃ p, k = us.groupKey p
  · obtain ⟨us, hus, p, rfl⟩ := hk
    rw [valuesAt_countedRows hids hus, valuesAt_countedRows (husers ▸ hids) (husers ▸ hus), h us hus]
  · have hk : ∀ us ∈ db.users, ∀ p, k ≠ us.groupKey p := fun us hus p e => hk ⟨us, hus, p, e⟩
    rw [hkey db k hk, hkey db' k (husers ▸ hk)]

/-- The users' first ACs, or best scores, are the same. -/
def Db.SameBests (db db' : Db) (contest : Contest) (contestId : String) : Prop :=
  ∀ us ∈ db.users, ∀ p,
    if contest.judgeType = .heuristic then
      (db'.scores contestId us.id p).max? = (db.scores contestId us.id p).max?
    else (db'.acTimes contestId us.id p).min? = (db.acTimes contestId us.id p).min?

theorem standingRows_congr_bests (hids : (db.users.map (·.id)).Nodup) (order : HashOrder)
    (husers : db'.users = db.users) (hcp : db'.contestProblems = db.contestProblems)
    (h : db.SameBests db' contest contestId) :
    standingRows ext app db' order contest contestId =
      standingRows ext app db order contest contestId := by
  refine standingRows_congr hcp ?_
  rw [Db.SameResults]
  split_ifs with hj
  · simp only [Db.SameBests, if_pos hj] at h
    exact congrArg _ (groupBy_countedRows_congr hids rfl husers h)
  · simp only [Db.SameBests, if_neg hj] at h
    exact congrArg _ (groupBy_countedRows_congr hids rfl husers h)

/-- Each user with a submission that counts has one row in the standings, with
the total and the time that the contest problems give; and the standings are
the same for all tables with these first ACs, or best scores. -/
theorem standingRows_totals (ext : Externals) (app : AppState) (db : Db) (contest : Contest)
    (contestId : String) (order : HashOrder) (hids : (db.users.map (·.id)).Nodup) :
    (contest.judgeType = .exact →
      (∀ us ∈ db.standingUsers contest contestId, exactTotal ext app db contestId us < 2 ^ 53) →
      ((rawRows ext app db order contest contestId).map fun r =>
          (r.row.username, r.totalScoreRaw, r.lastAcRaw)).Perm
        ((db.standingUsers contest contestId).map fun us =>
          (us.username, .fin (exactTotal ext app db contestId us), lastAc db contestId us)) ∧
      ((standingRows ext app db order contest contestId).map fun row =>
          (row.username, row.totalScore, row.elapsedFromStart)).Perm
        ((db.standingUsers contest contestId).map fun us =>
          (us.username, toString (exactTotal ext app db contestId us),
            (lastAc db contestId us).map fun t => fmtElapsed (contest.elapsed t)))) ∧
    (contest.judgeType = .heuristic →
      (∀ us ∈ db.standingUsers contest contestId,
        F64.AddsExactly F64.round (bestScores db contestId us)) →
      ((rawRows ext app db order contest contestId).map fun r =>
          (r.row.username, r.totalScoreRaw, r.lastAcRaw)).Perm
        ((db.standingUsers contest contestId).map fun us =>
          (us.username, .fin ((bestScores db contestId us).map F64.value).sum, none)) ∧
      ((standingRows ext app db order contest contestId).map fun row =>
          (row.username, row.totalScore, row.elapsedFromStart)).Perm
        ((db.standingUsers contest contestId).map fun us =>
          (us.username, formatScore ext (.fin ((bestScores db contestId us).map F64.value).sum),
            none))) ∧
    ∀ db' : Db, db'.users = db.users → db'.contestProblems = db.contestProblems →
      db.SameBests db' contest contestId →
      standingRows ext app db' order contest contestId =
        standingRows ext app db order contest contestId := by
  have hraw := (rawRows_perm ext app contest contestId hids order).map fun r =>
    (r.row.username, r.totalScoreRaw, r.lastAcRaw)
  have hrows := map_standingRows_perm ext app contest contestId hids order (f := fun row =>
      (row.username, row.totalScore, row.elapsedFromStart)) fun _ => rfl
  rw [List.map_map] at hraw
  refine ⟨fun hj h => ⟨hraw.trans (.of_eq ?_), hrows.trans (.of_eq ?_)⟩,
    fun hj h => ⟨hraw.trans (.of_eq ?_), hrows.trans (.of_eq ?_)⟩,
    fun db' husers hcp hb => standingRows_congr_bests hids order husers hcp hb⟩
  · refine List.map_congr_left fun us hus => ?_
    rw [Function.comp, userRow, if_neg (by rw [hj]; decide), (exactUserRow_total (h us hus)).1]
    rfl
  · refine List.map_congr_left fun us hus => ?_
    rw [userRow, if_neg (by rw [hj]; decide), (exactUserRow_total (h us hus)).2]
    rfl
  · refine List.map_congr_left fun us hus => ?_
    rw [Function.comp, userRow, if_pos hj, (heuristicUserRow_total (h us hus)).1]
    rfl
  · refine List.map_congr_left fun us hus => ?_
    rw [userRow, if_pos hj, (heuristicUserRow_total (h us hus)).2]
    rfl

end

/-! ### Two problems -/

/-- Whole numbers whose sums are small are added up exactly. -/
theorem addsExactly_pair {m n : ℕ} (h : m + n < 2 ^ 53) :
    F64.AddsExactly F64.round [.fin m, .fin n] := by
  refine ⟨?_, fun k => ?_⟩
  · exact List.forall_mem_cons.mpr ⟨rfl, List.forall_mem_singleton.mpr rfl⟩
  · rcases k with _ | _ | k
    · exact F64.round_natCast (n := 0) (by decide)
    · rw [List.take_succ_cons, List.take_zero, List.map_cons, List.map_nil, List.sum_singleton]
      exact F64.round_natCast (by omega)
    · rw [List.take_succ_cons, List.take_succ_cons, List.take_nil]
      simp only [List.map_cons, List.map_nil, List.sum_cons, List.sum_nil, add_zero]
      change F64.round ((m : ℚ) + n) = .fin ((m : ℚ) + n)
      rw [← Nat.cast_add]
      exact F64.round_natCast h

theorem addsExactly_singleton {n : ℕ} (h : n < 2 ^ 53) : F64.AddsExactly F64.round [.fin n] := by
  refine ⟨List.forall_mem_singleton.mpr rfl, fun k => ?_⟩
  cases k with
  | zero => exact F64.round_natCast (n := 0) (by decide)
  | succ k =>
    rw [List.take_succ_cons, List.take_nil, List.map_cons, List.map_nil, List.sum_singleton]
    exact F64.round_natCast h

theorem plainName_a : plainName "a" = true := by decide

theorem plainName_b : plainName "b" = true := by decide

def twoProblemsApp : AppState :=
  { AppState.empty with
    fs := smallTree [(⟨"a", plainName_a⟩, smallProblem [] []), (⟨"b", plainName_b⟩, smallProblem [] [])]
      [] }

/-- Two users, and a contest with two problems. -/
def twoProblemsDb (submissions : List SubmissionRow) : Db where
  users := [
    { id := 1, username := "alice", passwordHash := "", defaultLanguage := none },
    { id := 2, username := "bob", passwordHash := "", defaultLanguage := none }]
  contests := (contestDb "a").contests
  contestProblems := [
    { contestId := "c", problemId := "a", displayOrder := 1, label := "A" },
    { contestId := "c", problemId := "b", displayOrder := 2, label := "B" }]
  submissions := submissions

/-- One user has solved both problems, the other the first. -/
def acceptedRows : List SubmissionRow := [
  acceptedRow 1 3000000,
  { acceptedRow 2 3661000000 with problemId := "b" },
  { acceptedRow 3 5000000 with userId := some 2 }]

/-- A submission with a score. -/
def scoredRow (id : Uuid) (score : F64) : SubmissionRow :=
  { acceptedRow id 50 with status := "scored", score := some score }

/-- Two scores of one user for the first problem and one for the second, and one of
the other user. -/
def scoredRows : List SubmissionRow := [
  scoredRow 1 (.fin 3),
  scoredRow 2 (.fin 5),
  { scoredRow 3 (.fin 2) with problemId := "b" },
  { scoredRow 4 (.fin 4) with userId := some 2 }]

/-- A submission that changes no first AC. -/
def wrongRow : SubmissionRow :=
  { acceptedRow 5 70 with userId := some 2, problemId := "b", status := "wrong_answer" }

theorem standingRows_totals_two :
    ((standingRows .titled twoProblemsApp (twoProblemsDb acceptedRows) .inserted smallContest
        "c").map fun row => (row.username, row.totalScore, row.elapsedFromStart)).Perm
      [("alice", "200", some "1:01:01"), ("bob", "100", some "0:00:05")] ∧
    ((rawRows .titled twoProblemsApp (twoProblemsDb scoredRows) .inserted
        { smallContest with judgeType := .heuristic } "c").map fun r =>
        (r.row.username, r.totalScoreRaw, r.lastAcRaw)).Perm
      [("alice", .fin 7, none), ("bob", .fin 4, none)] ∧
    standingRows .titled twoProblemsApp (twoProblemsDb (acceptedRows ++ [wrongRow])) .inserted
        smallContest "c" =
      standingRows .titled twoProblemsApp (twoProblemsDb acceptedRows) .inserted smallContest "c" := by
  obtain ⟨hexact, -, hbests⟩ := standingRows_totals .titled twoProblemsApp
    (twoProblemsDb acceptedRows) smallContest "c" .inserted (by decide)
  obtain ⟨-, hheuristic, -⟩ := standingRows_totals .titled twoProblemsApp
    (twoProblemsDb scoredRows) { smallContest with judgeType := .heuristic } "c" .inserted (by decide)
  refine ⟨(hexact rfl (by decide +kernel)).2.trans (.of_eq (by decide +kernel)),
    (hheuristic rfl fun us hus => ?_).1.trans (.of_eq (by decide +kernel)), hbests _ rfl rfl ?_⟩
  · have hbest : bestScores (twoProblemsDb scoredRows) "c" us = [.fin 5, .fin 2] ∨
        bestScores (twoProblemsDb scoredRows) "c" us = [.fin 4] := by
      revert us
      decide +kernel
    rcases hbest with h | h <;> rw [h]
    · exact addsExactly_pair (m := 5) (n := 2) (by decide)
    · exact addsExactly_singleton (n := 4) (by decide)
  · intro us _ p
    -- no query counts the wrong answer
    rw [if_neg (by decide), Db.acTimes, Db.acTimes, Db.resultsOf, Db.resultsOf]
    simp [twoProblemsDb, wrongRow]

end MikanJudge

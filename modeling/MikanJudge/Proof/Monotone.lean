import MikanJudge.Proof.HashOrder
import Mathlib.Algebra.Order.BigOperators.Group.List

/-!
# One more accepted submission

An accepted submission later than all others, to a problem of the contest,
changes the row of its user only. The points do not fall. But the time of the
last AC is that of the problem solved last, also when there are no points for
it: such a submission puts the user behind others with as many points.
-/

namespace MikanJudge

open MikanJudge.Lib

/-- The table with one more submission. -/
def Db.withSubmission (db : Db) (r : SubmissionRow) : Db :=
  { db with submissions := db.submissions ++ [r] }

/-- A row comes after another: fewer points, or as many and a later last AC. -/
def RowWithRaw.PlacedAfter (a b : RowWithRaw) : Prop :=
  a.totalScoreRaw < b.totalScoreRaw ∨ a.totalScoreRaw = b.totalScoreRaw ∧ b.time < a.time

instance (a b : RowWithRaw) : Decidable (a.PlacedAfter b) :=
  @instDecidableOr _ _ inferInstance
    (@instDecidableAnd _ _ inferInstance (WithTop.decidableLT b.time a.time))

section

variable {ext : Externals} {app : AppState} {db : Db} {contest : Contest} {contestId : String}
  {r : SubmissionRow} {us : UserRow}

theorem acTimes_withSubmission (hc : r.contestId = some contestId) (hs : r.status = "accepted")
    (v : Uuid) (p : String) :
    (db.withSubmission r).acTimes contestId v p =
      db.acTimes contestId v p ++ if r.userId = some v ∧ r.problemId = p then [r.createdAt] else [] := by
  rw [Db.acTimes, Db.acTimes, Db.resultsOf, Db.resultsOf, Db.withSubmission, List.filter_append,
    List.filterMap_append]
  refine congrArg _ ?_
  split_ifs with h
  · rw [List.filter_cons_of_pos (by simp [hc, hs, h]), List.filter_nil]
    rfl
  · rw [List.filter_cons_of_neg (by simpa [hc, hs] using h), List.filter_nil, List.filterMap_nil]

/-- A later time changes the first one only where there was none. -/
theorem min?_append_singleton {ts : List Time} {t : Time} (h : ∀ u ∈ ts, u ≤ t) :
    (ts ++ [t]).min? = some (ts.min?.getD t) := by
  cases hm : ts.min? with
  | none => rw [List.min?_eq_none_iff.mp hm]; rfl
  | some m =>
    obtain ⟨hmem, hle⟩ := List.min?_eq_some_iff.mp hm
    refine List.min?_eq_some_iff.mpr ⟨List.mem_append_left _ hmem, fun u hu => ?_⟩
    rcases List.mem_append.mp hu with hu | hu
    · exact hle u hu
    · rw [List.mem_singleton.mp hu]
      exact h m hmem

/-- The first AC of each problem, with a later submission. -/
theorem min?_acTimes_withSubmission (hc : r.contestId = some contestId) (hs : r.status = "accepted")
    (hlater : ∀ s ∈ db.submissions, s.createdAt < r.createdAt) (v : Uuid) (p : String) :
    ((db.withSubmission r).acTimes contestId v p).min? =
      if r.userId = some v ∧ r.problemId = p then
        some ((db.acTimes contestId v p).min?.getD r.createdAt)
      else (db.acTimes contestId v p).min? := by
  rw [acTimes_withSubmission hc hs]
  split_ifs with h
  · refine min?_append_singleton fun u hu => ?_
    obtain ⟨s, hs, e⟩ := List.mem_filterMap.mp hu
    cases e
    exact (hlater s (List.mem_of_mem_filter hs)).le
  · rw [List.append_nil]

/-- Rows are a function of the first ACs. -/
theorem exactUserRow_congr {db' : Db} (hcp : db'.contestProblems = db.contestProblems)
    (h : ∀ p, (db'.acTimes contestId us.id p).min? = (db.acTimes contestId us.id p).min?) :
    exactUserRow ext app db' contest contestId us = exactUserRow ext app db contest contestId us := by
  simp only [exactUserRow, exactTotal, lastAc, h, Db.problemsForContest, hcp]

/-- The points do not fall if what was solved is. -/
theorem exactTotal_mono {db' : Db} (hcp : db'.contestProblems = db.contestProblems)
    (h : ∀ p, (db.acTimes contestId us.id p).min?.isSome = true →
      (db'.acTimes contestId us.id p).min?.isSome = true) :
    exactTotal ext app db contestId us ≤ exactTotal ext app db' contestId us := by
  have hproblems : db'.problemsForContest contestId = db.problemsForContest contestId := by
    rw [Db.problemsForContest, Db.problemsForContest, hcp]
  rw [exactTotal, exactTotal, hproblems]
  have hsub := (List.monotone_filter_right (db.problemsForContest contestId)
    fun cp : ContestProblem => h cp.problemId).map fun cp => problemScore ext app cp.problemId
  exact hsub.sum_le_sum fun _ _ => Nat.zero_le _

/-- A problem solved for the first time is the one solved last. -/
theorem lastAc_withSubmission (hc : r.contestId = some contestId) (hs : r.status = "accepted")
    (hu : r.userId = some us.id)
    (hp : ∃ cp ∈ db.problemsForContest contestId, cp.problemId = r.problemId)
    (hlater : ∀ s ∈ db.submissions, s.createdAt < r.createdAt)
    (hnew : (db.acTimes contestId us.id r.problemId).min? = none) :
    lastAc (db.withSubmission r) contestId us = some r.createdAt := by
  rw [lastAc]
  refine List.max?_eq_some_iff.mpr ⟨?_, fun t ht => ?_⟩
  · obtain ⟨cp, hcp, e⟩ := hp
    refine List.mem_filterMap.mpr ⟨cp, hcp, ?_⟩
    rw [min?_acTimes_withSubmission hc hs hlater, if_pos ⟨hu, e.symm⟩, e, hnew]
    rfl
  · obtain ⟨cp, -, hm⟩ := List.mem_filterMap.mp ht
    obtain ⟨s, hs, e⟩ := List.mem_filterMap.mp (List.min?_mem hm)
    cases e
    rcases List.mem_append.mp (List.mem_of_mem_filter hs) with hs | hs
    · exact (hlater s hs).le
    · rw [List.mem_singleton.mp hs]

/-- The total as a double does not fall, unless the points overflow. -/
theorem totalScoreRaw_mono {db' : Db} (h : exactTotal ext app db contestId us ≤
    exactTotal ext app db' contestId us) (hmax : exactTotal ext app db' contestId us < 2 ^ 64) :
    (exactUserRow ext app db contest contestId us).totalScoreRaw ≤
      (exactUserRow ext app db' contest contestId us).totalScoreRaw := by
  simp only [exactUserRow, Nat.mod_eq_of_lt hmax, Nat.mod_eq_of_lt (h.trans_lt hmax)]
  exact F64.round_mono (Nat.cast_nonneg _) (Nat.cast_le.mpr h)

section

variable (hj : contest.judgeType ≠ .heuristic) (hc : r.contestId = some contestId)
  (hs : r.status = "accepted") (hlater : ∀ s ∈ db.submissions, s.createdAt < r.createdAt)

include hj hc hs hlater

theorem userRow_withSubmission_of_ne (hne : r.userId ≠ some us.id) :
    userRow ext app (db.withSubmission r) contest contestId us =
      userRow ext app db contest contestId us := by
  rw [userRow, userRow, if_neg hj, if_neg hj]
  refine exactUserRow_congr rfl fun p => ?_
  rw [min?_acTimes_withSubmission hc hs hlater, if_neg fun h => hne h.1]

/-- If the problem was solved before, the first AC is still the first, and the
row the same. -/
theorem userRow_withSubmission_of_solved
    (hsolved : (db.acTimes contestId us.id r.problemId).min? ≠ none) :
    userRow ext app (db.withSubmission r) contest contestId us =
      userRow ext app db contest contestId us := by
  rw [userRow, userRow, if_neg hj, if_neg hj]
  refine exactUserRow_congr rfl fun p => ?_
  rw [min?_acTimes_withSubmission hc hs hlater]
  split_ifs with hp
  · obtain ⟨t, ht⟩ := Option.ne_none_iff_exists'.mp hsolved
    rw [← hp.2, ht]
    rfl
  · rfl

theorem totalScoreRaw_withSubmission
    (hmax : exactTotal ext app (db.withSubmission r) contestId us < 2 ^ 64) :
    (userRow ext app db contest contestId us).totalScoreRaw ≤
      (userRow ext app (db.withSubmission r) contest contestId us).totalScoreRaw := by
  rw [userRow, userRow, if_neg hj, if_neg hj]
  refine totalScoreRaw_mono (exactTotal_mono rfl fun p hsome => ?_) hmax
  rw [min?_acTimes_withSubmission hc hs hlater]
  split_ifs
  · rfl
  · exact hsome

/-- With more points, or as many where there was no last AC, a user placed
after a row was placed after it before. -/
theorem placedAfter_of_withSubmission (hu : r.userId = some us.id)
    (hp : ∃ cp ∈ db.problemsForContest contestId, cp.problemId = r.problemId)
    (hmax : exactTotal ext app (db.withSubmission r) contestId us < 2 ^ 64)
    (hnew : (db.acTimes contestId us.id r.problemId).min? = none)
    (h : (userRow ext app db contest contestId us).totalScoreRaw <
        (userRow ext app (db.withSubmission r) contest contestId us).totalScoreRaw ∨
      lastAc db contestId us = none) {b : RowWithRaw}
    (hafter : (userRow ext app (db.withSubmission r) contest contestId us).PlacedAfter b) :
    (userRow ext app db contest contestId us).PlacedAfter b := by
  have hmono := totalScoreRaw_withSubmission hj hc hs hlater hmax
  rcases hafter with hlt | ⟨heq, htime'⟩
  · exact .inl (hmono.trans_lt hlt)
  · rcases hmono.lt_or_eq with hlt | heq'
    · exact .inl (hlt.trans_eq heq)
    · have hnone : lastAc db contestId us = none := h.elim (fun h => absurd heq' h.ne) id
      have htop : (userRow ext app db contest contestId us).time = ⊤ :=
        time_eq_top (by rw [lastAcRaw_userRow, if_neg hj, hnone])
      have htime : (userRow ext app (db.withSubmission r) contest contestId us).time =
          r.createdAt :=
        time_eq_coe (by rw [lastAcRaw_userRow, if_neg hj,
          lastAc_withSubmission hc hs hu hp hlater hnew])
      refine .inr ⟨heq'.trans heq, ?_⟩
      rw [htop]
      exact (htime ▸ htime').trans (WithTop.coe_lt_top _)

end

theorem mem_standingUsers_withSubmission (hj : contest.judgeType ≠ .heuristic)
    (hne : r.userId ≠ some us.id) :
    us ∈ (db.withSubmission r).standingUsers contest contestId ↔
      us ∈ db.standingUsers contest contestId := by
  simp only [Db.standingUsers, if_neg hj, Db.participants, Db.withSubmission, List.mem_filter,
    List.any_append, List.any_cons, List.any_nil]
  simp [hne]

/-- One more accepted submission of a user, later than all others, leaves the rows of
the other users as they are; the user's total does not fall; and no one the user was
not placed after comes before, if the total rises, or the problem was solved before,
or there was no last AC. -/
theorem one_more_accepted (ext : Externals) (app : AppState) (db : Db) (contest : Contest)
    (contestId : String) (r : SubmissionRow) (us : UserRow) (hids : (db.users.map (·.id)).Nodup)
    (hj : contest.judgeType = .exact) (hus : us ∈ db.users) (hu : r.userId = some us.id)
    (hc : r.contestId = some contestId) (hs : r.status = "accepted")
    (hp : ∃ cp ∈ db.problemsForContest contestId, cp.problemId = r.problemId)
    (hlater : ∀ s ∈ db.submissions, s.createdAt < r.createdAt)
    (hmax : exactTotal ext app (db.withSubmission r) contestId us < 2 ^ 64) :
    (∀ order : HashOrder, (rawRows ext app (db.withSubmission r) order contest contestId).Perm
      (((db.withSubmission r).standingUsers contest contestId).map
        (userRow ext app (db.withSubmission r) contest contestId))) ∧
    (userRow ext app db contest contestId us).totalScoreRaw ≤
      (userRow ext app (db.withSubmission r) contest contestId us).totalScoreRaw ∧
    (∀ v ∈ db.users, v ≠ us →
      userRow ext app (db.withSubmission r) contest contestId v =
        userRow ext app db contest contestId v ∧
      (v ∈ (db.withSubmission r).standingUsers contest contestId ↔
        v ∈ db.standingUsers contest contestId)) ∧
    (((userRow ext app db contest contestId us).totalScoreRaw <
          (userRow ext app (db.withSubmission r) contest contestId us).totalScoreRaw ∨
        (db.acTimes contestId us.id r.problemId).min? ≠ none ∨ lastAc db contestId us = none) →
      ∀ v ∈ db.users, v ≠ us →
        ¬ (userRow ext app db contest contestId us).PlacedAfter
          (userRow ext app db contest contestId v) →
        ¬ (userRow ext app (db.withSubmission r) contest contestId us).PlacedAfter
          (userRow ext app (db.withSubmission r) contest contestId v)) := by
  have hj' : contest.judgeType ≠ .heuristic := by rw [hj]; decide
  have hother : ∀ v ∈ db.users, v ≠ us → r.userId ≠ some v.id := by
    intro v hv hne e
    rw [hu, Option.some.injEq] at e
    exact hne (List.inj_on_of_nodup_map hids hv hus e.symm)
  refine ⟨rawRows_perm ext app contest contestId hids,
    totalScoreRaw_withSubmission hj' hc hs hlater hmax, fun v hv hne => ⟨?_, ?_⟩, ?_⟩
  · exact userRow_withSubmission_of_ne hj' hc hs hlater (hother v hv hne)
  · exact mem_standingUsers_withSubmission hj' (hother v hv hne)
  · intro h v hv hne hbefore hafter
    rw [userRow_withSubmission_of_ne hj' hc hs hlater (hother v hv hne)] at hafter
    refine hbefore ?_
    by_cases hnew : (db.acTimes contestId us.id r.problemId).min? = none
    · have h' := h.imp_right (Or.resolve_left · (not_not.mpr hnew))
      exact placedAfter_of_withSubmission hj' hc hs hlater hu hp hmax hnew h' hafter
    · rwa [userRow_withSubmission_of_solved hj' hc hs hlater hnew] at hafter

end

/-! ### A problem without points -/

def aliceRow : UserRow := { id := 1, username := "alice", passwordHash := "", defaultLanguage := none }

def bobRow : UserRow := { id := 2, username := "bob", passwordHash := "", defaultLanguage := none }

/-- Another AC of a problem that both users have solved. -/
theorem one_more_accepted_again :
    (userRow .titled contestConfig.app (twoSolvedDb 50 60) smallContest "c" aliceRow).totalScoreRaw ≤
      (userRow .titled contestConfig.app ((twoSolvedDb 50 60).withSubmission (acceptedRow 3 70))
        smallContest "c" aliceRow).totalScoreRaw ∧
    userRow .titled contestConfig.app ((twoSolvedDb 50 60).withSubmission (acceptedRow 3 70))
        smallContest "c" bobRow =
      userRow .titled contestConfig.app (twoSolvedDb 50 60) smallContest "c" bobRow ∧
    ¬ (userRow .titled contestConfig.app ((twoSolvedDb 50 60).withSubmission (acceptedRow 3 70))
        smallContest "c" aliceRow).PlacedAfter
      (userRow .titled contestConfig.app ((twoSolvedDb 50 60).withSubmission (acceptedRow 3 70))
        smallContest "c" bobRow) := by
  obtain ⟨-, htotal, hothers, hplace⟩ := one_more_accepted .titled contestConfig.app
    (twoSolvedDb 50 60) smallContest "c" (acceptedRow 3 70) aliceRow (by decide) rfl (by decide) rfl
    rfl rfl (by decide) (by decide) (by decide +kernel)
  exact ⟨htotal, (hothers bobRow (by decide) (by decide)).1,
    hplace (.inr (.inl (by decide))) bobRow (by decide) (by decide) (by decide +kernel)⟩

/-- A contest with a second problem, which does not load. -/
def unloadableDb : Db :=
  { twoSolvedDb 50 60 with
    contestProblems := [
      { contestId := "c", problemId := "a", displayOrder := 1, label := "A" },
      { contestId := "c", problemId := "z", displayOrder := 2, label := "B" }] }

/-- A later AC of that problem. -/
def unloadableRow : SubmissionRow := { acceptedRow 3 70 with problemId := "z" }

/-- It puts the user behind one with as many points. -/
theorem one_more_accepted_fails :
    (∀ s ∈ unloadableDb.submissions, s.createdAt < unloadableRow.createdAt) ∧
    (∃ cp ∈ unloadableDb.problemsForContest "c", cp.problemId = unloadableRow.problemId) ∧
    unloadableRow.status = "accepted" ∧ unloadableRow.userId = some aliceRow.id ∧
    unloadableRow.contestId = some "c" ∧
    ¬ (userRow .titled contestConfig.app unloadableDb smallContest "c" aliceRow).PlacedAfter
      (userRow .titled contestConfig.app unloadableDb smallContest "c" bobRow) ∧
    (userRow .titled contestConfig.app (unloadableDb.withSubmission unloadableRow)
      smallContest "c" aliceRow).PlacedAfter
      (userRow .titled contestConfig.app (unloadableDb.withSubmission unloadableRow)
        smallContest "c" bobRow) := by
  refine ⟨by decide, by decide, rfl, rfl, rfl, by decide +kernel, by decide +kernel⟩

end MikanJudge

import MikanJudge.Proof.Jobs
import MikanJudge.Proof.UserRows

/-!
# Contest submissions and the problems of the contest

`contest_problem_submit` takes the contest and the problem from the path. It
loads both, but does not look whether the contest has the problem. As long as
every request it inserts for names a listed problem, every contest submission
is for a problem of its contest, and so is each the standings show a user for.
-/

namespace MikanJudge

open MikanJudge.Lib

/-- The contest has the problem. -/
def Db.lists (db : Db) (contestId problemId : String) : Bool :=
  db.contestProblems.any fun cp => cp.contestId == contestId && cp.problemId == problemId

/-- Every contest submission is for a problem of its contest. -/
def Db.RowsListed (db : Db) : Prop :=
  ∀ r ∈ db.submissions, ∀ c, r.contestId = some c → db.lists c r.problemId = true

/-- A request to `contest_problem_submit` about to be inserted is for a
problem of the contest. -/
def Server.insertListed (s : Server) : Action → Bool
  | .insert i true => (s.requests[i]?).all fun q =>
    match q.route with
    | .contestProblem contestId problemId _ => s.db.lists contestId problemId
    | _ => true
  | _ => true

section

variable {cfg : Config} {s t : Server} {a : Action}

/-! ## Where the rows come from -/

/-- The contest and the problem of a task are those of its route. -/
theorem route_of_check {ext : Externals} {app : AppState} {db : Db} {session : SessionRecord}
    {now₁ now₂ : Time} {id : Uuid} {route : SubmitRoute} {task : SubmitTask} {c : String}
    (h : route.check ext app db session now₁ now₂ id = .ok task)
    (hc : task.sub.contestId = some c) :
    ∃ form, route = .contestProblem c task.sub.problemId form := by
  cases route with
  | contestProblem contestId problemId form =>
    obtain ⟨_, _, _, _, _, _, _, _, rfl⟩ := contestProblemSubmit_ok h
    obtain rfl : contestId = c := Option.some.inj hc
    exact ⟨form, rfl⟩
  | problem problemId form =>
    obtain ⟨_, _, _, rfl⟩ := problemsSubmit_ok h
    cases hc
  | api req =>
    rw [(apiSubmit_ok h).2.2.1] at hc
    cases hc

/-- The problems of the contests stay as they are. -/
theorem contestProblems_of_step (h : ServerStep cfg s a t) :
    t.db.contestProblems = s.db.contestProblems := by
  cases h with
  | tick | arrive | restart => rfl
  | account => exact (AccountRoute.sameWork _ _ _ _).contestProblems
  | worker _ h =>
    cases h with
    | lock | recv | event => rfl
    | @start job connected => cases connected <;> rfl
    | @finish job u connected => cases connected <;> rfl
  | request _ h =>
    cases h with
    | refuse | check | insertFail | record | send | respond | cancel => rfl
    | insert _ hi =>
      obtain ⟨-, rfl⟩ := insertSubmission_ok hi
      rfl

/-! ## Over a run -/

/-- Contest submissions are for problems of the contest, and those about to be
inserted are what their routes say. -/
structure ListedInv (s : Server) : Prop where
  rows : s.db.RowsListed
  routed : ∀ q ∈ s.requests, ∀ task c, q.stage = .checked task → task.sub.contestId = some c →
    ∃ form, q.route = .contestProblem c task.sub.problemId form

theorem ListedInv.step (hi : ListedInv s) (h : ServerStep cfg s a t)
    (ha : s.insertListed a = true) : ListedInv t where
  rows := by
    have hlists : t.db.lists = s.db.lists := by
      funext c p
      rw [Db.lists, Db.lists, contestProblems_of_step h]
    intro r hr c hc
    rw [hlists]
    rcases row_of_step h hr with ⟨r₀, hr₀, hw⟩ | ⟨i, q, task, rfl, hq, hs, rfl⟩
    · exact hw.problemId ▸ hi.rows r₀ hr₀ c (hw.contestId ▸ hc)
    · obtain ⟨form, hroute⟩ := hi.routed q (List.mem_of_getElem? hq) task c hs hc
      simp only [Server.insertListed, hq, Option.all_some, hroute] at ha
      exact ha
  routed := by
    intro q hq task c hs hc
    rcases checked_of_step h hq hs with hq | ⟨q₀, hq₀, hcheck, rfl⟩
    · exact hi.routed q hq task c hs hc
    · exact route_of_check hcheck hc

theorem rowsListed_of_run {tr : List (Server × Action)} (hs : (Server.system cfg).init s)
    (h : (Server.system cfg).Run s tr t) (hrows : s.db.RowsListed)
    (hm : ∀ e ∈ tr, e.1.insertListed e.2 = true) : t.db.RowsListed := by
  obtain ⟨clock, db, sessions, rfl⟩ := hs
  exact (h.invariant_of_forall (fun s a t hi ha hst => hi.step (step_cases hst) ha) hm
    (I := ListedInv) ⟨hrows, fun q hq => nomatch hq⟩).rows

end

/-! ## Who is in the standings -/

/-- The status that counts in a contest. -/
def Contest.countedStatus (c : Contest) : String :=
  if c.judgeType = .heuristic then "scored" else "accepted"

section

variable {V : Type} {ext : Externals}

/-- A result of a query comes from a submission it counts. -/
theorem mem_map_ofGroup {db : Db} {contestId status : String} {value : SubmissionRow → Option V}
    {agg : List V → Option V} (hagg : ∀ vs v, agg vs = some v → v ∈ vs) {row : ResultRow V}
    (h : row ∈ (groupBy agg (db.countedRows contestId status value)).map .ofGroup) :
    ∃ u ∈ db.users, ∃ r, r.Counts db contestId status ∧ u.username = row.username ∧
      r.userId = some u.id ∧ value r = some row.value := by
  obtain ⟨⟨k, v⟩, hk, rfl⟩ := List.mem_map.mp h
  have hnil : agg [] = none := by
    cases e : agg [] with
    | none => rfl
    | some v => exact absurd (hagg _ _ e) List.not_mem_nil
  have hv := mem_valuesAt.mp (hagg _ _ ((mem_groupBy hnil).mp hk))
  obtain ⟨r, hr, hg, hval⟩ := mem_countedRows.mp hv
  obtain ⟨u, hu, rfl⟩ := Option.map_eq_some_iff.mp hg
  have hid := List.find?_some hu
  rw [beq_iff_eq] at hid
  exact ⟨u, List.mem_of_find?_eq_some hu, r, hr, rfl, hid, hval⟩

end

/-- Everyone in the standings of a contest has a submission to it that counts:
an accepted one, or in a heuristic contest one with a score. -/
theorem mem_standingRows {ext : Externals} {app : AppState} {db : Db} {order : HashOrder}
    {contest : Contest} {contestId : String} {row : StandingRow}
    (h : row ∈ standingRows ext app db order contest contestId) :
    ∃ u ∈ db.users, ∃ r : SubmissionRow, r.Counts db contestId contest.countedStatus ∧
      u.username = row.username ∧ r.userId = some u.id ∧ (contest.judgeType = .heuristic → r.score ≠ none) := by
  obtain ⟨raw, hraw, e⟩ := mem_standingRows_raw h
  rw [rawRows] at hraw
  rw [e, Contest.countedStatus]
  dsimp only at hraw ⊢
  split_ifs at hraw ⊢ with hh
  · obtain ⟨ud, hud, rfl⟩ := List.mem_map.mp hraw
    obtain ⟨res, hres, eu⟩ := mem_values_userMap hud
    obtain ⟨u, hu, r, hr, eu', hid, hv⟩ := mem_map_ofGroup (fun _ _ => List.max?_mem) hres
    exact ⟨u, hu, r, hr, eu'.trans eu, hid, fun _ hn => by rw [hn] at hv; cases hv⟩
  · obtain ⟨ud, hud, rfl⟩ := List.mem_map.mp hraw
    obtain ⟨res, hres, eu⟩ := mem_values_userMap hud
    obtain ⟨u, hu, r, hr, eu', hid, -⟩ := mem_map_ofGroup (fun _ _ => List.min?_mem) hres
    exact ⟨u, hu, r, hr, eu'.trans eu, hid, fun hh' => absurd hh' hh⟩

/-- In a run in which every request to `contest_problem_submit` that is
inserted names a problem of its contest, every contest submission is for a
problem of its contest; and everyone in the standings of a contest has a
submission that counts to one of its problems. -/
theorem contest_submissions_listed (cfg : Config) {s t : Server} {tr : List (Server × Action)}
    (hs : (Server.system cfg).init s) (h : (Server.system cfg).Run s tr t)
    (hrows : s.db.RowsListed) (hm : ∀ e ∈ tr, e.1.insertListed e.2 = true) :
    t.db.RowsListed ∧
    ∀ (order : HashOrder) (contest : Contest) (contestId : String),
      ∀ row ∈ standingRows cfg.ext cfg.app t.db order contest contestId,
        ∃ u ∈ t.db.users, ∃ r ∈ t.db.submissions, u.username = row.username ∧
          r.userId = some u.id ∧ r.contestId = some contestId ∧
          r.status = contest.countedStatus ∧ (contest.judgeType = .heuristic → r.score ≠ none) ∧
          t.db.lists contestId r.problemId = true := by
  have hl := rowsListed_of_run hs h hrows hm
  refine ⟨hl, fun order contest contestId row hrow => ?_⟩
  obtain ⟨u, hu, r, hr, eu, hid, hscore⟩ := mem_standingRows hrow
  exact ⟨u, hu, r, hr.mem, eu, hid, hr.contest, hr.status, hscore, hl r hr.mem _ hr.contest⟩

/-! ### A problem of no contest -/

theorem contest_submissions_listed_small :
    (Server.lastOf contestConfig (contestServer "a") (contestSubmitActions 0 7)).db.RowsListed :=
  (contest_submissions_listed contestConfig ⟨_, _, _, rfl⟩
    (Server.run_traceOf _ (contestServer "a") (contestSubmitActions 0 7) (by decide +kernel))
    (fun _ hr => nomatch hr)
    (List.all_eq_true.mp (by decide +kernel : (Server.traceOf contestConfig (contestServer "a")
      (contestSubmitActions 0 7)).all (fun e => e.1.insertListed e.2) = true))).1

/-- A submission to `a` in a contest whose only problem is `b` is inserted, and
once it is accepted its user is in the standings. -/
theorem contest_submissions_listed_fails :
    (Server.system contestConfig).Run (contestServer "b")
      (Server.traceOf contestConfig (contestServer "b") lateActions)
      (Server.lastOf contestConfig (contestServer "b") lateActions) ∧
    (contestServer "b").db.RowsListed ∧
    ¬ (Server.lastOf contestConfig (contestServer "b") lateActions).db.RowsListed ∧
    (standingRows .titled contestConfig.app
      (Server.lastOf contestConfig (contestServer "b") lateActions).db .inserted smallContest
      "c").map (·.username) = ["alice"] := by
  refine ⟨Server.run_traceOf _ _ _ (by decide +kernel), (fun _ hr => nomatch hr), fun h => ?_,
    by decide +kernel⟩
  have hrow : ∃ r ∈ (Server.lastOf contestConfig (contestServer "b") lateActions).db.submissions,
      r.contestId = some "c" ∧ (Server.lastOf contestConfig (contestServer "b") lateActions).db.lists
        "c" r.problemId = false := by decide +kernel
  obtain ⟨r, hr, hc, hf⟩ := hrow
  rw [h r hr "c" hc] at hf
  cases hf

end MikanJudge

import MikanJudge.Model.Pages

/-!
# Who sees a submission

Two states of the database that agree except on the secret columns of one
submission (`Db.withSecret`) are told apart by a route exactly if its response
depends on them (`Independent`). Under a contest, the detail page asks whether
the contest *in the path* is ongoing; the submission's own contest is never
looked at. The routes without a contest ask nothing.
-/

namespace MikanJudge

open MikanJudge.Lib

/-- The columns of a submission that are secret while its contest runs. -/
structure Secret where
  sourceCode : String
  status : String
  timeUsedMs : Option Int
  memoryUsedKb : Option Int
  stdout : Option String
  stderr : Option String
  testcaseResults : Option String
  score : Option F64

def SubmissionRow.withSecret (r : SubmissionRow) (s : Secret) : SubmissionRow :=
  { r with
    sourceCode := s.sourceCode
    status := s.status
    timeUsedMs := s.timeUsedMs
    memoryUsedKb := s.memoryUsedKb
    stdout := s.stdout
    stderr := s.stderr
    testcaseResults := s.testcaseResults
    score := s.score }

/-- The state with other secret columns of one submission. -/
def Db.withSecret (db : Db) (id : Uuid) (s : Secret) : Db :=
  { db with submissions := updateWhere id (·.withSecret s) db.submissions }

/-- Two secrets with the same time and memory. -/
def SameUsage (s₁ s₂ : Secret) : Prop :=
  s₁.timeUsedMs = s₂.timeUsedMs ∧ s₁.memoryUsedKb = s₂.memoryUsedKb

/-- A response is the same for any two secrets of the submission that agree
where they have to. -/
def Independent (agree : Secret → Secret → Prop) (db : Db) (id : Uuid)
    (respond : Db → Response) : Prop :=
  ∀ s₁ s₂, agree s₁ s₂ → respond (db.withSecret id s₁) = respond (db.withSecret id s₂)

/-- A secret of which only the code is given. -/
def Secret.ofCode (sourceCode : String) : Secret :=
  ⟨sourceCode, "pending", none, none, none, none, none, none⟩

/-- A secret of which only the status is given. -/
def Secret.ofStatus (status : String) : Secret :=
  ⟨"", status, none, none, none, none, none, none⟩

section

variable {ext : Externals} {app : AppState} {db : Db} {session : SessionRecord} {id : Uuid}
  {row : SubmissionRow} {agree : Secret → Secret → Prop}

theorem getSubmission_withSecret (hrow : db.submissions.find? (·.id == id) = some row)
    (s : Secret) :
    (db.withSecret id s).getSubmission ext id = some ((row.withSecret s).intoSubmission ext) := by
  have hf : (updateWhere id (·.withSecret s) db.submissions).find? (·.id == id) =
      (db.submissions.find? (·.id == id)).map (·.withSecret s) := find?_updateWhere fun r => rfl
  rw [Db.getSubmission, Db.withSecret, hf, hrow]
  rfl

/-- A page that is given the code is not independent of it. -/
theorem not_independent_of_field (hagree : agree (.ofCode "a") (.ofCode "b"))
    {respond : Db → Response}
    (h : ∀ code, (respond (db.withSecret id (.ofCode code))).field "source_code" =
      some (.str code)) : ¬ Independent agree db id respond := by
  intro hi
  have := congrArg (Response.field "source_code") (hi _ _ hagree)
  rw [h, h, Option.some.injEq, Json.str.injEq] at this
  exact absurd this (by decide)

/-! ## Under a contest -/

/-- Once the contest in the path has started and is not ongoing, the page
shows the code to anyone who is not the owner. -/
theorem field_contestSubmissionDetail {now₁ now₂ : Time} {contestId : String} {contest : Contest}
    (hc : db.getContest contestId = .ok (some contest)) (h₁ : contest.status now₁ ≠ .upcoming)
    (h₂ : contest.status now₂ ≠ .ongoing) (hrow : db.submissions.find? (·.id == id) = some row)
    (s : Secret) :
    (contestSubmissionDetail ext app (db.withSecret id s) session now₁ now₂ contestId id).field
      "source_code" = some (.str s.sourceCode) := by
  have hc' : (db.withSecret id s).getContest contestId = .ok (some contest) := hc
  rw [contestSubmissionDetail, hc']
  dsimp only
  rw [if_neg h₁, getSubmission_withSecret hrow s]
  dsimp only
  rw [if_neg (by simp [h₂])]
  rfl

/-- To anyone but the owner, the page of a submission under the contest in
the path is independent of the submission's secrets exactly if that contest is
missing, has not started, or is ongoing. -/
theorem independent_contestSubmissionDetail_iff (ext : Externals) (app : AppState) (db : Db)
    (session : SessionRecord) (now₁ now₂ : Time) (contestId : String) (id : Uuid)
    (row : SubmissionRow) (hrow : db.submissions.find? (·.id == id) = some row)
    (hviewer : ∀ owner, row.userId = some owner → session.userId ≠ some owner) :
    Independent (fun _ _ => True) db id
        (fun db => contestSubmissionDetail ext app db session now₁ now₂ contestId id) ↔
      ∀ contest, db.getContest contestId = .ok (some contest) →
        contest.status now₁ = .upcoming ∨ contest.status now₂ = .ongoing := by
  constructor
  · intro hi contest hc
    by_contra hn
    rw [not_or] at hn
    exact not_independent_of_field trivial
      (fun code => field_contestSubmissionDetail hc hn.1 hn.2 hrow (.ofCode code)) hi
  · intro h s₁ s₂ _
    have hg : ∀ s, (db.withSecret id s).getContest contestId = db.getContest contestId :=
      fun _ => rfl
    unfold contestSubmissionDetail
    dsimp only
    rw [hg, hg]
    cases hc : db.getContest contestId with
    | error e => rfl
    | ok o =>
      cases o with
      | none => rfl
      | some contest =>
        dsimp only
        rw [getSubmission_withSecret hrow, getSubmission_withSecret hrow]
        dsimp only
        have hown : ∀ s, ((row.withSecret s).intoSubmission ext).userId.any
            (fun uid => some uid == session.userId) = false := fun s => by
          rw [Option.any_eq_false]
          exact fun u hu => beq_eq_false_iff_ne.mpr fun e => hviewer u hu e.symm
        rw [hown, hown]
        rcases h contest hc with h | h
        · rw [if_pos h, if_pos h]
          rfl
        · rw [h]
          rfl

/-! ## The routes without a contest -/

/-- The row a state with other secrets has for a row. -/
theorem recentRows_withSecret (s : Secret) (limit : Nat) :
    (db.withSecret id s).recentRows limit =
      (db.recentRows limit).map fun r => if r.id = id then r.withSecret s else r := by
  have ht : ∀ r : SubmissionRow, (if r.id = id then r.withSecret s else r).createdAt = r.createdAt :=
    fun r => by split <;> rfl
  rw [Db.recentRows, Db.recentRows, Db.withSecret, updateWhere, List.map_take,
    List.map_insertionSort (fun a b : SubmissionRow => b.createdAt ≤ a.createdAt)
      (fun a b : SubmissionRow => b.createdAt ≤ a.createdAt)]
  intro a _ b _
  rw [ht, ht]

/-- The list of the latest submissions is independent of the secrets of those
it does not show, and of no others. -/
theorem independent_submissionsIndex_iff
    (hagree : agree (.ofStatus "accepted") (.ofStatus "wrong_answer")) :
    Independent agree db id (fun db => submissionsIndex ext app db session) ↔
      ∀ r ∈ db.recentRows 50, r.id ≠ id := by
  have hlist : ∀ s, (db.withSecret id s).listRecent 50 =
      (db.recentRows 50).map fun r => db.listRow (if r.id = id then r.withSecret s else r) :=
    fun s => by rw [Db.listRecent, recentRows_withSecret, List.map_map]; rfl
  constructor
  · intro hi r hr hid
    have h := hi _ _ hagree
    simp only [submissionsIndex, hlist, Response.html.injEq, List.cons.injEq, Prod.mk.injEq,
      Json.arr.injEq, List.map_map, true_and] at h
    have hr' := congrArg (Json.get? "verdict") (List.map_inj_left.mp h.1 r hr)
    simp only [Function.comp, hid, if_true] at hr'
    have hv : some (Json.str "AC") = some (Json.str "WA") := hr'
    rw [Option.some.injEq, Json.str.injEq] at hv
    exact absurd hv (by decide)
  · intro h s₁ s₂ _
    have hsame : ∀ s, (db.withSecret id s).listRecent 50 = db.listRecent 50 := fun s => by
      rw [hlist, Db.listRecent]
      exact List.map_congr_left fun r hr => by rw [if_neg (h r hr)]
    simp only [submissionsIndex, hsame]
    rfl

theorem field_submissionsDetail (hrow : db.submissions.find? (·.id == id) = some row) (s : Secret) :
    (submissionsDetail ext app (db.withSecret id s) session id).field "source_code" =
      some (.str s.sourceCode) := by
  rw [submissionsDetail, getSubmission_withSecret hrow]
  rfl

/-- The three routes without a contest: for any viewer, the detail page and
the JSON of a submission depend on its secrets, and the list does whenever it
shows it. -/
theorem legacy_routes_not_independent (ext : Externals) (app : AppState) (db : Db)
    (session : SessionRecord) (id : Uuid) (row : SubmissionRow)
    (hrow : db.submissions.find? (·.id == id) = some row) :
    ¬ Independent SameUsage db id (fun db => submissionsDetail ext app db session id) ∧
      ¬ Independent SameUsage db id (fun db => apiGetResult ext db id) ∧
      (Independent SameUsage db id (fun db => submissionsIndex ext app db session) ↔
        ∀ r ∈ db.recentRows 50, r.id ≠ id) := by
  refine ⟨not_independent_of_field ⟨rfl, rfl⟩ fun code =>
    field_submissionsDetail hrow (.ofCode code), fun hi => ?_,
    independent_submissionsIndex_iff ⟨rfl, rfl⟩⟩
  have h := hi (.ofCode "a") (.ofCode "b") ⟨rfl, rfl⟩
  simp only [apiGetResult, getSubmission_withSecret hrow, Response.json.injEq] at h
  have hs : some (Json.str "a") = some (Json.str "b") := congrArg (Json.get? "source_code") h
  rw [Option.some.injEq, Json.str.injEq] at hs
  exact absurd hs (by decide)

end

/-! ### A submission to an ongoing contest -/

/-- A contest that ends at time 100, one that ended before time 0, and a
submission to the first. -/
def ongoingDb : Db where
  users := []
  contests := [⟨"now", "", "", 0, 100, "exact"⟩, ⟨"old", "", "", -100, -50, "exact"⟩]
  contestProblems := []
  submissions := [{
    id := 1, problemId := "a", userId := none, contestId := some "now", language := "cpp"
    sourceCode := "", status := "pending", timeUsedMs := none, memoryUsedKb := none
    stdout := none, stderr := none, testcaseResults := none, score := none, createdAt := 5 }]

theorem independent_contestSubmissionDetail_now :
    Independent (fun _ _ => True) ongoingDb 1
      (fun db => contestSubmissionDetail .simple .empty db .empty 10 10 "now" 1) :=
  (independent_contestSubmissionDetail_iff .simple .empty ongoingDb .empty 10 10 "now" 1 _ rfl
    (by intro _ h; cases h)).mpr fun _ hc => .inr (by cases hc; decide)

/-- Under the contest that is over, the page shows the code of a submission to
the ongoing one. -/
theorem independent_contestSubmissionDetail_fails :
    (∃ contest, ongoingDb.getContest "now" = .ok (some contest) ∧ contest.status 10 = .ongoing) ∧
    contestSubmissionDetail .simple .empty (ongoingDb.withSecret 1 (.ofCode "a")) .empty 10 10
        "old" 1 ≠
      contestSubmissionDetail .simple .empty (ongoingDb.withSecret 1 (.ofCode "b")) .empty 10 10
        "old" 1 := by
  refine ⟨⟨_, rfl, by decide⟩, fun h => ?_⟩
  have hf := congrArg (Response.field "source_code") h
  rw [field_contestSubmissionDetail rfl (by decide) (by decide) rfl,
    field_contestSubmissionDetail rfl (by decide) (by decide) rfl, Option.some.injEq,
    Json.str.injEq] at hf
  exact absurd hf (by decide)

theorem legacy_routes_not_independent_now :
    ¬ Independent SameUsage ongoingDb 1
      (fun db => submissionsDetail .simple .empty db .empty 1) :=
  (legacy_routes_not_independent .simple .empty ongoingDb .empty 1 _ rfl).1

/-- The JSON of a submission to the ongoing contest shows its code. -/
theorem legacy_routes_independent_fails :
    (∃ contest, ongoingDb.getContest "now" = .ok (some contest) ∧ contest.status 10 = .ongoing) ∧
    apiGetResult .simple (ongoingDb.withSecret 1 (.ofCode "a")) 1 ≠
      apiGetResult .simple (ongoingDb.withSecret 1 (.ofCode "b")) 1 := by
  refine ⟨⟨_, rfl, by decide⟩, fun h => ?_⟩
  rw [apiGetResult, apiGetResult, getSubmission_withSecret rfl, getSubmission_withSecret rfl] at h
  have hs : some (Json.str "a") = some (Json.str "b") :=
    congrArg (Json.get? "source_code") (Response.json.inj h)
  rw [Option.some.injEq, Json.str.injEq] at hs
  exact absurd hs (by decide)

end MikanJudge

import MikanJudge.Proof.ResultsCodec
import MikanJudge.Proof.Served
import MikanJudge.Proof.StoredStatus

/-!
# What the API answers about a submission

A submission goes through a request, the table, the channel, a worker and the
table again before `api_get_result` reads it. Over any run, its answer is the
submission as it was sent, pending or running, or with what judging it came to
(`answers_as_judged`).
-/

namespace MikanJudge

open MikanJudge.Lib

/-- What an update says of a submission, as far as the table keeps it. -/
def RowUpdate.shown : RowUpdate → Submission → Submission
  | status s, sub => { sub with status := s.stored }
  | result s time mem stdout stderr results score, sub => { sub with
      status := s.stored
      timeUsedMs := time
      memoryUsedKb := mem
      stdout := stdout
      stderr := stderr
      testcaseResults := results
      score := score }

/-- The numbers of an update are of their types, its scores finite, and what is
written of its results is parsed to what was written. -/
def RowUpdate.Storable (ext : Externals) : RowUpdate → Prop
  | status _ => True
  | result _ time mem _ _ results _ => (∀ n ∈ time, n < 2 ^ 64) ∧ (∀ n ∈ mem, n < 2 ^ 64) ∧
    ∀ list ∈ results, (∀ v ∈ list, v.Storable) ∧ ReadsBack ext (.arr (list.map TestcaseVerdict.toJson))

section

variable {ext : Externals} {r row : SubmissionRow}

theorem toU64_toI64 {n : Nat} (h : n < 2 ^ 64) : toU64 (toI64 n) = n := by
  unfold toU64 toI64
  split_ifs <;> omega

theorem map_toU64_toI64 {n : Option Nat} (h : ∀ m ∈ n, m < 2 ^ 64) :
    (n.map toI64).map toU64 = n := by
  cases n with
  | none => rfl
  | some m => rw [Option.map_some, Option.map_some, toU64_toI64 (h m rfl)]

theorem bind_decodeResults {results : Option (List TestcaseVerdict)}
    (h : ∀ list ∈ results, (∀ v ∈ list, v.Storable) ∧
      ReadsBack ext (.arr (list.map TestcaseVerdict.toJson))) :
    (results.map (encodeResults ext)).bind (decodeResults ext) = results := by
  cases results with
  | none => rfl
  | some list =>
    obtain ⟨hstorable, hread⟩ := h list rfl
    exact decodeResults_of_results hstorable hread

/-- The row after an update is read as what the update says. -/
theorem intoSubmission_apply {u : RowUpdate} (hu : u.Storable ext) (r : SubmissionRow) :
    (u.apply ext r).intoSubmission ext = u.shown (r.intoSubmission ext) := by
  cases u with
  | status s =>
    simp only [RowUpdate.apply, SubmissionRow.intoSubmission, RowUpdate.shown,
      JudgeStatus.fromDb_toDb_status]
  | result s time mem stdout stderr results score =>
    obtain ⟨htime, hmem, hresults⟩ := hu
    simp only [RowUpdate.apply, SubmissionRow.intoSubmission, RowUpdate.shown,
      JudgeStatus.fromDb_toDb_status, map_toU64_toI64 htime, map_toU64_toI64 hmem,
      bind_decodeResults hresults]

/-- What is inserted for a job is read as the submission of the job. -/
theorem intoSubmission_inserted (ext : Externals) {cfg : Config} {contests : List ContestRow} {now time : Time}
    {task : SubmitTask} (h : task.Requested cfg contests now)
    (hrow : (task.sub.toRow time).Disowned row) :
    ∃ owner, (owner = task.sub.userId ∨ owner = none) ∧
      row.intoSubmission ext = task.job.submission owner task.sub.contestId task.sub.problemId := by
  have hjob : task.job.sourceCode = task.sub.sourceCode ∧ task.job.language = task.sub.language := by
    cases h with
    | contest _ _ _ _ _ hj | problem _ _ _ hj | api _ _ hj => rw [hj]; exact ⟨rfl, rfl⟩
  have hinto : ∀ owner, { task.sub.toRow time with userId := owner }.intoSubmission ext =
      task.job.submission owner task.sub.contestId task.sub.problemId := by
    intro owner
    simp only [SubmissionRow.intoSubmission, Submission.toRow, JudgeJob.submission, task.job_id,
      hjob, Language.fromDb_toDb, task.pending, JudgeStatus.fromDb_toDb_status, JudgeStatus.stored]
    rfl
  rcases hrow with rfl | rfl
  · exact ⟨_, .inl rfl, hinto _⟩
  · exact ⟨none, .inr rfl, hinto none⟩

/-- What is found of a submission shows what happened to it. -/
theorem find?_of_served {cfg : Config} {old : List Uuid} {t : Server} {l : Submissions} {id : Uuid}
    (hI : Served cfg old t l) {e : Entered} (he : l.content id = some e) :
    ∃ r, t.db.submissions.find? (·.id == id) = some r ∧ r.Shows cfg.ext e (l.outcome id) := by
  obtain ⟨-, hmem, hnew⟩ := hI.kept id e he
  obtain ⟨r₀, hr₀, hid₀⟩ := List.mem_map.mp hmem
  have hfound : (t.db.submissions.find? (·.id == id)).isSome :=
    List.find?_isSome.mpr ⟨r₀, hr₀, beq_iff_eq.mpr hid₀⟩
  obtain ⟨r, hr⟩ := Option.isSome_iff_exists.mp hfound
  have hid : r.id = id := by simpa using List.find?_some hr
  obtain ⟨e', he', hshow⟩ := hI.rows r (List.mem_of_find?_eq_some hr) (hid ▸ hnew)
  rw [hid] at he' hshow
  cases he.symm.trans he'
  exact ⟨r, hr, hshow⟩

end

/-- Over any run, `api_get_result` answers with 404 for an id that nothing was
entered under; else with what was submitted, up to an owner that is gone: pending
or running until a result is written, and then with the result of judging the
submission's job. -/
theorem answers_as_judged (cfg : Config) {s t : Server} {tr : List (Server × Action)}
    (hs : (Server.system cfg).init s) (h : (Server.system cfg).Run s tr t) {id : Uuid}
    (hnew : id ∉ s.db.submissions.map (·.id)) :
    (id ∉ Ledger.entered (ledgerEntries cfg tr) → apiGetResult cfg.ext t.db id = .text 404 "") ∧
    ∀ task time, .enter id (task, time) ∈ ledgerEntries cfg tr →
      ∃ owner, (owner = task.sub.userId ∨ owner = none) ∧
        let sub := task.job.submission owner task.sub.contestId task.sub.problemId
        (id ∉ Ledger.settled (ledgerEntries cfg tr) ∧
          (apiGetResult cfg.ext t.db id = .json sub.toJson ∨
            apiGetResult cfg.ext t.db id = .json { sub with status := .running }.toJson)) ∨
        ∃ u env, .settle id u ∈ ledgerEntries cfg tr ∧ judgeFinal cfg.ext task.job env = u ∧
          (u.val.Storable cfg.ext → apiGetResult cfg.ext t.db id = .json (u.val.shown sub).toJson) := by
  obtain ⟨l, hI, hl⟩ := served_of_run hs h
  have hanswer : ∀ {r}, t.db.submissions.find? (·.id == id) = some r →
      apiGetResult cfg.ext t.db id = .json (r.intoSubmission cfg.ext).toJson := by
    intro r hr
    rw [apiGetResult, Db.getSubmission, hr, Option.map_some]
  refine ⟨fun hno => ?_, fun task time henter => ?_⟩
  · have hnone : t.db.submissions.find? (·.id == id) = none := by
      refine List.find?_eq_none.mpr fun r hr hid => hno ?_
      obtain rfl : r.id = id := by simpa using hid
      obtain ⟨e, he, -⟩ := hI.rows r hr hnew
      exact Ledger.mem_entered.mpr ⟨e, (hl.content _ _).mpr he⟩
    rw [apiGetResult, Db.getSubmission, hnone, Option.map_none]
  · obtain ⟨r, hr, hshow⟩ := find?_of_served hI ((hl.content _ _).mp henter)
    have hreq := ((requestedInv_of_run hs h).entered _ _ henter).2
    have hopen : l.outcome id = none → id ∉ Ledger.settled (ledgerEntries cfg tr) := by
      intro ho hmem
      obtain ⟨u, hu⟩ := Ledger.mem_settled.mp hmem
      cases ho.symm.trans ((hl.outcome _ _).mp hu)
    rw [hanswer hr]
    generalize ho : l.outcome id = o at hshow
    cases hshow with
    | waiting hd =>
      obtain ⟨owner, howner, e⟩ := intoSubmission_inserted cfg.ext hreq hd
      exact ⟨owner, howner, .inl ⟨hopen ho, .inl (by rw [e])⟩⟩
    | @running row hd hrow =>
      obtain ⟨owner, howner, e⟩ := intoSubmission_inserted cfg.ext hreq hd
      refine ⟨owner, howner, .inl ⟨hopen ho, .inr ?_⟩⟩
      rw [hrow, ← e]
      rfl
    | @settled row u hd hrow =>
      obtain ⟨owner, howner, e⟩ := intoSubmission_inserted cfg.ext hreq hd
      obtain ⟨e', he', env, henv⟩ := hl.admitted _ _ ho
      cases ((hl.content _ _).mp henter).symm.trans he'
      refine ⟨owner, howner, .inr ⟨u, env, (hl.outcome _ _).mpr ho, henv, fun hu => ?_⟩⟩
      rw [hrow, intoSubmission_apply hu, e]

/-- The answers about a submission that does not compile, and about none. -/
theorem answers_as_judged_uncompiled :
    apiGetResult smallConfig.ext uncompiledServer.db 2 = .text 404 "" ∧
    ∃ (task : SubmitTask) (owner : Option Uuid) (u : FinalUpdate) (env : JudgeEnv),
      (owner = task.sub.userId ∨ owner = none) ∧ judgeFinal smallConfig.ext task.job env = u ∧
      (u.val.Storable smallConfig.ext → apiGetResult smallConfig.ext uncompiledServer.db 1 =
        .json (u.val.shown
          (task.job.submission owner task.sub.contestId task.sub.problemId)).toJson) := by
  have hanswers := fun (id : Uuid) =>
    @answers_as_judged smallConfig _ _ _ ⟨0, emptyDb, [], rfl⟩ uncompiled_run id List.not_mem_nil
  have hentered : 1 ∈ Ledger.entered (ledgerEntries smallConfig (Server.traceOf smallConfig
      (.boot smallConfig 0 emptyDb []) uncompiledActions)) := by decide +kernel
  have hsettled : 1 ∈ Ledger.settled (ledgerEntries smallConfig (Server.traceOf smallConfig
      (.boot smallConfig 0 emptyDb []) uncompiledActions)) := by decide +kernel
  refine ⟨(hanswers 2).1 (by decide +kernel), ?_⟩
  obtain ⟨⟨task, time⟩, henter⟩ := Ledger.mem_entered.mp hentered
  obtain ⟨owner, howner, ⟨hno, -⟩ | ⟨u, env, -, hfinal, hanswer⟩⟩ := (hanswers 1).2 task time henter
  · exact absurd hsettled hno
  · exact ⟨task, owner, u, env, howner, hfinal, hanswer⟩

end MikanJudge

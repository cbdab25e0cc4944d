import MikanJudge.Proof.Cooldown
import MikanJudge.Proof.Ledger

/-!
# What a submission's row says

Over any run of the server, whatever the interleaving, the cancelled requests,
the restarts and the writes that fail:

* `served_as_judged`: a row is what its request entered, and once a result is
  written, that of judging exactly this submission in some environment;
* `jobs_match_rows`: a job in the process is the one its row asks for;
* `rows_requested`: a row was entered for a request that passed its check, a
  contest submission after the start of its contest;
* `rows_kept`: no row is lost, what was submitted is never changed, and a
  finished row not at all but for its owner.
-/

namespace MikanJudge

open MikanJudge.Lib

/-! ## What a task is for -/

/-- What passes a check at some time: the job is that of the problem the
submission names, judged as its contest says, or what the API was sent. -/
inductive SubmitTask.Requested (cfg : Config) (contests : List ContestRow) (now : Time)
    (task : SubmitTask) : Prop
  | contest {c : ContestRow} {prob : Problem} : c ∈ contests → task.sub.contestId = some c.id →
    c.startTime ≤ now → task.sub.userId ≠ none →
    (loadOne cfg.ext cfg.app.fs cfg.app.problemsDir task.sub.problemId).result = .ok prob →
    task.job = prob.job task.sub.id task.sub.sourceCode task.sub.language
      (JudgeType.fromDb c.judgeType) prob.scorerPath → Requested cfg contests now task
  | problem {prob : Problem} : task.sub.contestId = none → task.sub.userId ≠ none →
    (loadOne cfg.ext cfg.app.fs cfg.app.problemsDir task.sub.problemId).result = .ok prob →
    task.job = prob.job task.sub.id task.sub.sourceCode task.sub.language .exact none →
    Requested cfg contests now task
  | api {stdin expected : String} {timeLimitMs memoryLimitKb : Nat} :
    task.sub.contestId = none → task.sub.userId = none →
    task.job = {
      id := task.sub.id, sourceCode := task.sub.sourceCode, language := task.sub.language
      testcases := [(stdin, some expected)], timeLimitMs := timeLimitMs
      memoryLimitKb := memoryLimitKb, judgeType := .exact, scorerPath := none } →
    Requested cfg contests now task

section

variable {cfg : Config} {s t : Server} {a : Action} {task : SubmitTask} {e : Entered}
  {tr : List (Server × Action)} {r r' row : SubmissionRow}

theorem SubmitTask.Requested.mono {contests : List ContestRow} {now now' : Time}
    (h : task.Requested cfg contests now) (hle : now ≤ now') : task.Requested cfg contests now' := by
  cases h with
  | contest hc hid hstart hu hp hj => exact .contest hc hid (hstart.trans hle) hu hp hj
  | problem hid hu hp hj => exact .problem hid hu hp hj
  | api hid hu hj => exact .api hid hu hj

theorem getContest_eq_some {db : Db} {contestId : String} {contest : Contest}
    (h : db.getContest contestId = .ok (some contest)) :
    ∃ c ∈ db.contests, c.id = contestId ∧ contest = c.intoContest := by
  unfold Db.getContest at h
  split_ifs at h
  rw [Except.ok.injEq, Option.map_eq_some_iff] at h
  obtain ⟨c, hc, rfl⟩ := h
  exact ⟨c, List.mem_of_find?_eq_some hc, by simpa using List.find?_some hc, rfl⟩

/-- What a check lets through is requested. -/
theorem requested_of_check {db : Db} {session : SessionRecord} {now : Time} {id : Uuid}
    {route : SubmitRoute}
    (h : route.check cfg.ext cfg.app db session now now id = .ok task) :
    task.Requested cfg db.contests now := by
  cases route with
  | contestProblem contestId problemId form =>
    obtain ⟨contest, prob, hc, hstarted, -, -, hp, hu, rfl⟩ := contestProblemSubmit_ok h
    obtain ⟨c, hmem, hid, rfl⟩ := getContest_eq_some hc
    have hle : c.startTime ≤ now := by
      by_contra hlt
      exact hstarted (if_pos (not_le.mp hlt))
    exact .contest hmem (congrArg some hid.symm) hle hu hp rfl
  | problem problemId form =>
    obtain ⟨prob, hp, hu, rfl⟩ := problemsSubmit_ok h
    exact .problem rfl hu hp rfl
  | api req =>
    change apiSubmit req id = .ok task at h
    unfold apiSubmit at h
    split_ifs at h
    cases h
    exact .api rfl rfl rfl

/-! ## Over a run -/

theorem contests_of_step (h : ServerStep cfg s a t) : t.db.contests = s.db.contests := by
  cases h with
  | tick | arrive | restart => rfl
  | account => exact (AccountRoute.sameWork _ _ _ _).contests
  | worker _ h =>
    cases h with
    | lock | recv | event => rfl
    | @start _ connected => cases connected <;> rfl
    | @finish _ _ connected => cases connected <;> rfl
  | request _ h =>
    cases h with
    | refuse | check | insertFail | record | send | respond | cancel => rfl
    | insert _ hi =>
      obtain ⟨-, rfl⟩ := insertSubmission_ok hi
      rfl

/-- What is entered was checked. -/
theorem checked_of_entry {k : Uuid} (h : s.entry cfg a = some (.enter k e)) :
    ∃ q ∈ s.requests, q.stage = .checked e.1 ∧ e.2 = s.clock := by
  unfold Server.entry at h
  split at h
  · obtain ⟨q, hq, h⟩ := Option.bind_eq_some_iff.mp h
    split at h
    · split_ifs at h
      cases h
      exact ⟨q, List.mem_of_getElem? hq, ‹_›, rfl⟩
    · cases h
  · split at h
    · split_ifs at h
      cases h
    · cases h
  · cases h

/-- What was checked, and what was entered, was requested, no later than now. -/
structure RequestedInv (cfg : Config) (tr : List (Server × Action)) (s : Server) : Prop where
  checked : ∀ q ∈ s.requests, ∀ task, q.stage = .checked task →
    task.Requested cfg s.db.contests s.clock
  entered : ∀ k e, .enter k e ∈ ledgerEntries cfg tr → e.2 ≤ s.clock ∧ e.1.Requested cfg s.db.contests e.2

theorem RequestedInv.step (hI : RequestedInv cfg tr s) (h : s.step cfg a = some t) :
    RequestedInv cfg (tr ++ [(s, a)]) t := by
  have hst := step_cases h
  have hcontests := contests_of_step hst
  have hclock := clock_le_of_step hst
  refine ⟨fun q hq task hs => ?_, fun k e he => ?_⟩
  · rcases checked_of_step hst hq hs with hq | ⟨q₀, hq₀, hcheck, rfl⟩
    · exact hcontests ▸ (hI.checked q hq task hs).mono hclock
    · exact hcontests ▸ (requested_of_check hcheck).mono hclock
  · rw [ledgerEntries, filterMap_snoc, List.mem_append, Option.mem_toList] at he
    rw [hcontests]
    rcases he with he | he
    · obtain ⟨hle, hreq⟩ := hI.entered k e he
      exact ⟨hle.trans hclock, hreq⟩
    · obtain ⟨q, hq, hs, htime⟩ := checked_of_entry he
      rw [htime]
      exact ⟨hclock, hI.checked q hq _ hs⟩

theorem requestedInv_of_run (hs : (Server.system cfg).init s)
    (h : (Server.system cfg).Run s tr t) : RequestedInv cfg tr t := by
  obtain ⟨clock, db, sessions, rfl⟩ := hs
  refine h.history (I := RequestedInv cfg) ⟨fun q hq => ?_, fun k e he => ?_⟩
    fun _ _ _ _ hI hst => hI.step hst
  · cases hq
  · cases he

/-! ## What stays of a row -/

/-- The columns that are written once. -/
structure SubmissionRow.Keeps (r r₀ : SubmissionRow) : Prop where
  id : r.id = r₀.id
  problemId : r.problemId = r₀.problemId
  contestId : r.contestId = r₀.contestId
  language : r.language = r₀.language
  sourceCode : r.sourceCode = r₀.sourceCode
  createdAt : r.createdAt = r₀.createdAt
  userId : r.userId = r₀.userId ∨ r.userId = none

theorem SubmissionRow.Keeps.trans (h : r'.Keeps r) (h' : r.Keeps row) : r'.Keeps row where
  id := h.id.trans h'.id
  problemId := h.problemId.trans h'.problemId
  contestId := h.contestId.trans h'.contestId
  language := h.language.trans h'.language
  sourceCode := h.sourceCode.trans h'.sourceCode
  createdAt := h.createdAt.trans h'.createdAt
  userId := h.userId.elim (fun e => h'.userId.imp e.trans e.trans) .inr

theorem SubmissionRow.Disowned.keeps (h : row.Disowned r) : r.Keeps row := by
  rcases h with rfl | rfl
  · exact ⟨rfl, rfl, rfl, rfl, rfl, rfl, .inl rfl⟩
  · exact ⟨rfl, rfl, rfl, rfl, rfl, rfl, .inr rfl⟩

theorem RowUpdate.keeps (ext : Externals) (u : RowUpdate) (r : SubmissionRow) :
    (u.apply ext r).Keeps r := by
  cases u <;> exact ⟨rfl, rfl, rfl, rfl, rfl, rfl, .inl rfl⟩

theorem SubmissionRow.Shows.keeps {ext : Externals} {o : Option FinalUpdate} (h : r.Shows ext e o) :
    r.Keeps (e.1.sub.toRow e.2) := by
  cases h with
  | waiting h => exact h.keeps
  | @running row h e₁ =>
    have hrun : row.running.Keeps row := ⟨rfl, rfl, rfl, rfl, rfl, rfl, .inl rfl⟩
    exact e₁ ▸ hrun.trans h.keeps
  | settled h e₁ => exact e₁ ▸ (RowUpdate.keeps _ _ _).trans h.keeps

/-- A row nothing is written to is pending or running. -/
theorem SubmissionRow.Shows.unfinished {ext : Externals} (h : r.Shows ext e none) : r.Unfinished := by
  cases h with
  | waiting h =>
    have hs : r.status = JudgeStatus.toDb .pending := by
      rw [← e.1.pending]
      rcases h with rfl | rfl <;> rfl
    exact .inl hs
  | running h e₁ => exact .inr (by rw [e₁]; rfl)

end

/-! ## The rows of a run -/

/-- What a row asks to be judged: its source in its language, with the cases and
the limits of its problem and as its contest says; without a contest, exactly
and without a scorer. -/
structure SubmissionRow.Asks (cfg : Config) (contests : List ContestRow) (r : SubmissionRow)
    (job : JudgeJob) : Prop where
  id : job.id = r.id
  sourceCode : job.sourceCode = r.sourceCode
  language : job.language.toDb = r.language
  contest : ∀ contestId, r.contestId = some contestId → ∃ c ∈ contests, c.id = contestId ∧
    ∃ prob, (loadOne cfg.ext cfg.app.fs cfg.app.problemsDir r.problemId).result = .ok prob ∧
      job = prob.job r.id r.sourceCode job.language (JudgeType.fromDb c.judgeType) prob.scorerPath
  practice : r.contestId = none → job.judgeType = .exact ∧ job.scorerPath = none ∧
    ((∃ prob, (loadOne cfg.ext cfg.app.fs cfg.app.problemsDir r.problemId).result = .ok prob ∧
        job = prob.job r.id r.sourceCode job.language .exact none) ∨
      ∃ stdin expected, job.testcases = [(stdin, some expected)])

theorem SubmitTask.Requested.asks {cfg : Config} {contests : List ContestRow} {now : Time}
    {task : SubmitTask} {r : SubmissionRow} (h : task.Requested cfg contests now)
    (hr : r.Keeps (task.sub.toRow now)) : r.Asks cfg contests task.job := by
  have hid : r.id = task.sub.id := hr.id
  have hproblem : r.problemId = task.sub.problemId := hr.problemId
  have hcontest : r.contestId = task.sub.contestId := hr.contestId
  have hlanguage : r.language = task.sub.language.toDb := hr.language
  have hsource : r.sourceCode = task.sub.sourceCode := hr.sourceCode
  cases h with
  | @contest c prob hc hcid _ _ hp hj =>
    refine ⟨task.job_id.trans hid.symm, ?_, ?_, fun contestId hci => ?_, fun hnone => ?_⟩
    · rw [hj, hsource]; rfl
    · rw [hj, hlanguage]; rfl
    · rw [hcontest, hcid, Option.some.injEq] at hci
      refine ⟨c, hc, hci, prob, hproblem ▸ hp, ?_⟩
      rw [hid, hsource, hj]
      rfl
    · rw [hcontest, hcid] at hnone
      cases hnone
  | @problem prob hcid _ hp hj =>
    refine ⟨task.job_id.trans hid.symm, ?_, ?_, fun contestId hci => ?_, fun _ => ?_⟩
    · rw [hj, hsource]; rfl
    · rw [hj, hlanguage]; rfl
    · rw [hcontest, hcid] at hci
      cases hci
    · refine ⟨by rw [hj]; rfl, by rw [hj]; rfl, .inl ⟨prob, hproblem ▸ hp, ?_⟩⟩
      rw [hid, hsource, hj]
      rfl
  | api hcid _ hj =>
    refine ⟨task.job_id.trans hid.symm, ?_, ?_, fun contestId hci => ?_, fun _ => ?_⟩
    · rw [hj, hsource]
    · rw [hj, hlanguage]
    · rw [hcontest, hcid] at hci
      cases hci
    · exact ⟨by rw [hj], by rw [hj], .inr ⟨_, _, by rw [hj]⟩⟩

/-- Over any run, each job in the process, be it still to be sent, in the
channel or with a worker, has its row, and is what the row asks for. -/
theorem jobs_match_rows (cfg : Config) {s t : Server} {tr : List (Server × Action)}
    (hs : (Server.system cfg).init s) (h : (Server.system cfg).Run s tr t) {job : JudgeJob}
    (hj : t.Holds job) :
    ∃ r ∈ t.db.submissions, r.Asks cfg t.db.contests job ∧ r.Unfinished := by
  obtain ⟨l, hI, hl⟩ := served_of_run hs h
  obtain ⟨e, hc, rfl, ho⟩ := hI.held job hj
  obtain ⟨-, hmem, hnew⟩ := hI.kept _ _ hc
  obtain ⟨r, hr, hid⟩ := List.mem_map.mp hmem
  obtain ⟨e', hc', hshow⟩ := hI.rows r hr (hid ▸ hnew)
  rw [hid] at hc' hshow
  cases hc.symm.trans hc'
  rw [ho] at hshow
  have hreq := (requestedInv_of_run hs h).entered _ _ ((hl.content _ _).mpr hc)
  exact ⟨r, hr, hreq.2.asks hshow.keeps, hshow.unfinished⟩

/-- Over any run, each row that was not there at its start is of a request that
passed its check: inserted no later than now, with the problem's files there,
and for a contest after its start and for a user. -/
theorem rows_requested (cfg : Config) {s t : Server} {tr : List (Server × Action)}
    (hs : (Server.system cfg).init s) (h : (Server.system cfg).Run s tr t) :
    ∀ r ∈ t.db.submissions, r.id ∉ s.db.submissions.map (·.id) →
      r.createdAt ≤ t.clock ∧
      ∃ task : SubmitTask, r.Keeps (task.sub.toRow r.createdAt) ∧
        task.Requested cfg t.db.contests r.createdAt := by
  obtain ⟨l, hI, hl⟩ := served_of_run hs h
  intro r hr hnew
  obtain ⟨e, hc, hshow⟩ := hI.rows r hr hnew
  have hkeeps := hshow.keeps
  have htime : r.createdAt = e.2 := hkeeps.createdAt
  obtain ⟨hle, hreq⟩ := (requestedInv_of_run hs h).entered _ _ ((hl.content _ _).mpr hc)
  exact ⟨htime ▸ hle, e.1, htime ▸ hkeeps, htime ▸ hreq⟩

/-! ## Finished rows -/

section

variable {cfg : Config} {s t : Server} {a : Action} {l : Submissions} {old : List Uuid}

/-- A place in the process is that of a job. -/
theorem holds_of_mem_places {id : Uuid} (h : id ∈ s.queue.places) : ∃ job, s.Holds job ∧ job.id = id := by
  rw [← Server.coe_inFlight, Multiset.mem_coe, Server.inFlight, List.mem_append,
    List.mem_append] at h
  rcases h with (h | h) | h
  · obtain ⟨q, hq, hu⟩ := List.mem_filterMap.mp h
    unfold Request.unsent at hu
    split at hu
    · cases hu
      exact ⟨_, .unsent hq (.inl ‹_›) rfl, SubmitTask.job_id _⟩
    · cases hu
      exact ⟨_, .unsent hq (.inr ‹_›) rfl, SubmitTask.job_id _⟩
    · cases hu
  · obtain ⟨job, hj, e⟩ := List.mem_map.mp h
    exact ⟨job, .channel hj, e⟩
  · obtain ⟨worker, hw, hu⟩ := List.mem_filterMap.mp h
    cases worker with
    | idle | receiving => cases hu
    | judging job st =>
      refine ⟨job, .worker hw, ?_⟩
      cases st <;> exact Option.some.inj hu

/-- A row whose job is in the process is not finished. -/
theorem Served.unfinished (hI : Served cfg old s l) {id : Uuid} (h : id ∈ s.queue.places)
    {r : SubmissionRow} (hr : r ∈ s.db.submissions) (hid : r.id = id) : r.Unfinished := by
  obtain ⟨job, hj, e⟩ := holds_of_mem_places h
  obtain ⟨_, _, hshow⟩ := hI.shows_open hj hr (hid.trans e.symm)
  exact hshow.unfinished

/-- After a step, a row has what was written once, and all of it if it is
finished, up to its owner. -/
theorem row_after_step (hI : Served cfg old s l) (h : s.step cfg a = some t) {r : SubmissionRow}
    (hr : r ∈ s.db.submissions) :
    ∃ r' ∈ t.db.submissions, r'.Keeps r ∧ (¬r.Unfinished → r.Disowned r') := by
  have hself : r.Disowned r := .inl rfl
  have hsame : t.db.submissions = s.db.submissions →
      ∃ r' ∈ t.db.submissions, r'.Keeps r ∧ (¬r.Unfinished → r.Disowned r') :=
    fun hf => ⟨r, hf ▸ hr, hself.keeps, fun _ => hself⟩
  -- an update of the row of a job in the process
  have hupdate : ∀ {id : Uuid} {f : SubmissionRow → SubmissionRow}, id ∈ s.queue.places →
      (f r).Keeps r → t.db.submissions = updateWhere id f s.db.submissions →
      ∃ r' ∈ t.db.submissions, r'.Keeps r ∧ (¬r.Unfinished → r.Disowned r') := by
    intro id f hid hk hf
    rw [hf]
    refine ⟨_, mem_updateWhere.mpr ⟨r, hr, rfl⟩, ?_⟩
    split_ifs with h₀
    · exact ⟨hk, fun hu => absurd (hI.unfinished hid hr h₀) hu⟩
    · exact ⟨hself.keeps, fun _ => hself⟩
  have heff := step_effect h
  generalize s.label cfg a = lab at heff
  cases heff with
  | quiet hf hd =>
    rw [hf]
    exact ⟨_, List.mem_map.mpr ⟨r, hr, rfl⟩, (hd r).keeps, fun _ => hd r⟩
  | create _ hf =>
    rw [hf]
    exact ⟨r, List.mem_append_left _ hr, hself.keeps, fun _ => hself⟩
  | take hf | drop hf => exact hsame hf
  | @start id connected rest hf _ hv =>
    have hid : id ∈ s.queue.places :=
      WorkQueue.mem_places.mpr (.inr ⟨false, hv ▸ Multiset.mem_cons_self _ _⟩)
    cases connected with
    | false => exact hsame hf
    | true => exact hupdate hid ⟨rfl, rfl, rfl, rfl, rfl, rfl, .inl rfl⟩ hf
  | @finish id u ok hf _ hv =>
    have hid : id ∈ s.queue.places :=
      WorkQueue.mem_places.mpr (.inr ⟨true, hv ▸ Multiset.mem_cons_self _ _⟩)
    cases ok with
    | false => exact hsame hf
    | true => exact hupdate hid (RowUpdate.keeps _ _ _) hf

/-- From any state a run has reached, whatever follows: each row stays, with
its id, problem, contest, language, source and time, and with its owner or
none; and a finished row stays as it is but for the owner. -/
theorem rows_kept (cfg : Config) {s₀ s t : Server} {tr tr' : List (Server × Action)}
    (hs : (Server.system cfg).init s₀) (h : (Server.system cfg).Run s₀ tr s)
    (h' : (Server.system cfg).Run s tr' t) :
    ∀ r ∈ s.db.submissions,
      ∃ r' ∈ t.db.submissions, r'.Keeps r ∧ (¬r.Unfinished → r.Disowned r') := by
  obtain ⟨l, hI, -⟩ := served_of_run hs h
  have hinv := h'.invariant (I := fun t => (∃ l, Served cfg (s₀.db.submissions.map (·.id)) t l) ∧
    ∀ r ∈ s.db.submissions, ∃ r' ∈ t.db.submissions, r'.Keeps r ∧ (¬r.Unfinished → r.Disowned r'))
    ?_ ⟨⟨l, hI⟩, fun r hr => ⟨r, hr, SubmissionRow.Disowned.keeps (.inl rfl), fun _ => .inl rfl⟩⟩
  · exact hinv.2
  · rintro t a u ⟨⟨l, hI⟩, hrows⟩ hst
    obtain ⟨l', hI', -⟩ := (ledger_simulation cfg _).step hI hst
    refine ⟨⟨l', hI'⟩, fun r hr => ?_⟩
    obtain ⟨r₁, hr₁, hk₁, hf₁⟩ := hrows r hr
    obtain ⟨r₂, hr₂, hk₂, hf₂⟩ := row_after_step hI hst hr₁
    refine ⟨r₂, hr₂, hk₂.trans hk₁, fun hu => (hf₁ hu).trans (hf₂ ?_)⟩
    rcases hf₁ hu with rfl | rfl <;> exact hu

end

/-! ### A submission that cannot be compiled -/

/-- The server after the submission is judged. -/
def uncompiledServer : Server :=
  .lastOf smallConfig (.boot smallConfig 0 emptyDb []) uncompiledActions

theorem uncompiled_run : (Server.system smallConfig).Run (.boot smallConfig 0 emptyDb [])
    (Server.traceOf smallConfig (.boot smallConfig 0 emptyDb []) uncompiledActions)
    uncompiledServer := Server.run_traceOf _ _ _ (by rfl)

theorem jobs_match_rows_sent :
    ∃ job ∈ (Server.lastOf smallConfig (.boot smallConfig 0 emptyDb []) apiSubmitActions).channel,
      ∃ r ∈ (Server.lastOf smallConfig (.boot smallConfig 0 emptyDb [])
          apiSubmitActions).db.submissions,
        r.Asks smallConfig emptyDb.contests job ∧ r.Unfinished := by
  have hjob : ∃ job ∈ (Server.lastOf smallConfig (.boot smallConfig 0 emptyDb [])
      apiSubmitActions).channel, job.id = 1 := by decide +kernel
  obtain ⟨job, hj, -⟩ := hjob
  exact ⟨job, hj, jobs_match_rows smallConfig ⟨0, emptyDb, [], rfl⟩
    (Server.run_traceOf _ _ apiSubmitActions (by rfl)) (.channel hj)⟩

theorem rows_requested_uncompiled :
    ∃ r ∈ uncompiledServer.db.submissions, r.createdAt ≤ uncompiledServer.clock ∧
      ∃ task : SubmitTask, r.Keeps (task.sub.toRow r.createdAt) ∧
        task.Requested smallConfig uncompiledServer.db.contests r.createdAt := by
  have hrow : ∃ r ∈ uncompiledServer.db.submissions, r.id = 1 := by decide +kernel
  obtain ⟨r, hr, -⟩ := hrow
  exact ⟨r, hr, rows_requested smallConfig ⟨0, emptyDb, [], rfl⟩ uncompiled_run r hr
    List.not_mem_nil⟩

/-- The row stays over a restart. -/
theorem rows_kept_restart :
    ∃ r ∈ uncompiledServer.db.submissions, ¬r.Unfinished ∧
      ∃ r' ∈ (Server.boot smallConfig uncompiledServer.clock uncompiledServer.db
        uncompiledServer.sessions).db.submissions, r'.Keeps r ∧ (¬r.Unfinished → r.Disowned r') := by
  have hrow : ∃ r ∈ uncompiledServer.db.submissions, ¬r.Unfinished := by decide +kernel
  have hrestart : (Server.system smallConfig).Run uncompiledServer [(uncompiledServer, .restart)]
      (.boot smallConfig uncompiledServer.clock uncompiledServer.db uncompiledServer.sessions) :=
    System.Run.snoc (.nil _) rfl
  obtain ⟨r, hr, hu⟩ := hrow
  exact ⟨r, hr, hu, rows_kept smallConfig ⟨0, emptyDb, [], rfl⟩ uncompiled_run hrestart r hr⟩

end MikanJudge

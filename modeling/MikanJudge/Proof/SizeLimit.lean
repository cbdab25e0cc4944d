import MikanJudge.Proof.Jobs

/-!
# The limit on the size of a source (`source_code_too_large`)

No row and no queued job may hold a source over the limit, and a request with
one is to be refused with `413`. `api_submit` looks at the size first,
`contest_problem_submit` once the user is known and the contest has started
(and a second time), `problems_submit` never. As long as no other requests
with such a source are checked, the limit holds in the table and in the queue.
-/

namespace MikanJudge

open MikanJudge.Lib

/-- The source a request submits. -/
def SubmitRoute.sourceCode : SubmitRoute → String
  | contestProblem _ _ form => form.sourceCode
  | problem _ form => form.sourceCode
  | api req => req.sourceCode

/-- What a request that passed its check carries. -/
def Request.task (q : Request) : Option SubmitTask :=
  match q.stage with
  | .loaded => none
  | .checked task | .inserted task | .recorded task | .sent task => some task

/-- The handler gets as far as looking at the size. -/
def SubmitRoute.checksSize (db : Db) (session : SessionRecord) (now : Time) :
    SubmitRoute → Bool
  | contestProblem contestId _ _ =>
    session.userId.isSome && match db.getContest contestId with
      | .ok (some contest) => contest.status now != .upcoming
      | _ => false
  | problem _ _ => false
  | api _ => true

namespace Server

/-- No row and no queued job has a source over the limit. -/
structure WithinLimit (s : Server) : Prop where
  rows : ∀ r ∈ s.db.submissions, sourceCodeTooLarge r.sourceCode = false
  queued : ∀ job ∈ s.channel, sourceCodeTooLarge job.sourceCode = false

/-- If the action is the check of a request with a source over the limit, then
the answer is `413`, and the table, the queue and the sessions stay. -/
def Refuses413 (cfg : Config) (s : Server) : Action → Prop
  | .check i => ∀ q, s.requests[i]? = some q → sourceCodeTooLarge q.route.sourceCode = true →
    (∃ body, q.route.check cfg.ext cfg.app s.db q.session s.clock s.clock q.id =
      .error (.text 413 body)) ∧
    ∀ t, s.step cfg (.check i) = some t →
      t.db = s.db ∧ t.channel = s.channel ∧ t.sessions = s.sessions
  | _ => True

/-- A request that is checked is within the limit, or its handler looks at the
size. -/
def sizeChecked (s : Server) : Action → Bool
  | .check i => (s.requests[i]?).all fun q =>
    !sourceCodeTooLarge q.route.sourceCode || q.route.checksSize s.db q.session s.clock
  | _ => true

end Server

section

variable {ext : Externals} {app : AppState} {db : Db} {session : SessionRecord}
  {now₁ now₂ : Time} {id : Uuid} {route : SubmitRoute} {task : SubmitTask}

/-! ## One check -/

theorem htmlError_ne_413 {message body : String} : Response.htmlError message ≠ .text 413 body := by
  simp [Response.htmlError]

theorem redirectTo_ne_413 {location body : String} :
    Response.redirectTo location ≠ .text 413 body := by
  rw [Response.redirectTo]
  split_ifs <;> simp

/-- A source over the limit is answered `413` where its handler looks at the
size, and nowhere else. -/
theorem check_413_iff (h : sourceCodeTooLarge route.sourceCode = true) :
    (∃ body, route.check ext app db session now₁ now₂ id = .error (.text 413 body)) ↔
      route.checksSize db session now₁ = true := by
  cases route with
  | contestProblem contestId problemId form =>
    rw [SubmitRoute.sourceCode] at h
    simp only [SubmitRoute.check, contestProblemSubmit, SubmitRoute.checksSize, h, if_true]
    cases hu : session.userId with
    | none => simp
    | some u =>
      rcases hc : db.getContest contestId with e | _ | contest
      · simp [Response.htmlError]
      · simp [Response.htmlError]
      · by_cases hs : contest.status now₁ = .upcoming
        · simp [hs, redirectTo_ne_413]
        · simp [hs, sourceCodeTooLargeResponse]
  | problem problemId form =>
    simp only [SubmitRoute.check, problemsSubmit, SubmitRoute.checksSize, Bool.false_eq_true, iff_false]
    rintro ⟨body, he⟩
    split_ifs at he
    · cases Except.error.inj he
    · split at he
      · exact htmlError_ne_413 (Except.error.inj he)
      · cases he
  | api req =>
    rw [SubmitRoute.sourceCode] at h
    simp [SubmitRoute.check, apiSubmit, SubmitRoute.checksSize, h]

/-- The row and the job of a task hold the source of its request. -/
theorem sourceCode_of_check (h : route.check ext app db session now₁ now₂ id = .ok task) :
    task.sub.sourceCode = route.sourceCode ∧ task.job.sourceCode = route.sourceCode := by
  cases route with
  | contestProblem contestId problemId form =>
    obtain ⟨_, _, _, _, _, _, _, _, rfl⟩ := contestProblemSubmit_ok h
    exact ⟨rfl, rfl⟩
  | problem problemId form =>
    obtain ⟨_, _, _, rfl⟩ := problemsSubmit_ok h
    exact ⟨rfl, rfl⟩
  | api req =>
    simp only [SubmitRoute.check, apiSubmit] at h
    split_ifs at h
    cases h
    exact ⟨rfl, rfl⟩

end

section

variable {cfg : Config} {s t : Server} {a : Action}

/-- The answers are `413` exactly where the handlers look at the size. -/
theorem refuses413_iff : s.Refuses413 cfg a ↔ s.sizeChecked a = true := by
  cases a with
  | check i =>
    simp only [Server.Refuses413, Server.sizeChecked]
    cases hq : s.requests[i]? with
    | none => simp
    | some q =>
      simp only [Option.some.injEq, forall_eq', Option.all_some, Bool.or_eq_true,
        Bool.not_eq_true']
      cases hl : sourceCodeTooLarge q.route.sourceCode with
      | false => simp
      | true =>
        rw [check_413_iff hl]
        simp only [forall_const, Bool.true_eq_false, false_or, and_iff_left_iff_imp]
        intro hc t ht
        obtain ⟨body, hb⟩ := (check_413_iff hl).mpr hc
        obtain ⟨q', hq', hstep⟩ := Option.bind_eq_some_iff.mp ht
        cases check_cases hstep with
        | refuse => exact ⟨rfl, rfl, rfl⟩
        | check _ hok =>
          cases hq.symm.trans hq'
          rw [hb] at hok
          cases hok
  | _ => simp [Server.Refuses413, Server.sizeChecked]

/-! ## Over a run -/

/-- A task was carried before the step, or its request just passed its check. -/
theorem task_of_step (h : ServerStep cfg s a t) {q' : Request} {task : SubmitTask}
    (hq' : q' ∈ t.requests) (ht : q'.task = some task) :
    (∃ q ∈ s.requests, q.task = some task) ∨ ∃ i q, a = .check i ∧ s.requests[i]? = some q ∧
      q.route.check cfg.ext cfg.app s.db q.session s.clock s.clock q.id = .ok task := by
  cases h with
  | tick | account => exact .inl ⟨q', hq', ht⟩
  | arrive =>
    rcases List.mem_append.mp hq' with hq' | hq'
    · exact .inl ⟨q', hq', ht⟩
    · rw [List.mem_singleton.mp hq'] at ht
      cases ht
  | worker _ h => exact .inl ⟨q', h.requests_eq ▸ hq', ht⟩
  | restart => cases hq'
  | request hq h =>
    cases h with
    | refuse | insertFail | respond | cancel => exact .inl ⟨q', List.mem_of_mem_eraseIdx hq', ht⟩
    | check _ hc =>
      rcases List.mem_or_eq_of_mem_set hq' with hq' | rfl
      · exact .inl ⟨q', hq', ht⟩
      · cases ht
        exact .inr ⟨_, _, rfl, hq, hc⟩
    | insert hs | record hs =>
      rcases List.mem_or_eq_of_mem_set hq' with hq' | rfl
      · exact .inl ⟨q', hq', ht⟩
      · cases ht
        exact .inl ⟨_, List.mem_of_getElem? hq, by rw [Request.task, hs]⟩
    | send hs =>
      rcases List.mem_or_eq_of_mem_set hq' with hq' | rfl
      · exact .inl ⟨q', hq', ht⟩
      · cases ht
        refine .inl ⟨_, List.mem_of_getElem? hq, ?_⟩
        rcases hs with ⟨hs, -⟩ | hs <;> rw [Request.task, hs]

/-- A queued job was queued before the step, or a request sent it. -/
theorem queued_of_step (h : ServerStep cfg s a t) {job : JudgeJob} (hj : job ∈ t.channel) :
    job ∈ s.channel ∨ ∃ q ∈ s.requests, ∃ task, q.task = some task ∧ job = task.job := by
  cases h with
  | tick | arrive | account => exact .inl hj
  | restart => cases hj
  | worker _ h =>
    cases h with
    | lock | event => exact .inl hj
    | recv hc => exact .inl (hc ▸ List.mem_cons_of_mem _ hj)
    | @start job connected => cases connected <;> exact .inl hj
    | @finish job u connected => cases connected <;> exact .inl hj
  | request hq h =>
    cases h with
    | refuse | check | insertFail | insert | record | respond | cancel => exact .inl hj
    | @send task hs _ =>
      rcases List.mem_append.mp hj with hj | hj
      · exact .inl hj
      · refine .inr ⟨_, List.mem_of_getElem? hq, task, ?_, List.mem_singleton.mp hj⟩
        rcases hs with ⟨hs, -⟩ | hs <;> rw [Request.task, hs]

/-- The limit, in the table, in the queue and in what the requests carry. -/
structure LimitInv (s : Server) : Prop extends s.WithinLimit where
  tasks : ∀ q ∈ s.requests, ∀ task, q.task = some task →
    sourceCodeTooLarge task.sub.sourceCode = false ∧ sourceCodeTooLarge task.job.sourceCode = false

/-- What passes a check that looks at the size is within the limit. -/
theorem within_of_check {i : Nat} {q : Request} {task : SubmitTask} (hq : s.requests[i]? = some q)
    (ha : s.sizeChecked (.check i) = true)
    (hc : q.route.check cfg.ext cfg.app s.db q.session s.clock s.clock q.id = .ok task) :
    sourceCodeTooLarge task.sub.sourceCode = false ∧
      sourceCodeTooLarge task.job.sourceCode = false := by
  obtain ⟨es, ej⟩ := sourceCode_of_check hc
  rw [es, ej, and_self]
  simp only [Server.sizeChecked, hq, Option.all_some, Bool.or_eq_true, Bool.not_eq_true'] at ha
  cases hl : sourceCodeTooLarge q.route.sourceCode with
  | false => rfl
  | true =>
    obtain ⟨body, hb⟩ := (check_413_iff hl).mpr (ha.resolve_left (by simp [hl]))
    rw [hb] at hc
    cases hc

theorem LimitInv.step (hi : LimitInv s) (h : ServerStep cfg s a t)
    (ha : s.sizeChecked a = true) : LimitInv t where
  rows := by
    intro r hr
    rcases row_of_step h hr with ⟨r₀, hr₀, hw⟩ | ⟨i, q, task, rfl, hq, hs, rfl⟩
    · exact hw.sourceCode ▸ hi.rows r₀ hr₀
    · exact (hi.tasks q (List.mem_of_getElem? hq) task (by rw [Request.task, hs])).1
  queued := by
    intro job hj
    rcases queued_of_step h hj with hj | ⟨q, hq, task, ht, rfl⟩
    · exact hi.queued job hj
    · exact (hi.tasks q hq task ht).2
  tasks := by
    intro q hq task ht
    rcases task_of_step h hq ht with ⟨q₀, hq₀, ht₀⟩ | ⟨i, q₀, rfl, hq₀, hc⟩
    · exact hi.tasks q₀ hq₀ task ht₀
    · exact within_of_check hq₀ ha hc

end

/-- In every state of a run from tables within the limit, the rows and the
queued jobs are within it, and every checked request over it is answered `413`
with no effect, exactly if every request checked with a source over the limit
is one whose handler looks at the size. -/
theorem within_limit_iff (cfg : Config) {s t : Server} {tr : List (Server × Action)}
    (hs : (Server.system cfg).init s) (h : (Server.system cfg).Run s tr t)
    (hrows : ∀ r ∈ s.db.submissions, sourceCodeTooLarge r.sourceCode = false) :
    (t.WithinLimit ∧ ∀ e ∈ tr, e.1.WithinLimit ∧ e.1.Refuses413 cfg e.2) ↔
      ∀ e ∈ tr, e.1.sizeChecked e.2 = true := by
  constructor
  · rintro ⟨-, hall⟩ e he
    exact refuses413_iff.mp (hall e he).2
  · intro hc
    obtain ⟨clock, db, sessions, rfl⟩ := hs
    have h0 : LimitInv (.boot cfg clock db sessions) :=
      ⟨⟨hrows, fun _ hj => nomatch hj⟩, fun _ hq => nomatch hq⟩
    obtain ⟨hpre, ht⟩ := h.invariant_throughout
      (fun s a t hi ha hst => hi.step (step_cases hst) ha) hc h0
    exact ⟨ht.toWithinLimit, fun e he => ⟨(hpre e he).toWithinLimit, refuses413_iff.mpr (hc e he)⟩⟩

/-! ### A source of one byte more -/

/-- The least source over the limit. -/
def largeSource : String := String.ofList (List.replicate (maxSourceCodeBytes + 1) 'a')

theorem textOk_largeSource : textOk largeSource = true := by
  simp [textOk, largeSource, List.mem_replicate]

theorem utf8ByteSize_replicate (n : Nat) :
    (String.ofList (List.replicate n 'a')).utf8ByteSize = n := by
  induction n with
  | zero => rfl
  | succ n ih =>
    have ha : (String.ofList ['a']).utf8ByteSize = 1 := by decide
    rw [List.replicate_succ', String.ofList_append, String.utf8ByteSize_append, ih, ha]

theorem largeSource_too_large : sourceCodeTooLarge largeSource = true := by
  rw [sourceCodeTooLarge, largeSource, utf8ByteSize_replicate, decide_eq_true_iff]
  exact Nat.lt_succ_self _

/-- The steps of a request to `problems_submit`, up to the send. -/
def problemSubmitActions (sourceCode : String) : List Action := [
  .arrive 0 (.problem "a" { language := "cpp", sourceCode := sourceCode }) 7,
  .check 0, .insert 0 true, .send 0]

/-- Whatever the source, it is inserted and enqueued. -/
theorem exec_problemSubmit {src : String} (h : textOk src = true) :
    ∃ tr t, System.execAll (Server.step contestConfig) (contestServer "a")
        (problemSubmitActions src) = some (tr, t) ∧
      (∃ r ∈ t.db.submissions, r.sourceCode = src) ∧ ∃ job ∈ t.channel, job.sourceCode = src := by
  have hload : (loadOne contestConfig.ext contestConfig.app.fs contestConfig.app.problemsDir
      "a").result.isOk = true := by decide +kernel
  cases hp : (loadOne contestConfig.ext contestConfig.app.fs contestConfig.app.problemsDir
      "a").result with
  | error e =>
    rw [hp] at hload
    cases hload
  | ok prob =>
    let form : ProblemSubmitForm := { language := "cpp", sourceCode := src }
    let session : SessionRecord := { SessionRecord.empty with userId := some 1 }
    let task : SubmitTask := submitTask (prob.job 7 src .cpp .exact none) (some 1) none "a" none
      (.redirect ("/submissions/" ++ Uuid.toString 7))
    have hcheck : (SubmitRoute.problem "a" form).check contestConfig.ext contestConfig.app
        (contestServer "a").db session 10000000 10000000 7 = .ok task := by
      rw [SubmitRoute.check, problemsSubmit, if_neg (by decide), hp]
      rfl
    have hinsert : (contestServer "a").db.insertSubmission task.sub 10000000 =
        .ok { (contestServer "a").db with submissions := [task.sub.toRow 10000000] } := by
      have hok : (textOk task.sub.problemId && optTextOk task.sub.contestId &&
          textOk task.sub.sourceCode) = true := by
        change (textOk "a" && true && textOk src) = true
        rw [h]
        decide
      rw [Db.insertSubmission, hok]
      rfl
    let q (stage : Stage) : Request :=
      { sid := 0, session := session, modified := false, route := .problem "a" form, id := 7, stage := stage }
    let s₁ : Server := { contestServer "a" with requests := [q .loaded] }
    let s₂ : Server := { s₁ with requests := [q (.checked task)] }
    let s₃ : Server := { s₁ with
      requests := [q (.inserted task)]
      db := { (contestServer "a").db with submissions := [task.sub.toRow 10000000] } }
    let s₄ : Server := { s₃ with requests := [q (.sent task)], channel := [task.job] }
    have h₁ : (contestServer "a").step contestConfig (.arrive 0 (.problem "a" form) 7) = some s₁ := rfl
    have h₂ : s₁.step contestConfig (.check 0) = some s₂ := by
      change s₁.stepRequest contestConfig 0 (q .loaded) (.check 0) = some s₂
      unfold Server.stepRequest
      dsimp only [q, s₁, contestServer, Server.boot] at hcheck ⊢
      rw [hcheck]
      rfl
    have h₃ : s₂.step contestConfig (.insert 0 true) = some s₃ := by
      change s₂.stepRequest contestConfig 0 (q (.checked task)) (.insert 0 true) = some s₃
      unfold Server.stepRequest
      dsimp only [q, s₂, s₁, contestServer, Server.boot] at hinsert ⊢
      rw [if_pos rfl, hinsert]
      rfl
    have h₄ : s₃.step contestConfig (.send 0) = some s₄ := rfl
    exact ⟨_, s₄, System.execAll_cons h₁ (System.execAll_cons h₂
      (System.execAll_cons h₃ (System.execAll_cons h₄ rfl))),
      ⟨_, List.mem_singleton_self _, rfl⟩, _, List.mem_singleton_self _, rfl⟩

theorem within_limit_small :
    ((Server.lastOf contestConfig (contestServer "a") (contestSubmitActions 0 7)).WithinLimit ∧
      ∀ e ∈ Server.traceOf contestConfig (contestServer "a") (contestSubmitActions 0 7),
        e.1.WithinLimit ∧ e.1.Refuses413 contestConfig e.2) :=
  (within_limit_iff contestConfig ⟨_, _, _, rfl⟩
    (Server.run_traceOf _ (contestServer "a") (contestSubmitActions 0 7) (by decide +kernel))
    (fun _ hr => nomatch hr)).mpr
    (List.all_eq_true.mp (by decide +kernel : (Server.traceOf contestConfig (contestServer "a")
      (contestSubmitActions 0 7)).all (fun e => e.1.sizeChecked e.2) = true))

/-- A source of 524289 bytes is inserted and enqueued by `problems_submit`. -/
theorem within_limit_fails : ∃ tr t, (Server.system contestConfig).Run (contestServer "a") tr t ∧
    (contestServer "a").db.submissions = [] ∧
    (∃ r ∈ t.db.submissions, sourceCodeTooLarge r.sourceCode = true) ∧
    ∃ job ∈ t.channel, sourceCodeTooLarge job.sourceCode = true := by
  obtain ⟨tr, t, he, ⟨r, hr, er⟩, ⟨job, hj, ej⟩⟩ := exec_problemSubmit textOk_largeSource
  exact ⟨tr, t, System.run_of_execAll he, rfl, ⟨r, hr, er ▸ largeSource_too_large⟩,
    ⟨job, hj, ej ▸ largeSource_too_large⟩⟩

end MikanJudge

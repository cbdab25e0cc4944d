import MikanJudge.Proof.AtMostOnce

/-!
# The workers never get stuck

From any state a run has reached, and however the programs will behave, the
workers can go on until no job is left in the channel or with a worker, and
each job that was in the channel has then been judged as a whole, whatever
other jobs were judged meanwhile (`drains`). This takes nothing but steps of
the workers.
-/

namespace MikanJudge

open MikanJudge.Lib

/-- A step of a worker. -/
def Action.works : Action → Bool
  | .lock _ | .recv _ | .write _ _ | .event _ _ => true
  | _ => false

/-- The workers alone get from a state to another. -/
def WorksTo (cfg : Config) (s t : Server) : Prop :=
  ∃ tr, (Server.system cfg).Run s tr t ∧ ∀ e ∈ tr, e.2.works = true

section

variable {cfg : Config} {s t u : Server}

theorem WorksTo.refl (s : Server) : WorksTo cfg s s := ⟨[], .nil s, fun _ h => nomatch h⟩

theorem WorksTo.trans (h : WorksTo cfg s t) (h' : WorksTo cfg t u) : WorksTo cfg s u := by
  obtain ⟨tr, hr, hw⟩ := h
  obtain ⟨tr', hr', hw'⟩ := h'
  exact ⟨tr ++ tr', hr.trans hr', fun e he => (List.mem_append.mp he).elim (hw e) (hw' e)⟩

theorem WorksTo.step {a : Action} (h : s.step cfg a = some t) (ha : a.works = true) :
    WorksTo cfg s t :=
  ⟨[(s, a)], System.Run.snoc (.nil s) h, fun e he => by rw [List.mem_singleton.mp he]; exact ha⟩

/-! ## One worker -/

/-- What the steps of workers change. -/
def Server.worked (s : Server) (rows : List SubmissionRow) (channel : List JudgeJob)
    (workers : List Worker) : Server :=
  { s with db := { s.db with submissions := rows }, channel := channel, workers := workers }

section

variable (cfg : Config) (s : Server) (rows : List SubmissionRow) (channel : List JudgeJob)
  {workers : List Worker} {w : Nat} {job : JudgeJob} {st st' : JudgeState}

variable {cfg s rows channel} in
theorem worksTo_of_stepWorker {worker : Worker} {a : Action} (hw : workers[w]? = some worker)
    (ha : a.works = true)
    (hstep : (s.worked rows channel workers).step cfg a =
      (workers[w]?).bind fun worker => (s.worked rows channel workers).stepWorker cfg w worker a)
    (h : (s.worked rows channel workers).stepWorker cfg w worker a = some t) :
    WorksTo cfg (s.worked rows channel workers) t :=
  .step (by rw [hstep, hw, Option.bind_some, h]) ha

theorem worksTo_lock (hw : workers[w]? = some .idle) (hfree : .receiving ∉ workers) :
    WorksTo cfg (s.worked rows channel workers)
      (s.worked rows channel (workers.set w .receiving)) := by
  refine worksTo_of_stepWorker (a := .lock w) hw rfl rfl ?_
  refine if_neg fun hany => ?_
  obtain ⟨worker, hmem, h⟩ := List.any_eq_true.mp hany
  cases worker with
  | receiving => exact hfree hmem
  | idle | judging => cases h

theorem worksTo_recv (hw : workers[w]? = some .receiving) :
    WorksTo cfg (s.worked rows (job :: channel) workers)
      (s.worked rows channel (workers.set w (.judging job .start))) :=
  worksTo_of_stepWorker (a := .recv w) hw rfl rfl rfl

/-- The first write of judging a job. -/
theorem worksTo_start (hw : workers[w]? = some (.judging job .start)) :
    WorksTo cfg (s.worked rows channel workers)
      (s.worked ((RowUpdate.status .running).write cfg.ext rows job.id) channel
        (workers.set w (.judging job .tempdir))) :=
  worksTo_of_stepWorker (a := .write w true) hw rfl rfl rfl

/-- The last one. -/
theorem worksTo_finish {u : FinalUpdate} (hw : workers[w]? = some (.judging job (.finish u))) :
    WorksTo cfg (s.worked rows channel workers)
      (s.worked (u.val.write cfg.ext rows job.id) channel (workers.set w .idle)) :=
  worksTo_of_stepWorker (a := .write w true) hw rfl rfl rfl

theorem worksTo_events {es : List JudgeEvent} (h : JudgeSteps cfg.ext job st es st')
    (hw : workers[w]? = some (.judging job st)) :
    WorksTo cfg (s.worked rows channel workers)
      (s.worked rows channel (workers.set w (.judging job st'))) := by
  induction h generalizing workers with
  | nil st =>
    obtain ⟨hlt, e⟩ := List.getElem?_eq_some_iff.mp hw
    rw [← e, List.set_getElem_self]
    exact .refl _
  | @cons st st₁ st₂ e es hst _ ih =>
    have hstep : (s.worked rows channel workers).stepWorker cfg w (.judging job st) (.event w e) =
        some (s.worked rows channel (workers.set w (.judging job st₁))) := by
      simp only [Server.stepWorker, hst, Option.map_some]
      rfl
    have hnext := @ih (workers.set w (.judging job st₁))
      (List.getElem?_set_self (List.getElem?_eq_some_iff.mp hw).1)
    rw [List.set_set] at hnext
    exact (worksTo_of_stepWorker hw rfl rfl hstep).trans hnext

/-- After its first write, a worker goes on to the last. -/
theorem worksTo_last {es : List JudgeEvent} {u : FinalUpdate}
    (h : JudgeSteps cfg.ext job st es (.finish u)) (hw : workers[w]? = some (.judging job st)) :
    WorksTo cfg (s.worked rows channel workers)
      (s.worked (u.val.write cfg.ext rows job.id) channel (workers.set w .idle)) := by
  have hlast := worksTo_finish cfg s rows channel
    (List.getElem?_set_self (a := .judging job (.finish u)) (List.getElem?_eq_some_iff.mp hw).1)
  rw [List.set_set] at hlast
  exact (worksTo_events cfg s rows channel h hw).trans hlast

/-- A worker that waits for a job judges the next one as a whole. -/
theorem worksTo_judge (job : JudgeJob) (env : JudgeEnv) (hw : workers[w]? = some .receiving) :
    WorksTo cfg (s.worked rows (job :: channel) workers)
      (s.worked (judge cfg.ext job env rows) channel (workers.set w .idle)) := by
  have hlt := (List.getElem?_eq_some_iff.mp hw).1
  obtain ⟨es, h⟩ := judge_steps cfg.ext job env
  have hstart := worksTo_start cfg s rows channel
    (List.getElem?_set_self (l := workers) (a := .judging job .start) hlt)
  rw [List.set_set] at hstart
  have hlast := worksTo_last cfg s ((RowUpdate.status .running).write cfg.ext rows job.id) channel h
    (List.getElem?_set_self (l := workers) hlt)
  rw [List.set_set] at hlast
  exact (worksTo_recv cfg s rows channel hw).trans (hstart.trans hlast)

/-- From its first write on, judging can come to an end. -/
theorem exists_judgeSteps (ext : Externals) (job : JudgeJob) (hst : st ≠ .start) :
    ∃ es u, JudgeSteps ext job st es (.finish u) := by
  cases st with
  | start => exact absurd rfl hst
  | tempdir => exact ⟨[.tempdir (.error "")], internalError "", .cons rfl (.nil _)⟩
  | compile => exact ⟨[.compiled (.error "")], internalError "", .cons rfl (.nil _)⟩
  | cases compiled rest acc =>
    obtain ⟨es, h⟩ := judgeCases_steps ext job compiled (fun _ => ⟨.error "", .failed ""⟩) 0 rest acc
    exact ⟨es, _, h⟩
  | finish u => exact ⟨[], u, .nil _⟩

variable {rows} in
theorem filter_write_of_ne {ext : Externals} {id id' : Uuid} {u : RowUpdate} (h : id' ≠ id) :
    (u.write ext rows id).filter (·.id == id') = rows.filter (·.id == id') := by
  rw [RowUpdate.write_eq]
  split_ifs
  · exact filter_updateWhere_of_ne (fun r => RowUpdate.apply_id r) h
  · rfl

/-- A worker that judges a job can come to its end, and touches the rows of no
other. -/
theorem worksTo_idle (hw : workers[w]? = some (.judging job st)) :
    ∃ rows', WorksTo cfg (s.worked rows channel workers)
        (s.worked rows' channel (workers.set w .idle)) ∧
      ∀ id ≠ job.id, rows'.filter (·.id == id) = rows.filter (·.id == id) := by
  by_cases hst : st = .start
  · subst hst
    obtain ⟨es, u, h⟩ := exists_judgeSteps cfg.ext job (show JudgeState.tempdir ≠ .start by simp)
    have hlast := worksTo_last cfg s ((RowUpdate.status .running).write cfg.ext rows job.id) channel h
      (List.getElem?_set_self (l := workers) (List.getElem?_eq_some_iff.mp hw).1)
    rw [List.set_set] at hlast
    exact ⟨_, (worksTo_start cfg s rows channel hw).trans hlast, fun id hid => by
      rw [filter_write_of_ne hid, filter_write_of_ne hid]⟩
  · obtain ⟨es, u, h⟩ := exists_judgeSteps cfg.ext job hst
    exact ⟨_, worksTo_last cfg s rows channel h hw, fun id hid => filter_write_of_ne hid⟩

end

/-! ## All of them -/

theorem work_judging (job : JudgeJob) (st : JudgeState) :
    ∃ b, (Worker.judging job st).work = some (job.id, b) := by
  cases st <;> exact ⟨_, rfl⟩

/-- A list of workers, none of which judges. -/
def Resting (workers : List Worker) : Prop := ∀ worker ∈ workers, worker.work = none

theorem Resting.set {workers : List Worker} {worker : Worker} (h : Resting workers)
    (hidle : worker.work = none) (w : Nat) :
    Resting (workers.set w worker) := fun x hx =>
  (List.mem_or_eq_of_mem_set hx).elim (h x) (fun e => e ▸ hidle)

/-- The workers can finish what they judge; the rows of other submissions stay. -/
theorem exists_resting (cfg : Config) (s : Server) (rows : List SubmissionRow)
    (channel : List JudgeJob) (workers : List Worker) :
    ∃ rows' workers', WorksTo cfg (s.worked rows channel workers) (s.worked rows' channel workers') ∧
      workers'.length = workers.length ∧ Resting workers' ∧
      ∀ id, id ∉ (bag Worker.work workers).map (·.1) →
        rows'.filter (·.id == id) = rows.filter (·.id == id) := by
  generalize hn : (bag Worker.work workers).card = n
  induction n generalizing rows workers with
  | zero =>
    refine ⟨rows, workers, .refl _, rfl, fun worker hmem => ?_, fun _ _ => rfl⟩
    cases hwork : worker.work with
    | none => rfl
    | some x =>
      have hx : x ∈ bag Worker.work workers := Multiset.mem_coe.mpr (List.mem_filterMap.mpr ⟨_, hmem, hwork⟩)
      rw [Multiset.card_eq_zero.mp hn] at hx
      cases hx
  | succ n ih =>
    obtain ⟨x, hx⟩ := Multiset.card_pos_iff_exists_mem.mp (show 0 < (bag Worker.work workers).card by omega)
    obtain ⟨worker, hmem, hwork⟩ := List.mem_filterMap.mp (Multiset.mem_coe.mp hx)
    obtain ⟨w, hw⟩ := List.mem_iff_getElem?.mp hmem
    cases worker with
    | idle | receiving => cases hwork
    | judging job st =>
      obtain ⟨b, hb⟩ := work_judging job st
      have hidle : Worker.idle.work = none := rfl
      have hbefore := bag_eq_held_add (f := Worker.work) hw
      have hafter := bag_set (f := Worker.work) hw .idle
      rw [held_some hb, Multiset.singleton_add] at hbefore
      rw [held_none hidle, zero_add] at hafter
      obtain ⟨rows₁, hto₁, hrows₁⟩ := worksTo_idle cfg s rows channel hw
      obtain ⟨rows₂, workers₂, hto₂, hlen, hrest, hrows₂⟩ := ih rows₁ (workers.set w .idle) (by
        rw [hbefore, Multiset.card_cons] at hn
        rw [hafter]
        omega)
      refine ⟨rows₂, workers₂, hto₁.trans hto₂, by rw [hlen, List.length_set], hrest, fun id hid => ?_⟩
      rw [hbefore, Multiset.map_cons, Multiset.mem_cons, not_or] at hid
      rw [hrows₂ id (hafter ▸ hid.2), hrows₁ id hid.1]

/-- Workers that rest can judge one job after another. -/
theorem worksTo_channel (cfg : Config) (s : Server) (envs : JudgeJob → JudgeEnv)
    (rows : List SubmissionRow) (channel : List JudgeJob) {workers : List Worker}
    (hrest : Resting workers) (hpos : 0 < workers.length) :
    ∃ workers', WorksTo cfg (s.worked rows channel workers)
        (s.worked (channel.foldl (fun rows job => judge cfg.ext job (envs job) rows) rows) [] workers') ∧
      workers'.length = workers.length ∧ Resting workers' := by
  induction channel generalizing rows workers with
  | nil => exact ⟨workers, .refl _, rfl, hrest⟩
  | cons job jobs ih =>
    -- a worker that waits for a job, or becomes the one that does
    have hwait : ∃ (w : Nat) (ws : List Worker), WorksTo cfg (s.worked rows (job :: jobs) workers)
        (s.worked rows (job :: jobs) ws) ∧ ws[w]? = some .receiving ∧
        ws.length = workers.length ∧ Resting ws := by
      by_cases hfree : Worker.receiving ∈ workers
      · obtain ⟨w, hw⟩ := List.mem_iff_getElem?.mp hfree
        exact ⟨w, workers, .refl _, hw, rfl, hrest⟩
      · have hw : workers[0]? = some workers[0] := List.getElem?_eq_getElem hpos
        have hidle : workers[0] = .idle := by
          have hmem : workers[0] ∈ workers := List.getElem_mem hpos
          have hnone := hrest _ hmem
          cases hx : workers[0] with
          | idle => rfl
          | receiving => exact absurd (hx ▸ hmem) hfree
          | judging job st =>
            obtain ⟨b, hb⟩ := work_judging job st
            rw [hx, hb] at hnone
            cases hnone
        exact ⟨0, workers.set 0 .receiving, worksTo_lock cfg s rows (job :: jobs) (hidle ▸ hw) hfree,
          List.getElem?_set_self hpos, List.length_set, hrest.set rfl 0⟩
    obtain ⟨w, ws, hto, hw, hlen, hrest'⟩ := hwait
    have hnext := worksTo_judge cfg s rows jobs job (envs job) hw
    obtain ⟨ws', hto', hlen', hrest''⟩ := ih (judge cfg.ext job (envs job) rows)
      (hrest'.set (show Worker.idle.work = none from rfl) w) (by rw [List.length_set, hlen]; exact hpos)
    refine ⟨ws', hto.trans (hnext.trans hto'), ?_, hrest''⟩
    rw [hlen', List.length_set, hlen]

/-! ## What judging one after another leaves -/

variable {job : JudgeJob} {rows : List SubmissionRow}

theorem filter_updateWhere_self {id : Uuid} {f : SubmissionRow → SubmissionRow}
    (hf : ∀ r, (f r).id = r.id) (rows : List SubmissionRow) :
    (updateWhere id f rows).filter (·.id == id) = (rows.filter (·.id == id)).map f := by
  induction rows with
  | nil => rfl
  | cons r rows ih =>
    simp only [updateWhere, List.map_cons, List.filter_cons] at ih ⊢
    rw [ih]
    by_cases h : r.id = id
    · simp [h, hf]
    · simp [h]

theorem filter_judge_of_ne {ext : Externals} {env : JudgeEnv} {id : Uuid} (h : id ≠ job.id) :
    (judge ext job env rows).filter (·.id == id) = rows.filter (·.id == id) := by
  rw [judge, filter_write_of_ne h, filter_write_of_ne h]

/-- What judging makes of the rows of its job depends on them alone. -/
theorem filter_judge_congr {ext : Externals} {env : JudgeEnv} {rows' : List SubmissionRow}
    (h : rows'.filter (·.id == job.id) = rows.filter (·.id == job.id)) :
    (judge ext job env rows').filter (·.id == job.id) =
      (judge ext job env rows).filter (·.id == job.id) := by
  have hwrite : ∀ {u : RowUpdate} {rows rows' : List SubmissionRow},
      rows'.filter (·.id == job.id) = rows.filter (·.id == job.id) →
      (u.write ext rows' job.id).filter (·.id == job.id) =
        (u.write ext rows job.id).filter (·.id == job.id) := by
    intro u rows rows' h
    rw [RowUpdate.write_eq, RowUpdate.write_eq]
    split_ifs
    · rw [filter_updateWhere_self fun r => RowUpdate.apply_id r,
        filter_updateWhere_self fun r => RowUpdate.apply_id r, h]
    · exact h
  exact hwrite (hwrite h)

theorem filter_foldl_judge {ext : Externals} {envs : JudgeJob → JudgeEnv} {jobs : List JudgeJob}
    (hnodup : (jobs.map (·.id)).Nodup) (hjob : job ∈ jobs) (rows : List SubmissionRow) :
    (jobs.foldl (fun rows job => judge ext job (envs job) rows) rows).filter (·.id == job.id) =
      (judge ext job (envs job) rows).filter (·.id == job.id) := by
  have hothers : ∀ {jobs : List JudgeJob} {rows : List SubmissionRow}, job.id ∉ jobs.map (·.id) →
      (jobs.foldl (fun rows job => judge ext job (envs job) rows) rows).filter (·.id == job.id) =
        rows.filter (·.id == job.id) := by
    intro jobs
    induction jobs with
    | nil => exact fun _ => rfl
    | cons j jobs ih =>
      intro rows hn
      rw [List.map_cons, List.mem_cons, not_or] at hn
      rw [List.foldl_cons, ih hn.2, filter_judge_of_ne hn.1]
  induction jobs generalizing rows with
  | nil => cases hjob
  | cons j jobs ih =>
    rw [List.map_cons, List.nodup_cons] at hnodup
    rw [List.foldl_cons]
    rcases List.mem_cons.mp hjob with rfl | hmem
    · exact hothers hnodup.1
    · have hne : job.id ≠ j.id := fun e => hnodup.1 (e ▸ List.mem_map.mpr ⟨job, hmem, rfl⟩)
      rw [ih hnodup.2 hmem, filter_judge_congr (filter_judge_of_ne hne)]

end

/-! ## From any state of a run -/

/-- No worker is ever lost. -/
theorem length_workers_of_run {cfg : Config} {s t : Server} {tr : List (Server × Action)}
    (hs : (Server.system cfg).init s) (h : (Server.system cfg).Run s tr t) :
    t.workers.length = cfg.numWorkers := by
  refine h.invariant (I := fun s => s.workers.length = cfg.numWorkers) (fun s a t hI hst => ?_) ?_
  · cases step_cases hst with
    | tick | arrive | account => exact hI
    | restart => exact List.length_replicate
    | request _ h => cases h <;> exact hI
    | worker _ h =>
      cases h with
      | lock | recv | event => exact (List.length_set ..).trans hI
      | @start _ connected => cases connected <;> exact (List.length_set ..).trans hI
      | @finish _ _ connected => cases connected <;> exact (List.length_set ..).trans hI
  · obtain ⟨clock, db, sessions, rfl⟩ := hs
    exact List.length_replicate

/-- From any state a run has reached, the workers alone can go on until no job
is in the channel or with a worker. However judging each job in the channel
will go, its rows are then those that judging it as a whole leaves; requests and
sessions are as they were. -/
theorem drains (cfg : Config) {s₀ s : Server} {tr : List (Server × Action)}
    (hs : (Server.system cfg).init s₀) (h : (Server.system cfg).Run s₀ tr s)
    (envs : JudgeJob → JudgeEnv) :
    ∃ tr' t, (Server.system cfg).Run s tr' t ∧ (∀ e ∈ tr', e.2.works = true) ∧ t.channel = [] ∧
      Resting t.workers ∧ t.requests = s.requests ∧ t.sessions = s.sessions ∧ t.clock = s.clock ∧
      ∀ job ∈ s.channel, t.db.submissions.filter (·.id == job.id) =
        (judge cfg.ext job (envs job) s.db.submissions).filter (·.id == job.id) := by
  have hq : s.queue.Inv := by
    refine h.invariant (I := fun s => s.queue.Inv) (fun s a t hI hst => (step_effect hst).inv hI) ?_
    obtain ⟨clock, db, sessions, rfl⟩ := hs
    exact WorkQueue.inv_of_init (inFlight_boot cfg clock db sessions)
  -- the jobs in the channel are apart from each other and from those being judged
  have hnodup := hq.nodup
  rw [WorkQueue.places, Server.queue_waiting, Server.queue_working, Multiset.nodup_add,
    Multiset.nodup_add, Multiset.coe_nodup] at hnodup
  obtain ⟨⟨-, hchannel, -⟩, -, hapart⟩ := hnodup
  have hlen := length_workers_of_run hs h
  obtain ⟨rows, ws, ⟨tr₁, hr₁, hw₁⟩, hlen₁, hrest₁, hrows⟩ :=
    exists_resting cfg s s.db.submissions s.channel s.workers
  obtain ⟨ws', ⟨tr₂, hr₂, hw₂⟩, -, hrest₂⟩ := worksTo_channel cfg s envs rows s.channel hrest₁
    (by rw [hlen₁, hlen]; exact cfg.pos)
  refine ⟨tr₁ ++ tr₂, _, System.Run.trans (t := s.worked rows s.channel ws) hr₁ hr₂,
    fun e he => (List.mem_append.mp he).elim (hw₁ e) (hw₂ e), rfl, hrest₂, rfl, rfl, rfl,
    fun job hjob => ?_⟩
  have hmem : job.id ∈ s.channel.map (·.id) := List.mem_map.mpr ⟨job, hjob, rfl⟩
  have hfree : job.id ∉ (bag Worker.work s.workers).map (·.1) := fun hw =>
    Multiset.disjoint_left.mp hapart (Multiset.mem_add.mpr (.inr (Multiset.mem_coe.mpr hmem))) hw
  exact (filter_foldl_judge hchannel hjob rows).trans (filter_judge_congr (hrows job.id hfree))

/-! ### A job in the channel -/

theorem drains_sent :
    ∃ tr t, (Server.system smallConfig).Run (Server.lastOf smallConfig
        (.boot smallConfig 0 emptyDb []) apiSubmitActions) tr t ∧
      (∀ e ∈ tr, e.2.works = true) ∧ t.channel = [] ∧ Resting t.workers := by
  obtain ⟨tr, t, hr, hw, hc, hrest, -⟩ := drains smallConfig ⟨0, emptyDb, [], rfl⟩
    (Server.run_traceOf smallConfig (.boot smallConfig 0 emptyDb []) apiSubmitActions (by rfl))
    fun _ => ⟨.ok (), .ok ⟨"", [], none, ""⟩, fun _ => ⟨.ok (printing []), .failed ""⟩⟩
  exact ⟨tr, t, hr, hw, hc, hrest⟩

end MikanJudge

import MikanJudge.Proof.JudgeTrace
import MikanJudge.Proof.ProgramServer

/-!
# Which run of `judge` a row comes from

In any run of the server, what a judged row holds was written by a run of `judge` on the
very submission of the row, made of the exchanges of one worker since it got the job, with
anything else between them (`rows_by_judge`).
-/

namespace MikanJudge

open MikanJudge.Lib Program

/-! ## What is written -/

/-- What a run enters in the ledger of the submissions, in order. -/
def programEntries (cfg : Config) (tr : List (ProgramServer × ProgramAction)) :
    List (Ledger.Label Uuid Entered FinalUpdate) :=
  tr.filterMap fun e => e.1.entry cfg e.2

section

variable {cfg : Config} {s t : ProgramServer} {a : ProgramAction}
  {tr : List (ProgramServer × ProgramAction)}

theorem serverEntry_eq {s : Server} {a : Action} :
    s.entry cfg a = (Server.shown cfg (s, a)).bind (·.2) := by
  cases a with
  | write w connected =>
    cases hv : s.visible (.write w connected) with
    | some v => simp only [Server.shown, hv, Option.map_some, Option.bind_some]
    | none =>
      simp only [Server.shown, hv, Option.map_none, Option.bind_none]
      cases connected with
      | false => rfl
      | true =>
        simp only [Server.entry]
        split
        · rename_i hw
          simp only [Server.visible, hw, reduceCtorEq] at hv
        · rfl
  | insert i connected => cases connected <;> rfl
  | tick | arrive | check | record | send | respond | cancel | account | lock | recv | event | restart => rfl

theorem programEntry_eq : s.entry cfg a = (ProgramServer.shown cfg (s, a)).bind (·.2) := by
  cases hv : s.visible a with
  | some v => simp only [ProgramServer.shown, hv, Option.map_some, Option.bind_some]
  | none =>
    simp only [ProgramServer.shown, hv, Option.map_none, Option.bind_none]
    cases a with
    | server a => cases hv
    | lock | recv | request | returned => simp only [ProgramServer.entry, hv]

/-- A run is one of the other server, up to the workers. -/
theorem run_of_programRun (hs : (ProgramServer.system cfg).init s)
    (h : (ProgramServer.system cfg).Run s tr t) :
    ∃ s' tr' t', (Server.system cfg).init s' ∧ (Server.system cfg).Run s' tr' t' ∧
      s.StandsFor cfg.ext s' ∧ t.StandsFor cfg.ext t' ∧ ledgerEntries cfg tr' = programEntries cfg tr := by
  obtain ⟨s', hs', hR⟩ := (program_refines cfg).init hs
  obtain ⟨t', tr', hr, hR', e⟩ := (program_refines cfg).run h hR
  refine ⟨s', tr', t', hs', hr.of_restrict, hR, hR', ?_⟩
  have hentries := congrArg (List.filterMap (·.2)) e
  simp only [List.filterMap_filterMap] at hentries
  simp only [ledgerEntries, programEntries, serverEntry_eq, programEntry_eq]
  exact hentries

theorem settle_of_entry {id : Uuid} {u : FinalUpdate} (h : s.entry cfg a = some (.settle id u)) :
    ∃ w answer job k, a = .request w answer true ∧
      s.workers[w]? = some (.judging job (.request (.write u.val) k)) ∧ job.id = id := by
  cases a with
  | lock | recv | returned => cases h
  | server a =>
    cases a with
    | insert i connected =>
      cases connected with
      | false => cases h
      | true =>
        obtain ⟨q, -, h⟩ := Option.bind_eq_some_iff.mp h
        split at h
        · split_ifs at h
          cases h
        · cases h
    | write w connected => cases connected <;> cases h
    | tick | arrive | check | record | send | respond | cancel | account | lock | recv | event
      | restart => cases h
  | request w answer connected =>
    simp only [ProgramServer.entry] at h
    split at h
    · rename_i hv
      cases hv
    · rename_i id' u' hv _
      split_ifs at h with hu
      cases h
      simp only [ProgramServer.visible] at hv
      split at hv
      · rename_i job u k hw
        cases hv
        exact ⟨w, answer, job, k, rfl, hw, rfl⟩
      · cases hv
    · cases h

theorem exchanges_snoc (w : Nat) (tr : List (ProgramServer × ProgramAction)) (s : ProgramServer)
    (a : ProgramAction) : ProgramServer.exchanges w (tr ++ [(s, a)]) =
      ProgramServer.exchanged w (ProgramServer.exchanges w tr) s a := by
  rw [ProgramServer.exchanges, List.foldl_append]
  rfl

/-- What a worker has left is what its exchanges have left of `judge`. -/
theorem reaches_exchanges (hs : (ProgramServer.system cfg).init s)
    (h : (ProgramServer.system cfg).Run s tr t) : ∀ (w : Nat) (job : JudgeJob) (left : JudgeProgram Ending),
    t.workers[w]? = some (.judging job left) →
      (judgeProgram cfg.ext job).Reaches (ProgramServer.exchanges w tr) left := by
  obtain ⟨clock, db, sessions, rfl⟩ := hs
  have hboot : ∀ {clock : Time} {db : Db} {sessions : List (Nat × SessionRecord)} {w : Nat}
      {job : JudgeJob} {left : JudgeProgram Ending},
      (ProgramServer.boot cfg clock db sessions).workers[w]? ≠ some (.judging job left) := by
    intro clock db sessions w job left hw
    cases (List.mem_replicate.mp (List.mem_of_getElem? hw)).2
  refine h.history (I := fun tr t => ∀ w job left, t.workers[w]? = some (.judging job left) →
    (judgeProgram cfg.ext job).Reaches (ProgramServer.exchanges w tr) left)
    (fun w job left hw => absurd hw hboot) ?_
  intro tr s a t hI hstep w job left hw
  rw [exchanges_snoc]
  cases programStep_cases hstep with
  | server => exact hI w job left hw
  | restart => exact absurd hw hboot
  | lock hw' | returned hw' =>
    rcases (get_set_iff hw').mp hw with ⟨-, h⟩ | ⟨-, hw⟩
    · cases h
    · exact hI w job left hw
  | recv hw' =>
    rcases (get_set_iff hw').mp hw with ⟨rfl, h⟩ | ⟨hne, hw⟩
    · cases h
      rw [ProgramServer.exchanged, if_pos rfl]
      exact .refl _
    · rw [ProgramServer.exchanged, if_neg (Ne.symm hne)]
      exact hI w job left hw
  | @request w' job' e k answer connected hw' =>
    rw [ProgramServer.setWorker, workers_perform] at hw
    rcases (get_set_iff hw').mp hw with ⟨rfl, h⟩ | ⟨hne, hw⟩
    · cases h
      rw [ProgramServer.exchanged, if_pos rfl, ProgramServer.exchange?, hw']
      exact (hI _ _ _ hw').snoc (answer e)
    · rw [ProgramServer.exchanged, if_neg (Ne.symm hne)]
      exact hI w job left hw

/-- A job in `judge` is that of a submission entered before. -/
theorem entered_of_judging (hs : (ProgramServer.system cfg).init s)
    (h : (ProgramServer.system cfg).Run s tr t) {w : Nat} {job : JudgeJob} {e : JudgeRequest}
    {k : e.Reply → JudgeProgram Ending} (hw : t.workers[w]? = some (.judging job (.request e k))) :
    ∃ task time, .enter job.id (task, time) ∈ programEntries cfg tr ∧ task.job = job := by
  obtain ⟨s', tr', t', hs', hrun, -, ⟨workers, hall, rfl⟩, hentries⟩ := run_of_programRun hs h
  obtain ⟨l, hI, hl⟩ := served_of_run hs' hrun
  obtain ⟨worker, hw', hR⟩ := getElem?_of_forall₂ hall hw
  cases hR with
  | judging =>
    obtain ⟨⟨task, time⟩, hc, hjob, -⟩ := hI.held job (.worker (List.mem_of_getElem? hw'))
    exact ⟨task, time, hentries ▸ (hl.content _ _).mpr hc, hjob⟩

/-- The last write of `judge` ends it. -/
theorem judge_of_settle (hs : (ProgramServer.system cfg).init s)
    (h : (ProgramServer.system cfg).Run s tr t) {w : Nat} {job : JudgeJob} {u : FinalUpdate}
    {k : (JudgeRequest.write u.val).Reply → JudgeProgram Ending} (answer : Replies)
    (hw : t.workers[w]? = some (.judging job (.request (.write u.val) k))) :
    (judgeProgram cfg.ext job).Runs
        (ProgramServer.exchanges w (tr ++ [(t, .request w answer true)])) .returned ∧
      writes (ProgramServer.exchanges w (tr ++ [(t, .request w answer true)])) =
        [.status .running, u.val] := by
  obtain ⟨s', tr', t', -, -, -, ⟨workers, hall, rfl⟩, -⟩ := run_of_programRun hs h
  obtain ⟨worker, -, hR⟩ := getElem?_of_forall₂ hall hw
  have hk : k () = .pure .returned := by
    cases hR with
    | judging hleft =>
      generalize hv : u.val = v at *
      cases next_of_left hleft with
      | running =>
        have hu := u.property
        rw [hv] at hu
        cases hu
      | finish _ hk => exact hk
      | quiet hne => exact absurd rfl (hne _)
  have hexchanges : ProgramServer.exchanges w (tr ++ [(t, .request w answer true)]) =
      ProgramServer.exchanges w tr ++ [⟨.write u.val, ()⟩] := by
    rw [exchanges_snoc, ProgramServer.exchanged, if_pos rfl, ProgramServer.exchange?, hw]
    rfl
  have hreach := (reaches_exchanges hs h w job _ hw).snoc ()
  rw [hk] at hreach
  rw [hexchanges]
  refine ⟨hreach.done, ?_⟩
  obtain ⟨-, env, -, hwrites⟩ := writes_judgeProgram hreach.done
  have hlast : writes (ProgramServer.exchanges w tr) ++ [u.val] =
      [.status .running] ++ [(judgeFinal cfg.ext job env).val] := by rwa [writes_append] at hwrites
  rw [hwrites, (List.append_singleton_inj.mp hlast).2]

end

/-- In every run, each row entered in it waits or is judged, and is as it was entered, up
to its owner; or it has what a run of `judge` on its job wrote last, and the exchanges of
that run are those one worker has made since it got the job. -/
theorem rows_by_judge (cfg : Config) {s t : ProgramServer} {tr : List (ProgramServer × ProgramAction)}
    (hs : (ProgramServer.system cfg).init s) (h : (ProgramServer.system cfg).Run s tr t) :
    ∀ r ∈ t.db.submissions, r.id ∉ s.db.submissions.map (·.id) →
      ∃ task time, .enter r.id (task, time) ∈ programEntries cfg tr ∧
        ((r.id ∉ Ledger.settled (programEntries cfg tr) ∧ r.Shows cfg.ext (task, time) none) ∨
          ∃ (u : FinalUpdate) (w : Nat) (pre : List (ProgramServer × ProgramAction))
            (e : ProgramServer × ProgramAction) (post : List (ProgramServer × ProgramAction)),
            tr = pre ++ e :: post ∧ .enter r.id (task, time) ∈ programEntries cfg pre ∧
            (judgeProgram cfg.ext task.job).Runs (ProgramServer.exchanges w (pre ++ [e])) .returned ∧
            writes (ProgramServer.exchanges w (pre ++ [e])) = [.status .running, u.val] ∧
            r.Shows cfg.ext (task, time) (some u)) := by
  intro r hr hnew
  obtain ⟨s', tr', t', hs', hrun, ⟨_, -, rfl⟩, ⟨_, -, rfl⟩, hentries⟩ := run_of_programRun hs h
  obtain ⟨l, hI, hl⟩ := served_of_run hs' hrun
  rw [hentries] at hl
  obtain ⟨⟨task, time⟩, hc, hshow⟩ := hI.rows r hr hnew
  refine ⟨task, time, (hl.content _ _).mpr hc, ?_⟩
  generalize ho : l.outcome r.id = o at hshow
  cases o with
  | none =>
    refine .inl ⟨fun hmem => ?_, hshow⟩
    obtain ⟨u, hu⟩ := Ledger.mem_settled.mp hmem
    cases ho.symm.trans ((hl.outcome _ _).mp hu)
  | some u =>
    obtain ⟨⟨s₁, a⟩, hmem, hentry⟩ := List.mem_filterMap.mp ((hl.outcome _ _).mpr ho)
    obtain ⟨pre, post, rfl⟩ := List.append_of_mem hmem
    obtain ⟨w, answer, job, k, rfl, hw, hid⟩ := settle_of_entry hentry
    have hpre := (h.of_append_cons rfl).1
    -- the job the worker has is that of the row
    obtain ⟨task', time', henter, hjob⟩ := entered_of_judging hs hpre hw
    rw [hid] at henter
    have hc' : l.content r.id = some (task', time') := by
      refine (hl.content _ _).mp ?_
      rw [programEntries, List.filterMap_append]
      exact List.mem_append_left _ henter
    cases hc.symm.trans hc'
    obtain ⟨hruns, hwrites⟩ := judge_of_settle hs hpre answer hw
    exact .inr ⟨u, w, pre, _, post, rfl, henter, hjob ▸ hruns, hwrites, hshow⟩

/-- A submission over the API, whose compiler fails. -/
def rejectedActions : List ProgramAction :=
  apiSubmitActions.map .server ++ [.lock 0, .recv 0] ++
    List.replicate 7 (.request 0 (compilerExiting false [] 0) true) ++ [.returned 0]

/-- One submission has been entered and settled, and is the only one. -/
def settledAlone (id : Uuid) (r : List (ProgramServer × ProgramAction) × ProgramServer) : Bool :=
  decide (id ∈ Ledger.settled (programEntries smallConfig r.1)) &&
    decide (r.2.db.submissions.map (·.id) = [id])

/-- The row of the submission comes from a run of `judge`. -/
theorem rows_by_judge_rejected : ∃ tr t, (ProgramServer.system smallConfig).Run
    (.boot smallConfig 0 emptyDb []) tr t ∧
    ∃ r ∈ t.db.submissions, ∃ (task : SubmitTask) (u : FinalUpdate) (w : Nat)
      (pre : List (ProgramServer × ProgramAction)) (e : ProgramServer × ProgramAction),
      (judgeProgram .simple task.job).Runs (ProgramServer.exchanges w (pre ++ [e])) .returned ∧
        writes (ProgramServer.exchanges w (pre ++ [e])) = [.status .running, u.val] := by
  have hexec : (System.execAll (ProgramServer.step smallConfig) (.boot smallConfig 0 emptyDb [])
      rejectedActions).any (settledAlone 1) = true := by decide +kernel
  have hrun : ∃ tr t, (ProgramServer.system smallConfig).Run (.boot smallConfig 0 emptyDb []) tr t ∧
      settledAlone 1 (tr, t) = true := System.run_of_execAll_any hexec
  obtain ⟨tr, t, hr, hcheck⟩ := hrun
  simp only [settledAlone, Bool.and_eq_true, decide_eq_true_eq] at hcheck
  obtain ⟨hsettled, hids⟩ := hcheck
  obtain ⟨r, hmem, hid⟩ := List.mem_map.mp (hids ▸ List.mem_singleton_self 1)
  obtain ⟨task, time, -, ⟨hno, -⟩ | ⟨u, w, pre, e, post, -, -, hruns, hwrites, -⟩⟩ :=
    rows_by_judge smallConfig ⟨0, emptyDb, [], rfl⟩ hr r hmem List.not_mem_nil
  · exact absurd (hid ▸ hsettled) hno
  · exact ⟨tr, t, hr, r, hmem, task, u, w, pre, e, hruns, hwrites⟩

end MikanJudge

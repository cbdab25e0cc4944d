import MikanJudge.Lib.Positions
import MikanJudge.Lib.WorkQueue
import MikanJudge.Proof.Steps

/-!
# The server as a work queue

The submissions of the server are the items of a work queue
(`Server.queue`): known once their row is inserted, waiting while their job is
to be sent or in the channel, worked on by a worker, and dropped where a
request is cancelled or the process restarts. `Effect` lists what one step of
the server can do to the queue and to the table of submissions, and
`step_effect` says that it does nothing else.
-/

namespace MikanJudge

open MikanJudge.Lib WorkQueue

/-- The submission whose job a request has still to send. -/
def Request.unsent (q : Request) : Option Uuid :=
  match q.stage with
  | .inserted task | .recorded task => some task.sub.id
  | _ => none

/-- The submission a worker judges, and whether its first write is done. -/
def Worker.work : Worker → Option (Uuid × Bool)
  | .judging job .start => some (job.id, false)
  | .judging job _ => some (job.id, true)
  | _ => none

namespace Server

def queue (s : Server) : WorkQueue Uuid where
  known := {id | id ∈ s.db.submissions.map (·.id)}
  waiting := bag Request.unsent s.requests + (s.channel.map (·.id) : List Uuid)
  working := bag Worker.work s.workers

theorem queue_waiting (s : Server) :
    s.queue.waiting = bag Request.unsent s.requests + (s.channel.map (·.id) : List Uuid) := rfl

theorem queue_working (s : Server) : s.queue.working = bag Worker.work s.workers := rfl

/-- The submissions whose job is somewhere in the process. -/
def inFlight (s : Server) : List Uuid :=
  s.requests.filterMap Request.unsent ++ s.channel.map (·.id) ++
    s.workers.filterMap fun w => w.work.map (·.1)

/-- What an action does to the queue of submissions. -/
def label (cfg : Config) (s : Server) : Action → Option (Label Uuid FinalStatus)
  | .insert i connected => (s.requests[i]?).bind fun q =>
    match q.stage with
    | .checked task =>
      if connected && (s.db.insertSubmission task.sub s.clock).isOk then some (.create task.sub.id)
      else none
    | _ => none
  | .recv w =>
    match s.workers[w]?, s.channel with
    | some .receiving, job :: _ => some (.take job.id)
    | _, _ => none
  | .write w connected =>
    match s.workers[w]? with
    | some (.judging job .start) => some (.start job.id connected)
    | some (.judging job (.finish u)) =>
      some (.finish job.id
        (if connected && u.val.textsOk cfg.ext then some ⟨u.val.newStatus, u.property⟩ else none))
    | _ => none
  | .cancel i => (s.requests[i]?).bind fun q => q.unsent.map fun id => .drop [id]
  | .restart => some (.drop s.inFlight)
  | _ => none

theorem coe_inFlight (s : Server) : (s.inFlight : Multiset Uuid) = s.queue.places := by
  rw [inFlight, ← Multiset.coe_add, ← Multiset.coe_add, places, queue, bag, bag, Multiset.map_coe,
    List.map_filterMap]

end Server

/-- What a step can do, by its label. -/
inductive Effect (cfg : Config) (s t : Server) : Option (Label Uuid FinalStatus) → Prop
  /-- Nothing, but for the owners of rows. -/
  | quiet {f : SubmissionRow → SubmissionRow} : t.db.submissions = s.db.submissions.map f →
    (∀ r : SubmissionRow, r.Disowned (f r)) → t.queue.waiting = s.queue.waiting →
    t.queue.working = s.queue.working → Effect cfg s t none
  | create {task : SubmitTask} : task.sub.id ∉ s.db.submissions.map (·.id) →
    t.db.submissions = s.db.submissions ++ [task.sub.toRow s.clock] →
    t.queue.waiting = task.sub.id ::ₘ s.queue.waiting → t.queue.working = s.queue.working →
    Effect cfg s t (some (.create task.sub.id))
  | take {id : Uuid} : t.db.submissions = s.db.submissions →
    s.queue.waiting = id ::ₘ t.queue.waiting → t.queue.working = (id, false) ::ₘ s.queue.working →
    Effect cfg s t (some (.take id))
  | start {id : Uuid} {connected : Bool} {rest : Multiset (Uuid × Bool)} :
    t.db.submissions =
      (if connected then updateStatus s.db.submissions id .running else s.db.submissions) →
    t.queue.waiting = s.queue.waiting → s.queue.working = (id, false) ::ₘ rest →
    t.queue.working = (id, true) ::ₘ rest → Effect cfg s t (some (.start id connected))
  | finish {id : Uuid} {u : FinalUpdate} {ok : Bool} :
    t.db.submissions =
      (if ok then updateWhere id (u.val.apply cfg.ext) s.db.submissions else s.db.submissions) →
    t.queue.waiting = s.queue.waiting → s.queue.working = (id, true) ::ₘ t.queue.working →
    Effect cfg s t (some (.finish id (if ok then some ⟨u.val.newStatus, u.property⟩ else none)))
  | drop {items : List Uuid} : t.db.submissions = s.db.submissions →
    t.queue.waiting ≤ s.queue.waiting → t.queue.working ≤ s.queue.working →
    s.queue.places = t.queue.places + items → Effect cfg s t (some (.drop items))

/-! ## One step -/

section

variable {cfg : Config} {s t : Server}

/-- A step that leaves the submissions and the processes' jobs. -/
theorem Effect.of_same (hrows : t.db.submissions = s.db.submissions)
    (hw : t.queue.waiting = s.queue.waiting) (hv : t.queue.working = s.queue.working) :
    Effect cfg s t none :=
  .quiet (hrows.trans (List.map_id _).symm) (fun _ => .inl rfl) hw hv

theorem insertSubmission_ok {db db' : Db} {sub : Submission} {now : Time}
    (h : db.insertSubmission sub now = .ok db') :
    sub.id ∉ db.submissions.map (·.id) ∧
      db' = { db with submissions := db.submissions ++ [sub.toRow now] } := by
  unfold Db.insertSubmission at h
  split_ifs at h with _ hid
  cases h
  refine ⟨fun hm => hid ?_, rfl⟩
  obtain ⟨r, hr, e⟩ := List.mem_map.mp hm
  exact List.any_eq_true.mpr ⟨r, hr, beq_iff_eq.mpr e⟩

/-- Past its first write, `judge` stays there. -/
theorem work_of_event {job : JudgeJob} {st st' : JudgeState} {e : JudgeEvent}
    (h : st.step cfg.ext job e = some st') :
    (Worker.judging job st').work = (Worker.judging job st).work := by
  have hcase : ∀ {tc rest acc compiled c}, afterCase cfg.ext job compiled tc rest acc c ≠ .start := by
    intro tc rest acc compiled c
    unfold afterCase
    split <;> simp
  have hcomp : ∀ r, afterCompile job r ≠ .start := fun r => by
    unfold afterCompile
    split
    · simp
    · split <;> simp
  have htemp : ∀ r, afterTempdir r ≠ .start := fun r => by
    unfold afterTempdir
    split <;> simp
  have hwork : ∀ {st : JudgeState}, st ≠ .start → (Worker.judging job st).work = some (job.id, true) := by
    intro st hst
    cases st <;> first | rfl | exact absurd rfl hst
  unfold JudgeState.step at h
  split at h <;> cases h
  · exact hwork (htemp _)
  · exact hwork (hcomp _)
  · exact hwork hcase
  · rfl

variable {i : Nat} {q : Request}

theorem waiting_dropRequest (hq : s.requests[i]? = some q) (hu : q.unsent = none) :
    (s.dropRequest i).queue.waiting = s.queue.waiting := by
  rw [Server.queue_waiting, Server.queue_waiting, bag_eq_held_add hq, held_none hu, zero_add]
  rfl

theorem effect_drop (hq : s.requests[i]? = some q) (hu : q.unsent = none) :
    Effect cfg s (s.dropRequest i) none :=
  .of_same rfl (waiting_dropRequest hq hu) rfl

theorem effect_setStage (hq : s.requests[i]? = some q) {q' : Request} {stage : Stage}
    (hu : ({ q' with stage := stage } : Request).unsent = q.unsent) :
    Effect cfg s (s.setStage i q' stage) none := by
  refine .of_same rfl ?_ rfl
  rw [Server.queue_waiting, Server.queue_waiting]
  exact congrArg (· + _) (bag_set_of_eq hq hu)

/-- A job moves from its request to the channel. -/
theorem effect_send (hq : s.requests[i]? = some q) {task : SubmitTask}
    (hu : q.unsent = some task.sub.id) :
    Effect cfg s { s.setStage i q (.sent task) with channel := s.channel ++ [task.job] } none := by
  refine .of_same rfl ?_ rfl
  have hsent : ({ q with stage := .sent task } : Request).unsent = none := rfl
  simp only [Server.queue_waiting, Server.setStage]
  rw [bag_set hq, bag_eq_held_add hq, held_none hsent, held_some hu, List.map_append,
    ← Multiset.coe_add, List.map_singleton, task.job_id, Multiset.coe_singleton, zero_add]
  abel

theorem unsent_loaded (h : q.stage = .loaded) : q.unsent = none := by rw [Request.unsent, h]

theorem unsent_checked {task : SubmitTask} (h : q.stage = .checked task) : q.unsent = none := by
  rw [Request.unsent, h]

theorem effect_request {a : Action} (hq : s.requests[i]? = some q)
    (h : RequestStep cfg s i q a t) : Effect cfg s t (s.label cfg a) := by
  cases h with
  | refuse hs _ => exact effect_drop hq (unsent_loaded hs)
  | check hs _ => exact effect_setStage hq (unsent_loaded hs).symm
  | @insertFail task connected hs hf =>
    simp only [Server.label, hq, Option.bind_some, hs, hf, Bool.false_eq_true, if_false]
    exact effect_drop hq (unsent_checked hs)
  | @insert task db hs hi =>
    obtain ⟨hid, rfl⟩ := insertSubmission_ok hi
    simp only [Server.label, hq, Option.bind_some, hs, hi]
    refine .create hid rfl ?_ rfl
    have hins : ({ q with stage := .inserted task } : Request).unsent = some task.sub.id := rfl
    simp only [Server.queue_waiting, Server.setStage]
    rw [bag_set hq, bag_eq_held_add hq, held_some hins, held_none (unsent_checked hs), zero_add,
      add_assoc, Multiset.singleton_add]
  | @record task key hs _ =>
    have hu : q.unsent = some task.sub.id := by rw [Request.unsent, hs]
    exact effect_setStage hq hu.symm
  | @send task hs _ =>
    refine effect_send hq ?_
    rcases hs with ⟨hs, -⟩ | hs <;> rw [Request.unsent, hs]
  | @respond task hs =>
    have hu : q.unsent = none := by rw [Request.unsent, hs]
    exact .of_same rfl (waiting_dropRequest hq hu) rfl
  | cancel =>
    simp only [Server.label, hq, Option.bind_some]
    cases hu : q.unsent with
    | none => exact effect_drop hq hu
    | some id =>
      have hw : s.queue.waiting = (s.dropRequest i).queue.waiting + {id} := by
        simp only [Server.queue_waiting, Server.dropRequest]
        rw [bag_eq_held_add hq, held_some hu]
        abel
      refine .drop rfl ?_ (le_refl _) ?_
      · rw [hw]
        exact Multiset.le_add_right _ _
      · rw [places, hw, places, Multiset.coe_singleton]
        have : (s.dropRequest i).queue.working = s.queue.working := rfl
        rw [this]
        abel

/-! ### The workers -/

variable {w : Nat} {worker : Worker}

theorem effect_setWorker (hw : s.workers[w]? = some worker) {worker' : Worker}
    (hwork : worker'.work = worker.work) : Effect cfg s (s.setWorker w worker') none := by
  refine .of_same rfl rfl ?_
  rw [Server.queue_working, Server.queue_working]
  exact bag_set_of_eq hw hwork

theorem effect_worker {a : Action} (hw : s.workers[w]? = some worker)
    (h : WorkerStep cfg s w worker a t) : Effect cfg s t (s.label cfg a) := by
  have hbag : ∀ worker', bag Worker.work (s.workers.set w worker') =
      held Worker.work worker' + bag Worker.work (s.workers.eraseIdx w) := fun _ => bag_set hw _
  have hbag' := bag_eq_held_add (f := Worker.work) hw
  cases h with
  | lock => exact effect_setWorker hw rfl
  | @recv job jobs hc =>
    simp only [Server.label, hw, hc]
    refine .take rfl ?_ ?_
    · simp only [Server.queue_waiting, Server.setWorker, hc, List.map_cons]
      rw [← Multiset.cons_coe, Multiset.add_cons]
    · simp only [Server.queue_working, Server.setWorker]
      have h₁ : (Worker.judging job .start).work = some (job.id, false) := rfl
      have h₂ : Worker.receiving.work = none := rfl
      rw [hbag, hbag', held_some h₁, held_none h₂, zero_add, Multiset.singleton_add]
  | @start job connected =>
    simp only [Server.label, hw]
    have h₁ : (Worker.judging job .start).work = some (job.id, false) := rfl
    have h₂ : (Worker.judging job .tempdir).work = some (job.id, true) := rfl
    have hworking : s.queue.working =
        (job.id, false) ::ₘ bag Worker.work (s.workers.eraseIdx w) := by
      rw [Server.queue_working, hbag', held_some h₁, Multiset.singleton_add]
    refine .start ?_ ?_ hworking ?_
    · cases connected <;> rfl
    · cases connected <;> rfl
    · cases connected <;>
        simp only [Server.queue_working, Server.setWorker, Server.writeRow, if_true, if_false,
          Bool.false_eq_true] <;>
        rw [hbag, held_some h₂, Multiset.singleton_add]
  | @finish job u connected =>
    simp only [Server.label, hw]
    have h₁ : (Worker.judging job (.finish u)).work = some (job.id, true) := rfl
    have h₂ : Worker.idle.work = none := rfl
    refine .finish ?_ ?_ ?_
    · cases connected with
      | false => rfl
      | true =>
        simp only [Server.setWorker, Server.writeRow, if_true, Bool.true_and]
        exact RowUpdate.write_eq
    · cases connected <;> rfl
    · cases connected <;>
        simp only [Server.queue_working, Server.setWorker, Server.writeRow, if_true, if_false,
          Bool.false_eq_true] <;>
        rw [hbag, hbag', held_some h₁, held_none h₂, zero_add, Multiset.singleton_add]
  | event hst => exact effect_setWorker hw (work_of_event hst)

/-! ### Any step -/

theorem inFlight_boot (cfg : Config) (clock : Time) (db : Db) (sessions : List (Nat × SessionRecord)) :
    (Server.boot cfg clock db sessions).queue.waiting = 0 ∧
      (Server.boot cfg clock db sessions).queue.working = 0 := by
  refine ⟨rfl, ?_⟩
  rw [Server.queue_working, Server.boot, bag, List.filterMap_replicate_of_none rfl]
  rfl

/-- Every step of the server does one of the things `Effect` lists. -/
theorem step_effect {a : Action} (h : s.step cfg a = some t) : Effect cfg s t (s.label cfg a) := by
  cases step_cases h with
  | tick _ => exact .of_same rfl rfl rfl
  | arrive =>
    refine .of_same rfl ?_ rfl
    simp only [Server.queue_waiting, bag_append, bag_cons, bag_nil]
    rw [held_none rfl, zero_add, add_zero]
  | request hq h => exact effect_request hq h
  | @account sid route =>
    obtain ⟨f, hf, hd⟩ := (route.sameWork cfg.ext s.db (s.loadSession sid)).submissions
    exact .quiet hf hd rfl rfl
  | worker hw h => exact effect_worker hw h
  | restart =>
    obtain ⟨hw, hv⟩ := inFlight_boot cfg s.clock s.db s.sessions
    refine .drop rfl ?_ ?_ ?_
    · rw [hw]; exact Multiset.zero_le _
    · rw [hv]; exact Multiset.zero_le _
    · rw [Server.coe_inFlight, places, places, hw, hv, Multiset.map_zero, zero_add, zero_add]

/-! ## Where the rows come from -/

/-- What is submitted, and where: the columns that no update changes. -/
structure SubmissionRow.SameWork (r r₀ : SubmissionRow) : Prop where
  contestId : r.contestId = r₀.contestId
  problemId : r.problemId = r₀.problemId
  sourceCode : r.sourceCode = r₀.sourceCode

theorem SubmissionRow.SameWork.refl (r : SubmissionRow) : r.SameWork r := ⟨rfl, rfl, rfl⟩

theorem RowUpdate.sameWork (ext : Externals) (u : RowUpdate) (r : SubmissionRow) :
    (u.apply ext r).SameWork r := by
  cases u <;> exact ⟨rfl, rfl, rfl⟩

theorem SubmissionRow.Disowned.sameWork {r r' : SubmissionRow} (h : r.Disowned r') :
    r'.SameWork r := by
  rcases h with rfl | rfl <;> exact ⟨rfl, rfl, rfl⟩

/-- A row of the table was there before the step, with the same work, or the
step inserted it for a request. -/
theorem row_of_step {a : Action} (h : ServerStep cfg s a t) {r : SubmissionRow} (hr : r ∈ t.db.submissions) :
    (∃ r₀ ∈ s.db.submissions, r.SameWork r₀) ∨
    ∃ i q task, a = .insert i true ∧ s.requests[i]? = some q ∧ q.stage = .checked task ∧
      r = task.sub.toRow s.clock := by
  have hold : ∀ {r : SubmissionRow}, r ∈ s.db.submissions → ∃ r₀ ∈ s.db.submissions, r.SameWork r₀ :=
    fun hr => ⟨_, hr, .refl _⟩
  have hwrite : ∀ {id : Uuid} {u : RowUpdate} {connected : Bool},
      r ∈ (s.writeRow cfg id u connected).db.submissions →
      ∃ r₀ ∈ s.db.submissions, r.SameWork r₀ := by
    intro id u connected hr
    cases connected with
    | false => exact hold hr
    | true =>
      simp only [Server.writeRow, if_true] at hr
      rw [RowUpdate.write_eq] at hr
      split_ifs at hr
      · obtain ⟨r₀, hr₀, rfl⟩ := mem_updateWhere.mp hr
        refine ⟨r₀, hr₀, ?_⟩
        split_ifs
        · exact RowUpdate.sameWork _ _ _
        · exact .refl _
      · exact hold hr
  cases h with
  | tick | arrive | restart => exact .inl (hold hr)
  | @account sid route =>
    obtain ⟨f, hf, hd⟩ := (route.sameWork cfg.ext s.db (s.loadSession sid)).submissions
    rw [hf] at hr
    obtain ⟨r₀, hr₀, rfl⟩ := List.mem_map.mp hr
    exact .inl ⟨r₀, hr₀, (hd r₀).sameWork⟩
  | worker _ h =>
    cases h with
    | lock | recv | event => exact .inl (hold hr)
    | start | finish => exact .inl (hwrite hr)
  | request hq h =>
    cases h with
    | refuse | check | insertFail | record | send | respond | cancel => exact .inl (hold hr)
    | insert hs hi =>
      obtain ⟨-, rfl⟩ := insertSubmission_ok hi
      rcases List.mem_append.mp hr with hr | hr
      · exact .inl (hold hr)
      · exact .inr ⟨_, _, _, rfl, hq, hs, List.mem_singleton.mp hr⟩

/-! ## The server simulates a work queue -/

theorem SubmissionRow.Disowned.id_eq {r r' : SubmissionRow} (h : r.Disowned r') : r'.id = r.id := by
  rcases h with rfl | rfl <;> rfl

/-- A step of the server is one of the queue, or leaves the queue as it is. -/
theorem Effect.queueStep {l : Option (Label Uuid FinalStatus)} (h : Effect cfg s t l) :
    (l = none ∧ t.queue = s.queue) ∨ ∃ l', l = some l' ∧ Step s.queue l' t.queue := by
  have hknown : ∀ {s t : Server},
      t.db.submissions.map (·.id) = s.db.submissions.map (·.id) → t.queue.known = s.queue.known :=
    fun h => congrArg (fun ids => {id | id ∈ ids}) h
  cases h with
  | @quiet f hr hf hw hv =>
    have hk : t.queue.known = s.queue.known := by
      refine hknown ?_
      rw [hr, List.map_map]
      exact List.map_congr_left fun r _ => (hf r).id_eq
    exact .inl ⟨rfl, WorkQueue.ext hk hw hv⟩
  | @create task hid hr hw hv =>
    refine .inr ⟨_, rfl, .create hid ?_ hw hv⟩
    ext id
    rw [Server.queue, Server.queue, hr]
    simp only [List.map_append, List.map_cons, List.map_nil, List.mem_append, List.mem_singleton,
      Set.mem_ofPred_eq, Set.mem_insert_iff]
    exact or_comm
  | take hr hw hv => exact .inr ⟨_, rfl, .take (hknown (by rw [hr])) hw hv⟩
  | @start id connected rest hr hw hv hv' =>
    refine .inr ⟨_, rfl, .start (hknown ?_) hw hv hv'⟩
    rw [hr]
    split_ifs
    · exact map_id_updateWhere fun r => rfl
    · rfl
  | @finish id u ok hr hw hv =>
    refine .inr ⟨_, rfl, .finish (hknown ?_) hw hv⟩
    rw [hr]
    split_ifs
    · exact map_id_updateWhere fun r => RowUpdate.apply_id r
    · rfl
  | drop hr hw hv hp => exact .inr ⟨_, rfl, .drop (hknown (by rw [hr])) hw hv hp⟩

/-- Apart from what enters and what leaves, the jobs in the process stay. -/
theorem Effect.places_add {l : Option (Label Uuid FinalStatus)} (h : Effect cfg s t l) :
    t.queue.places + (l.map Label.leaving).getD 0 =
      s.queue.places + (l.map Label.entering).getD 0 := by
  rcases h.queueStep with ⟨rfl, e⟩ | ⟨l', rfl, hs⟩
  · rw [e]
    rfl
  · exact hs.places_add

/-- They are the same where nothing enters or leaves. -/
theorem Effect.places_eq {l : Option (Label Uuid FinalStatus)} (h : Effect cfg s t l)
    (hin : (l.map Label.entering).getD 0 = 0) (hout : (l.map Label.leaving).getD 0 = 0) :
    t.queue.places = s.queue.places := by
  have hp := h.places_add
  rwa [hin, hout, add_zero, add_zero] at hp

/-- What a step of a trace does to the queue. -/
def stepLabel (cfg : Config) (e : Server × Action) : Option (Label Uuid FinalStatus) :=
  e.1.label cfg e.2

/-- What a run does to the queue. -/
def labels (cfg : Config) (tr : List (Server × Action)) : List (Label Uuid FinalStatus) :=
  tr.filterMap (stepLabel cfg)

theorem simulation (cfg : Config) :
    (Server.system cfg).Simulation (WorkQueue.system Uuid FinalStatus) (stepLabel cfg)
      fun s q => q = s.queue where
  step {s t a q} hq h := by
    subst hq
    refine ⟨t.queue, rfl, ?_⟩
    rcases (step_effect h).queueStep with ⟨hl, e⟩ | ⟨l', hl, hs⟩
    · exact .inr ⟨e, hl⟩
    · exact .inl ⟨l', hl, hs⟩

/-- A run of the server, from its start, as a run of the queue. -/
theorem queue_run {tr : List (Server × Action)} (hs : (Server.system cfg).init s)
    (h : (Server.system cfg).Run s tr t) :
    ∃ tr', (WorkQueue.system Uuid FinalStatus).init s.queue ∧
      (WorkQueue.system Uuid FinalStatus).Run s.queue tr' t.queue ∧
      tr'.filterMap (·.2) = labels cfg tr := by
  obtain ⟨q, tr', hr, rfl, e⟩ := (simulation cfg).run h rfl
  obtain ⟨clock, db, sessions, rfl⟩ := hs
  exact ⟨tr', inFlight_boot cfg clock db sessions, hr, e⟩

end

end MikanJudge

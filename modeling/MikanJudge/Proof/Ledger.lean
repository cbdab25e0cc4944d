import MikanJudge.Lib.Ledger
import MikanJudge.Proof.AtMostOnce

/-!
# The server as a ledger

The submissions of a run are entered in a ledger when their row is inserted,
with what passed the check, and settled when the last write of their judging
succeeds, with the update written (`Server.entry`). `Served` relates a state of
the server to such a ledger: a row is what was entered under its id, changed by
what settled it, and a job still in the process is that of an open entry. With
it the server simulates the ledger, so each row holds what judging the very
submission of its request comes to, in some environment.
-/

namespace MikanJudge

open MikanJudge.Lib

/-- A submission and the time of its insert. -/
abbrev Entered := SubmitTask × Time

/-- The ledger of the submissions. -/
abbrev Submissions := Ledger Uuid Entered FinalUpdate

/-- An update judging the job of a submission can end with. -/
def Entered.Judges (ext : Externals) (e : Entered) (u : FinalUpdate) : Prop :=
  ∃ env, judgeFinal ext e.1.job env = u

/-! ## What a job can be at -/

/-- Judging a job can be at a state: the runs made so far lead to it. -/
def JudgeState.Possible (ext : Externals) (job : JudgeJob) : JudgeState → Prop
  | start | tempdir | compile => True
  | cases compiled rest acc => compiled.error = none ∧ ∃ (k : Nat) (runs : Nat → CaseRun),
      ∀ runs' : Nat → CaseRun, (∀ i < k, runs' i = runs i) →
        judgeCases ext job compiled runs' 0 job.testcases (.init job) =
          judgeCases ext job compiled runs' k rest acc
  | finish u => ∃ env, judgeFinal ext job env = u

section

variable {ext : Externals} {job : JudgeJob}

/-- An environment in which nothing fails before the loop. -/
def JudgeEnv.compiledTo (compiled : CompileOutput) (runs : Nat → CaseRun) : JudgeEnv where
  tempdir := .ok ()
  compiled := .ok compiled
  runs := runs

theorem judgeFinal_compiledTo {compiled : CompileOutput} (h : compiled.error = none)
    (runs : Nat → CaseRun) :
    judgeFinal ext job (.compiledTo compiled runs) =
      judgeCases ext job compiled runs 0 job.testcases (.init job) := by
  simp only [judgeFinal, JudgeEnv.compiledTo, h]

/-- A run that nothing is asked of. -/
def CaseRun.none : CaseRun := ⟨.error "", .failed ""⟩

theorem possible_afterTempdir (r : Except String Unit) : (afterTempdir r).Possible ext job := by
  cases r with
  | ok u => trivial
  | error e => exact ⟨⟨.error e, .error e, fun _ => .none⟩, rfl⟩

theorem possible_afterCompile (r : Except String CompileOutput) :
    (afterCompile job r).Possible ext job := by
  have henv : ∀ u, judgeFinal ext job ⟨.ok (), r, fun _ => .none⟩ = u →
      (JudgeState.finish u).Possible ext job := fun u h => ⟨_, h⟩
  cases r with
  | error e => exact henv _ rfl
  | ok compiled =>
    cases he : compiled.error with
    | some msg =>
      simp only [afterCompile, he]
      exact henv _ (by simp only [judgeFinal, he])
    | none =>
      simp only [afterCompile, he]
      exact ⟨he, 0, fun _ => .none, fun _ _ => rfl⟩

/-- The runs made, and one more. -/
theorem possible_afterCase {compiled : CompileOutput} {tc : String × Option String}
    {rest : List (String × Option String)} {acc : Accum}
    (h : (JudgeState.cases compiled (tc :: rest) acc).Possible ext job) (c : CaseRun) :
    (afterCase ext job compiled tc rest acc c).Possible ext job := by
  obtain ⟨he, k, runs, hruns⟩ := h
  have hk : ∀ {runs' : Nat → CaseRun}, (∀ i < k + 1, runs' i = Function.update runs k c i) →
      runs' k = c ∧ judgeCases ext job compiled runs' 0 job.testcases (.init job) =
        judgeCases ext job compiled runs' k (tc :: rest) acc := by
    intro runs' h
    refine ⟨by rw [h k (Nat.lt_succ_self k), Function.update_self], hruns runs' fun i hi => ?_⟩
    rw [h i (by omega), Function.update_of_ne (by omega)]
  unfold afterCase
  cases hr : runInSandbox job.sandboxConfig c.run with
  | error e =>
    obtain ⟨hc, h⟩ := hk fun i _ => rfl
    refine ⟨.compiledTo compiled (Function.update runs k c), ?_⟩
    rw [judgeFinal_compiledTo he, h, judgeCases, hc, hr]
  | ok r =>
    refine ⟨he, k + 1, Function.update runs k c, fun runs' h => ?_⟩
    obtain ⟨hc, h⟩ := hk h
    rw [h, judgeCases, hc, hr]

theorem JudgeState.Possible.step {st st' : JudgeState} {e : JudgeEvent}
    (hp : st.Possible ext job) (h : st.step ext job e = some st') : st'.Possible ext job := by
  unfold JudgeState.step at h
  split at h <;> cases h
  · exact possible_afterTempdir _
  · exact possible_afterCompile _
  · exact possible_afterCase hp _
  · obtain ⟨he, k, runs, hruns⟩ := hp
    rename_i compiled acc
    refine ⟨.compiledTo compiled runs, ?_⟩
    rw [judgeFinal_compiledTo he, hruns runs fun _ _ => rfl, judgeCases]

end

/-! ## The entries of a run -/

namespace Server

/-- What an action writes in the ledger. -/
def entry (cfg : Config) (s : Server) : Action → Option (Ledger.Label Uuid Entered FinalUpdate)
  | .insert i true => (s.requests[i]?).bind fun q =>
    match q.stage with
    | .checked task =>
      if (s.db.insertSubmission task.sub s.clock).isOk then
        some (.enter task.sub.id (task, s.clock))
      else none
    | _ => none
  | .write w true =>
    match s.workers[w]? with
    | some (.judging job (.finish u)) =>
      if u.val.textsOk cfg.ext then some (.settle job.id u) else none
    | _ => none
  | _ => none

/-- A job is somewhere in the process: to be sent, in the channel, or judged. -/
inductive Holds (s : Server) (job : JudgeJob) : Prop
  | unsent {q : Request} {task : SubmitTask} : q ∈ s.requests →
    q.stage = .inserted task ∨ q.stage = .recorded task → task.job = job → s.Holds job
  | channel : job ∈ s.channel → s.Holds job
  | worker {st : JudgeState} : .judging job st ∈ s.workers → s.Holds job

end Server

/-- What a run writes in the ledger, in order. -/
def ledgerEntries (cfg : Config) (tr : List (Server × Action)) :
    List (Ledger.Label Uuid Entered FinalUpdate) :=
  tr.filterMap fun e => e.1.entry cfg e.2

section

variable {cfg : Config} {s t : Server} {a : Action} {job : JudgeJob}

@[simp] theorem workers_writeRow (id : Uuid) (u : RowUpdate) (connected : Bool) :
    (s.writeRow cfg id u connected).workers = s.workers := by cases connected <;> rfl

@[simp] theorem channel_writeRow (id : Uuid) (u : RowUpdate) (connected : Bool) :
    (s.writeRow cfg id u connected).channel = s.channel := by cases connected <;> rfl

/-- The jobs in the process are among its places. -/
theorem Server.Holds.mem_places (h : s.Holds job) : job.id ∈ s.queue.places := by
  rw [← Server.coe_inFlight, Multiset.mem_coe, Server.inFlight, List.mem_append, List.mem_append]
  cases h with
  | @unsent q task hq hs hjob =>
    refine .inl (.inl (List.mem_filterMap.mpr ⟨q, hq, ?_⟩))
    rw [← hjob, task.job_id]
    rcases hs with hs | hs <;> rw [Request.unsent, hs]
  | channel h => exact .inl (.inr (List.mem_map.mpr ⟨job, h, rfl⟩))
  | @worker st h => exact .inr (List.mem_filterMap.mpr ⟨_, h, by cases st <;> rfl⟩)

theorem entry_insert (cfg : Config) {i : Nat} {q : Request} {task : SubmitTask} {db : Db}
    (hq : s.requests[i]? = some q) (hs : q.stage = .checked task)
    (hi : s.db.insertSubmission task.sub s.clock = .ok db) :
    s.entry cfg (.insert i true) = some (.enter task.sub.id (task, s.clock)) := by
  simp only [Server.entry, hq, Option.bind_some, hs, hi]
  rfl

/-- A job in the process was there before the step, or has just been entered. -/
theorem holds_of_step (h : ServerStep cfg s a t) (hj : t.Holds job) :
    s.Holds job ∨ ∃ e : Entered, s.entry cfg a = some (.enter e.1.sub.id e) ∧ e.1.job = job := by
  cases h with
  | tick | account =>
    cases hj with
    | unsent hq hs e => exact .inl (.unsent hq hs e)
    | channel h => exact .inl (.channel h)
    | worker h => exact .inl (.worker h)
  | arrive =>
    cases hj with
    | unsent hq hs e =>
      rcases List.mem_append.mp hq with hq | hq
      · exact .inl (.unsent hq hs e)
      · rw [List.mem_singleton.mp hq] at hs
        rcases hs with hs | hs <;> cases hs
    | channel h => exact .inl (.channel h)
    | worker h => exact .inl (.worker h)
  | restart =>
    cases hj with
    | unsent hq => cases hq
    | channel h => cases h
    | worker h => cases (List.mem_replicate.mp h).2
  | @request i q a t hq h =>
    have hmem := List.mem_of_getElem? hq
    -- the request at another position, or the one that took the step
    have hset : ∀ {stage : Stage} {q' q₁ : Request} {task : SubmitTask},
        q₁ ∈ s.requests.set i { q' with stage := stage } →
        q₁.stage = .inserted task ∨ q₁.stage = .recorded task →
        q₁ ∈ s.requests ∨ stage = .inserted task ∨ stage = .recorded task := by
      intro stage q' q₁ task hq₁ hs
      rcases List.mem_or_eq_of_mem_set hq₁ with hq₁ | rfl
      · exact .inl hq₁
      · exact .inr hs
    cases h with
    | refuse | insertFail | respond | cancel =>
      cases hj with
      | unsent hq hs e => exact .inl (.unsent (List.mem_of_mem_eraseIdx hq) hs e)
      | channel h => exact .inl (.channel h)
      | worker h => exact .inl (.worker h)
    | check =>
      cases hj with
      | unsent hq hs e =>
        rcases hset hq hs with hq | hs | hs
        · exact .inl (.unsent hq hs e)
        · cases hs
        · cases hs
      | channel h => exact .inl (.channel h)
      | worker h => exact .inl (.worker h)
    | @insert task db hs hi =>
      cases hj with
      | unsent hq hs' e =>
        rcases hset hq hs' with hq | hs' | hs'
        · exact .inl (.unsent hq hs' e)
        · cases hs'
          exact .inr ⟨(task, s.clock), entry_insert cfg ‹_› hs hi, e⟩
        · cases hs'
      | channel h => exact .inl (.channel h)
      | worker h => exact .inl (.worker h)
    | record hs =>
      cases hj with
      | unsent hq hs' e =>
        rcases hset hq hs' with hq | hs' | hs'
        · exact .inl (.unsent hq hs' e)
        · cases hs'
        · cases hs'
          exact .inl (.unsent hmem (.inl hs) e)
      | channel h => exact .inl (.channel h)
      | worker h => exact .inl (.worker h)
    | @send task hs =>
      cases hj with
      | unsent hq hs' e =>
        rcases hset hq hs' with hq | hs' | hs'
        · exact .inl (.unsent hq hs' e)
        · cases hs'
        · cases hs'
      | channel h =>
        rcases List.mem_append.mp h with h | h
        · exact .inl (.channel h)
        · rw [List.mem_singleton] at h
          exact .inl (.unsent hmem (hs.imp_left And.left) h.symm)
      | worker h => exact .inl (.worker h)
  | @worker w worker a t hw h =>
    have hmem := List.mem_of_getElem? hw
    have hreq := h.requests_eq
    cases hj with
    | unsent hq hs e => exact .inl (.unsent (hreq ▸ hq) hs e)
    | channel hc =>
      refine .inl (.channel ?_)
      cases h with
      | lock | event => exact hc
      | recv hch => exact hch ▸ List.mem_cons_of_mem _ hc
      | start | finish => rwa [Server.setWorker, channel_writeRow] at hc
    | worker hv =>
      cases h with
      | lock =>
        rcases List.mem_or_eq_of_mem_set hv with hv | hv
        · exact .inl (.worker hv)
        · cases hv
      | recv hch =>
        rcases List.mem_or_eq_of_mem_set hv with hv | hv
        · exact .inl (.worker hv)
        · cases hv
          exact .inl (.channel (hch ▸ List.mem_cons_self))
      | event =>
        rcases List.mem_or_eq_of_mem_set hv with hv | hv
        · exact .inl (.worker hv)
        · cases hv
          exact .inl (.worker hmem)
      | start =>
        rw [Server.setWorker, workers_writeRow] at hv
        rcases List.mem_or_eq_of_mem_set hv with hv | hv
        · exact .inl (.worker hv)
        · cases hv
          exact .inl (.worker hmem)
      | finish =>
        rw [Server.setWorker, workers_writeRow] at hv
        rcases List.mem_or_eq_of_mem_set hv with hv | hv
        · exact .inl (.worker hv)
        · cases hv

/-- A job a worker judges was at an earlier state, or has just been taken. -/
theorem judging_of_step (h : ServerStep cfg s a t) {st : JudgeState}
    (hj : .judging job st ∈ t.workers) : .judging job st ∈ s.workers ∨ st = .start ∨
      st = .tempdir ∨ ∃ st₀ e, .judging job st₀ ∈ s.workers ∧ st₀.step cfg.ext job e = some st := by
  cases h with
  | tick | account | arrive => exact .inl hj
  | restart => cases (List.mem_replicate.mp hj).2
  | request _ h => cases h <;> exact .inl hj
  | worker hw h =>
    have hmem := List.mem_of_getElem? hw
    cases h with
    | lock =>
      rcases List.mem_or_eq_of_mem_set hj with hj | hj
      · exact .inl hj
      · cases hj
    | recv =>
      rcases List.mem_or_eq_of_mem_set hj with hj | hj
      · exact .inl hj
      · cases hj
        exact .inr (.inl rfl)
    | event hst =>
      rcases List.mem_or_eq_of_mem_set hj with hj | hj
      · exact .inl hj
      · cases hj
        exact .inr (.inr (.inr ⟨_, _, hmem, hst⟩))
    | start =>
      rw [Server.setWorker, workers_writeRow] at hj
      rcases List.mem_or_eq_of_mem_set hj with hj | hj
      · exact .inl hj
      · cases hj
        exact .inr (.inr (.inl rfl))
    | finish =>
      rw [Server.setWorker, workers_writeRow] at hj
      rcases List.mem_or_eq_of_mem_set hj with hj | hj
      · exact .inl hj
      · cases hj

end

/-! ## A state and its ledger -/

def SubmissionRow.running (r : SubmissionRow) : SubmissionRow :=
  { r with status := JudgeStatus.running.toDb }

/-- What a row is: what was entered, up to its owner, before or after the
outcome is written to it. -/
inductive SubmissionRow.Shows (ext : Externals) (r : SubmissionRow) (e : Entered) :
    Option FinalUpdate → Prop
  | waiting : (e.1.sub.toRow e.2).Disowned r → r.Shows ext e none
  | running {row : SubmissionRow} : (e.1.sub.toRow e.2).Disowned row → r = row.running →
    r.Shows ext e none
  | settled {row : SubmissionRow} {u : FinalUpdate} : (e.1.sub.toRow e.2).Disowned row →
    r = u.val.apply ext row → r.Shows ext e (some u)

/-- The entry of a job is open. -/
def Ledger.Opens (l : Submissions) (job : JudgeJob) : Prop :=
  ∃ e, l.content job.id = some e ∧ e.1.job = job ∧ l.outcome job.id = none

/-- A state of the server and the ledger of its run, from a table with the ids
`old`. -/
structure Served (cfg : Config) (old : List Uuid) (s : Server) (l : Submissions) : Prop where
  queue : s.queue.Inv
  present : ∀ id ∈ old, id ∈ s.db.submissions.map (·.id)
  rows : ∀ r ∈ s.db.submissions, r.id ∉ old →
    ∃ e, l.content r.id = some e ∧ r.Shows cfg.ext e (l.outcome r.id)
  kept : ∀ id e, l.content id = some e → e.1.sub.id = id ∧ id ∈ s.db.submissions.map (·.id) ∧ id ∉ old
  settled : ∀ id u, l.outcome id = some u → ∃ e, l.content id = some e
  held : ∀ job, s.Holds job → Ledger.Opens l job
  possible : ∀ job st, .judging job st ∈ s.workers → st.Possible cfg.ext job

section

variable {cfg : Config} {old : List Uuid} {s t : Server} {a : Action} {l : Submissions}
  {ext : Externals} {r r' row : SubmissionRow} {e : Entered}

/-! ### What happens to a row -/

theorem SubmissionRow.Disowned.trans (h : row.Disowned r) (h' : r.Disowned r') : row.Disowned r' := by
  rcases h' with rfl | rfl
  · exact h
  · rcases h with rfl | rfl <;> exact .inr rfl

theorem SubmissionRow.Shows.disowned {o : Option FinalUpdate} (h : r.Shows ext e o)
    (hr : r.Disowned r') : r'.Shows ext e o := by
  cases h with
  | waiting h => exact .waiting (h.trans hr)
  | running h e₁ =>
    rcases hr with rfl | rfl
    · exact .running h e₁
    · exact .running (h.trans (.inr rfl)) (by rw [e₁]; rfl)
  | @settled row u h e₁ =>
    rcases hr with rfl | rfl
    · exact .settled h e₁
    · refine .settled (h.trans (.inr rfl)) ?_
      rw [e₁]
      cases u.val <;> rfl

theorem SubmissionRow.Shows.run (h : r.Shows ext e none) : r.running.Shows ext e none := by
  cases h with
  | waiting h => exact .running h rfl
  | running h e₁ => exact .running h (by rw [e₁]; rfl)

/-- An update leaves nothing of what the row was before, up to what was
entered. -/
theorem SubmissionRow.Shows.settle (h : r.Shows ext e none) (u : FinalUpdate) :
    (u.val.apply ext r).Shows ext e (some u) := by
  cases h with
  | waiting h => exact .settled h rfl
  | running h e₁ =>
    refine .settled h ?_
    rw [e₁]
    cases u.val <;> rfl

/-! ### One step -/

theorem Served.possible_step (hI : Served cfg old s l) (h : ServerStep cfg s a t) {job : JudgeJob}
    {st : JudgeState} (hj : .judging job st ∈ t.workers) : st.Possible cfg.ext job := by
  rcases judging_of_step h hj with hj | rfl | rfl | ⟨st₀, e, hj, hst⟩
  · exact hI.possible _ _ hj
  · trivial
  · trivial
  · exact (hI.possible _ _ hj).step hst

/-- The entry under the id of a job in the process is that of its row. -/
theorem Served.shows_open (hI : Served cfg old s l) {job : JudgeJob} (hj : s.Holds job)
    (hr : r ∈ s.db.submissions) (hid : r.id = job.id) :
    ∃ e, l.content r.id = some e ∧ r.Shows cfg.ext e none := by
  obtain ⟨e, hc, -, ho⟩ := hI.held job hj
  obtain ⟨-, -, hold⟩ := hI.kept _ _ hc
  obtain ⟨e', hc', hshow⟩ := hI.rows r hr (hid ▸ hold)
  rw [hid, ho] at hshow
  exact ⟨e', hc', hshow⟩

/-- A step that writes nothing in the ledger, and keeps what each row shows. -/
theorem Served.quiet (hI : Served cfg old s l) (h : s.step cfg a = some t)
    (hnone : s.entry cfg a = none) {f : SubmissionRow → SubmissionRow}
    (hf : t.db.submissions = s.db.submissions.map f) (hid : ∀ r, (f r).id = r.id)
    (hshow : ∀ r ∈ s.db.submissions, ∀ e, r.Shows cfg.ext e (l.outcome r.id) →
      (f r).Shows cfg.ext e (l.outcome r.id)) : Served cfg old t l := by
  have hids : t.db.submissions.map (·.id) = s.db.submissions.map (·.id) := by
    rw [hf, List.map_map]
    exact List.map_congr_left fun r _ => hid r
  refine ⟨(step_effect h).inv hI.queue, hids ▸ hI.present, fun r hr hold => ?_, hids ▸ hI.kept,
    hI.settled, fun job hj => ?_, fun _ _ hj => hI.possible_step (step_cases h) hj⟩
  · rw [hf] at hr
    obtain ⟨r₀, hr₀, rfl⟩ := List.mem_map.mp hr
    rw [hid] at hold ⊢
    obtain ⟨e, hc, hs⟩ := hI.rows r₀ hr₀ hold
    exact ⟨e, hc, hshow r₀ hr₀ e hs⟩
  · rcases holds_of_step (step_cases h) hj with hj | ⟨e, he, -⟩
    · exact hI.held job hj
    · cases hnone.symm.trans he

/-- A step that leaves the rows. -/
theorem Served.same (hI : Served cfg old s l) (h : s.step cfg a = some t)
    (hnone : s.entry cfg a = none) (hf : t.db.submissions = s.db.submissions) : Served cfg old t l :=
  hI.quiet h hnone (hf.trans (List.map_id _).symm) (fun _ => rfl) fun _ _ _ hs => hs

/-- The insert of a row enters it. -/
theorem Served.enter (hI : Served cfg old s l) (h : s.step cfg a = some t)
    (he : s.entry cfg a = some (.enter e.1.sub.id e)) (hnew : e.1.sub.id ∉ s.db.submissions.map (·.id))
    (hf : t.db.submissions = s.db.submissions ++ [e.1.sub.toRow e.2]) :
    l.content e.1.sub.id = none ∧ Served cfg old t (l.record (.enter e.1.sub.id e)) := by
  have hnone : l.content e.1.sub.id = none := by
    cases hc : l.content e.1.sub.id with
    | none => rfl
    | some e' => exact absurd (hI.kept _ _ hc).2.1 hnew
  have hopen : l.outcome e.1.sub.id = none := by
    cases ho : l.outcome e.1.sub.id with
    | none => rfl
    | some u =>
      obtain ⟨e', he'⟩ := hI.settled _ _ ho
      cases hnone.symm.trans he'
  have hids : t.db.submissions.map (·.id) = s.db.submissions.map (·.id) ++ [e.1.sub.id] := by
    rw [hf, List.map_append]
    rfl
  have hother : ∀ {id : Uuid}, id ∈ s.db.submissions.map (·.id) → id ≠ e.1.sub.id :=
    fun hid e₁ => hnew (e₁ ▸ hid)
  refine ⟨hnone, (step_effect h).inv hI.queue, fun id hid => ?_, fun r hr hold => ?_,
    fun id e' hc => ?_, fun id u ho => ?_, fun job hj => ?_,
    fun _ _ hj => hI.possible_step (step_cases h) hj⟩
  · rw [hids]
    exact List.mem_append_left _ (hI.present id hid)
  · rw [hf, List.mem_append, List.mem_singleton] at hr
    rcases hr with hr | rfl
    · rw [Ledger.content_enter_of_ne (hother (List.mem_map.mpr ⟨r, hr, rfl⟩))]
      exact hI.rows r hr hold
    · refine ⟨e, Ledger.content_enter_self, ?_⟩
      rw [Ledger.outcome_enter, show (e.1.sub.toRow e.2).id = e.1.sub.id from rfl, hopen]
      exact .waiting (.inl rfl)
  · by_cases hid : id = e.1.sub.id
    · subst hid
      rw [Ledger.content_enter_self, Option.some.injEq] at hc
      subst hc
      refine ⟨rfl, ?_, fun hold => hnew (hI.present _ hold)⟩
      rw [hids]
      exact List.mem_append_right _ List.mem_cons_self
    · rw [Ledger.content_enter_of_ne hid] at hc
      obtain ⟨h₁, h₂, h₃⟩ := hI.kept id e' hc
      refine ⟨h₁, ?_, h₃⟩
      rw [hids]
      exact List.mem_append_left _ h₂
  · by_cases hid : id = e.1.sub.id
    · exact ⟨e, hid ▸ Ledger.content_enter_self⟩
    · rw [Ledger.content_enter_of_ne hid]
      exact hI.settled id u ho
  · rcases holds_of_step (step_cases h) hj with hj | ⟨e', he', hjob⟩
    · obtain ⟨e', hc, hjob, ho⟩ := hI.held job hj
      refine ⟨e', ?_, hjob, ho⟩
      rw [Ledger.content_enter_of_ne (hother (hI.kept _ _ hc).2.1), hc]
    · rw [he, Option.some.injEq, Ledger.Label.enter.injEq] at he'
      obtain ⟨-, rfl⟩ := he'
      refine ⟨e, ?_, hjob, ?_⟩
      · rw [← hjob, e.1.job_id, Ledger.content_enter_self]
      · rw [← hjob, e.1.job_id, Ledger.outcome_enter, hopen]

/-- The last write of judging a job settles its entry. -/
theorem Served.settle (hI : Served cfg old s l) (h : s.step cfg a = some t) {job : JudgeJob}
    {u : FinalUpdate} (hj : .judging job (.finish u) ∈ s.workers)
    (he : s.entry cfg a = some (.settle job.id u))
    (hf : t.db.submissions = updateWhere job.id (u.val.apply cfg.ext) s.db.submissions)
    (hgone : job.id ∉ t.queue.places) :
    l.Allows (Entered.Judges cfg.ext) (.settle job.id u) ∧
      Served cfg old t (l.record (.settle job.id u)) := by
  obtain ⟨e, hc, hjob, ho⟩ := hI.held job (.worker hj)
  have hids : t.db.submissions.map (·.id) = s.db.submissions.map (·.id) := by
    rw [hf]
    exact map_id_updateWhere fun r => RowUpdate.apply_id r
  have hjudges : e.Judges cfg.ext u := by
    rw [Entered.Judges, hjob]
    exact hI.possible _ _ hj
  refine ⟨⟨ho, e, hc, hjudges⟩, (step_effect h).inv hI.queue, hids ▸ hI.present,
    fun r hr hold => ?_, hids ▸ hI.kept, fun id u' ho' => ?_, fun job' hj' => ?_,
    fun _ _ hj => hI.possible_step (step_cases h) hj⟩
  · rw [hf] at hr
    obtain ⟨r₀, hr₀, rfl⟩ := mem_updateWhere.mp hr
    by_cases hid : r₀.id = job.id
    · obtain ⟨e', hc', hs⟩ := hI.shows_open (.worker hj) hr₀ hid
      rw [if_pos hid, RowUpdate.apply_id, Ledger.content_settle]
      refine ⟨e', hc', ?_⟩
      rw [hid, Ledger.outcome_settle_self]
      exact hs.settle u
    · rw [if_neg hid] at hold ⊢
      rw [Ledger.content_settle, Ledger.outcome_settle_of_ne hid]
      exact hI.rows r₀ hr₀ hold
  · by_cases hid : id = job.id
    · exact ⟨e, hid ▸ hc⟩
    · rw [Ledger.outcome_settle_of_ne hid] at ho'
      exact hI.settled id u' ho'
  · have hne : job'.id ≠ job.id := fun e₁ => hgone (e₁ ▸ hj'.mem_places)
    rcases holds_of_step (step_cases h) hj' with hj' | ⟨e', he', -⟩
    · obtain ⟨e', hc', hjob', ho'⟩ := hI.held job' hj'
      exact ⟨e', hc', hjob', by rw [Ledger.outcome_settle_of_ne hne, ho']⟩
    · cases he.symm.trans he'

/-- The last write of judging takes the job out of the process. -/
theorem gone_of_finish (hq : s.queue.Inv) {w : Nat} {job : JudgeJob} {u : FinalUpdate}
    {connected : Bool} (hw : s.workers[w]? = some (.judging job (.finish u)))
    (h : s.step cfg (.write w connected) = some t) : job.id ∉ t.queue.places := by
  have heff := step_effect h
  have hp := heff.places_add
  rw [show s.label cfg (.write w connected) = some (.finish job.id
    (if connected && u.val.textsOk cfg.ext then some ⟨u.val.newStatus, u.property⟩ else none)) by
      simp only [Server.label, hw]] at hp
  change t.queue.places + {job.id} = s.queue.places + 0 at hp
  have hn := hq.nodup
  rw [add_zero, add_comm, Multiset.singleton_add] at hp
  rw [← hp, Multiset.nodup_cons] at hn
  exact hn.1

/-- The server simulates the ledger. -/
theorem ledger_simulation (cfg : Config) (old : List Uuid) :
    (Server.system cfg).Simulation (Ledger.system (Entered.Judges cfg.ext))
      (fun e => e.1.entry cfg e.2) (Served cfg old) where
  step {s t a l} hI hstep := by
    have h : s.step cfg a = some t := hstep
    -- nothing is written in the ledger
    have hnothing : s.entry cfg a = none → Served cfg old t l → ∃ l', Served cfg old t l' ∧
        ((Ledger.system (Entered.Judges cfg.ext)).step l (s.entry cfg a) l' ∨
          l' = l ∧ s.entry cfg a = none) :=
      fun hnone hI => ⟨l, hI, .inr ⟨rfl, hnone⟩⟩
    have hsame : s.entry cfg a = none → t.db.submissions = s.db.submissions → ∃ l',
        Served cfg old t l' ∧ ((Ledger.system (Entered.Judges cfg.ext)).step l (s.entry cfg a) l' ∨
          l' = l ∧ s.entry cfg a = none) :=
      fun hnone hf => hnothing hnone (hI.same h hnone hf)
    cases step_cases h with
    | tick | arrive | restart => exact hsame rfl rfl
    | @account sid route =>
      obtain ⟨f, hf, hd⟩ := (route.sameWork cfg.ext s.db (s.loadSession sid)).submissions
      exact hnothing rfl (hI.quiet h rfl hf (fun r => (hd r).id_eq) fun r _ _ hs => hs.disowned (hd r))
    | @request i q a t hq hr =>
      cases hr with
      | refuse | check | record | send | respond | cancel => exact hsame rfl rfl
      | @insertFail task connected hs hf =>
        refine hsame ?_ rfl
        cases connected with
        | false => rfl
        | true =>
          rw [Bool.true_and] at hf
          simp only [Server.entry, hq, Option.bind_some, hs, hf, Bool.false_eq_true, if_false]
      | @insert task db hs hi =>
        have he := entry_insert cfg hq hs hi
        obtain ⟨hnew, rfl⟩ := insertSubmission_ok hi
        obtain ⟨hc, hI'⟩ := hI.enter (e := (task, s.clock)) h he hnew rfl
        exact ⟨_, hI', .inl ⟨_, he, hc, rfl⟩⟩
    | @worker w worker a t hw hv =>
      cases hv with
      | lock | recv | event => exact hsame rfl rfl
      | @start job connected =>
        have hnone : s.entry cfg (.write w connected) = none := by
          cases connected <;> simp only [Server.entry, hw]
        cases connected with
        | false => exact hsame hnone rfl
        | true =>
          refine hnothing hnone (hI.quiet h hnone rfl (fun r => by split <;> rfl) fun r hr e hs => ?_)
          split_ifs with hid
          · obtain ⟨e', hc, hs'⟩ := hI.shows_open (.worker (List.mem_of_getElem? hw)) hr hid
            obtain ⟨-, -, -, ho⟩ := hI.held job (.worker (List.mem_of_getElem? hw))
            rw [hid, ho] at hs ⊢
            exact hs.run
          · exact hs
      | @finish job u connected =>
        have hj := List.mem_of_getElem? hw
        by_cases hok : connected = true ∧ u.val.textsOk cfg.ext = true
        · obtain ⟨rfl, hok⟩ := hok
          have he : s.entry cfg (.write w true) = some (.settle job.id u) := by
            simp only [Server.entry, hw, hok, if_true]
          have hf : ((s.writeRow cfg job.id u.val true).setWorker w .idle).db.submissions =
              updateWhere job.id (u.val.apply cfg.ext) s.db.submissions := by
            simp only [Server.setWorker, Server.writeRow, if_true]
            rw [RowUpdate.write_eq, if_pos hok]
          obtain ⟨ha, hI'⟩ := hI.settle h hj he hf (gone_of_finish hI.queue hw h)
          exact ⟨_, hI', .inl ⟨_, he, ha, rfl⟩⟩
        · have hnone : s.entry cfg (.write w connected) = none := by
            cases connected with
            | false => simp only [Server.entry]
            | true => simp only [Server.entry, hw, show u.val.textsOk cfg.ext = false by simpa using hok,
                Bool.false_eq_true, if_false]
          refine hsame hnone ?_
          cases connected with
          | false => rfl
          | true =>
            simp only [Server.setWorker, Server.writeRow, if_true]
            rw [RowUpdate.write_eq, if_neg (by simpa using hok)]

/-- A run of the server, from its start, and the ledger of its entries. -/
theorem served_of_run {tr : List (Server × Action)} (hs : (Server.system cfg).init s)
    (h : (Server.system cfg).Run s tr t) :
    ∃ l : Submissions, Served cfg (s.db.submissions.map (·.id)) t l ∧
      Ledger.Recorded (Entered.Judges cfg.ext) (ledgerEntries cfg tr) l := by
  obtain ⟨clock, db, sessions, rfl⟩ := hs
  have hstart : Served cfg (db.submissions.map (·.id)) (.boot cfg clock db sessions) Ledger.empty := by
    refine ⟨WorkQueue.inv_of_init (inFlight_boot cfg clock db sessions), fun _ h => h,
      fun r hr hold => absurd (List.mem_map.mpr ⟨r, hr, rfl⟩) hold, fun _ _ h => (nomatch h),
      fun _ _ h => (nomatch h), fun job hj => ?_, fun job st hj => ?_⟩
    · have hp := hj.mem_places
      obtain ⟨hw, hv⟩ := inFlight_boot cfg clock db sessions
      rw [WorkQueue.places, hw, hv] at hp
      cases hp
    · cases (List.mem_replicate.mp hj).2
  obtain ⟨l, tr', hr, hI, e⟩ := (ledger_simulation cfg (db.submissions.map (·.id))).run h hstart
  refine ⟨l, hI, ?_⟩
  rw [ledgerEntries, ← e]
  exact Ledger.recorded_of_run rfl hr

end

end MikanJudge

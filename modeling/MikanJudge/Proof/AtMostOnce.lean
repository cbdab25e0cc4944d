import MikanJudge.Proof.Jobs

/-!
# Judging at most once

Over any run of the server, whatever the interleaving of its requests and
workers and whichever writes fail: a job is taken once, the statuses written
for a submission are `pending`, `running` and a terminal one in this order, a
row holds results only with a terminal status, and judging a job leaves the
rows of others alone.
-/

namespace MikanJudge

open MikanJudge.Lib WorkQueue

open scoped List

/-- The jobs the workers take, in order. -/
def takenJobs (cfg : Config) (tr : List (Server × Action)) : List Uuid := taken (labels cfg tr)

/-- The update that `judge` writes next. -/
def JudgeState.update : JudgeState → Option RowUpdate
  | .start => some (.status .running)
  | .finish u => some u.val
  | _ => none

/-- The status a step writes for a submission: that of the row it inserts, or that
of an update of `judge` that succeeds. -/
def statusWritten (cfg : Config) (id : Uuid) (e : Server × Action) : Option JudgeStatus :=
  match e.2 with
  | .insert i connected => (e.1.requests[i]?).bind fun q =>
    match q.stage with
    | .checked task =>
      if connected && (e.1.db.insertSubmission task.sub e.1.clock).isOk && task.sub.id == id then
        some task.sub.status
      else none
    | _ => none
  | .write w connected => (e.1.workers[w]?).bind fun worker =>
    match worker with
    | .judging job st => st.update.bind fun u =>
      if connected && u.textsOk cfg.ext && job.id == id then some u.newStatus else none
    | _ => none
  | _ => none

/-- The statuses written for a submission, in order. -/
def writtenStatuses (cfg : Config) (id : Uuid) (tr : List (Server × Action)) : List JudgeStatus :=
  tr.filterMap (statusWritten cfg id)

/-- Results come with a terminal status. -/
def ResultsFinal (rows : List SubmissionRow) : Prop := ∀ r ∈ rows, r.Unfinished → r.NoResult

/-- A step of `judge`, on the worker at position `w`. -/
def Action.judges (w : Nat) (a : Action) : Prop :=
  (∃ connected, a = .write w connected) ∨ ∃ e, a = .event w e

section

variable {cfg : Config} {s t : Server} {tr : List (Server × Action)}

/-! ## Statuses -/

/-- The status a mark of a submission stands for. -/
def markStatus : Mark FinalStatus → JudgeStatus
  | .created => .pending
  | .started => .running
  | .finished s => s.val

/-- The status of what a step does to the queue, for a submission. -/
def labelStatus (id : Uuid) (l : Option (Label Uuid FinalStatus)) : Option JudgeStatus :=
  (l.bind (Label.mark id)).map markStatus

theorem statusWritten_insert (id : Uuid) (s : Server) (i : Nat) (connected : Bool) :
    statusWritten cfg id (s, .insert i connected) =
      labelStatus id (s.label cfg (.insert i connected)) := by
  simp only [statusWritten, Server.label]
  cases s.requests[i]? with
  | none => rfl
  | some q =>
    simp only [Option.bind_some]
    cases q.stage with
    | checked task =>
      dsimp only
      rw [task.pending]
      generalize (connected && (s.db.insertSubmission task.sub s.clock).isOk) = ok
      by_cases hid : task.sub.id = id <;> cases ok <;>
        simp [labelStatus, Label.mark, markStatus, hid]
    | loaded | inserted | recorded | sent => rfl

theorem statusWritten_write (id : Uuid) (s : Server) (w : Nat) (connected : Bool) :
    statusWritten cfg id (s, .write w connected) =
      labelStatus id (s.label cfg (.write w connected)) := by
  simp only [statusWritten, Server.label]
  cases s.workers[w]? with
  | none => rfl
  | some worker =>
    simp only [Option.bind_some]
    cases worker with
    | idle | receiving => rfl
    | judging job st =>
      cases st with
      | start =>
        by_cases hid : job.id = id <;> cases connected <;>
          simp [JudgeState.update, RowUpdate.textsOk, RowUpdate.newStatus, labelStatus, Label.mark,
            markStatus, hid]
      | finish u =>
        simp only [JudgeState.update, Option.bind_some]
        generalize (connected && u.val.textsOk cfg.ext) = ok
        by_cases hid : job.id = id <;> cases ok <;>
          simp [labelStatus, Label.mark, markStatus, hid]
      | tempdir | compile | cases => rfl

/-- What a step writes is the status of what it does to the queue. -/
theorem statusWritten_eq (id : Uuid) (e : Server × Action) :
    statusWritten cfg id e = labelStatus id (stepLabel cfg e) := by
  obtain ⟨s, a⟩ := e
  cases a with
  | insert i connected => exact statusWritten_insert id s i connected
  | write w connected => exact statusWritten_write id s w connected
  | recv w =>
    -- a job that is taken is not marked
    simp only [statusWritten, stepLabel, Server.label]
    split <;> rfl
  | cancel i =>
    simp only [statusWritten, stepLabel, Server.label]
    cases s.requests[i]? with
    | none => rfl
    | some q =>
      rw [Option.bind_some]
      cases q.unsent <;> rfl
  | tick | arrive | check | record | send | respond | account | lock | event | restart => rfl

theorem writtenStatuses_eq (id : Uuid) (tr : List (Server × Action)) :
    writtenStatuses cfg id tr = (life id (labels cfg tr)).map markStatus := by
  rw [writtenStatuses, life, labels, List.filterMap_filterMap, List.map_filterMap]
  exact List.filterMap_congr fun e _ => statusWritten_eq id e

/-- The statuses written for a submission are some of `pending`, `running`
and one terminal status, in this order. -/
theorem writtenStatuses_sublist (hs : (Server.system cfg).init s)
    (h : (Server.system cfg).Run s tr t) (id : Uuid) :
    ∃ final : JudgeStatus, final.isTerminal = true ∧
      writtenStatuses cfg id tr <+ [.pending, .running, final] := by
  obtain ⟨tr', hq, hr, e⟩ := queue_run hs h
  rw [writtenStatuses_eq]
  rcases life_of_run hq hr id with h | ⟨final, h⟩
  · refine ⟨.accepted, rfl, ?_⟩
    rw [e] at h
    exact (h.map markStatus).trans (by simp [markStatus])
  · rw [e] at h
    exact ⟨final.val, final.property, h.map markStatus⟩

theorem takenJobs_nodup (hs : (Server.system cfg).init s) (h : (Server.system cfg).Run s tr t) :
    (takenJobs cfg tr).Nodup := by
  obtain ⟨tr', hq, hr, e⟩ := queue_run hs h
  rw [takenJobs, ← e]
  exact taken_nodup hq hr

/-! ## Results -/

/-- No submission is in two places, results come with a terminal status, and
those in the process have none. -/
structure RowsInv (s : Server) : Prop where
  queue : s.queue.Inv
  final : ResultsFinal s.db.submissions
  unjudged : ∀ r ∈ s.db.submissions, r.id ∈ s.queue.places → r.NoResult

theorem Effect.inv {l : Option (Label Uuid FinalStatus)} (h : Effect cfg s t l)
    (hq : s.queue.Inv) : t.queue.Inv := by
  rcases h.queueStep with ⟨-, e⟩ | ⟨l', -, hs⟩
  · rwa [e]
  · exact hs.inv hq

theorem noResult_toRow (sub : Submission) (now : Time) : (sub.toRow now).NoResult :=
  ⟨rfl, rfl, rfl, rfl, rfl, rfl⟩

/-- Rows that stay in a step that only moves or drops jobs. -/
theorem RowsInv.of_rows_eq (hi : RowsInv s) (hq : t.queue.Inv)
    (hr : t.db.submissions = s.db.submissions) (hp : t.queue.places ≤ s.queue.places) :
    RowsInv t where
  queue := hq
  final := by rw [hr]; exact hi.final
  unjudged := by
    rw [hr]
    exact fun r hr hid => hi.unjudged r hr (Multiset.mem_of_le hp hid)

theorem RowsInv.step {l : Option (Label Uuid FinalStatus)} (h : Effect cfg s t l) (hi : RowsInv s) :
    RowsInv t := by
  have hq := h.inv hi.queue
  have hp := h.places_add
  have hsame := h.places_eq
  cases h with
  | @quiet f hr hf hw hv =>
    have hrow : ∀ r₀ : SubmissionRow, ((f r₀).Unfinished ↔ r₀.Unfinished) ∧
        ((f r₀).NoResult ↔ r₀.NoResult) := fun r₀ => by
      rcases hf r₀ with e | e <;> rw [e] <;> exact ⟨Iff.rfl, Iff.rfl⟩
    refine ⟨hq, fun r hr' hu => ?_, fun r hr' hid => ?_⟩ <;> rw [hr] at hr' <;>
      obtain ⟨r₀, hr₀, rfl⟩ := List.mem_map.mp hr'
    · exact (hrow r₀).2.mpr (hi.final r₀ hr₀ ((hrow r₀).1.mp hu))
    · rw [hsame rfl rfl, (hf r₀).id_eq] at hid
      exact (hrow r₀).2.mpr (hi.unjudged r₀ hr₀ hid)
  | @create task hid hr hw hv =>
    change t.queue.places + 0 = s.queue.places + {task.sub.id} at hp
    rw [add_zero, add_comm, Multiset.singleton_add] at hp
    refine ⟨hq, fun r hr' hu => ?_, fun r hr' hid' => ?_⟩ <;>
      rw [hr, List.mem_append, List.mem_singleton] at hr' <;> rcases hr' with hr' | rfl
    · exact hi.final r hr' hu
    · exact noResult_toRow _ _
    · rw [hp, Multiset.mem_cons] at hid'
      rcases hid' with e | hid'
      · exact absurd (List.mem_map.mpr ⟨r, hr', e⟩) hid
      · exact hi.unjudged r hr' hid'
    · exact noResult_toRow _ _
  | take hr hw hv =>
    exact hi.of_rows_eq hq hr (hsame rfl rfl).le
  | @start id connected rest hr hw hv hv' =>
    cases connected with
    | false => exact hi.of_rows_eq hq hr (hsame rfl rfl).le
    | true =>
      have hid : id ∈ s.queue.places := mem_places.mpr (.inr ⟨false, hv ▸ Multiset.mem_cons_self _ _⟩)
      -- the row that becomes `running` has no results yet
      have hno : ∀ r ∈ t.db.submissions, r.id = id → r.NoResult := fun r hr' hrid => by
        rw [hr, if_pos rfl, updateStatus] at hr'
        obtain ⟨r₀, hr₀, rfl⟩ := mem_updateWhere.mp hr'
        split_ifs at hrid ⊢ with h₀
        · exact hi.unjudged r₀ hr₀ (h₀ ▸ hid)
        · exact absurd hrid h₀
      have hold : ∀ r ∈ t.db.submissions, r.id ≠ id → r ∈ s.db.submissions := fun r hr' hrid => by
        rw [hr, if_pos rfl, updateStatus] at hr'
        obtain ⟨r₀, hr₀, rfl⟩ := mem_updateWhere.mp hr'
        split_ifs at hrid ⊢ with h₀
        · exact absurd h₀ hrid
        · exact hr₀
      refine ⟨hq, fun r hr' hu => ?_, fun r hr' hrid => ?_⟩ <;> by_cases h₀ : r.id = id
      · exact hno r hr' h₀
      · exact hi.final r (hold r hr' h₀) hu
      · exact hno r hr' h₀
      · exact hi.unjudged r (hold r hr' h₀) (hsame rfl rfl ▸ hrid)
  | @finish id u ok hr hw hv =>
    change t.queue.places + {id} = s.queue.places + 0 at hp
    rw [add_zero, add_comm, Multiset.singleton_add] at hp
    cases ok with
    | false => exact hi.of_rows_eq hq hr (hp ▸ Multiset.le_cons_self _ _)
    | true =>
      have hnid : id ∉ t.queue.places := by
        have := hi.queue.nodup
        rw [← hp, Multiset.nodup_cons] at this
        exact this.1
      refine ⟨hq, fun r hr' hu => ?_, fun r hr' hrid => ?_⟩ <;> rw [hr, if_pos rfl] at hr' <;>
        obtain ⟨r₀, hr₀, rfl⟩ := mem_updateWhere.mp hr'
      · split_ifs at hu ⊢ with h₀
        · exact absurd hu (FinalUpdate.not_unfinished_apply u r₀)
        · exact hi.final r₀ hr₀ hu
      · split_ifs at hrid ⊢ with h₀
        · rw [RowUpdate.apply_id, h₀] at hrid
          exact absurd hrid hnid
        · exact hi.unjudged r₀ hr₀ (hp ▸ Multiset.mem_cons_of_mem hrid)
  | @drop items hr hw hv hp' =>
    refine hi.of_rows_eq hq hr ?_
    rw [hp']
    exact Multiset.le_add_right _ _

theorem resultsFinal_of_run (hs : (Server.system cfg).init s) (h : (Server.system cfg).Run s tr t)
    (hrows : ResultsFinal s.db.submissions) : ResultsFinal t.db.submissions := by
  refine (h.invariant (I := RowsInv) (fun s a t hi hst => hi.step (step_effect hst)) ?_).final
  obtain ⟨clock, db, sessions, rfl⟩ := hs
  have hq := inFlight_boot cfg clock db sessions
  refine ⟨inv_of_init hq, hrows, fun r _ hid => ?_⟩
  rw [places, hq.1, hq.2] at hid
  exact absurd hid (Multiset.notMem_zero _)

/-! ## Other rows -/

/-- A step of `judge` changes no row but that of its job. -/
theorem filter_of_judges {a : Action} (h : s.step cfg a = some t) {w : Nat} (ha : a.judges w)
    {job : JudgeJob} {st : JudgeState} (hw : s.workers[w]? = some (.judging job st)) {id : Uuid}
    (hid : id ≠ job.id) :
    t.db.submissions.filter (·.id == id) = s.db.submissions.filter (·.id == id) := by
  have hwrite : ∀ (u : RowUpdate) (connected : Bool),
      (s.writeRow cfg job.id u connected).db.submissions.filter (·.id == id) =
        s.db.submissions.filter (·.id == id) := fun u connected => by
    cases connected with
    | false => rfl
    | true =>
      simp only [Server.writeRow, if_true]
      rw [RowUpdate.write_eq]
      split_ifs
      · exact filter_updateWhere_of_ne (fun r => RowUpdate.apply_id r) hid
      · rfl
  have hsame : ∀ {worker : Worker}, s.workers[w]? = some worker → worker = .judging job st :=
    fun hw' => Option.some.inj (hw'.symm.trans hw)
  cases step_cases h with
  | request hq h => rcases ha with ⟨connected, rfl⟩ | ⟨e, rfl⟩ <;> cases h
  | worker hw' h =>
    cases h with
    | lock => rcases ha with ⟨connected, h⟩ | ⟨e, h⟩ <;> cases h
    | recv => rcases ha with ⟨connected, h⟩ | ⟨e, h⟩ <;> cases h
    | start =>
      obtain ⟨connected, h⟩ | ⟨e, h⟩ := ha <;> cases h
      cases hsame hw'
      exact hwrite _ _
    | finish =>
      obtain ⟨connected, h⟩ | ⟨e, h⟩ := ha <;> cases h
      cases hsame hw'
      exact hwrite _ _
    | event => rfl
  | tick | arrive | account | restart => rcases ha with ⟨connected, h⟩ | ⟨e, h⟩ <;> cases h

end

/-! ## All of it -/

/-- Over any run of the server: no job is taken twice; the statuses written
for a submission go forward, to one terminal status at most; a row that is
not judged has no results, if that was so at the start; and a step of judging
a job changes no other row. -/
theorem judged_at_most_once (cfg : Config) {s t : Server} {tr : List (Server × Action)}
    (hs : (Server.system cfg).init s) (h : (Server.system cfg).Run s tr t)
    (hrows : ResultsFinal s.db.submissions) :
    (takenJobs cfg tr).Nodup ∧
      (∀ id, ∃ final : JudgeStatus, final.isTerminal = true ∧
        writtenStatuses cfg id tr <+ [.pending, .running, final]) ∧
      ResultsFinal t.db.submissions ∧
      ∀ e ∈ tr, ∀ u, e.1.step cfg e.2 = some u → ∀ w, e.2.judges w → ∀ job st,
        e.1.workers[w]? = some (.judging job st) → ∀ id, id ≠ job.id →
        u.db.submissions.filter (·.id == id) = e.1.db.submissions.filter (·.id == id) :=
  ⟨takenJobs_nodup hs h, writtenStatuses_sublist hs h, resultsFinal_of_run hs h hrows,
    fun _ _ _ hst _ ha _ _ hw _ hid => filter_of_judges hst ha hw hid⟩

/-- A submission, and a worker that cannot compile it. -/
def uncompiledActions : List Action :=
  apiSubmitActions ++ judgeActions [.tempdir (.ok ()), .compiled (.error "g++ not found")]

example : takenJobs smallConfig (Server.traceOf smallConfig (.boot smallConfig 0 emptyDb [])
    uncompiledActions) = [1] := by rfl

theorem judged_at_most_once_small :
    (takenJobs smallConfig (Server.traceOf smallConfig (.boot smallConfig 0 emptyDb [])
      uncompiledActions)).Nodup ∧
    ∃ final : JudgeStatus, final.isTerminal = true ∧
      writtenStatuses smallConfig 1 (Server.traceOf smallConfig (.boot smallConfig 0 emptyDb [])
        uncompiledActions) <+ [.pending, .running, final] := by
  have h := judged_at_most_once smallConfig ⟨0, emptyDb, [], rfl⟩
    (Server.run_traceOf _ (.boot smallConfig 0 emptyDb []) uncompiledActions (by rfl))
    (by intro r hr; cases hr)
  exact ⟨h.1, h.2.1 1⟩

end MikanJudge

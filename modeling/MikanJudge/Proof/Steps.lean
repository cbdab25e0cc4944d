import MikanJudge.Model.Server

/-!
# The steps of the server

What each step can do, with the guards it passes: of a request
(`RequestStep`), of a worker (`WorkerStep`), and of the server (`ServerStep`). The
proofs about runs go by these cases.
-/

namespace MikanJudge

open MikanJudge.Lib

/-- A step of the request `q` at position `i`. -/
inductive RequestStep (cfg : Config) (s : Server) (i : Nat) (q : Request) : Action → Server → Prop
  | refuse {r : Response} : q.stage = .loaded →
    q.route.check cfg.ext cfg.app s.db q.session s.clock s.clock q.id = .error r →
    RequestStep cfg s i q (.check i) (s.dropRequest i)
  | check {task : SubmitTask} : q.stage = .loaded →
    q.route.check cfg.ext cfg.app s.db q.session s.clock s.clock q.id = .ok task →
    RequestStep cfg s i q (.check i) (s.setStage i q (.checked task))
  | insertFail {task : SubmitTask} {connected : Bool} : q.stage = .checked task →
    (connected && (s.db.insertSubmission task.sub s.clock).isOk) = false →
    RequestStep cfg s i q (.insert i connected) (s.dropRequest i)
  | insert {task : SubmitTask} {db : Db} : q.stage = .checked task →
    s.db.insertSubmission task.sub s.clock = .ok db →
    RequestStep cfg s i q (.insert i true) { s.setStage i q (.inserted task) with db := db }
  | record {task : SubmitTask} {key : CooldownKey} : q.stage = .inserted task →
    task.cooldownKey = some key →
    RequestStep cfg s i q (.record i) (s.setStage i
      { q with session := recordSubmitTime q.session key s.clock, modified := true }
      (.recorded task))
  | send {task : SubmitTask} :
    (q.stage = .inserted task ∧ task.cooldownKey = none) ∨ q.stage = .recorded task →
    s.channel.length < channelCapacity →
    RequestStep cfg s i q (.send i)
      { s.setStage i q (.sent task) with channel := s.channel ++ [task.job] }
  | respond {task : SubmitTask} : q.stage = .sent task →
    RequestStep cfg s i q (.respond i) { s.dropRequest i with
      sessions := if q.modified then s.saveSession q.sid q.session else s.sessions }
  | cancel : RequestStep cfg s i q (.cancel i) (s.dropRequest i)

/-- A step of the worker at position `w`. -/
inductive WorkerStep (cfg : Config) (s : Server) (w : Nat) : Worker → Action → Server → Prop
  | lock : WorkerStep cfg s w .idle (.lock w) (s.setWorker w .receiving)
  | recv {job : JudgeJob} {jobs : List JudgeJob} : s.channel = job :: jobs →
    WorkerStep cfg s w .receiving (.recv w)
      { s.setWorker w (.judging job .start) with channel := jobs }
  | start {job : JudgeJob} {connected : Bool} :
    WorkerStep cfg s w (.judging job .start) (.write w connected)
      ((s.writeRow cfg job.id (.status .running) connected).setWorker w (.judging job .tempdir))
  | finish {job : JudgeJob} {u : FinalUpdate} {connected : Bool} :
    WorkerStep cfg s w (.judging job (.finish u)) (.write w connected)
      ((s.writeRow cfg job.id u.val connected).setWorker w .idle)
  | event {job : JudgeJob} {st st' : JudgeState} {e : JudgeEvent} :
    st.step cfg.ext job e = some st' →
    WorkerStep cfg s w (.judging job st) (.event w e) (s.setWorker w (.judging job st'))

inductive ServerStep (cfg : Config) (s : Server) : Action → Server → Prop
  | tick {now : Time} : s.clock ≤ now → ServerStep cfg s (.tick now) { s with clock := now }
  | arrive {sid : Nat} {route : SubmitRoute} {id : Uuid} :
    ServerStep cfg s (.arrive sid route id) { s with requests := s.requests ++ [{
      sid := sid, session := s.loadSession sid, modified := false, route := route, id := id
      stage := .loaded }] }
  | request {i : Nat} {q : Request} {a : Action} {t : Server} : s.requests[i]? = some q →
    RequestStep cfg s i q a t → ServerStep cfg s a t
  | account {sid : Nat} {route : AccountRoute} : ServerStep cfg s (.account sid route)
    { s with
      db := (route.handle cfg.ext s.db (s.loadSession sid)).db
      sessions := s.applySession sid (route.handle cfg.ext s.db (s.loadSession sid)).session }
  | worker {w : Nat} {worker : Worker} {a : Action} {t : Server} : s.workers[w]? = some worker →
    WorkerStep cfg s w worker a t → ServerStep cfg s a t
  | restart : ServerStep cfg s .restart (.boot cfg s.clock s.db s.sessions)

section

variable {cfg : Config} {s t : Server} {a : Action} {i : Nat} {q : Request}

/-! ## Requests -/

theorem check_cases (h : s.stepRequest cfg i q (.check i) = some t) :
    RequestStep cfg s i q (.check i) t := by
  cases hs : q.stage with
  | loaded =>
    simp only [Server.stepRequest, hs] at h
    split at h <;> cases h
    · exact .refuse hs ‹_›
    · exact .check hs ‹_›
  | checked task | inserted task | recorded task | sent task =>
    simp only [Server.stepRequest, hs, reduceCtorEq] at h

theorem insert_cases {connected : Bool} (h : s.stepRequest cfg i q (.insert i connected) = some t) :
    RequestStep cfg s i q (.insert i connected) t := by
  cases hs : q.stage with
  | checked task =>
    simp only [Server.stepRequest, hs] at h
    cases connected with
    | false =>
      cases h
      exact .insertFail hs rfl
    | true =>
      cases hi : s.db.insertSubmission task.sub s.clock with
      | error e =>
        simp only [hi, if_true] at h
        cases h
        exact .insertFail hs (by rw [hi]; rfl)
      | ok db =>
        simp only [hi, if_true] at h
        cases h
        exact .insert hs hi
  | loaded | inserted task | recorded task | sent task =>
    simp only [Server.stepRequest, hs, reduceCtorEq] at h

theorem record_cases (h : s.stepRequest cfg i q (.record i) = some t) :
    RequestStep cfg s i q (.record i) t := by
  cases hs : q.stage with
  | inserted task =>
    simp only [Server.stepRequest, hs] at h
    split at h <;> cases h
    exact .record hs ‹_›
  | loaded | checked task | recorded task | sent task =>
    simp only [Server.stepRequest, hs, reduceCtorEq] at h

theorem send_cases (h : s.stepRequest cfg i q (.send i) = some t) :
    RequestStep cfg s i q (.send i) t := by
  cases hs : q.stage with
  | inserted task =>
    simp only [Server.stepRequest, hs] at h
    split at h <;> cases h
    rename_i hg
    exact .send (.inl ⟨hs, hg.1⟩) hg.2
  | recorded task =>
    simp only [Server.stepRequest, hs] at h
    split at h <;> cases h
    exact .send (.inr hs) ‹_›
  | loaded | checked task | sent task => simp only [Server.stepRequest, hs, reduceCtorEq] at h

theorem respond_cases (h : s.stepRequest cfg i q (.respond i) = some t) :
    RequestStep cfg s i q (.respond i) t := by
  cases hs : q.stage with
  | sent task =>
    simp only [Server.stepRequest, hs] at h
    cases h
    exact .respond hs
  | loaded | checked task | inserted task | recorded task =>
    simp only [Server.stepRequest, hs, reduceCtorEq] at h

theorem cancel_cases (h : s.stepRequest cfg i q (.cancel i) = some t) :
    RequestStep cfg s i q (.cancel i) t := by
  have ht : t = s.dropRequest i := by
    unfold Server.stepRequest at h
    cases hs : q.stage <;> simp only [Option.some.injEq] at h <;> exact h.symm
  rw [ht]
  exact .cancel

/-! ## Workers -/

variable {w : Nat} {worker : Worker}

theorem lock_cases (h : s.stepWorker cfg w worker (.lock w) = some t) :
    WorkerStep cfg s w worker (.lock w) t := by
  cases worker with
  | idle =>
    simp only [Server.stepWorker] at h
    split at h <;> cases h
    exact .lock
  | receiving | judging job st => simp only [Server.stepWorker, reduceCtorEq] at h

theorem recv_cases (h : s.stepWorker cfg w worker (.recv w) = some t) :
    WorkerStep cfg s w worker (.recv w) t := by
  cases worker with
  | receiving =>
    cases hc : s.channel with
    | nil => simp only [Server.stepWorker, hc, reduceCtorEq] at h
    | cons job jobs =>
      simp only [Server.stepWorker, hc, Option.some.injEq] at h
      subst h
      exact .recv hc
  | idle | judging job st => simp only [Server.stepWorker, reduceCtorEq] at h

theorem write_cases {connected : Bool} (h : s.stepWorker cfg w worker (.write w connected) = some t) :
    WorkerStep cfg s w worker (.write w connected) t := by
  cases worker with
  | idle | receiving => simp only [Server.stepWorker, reduceCtorEq] at h
  | judging job st =>
    cases st with
    | start =>
      simp only [Server.stepWorker, Option.some.injEq] at h
      subst h
      exact .start
    | finish u =>
      simp only [Server.stepWorker, Option.some.injEq] at h
      subst h
      exact .finish
    | tempdir | compile | cases _ _ _ => simp only [Server.stepWorker, reduceCtorEq] at h

theorem event_cases {e : JudgeEvent} (h : s.stepWorker cfg w worker (.event w e) = some t) :
    WorkerStep cfg s w worker (.event w e) t := by
  cases worker with
  | judging job st =>
    simp only [Server.stepWorker, Option.map_eq_some_iff] at h
    obtain ⟨st', hst, rfl⟩ := h
    exact .event hst
  | idle | receiving => simp only [Server.stepWorker, reduceCtorEq] at h

/-! ## The server -/

theorem step_cases (h : s.step cfg a = some t) : ServerStep cfg s a t := by
  cases a with
  | tick now =>
    simp only [Server.step] at h
    split at h <;> cases h
    exact .tick ‹_›
  | arrive sid route id =>
    cases h
    exact .arrive
  | check i =>
    obtain ⟨q, hq, h⟩ := Option.bind_eq_some_iff.mp h
    exact .request hq (check_cases h)
  | insert i connected =>
    obtain ⟨q, hq, h⟩ := Option.bind_eq_some_iff.mp h
    exact .request hq (insert_cases h)
  | record i =>
    obtain ⟨q, hq, h⟩ := Option.bind_eq_some_iff.mp h
    exact .request hq (record_cases h)
  | send i =>
    obtain ⟨q, hq, h⟩ := Option.bind_eq_some_iff.mp h
    exact .request hq (send_cases h)
  | respond i =>
    obtain ⟨q, hq, h⟩ := Option.bind_eq_some_iff.mp h
    exact .request hq (respond_cases h)
  | cancel i =>
    obtain ⟨q, hq, h⟩ := Option.bind_eq_some_iff.mp h
    exact .request hq (cancel_cases h)
  | account sid route =>
    cases h
    exact .account
  | lock w =>
    obtain ⟨worker, hw, h⟩ := Option.bind_eq_some_iff.mp h
    exact .worker hw (lock_cases h)
  | recv w =>
    obtain ⟨worker, hw, h⟩ := Option.bind_eq_some_iff.mp h
    exact .worker hw (recv_cases h)
  | write w connected =>
    obtain ⟨worker, hw, h⟩ := Option.bind_eq_some_iff.mp h
    exact .worker hw (write_cases h)
  | event w e =>
    obtain ⟨worker, hw, h⟩ := Option.bind_eq_some_iff.mp h
    exact .worker hw (event_cases h)
  | restart =>
    cases h
    exact .restart

theorem WorkerStep.requests_eq (h : WorkerStep cfg s w worker a t) : t.requests = s.requests := by
  cases h with
  | start | finish => rename_i connected; cases connected <;> rfl
  | lock | recv | event => rfl

/-- A request that has passed its check did so before, or just now. -/
theorem checked_of_step (h : ServerStep cfg s a t) {q' : Request} {task : SubmitTask}
    (hq' : q' ∈ t.requests) (hs : q'.stage = .checked task) :
    q' ∈ s.requests ∨ ∃ q ∈ s.requests,
      q.route.check cfg.ext cfg.app s.db q.session s.clock s.clock q.id = .ok task ∧
        q' = { q with stage := .checked task } := by
  cases h with
  | tick | account => exact .inl hq'
  | arrive =>
    rcases List.mem_append.mp hq' with hq' | hq'
    · exact .inl hq'
    · rw [List.mem_singleton.mp hq'] at hs
      cases hs
  | worker _ h => exact .inl (h.requests_eq ▸ hq')
  | restart => cases hq'
  | request hq h =>
    cases h with
    | refuse | insertFail | respond | cancel => exact .inl (List.mem_of_mem_eraseIdx hq')
    | check _ hc =>
      rcases List.mem_or_eq_of_mem_set hq' with hq' | rfl
      · exact .inl hq'
      · cases hs
        exact .inr ⟨_, List.mem_of_getElem? hq, hc, rfl⟩
    | insert | record | send =>
      rcases List.mem_or_eq_of_mem_set hq' with hq' | rfl
      · exact .inl hq'
      · cases hs

end

end MikanJudge

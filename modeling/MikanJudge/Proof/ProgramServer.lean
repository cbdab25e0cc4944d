import MikanJudge.Proof.Channel
import MikanJudge.Proof.JudgeStates
import MikanJudge.Proof.ProgramSteps
import MikanJudge.Proof.Served
import Mathlib.Data.List.Forall2

/-!
# The two servers

The server whose workers run `judge` as a program and the one whose workers take the
steps of judging show the same: each run of one is matched by a run of the other, with the
same steps that no worker takes and the same statements of the workers in the same order,
and with the same tables, sessions, requests and channel at its end (`servers_agree`).
In the second, `compile` comes to what it can.
-/

namespace MikanJudge

open MikanJudge.Lib Program

/-! ## What is seen of a run -/

/-- A step that no worker takes, or a statement of a worker. -/
inductive Visible where
  | action (a : Action)
  | write (id : Uuid) (u : RowUpdate) (connected : Bool)

/-- A step of judging that writes nothing. -/
def Action.isEvent : Action → Bool
  | .event _ _ => true
  | _ => false

/-- What a step shows. -/
def Server.visible (s : Server) : Action → Option Visible
  | .lock _ | .recv _ | .event _ _ => none
  | .write w connected =>
    match s.workers[w]? with
    | some (.judging job .start) => some (.write job.id (.status .running) connected)
    | some (.judging job (.finish u)) => some (.write job.id u.val connected)
    | _ => none
  | a => some (.action a)

/-- What a step shows. -/
def ProgramServer.visible (s : ProgramServer) : ProgramAction → Option Visible
  | .server a => some (.action a)
  | .request w _ connected =>
    match s.workers[w]? with
    | some (.judging job (.request (.write u) _)) => some (.write job.id u connected)
    | _ => none
  | _ => none

/-- What a step enters in the ledger of the submissions. -/
def ProgramServer.entry (cfg : Config) (s : ProgramServer) (a : ProgramAction) :
    Option (Ledger.Label Uuid Entered FinalUpdate) :=
  match a, s.visible a with
  | .server a, _ => (s.withWorkers []).entry cfg a
  | _, some (.write id u true) =>
    if h : u.newStatus.isTerminal = true ∧ u.textsOk cfg.ext = true then some (.settle id ⟨u, h.1⟩)
    else none
  | _, _ => none

/-- What a step shows, and what it enters. -/
def Server.shown (cfg : Config) (e : Server × Action) :
    Option (Visible × Option (Ledger.Label Uuid Entered FinalUpdate)) :=
  (e.1.visible e.2).map fun v => (v, e.1.entry cfg e.2)

/-- What a step shows, and what it enters. -/
def ProgramServer.shown (cfg : Config) (e : ProgramServer × ProgramAction) :
    Option (Visible × Option (Ledger.Label Uuid Entered FinalUpdate)) :=
  (e.1.visible e.2).map fun v => (v, e.1.entry cfg e.2)

/-- What happens in the server may happen. -/
def Server.real (cfg : Config) : System Server Action :=
  (Server.system cfg).restrict fun s a => ∀ w ev, a = .event w ev → ∀ job st,
    s.workers[w]? = some (.judging job st) → job.MaySee ev

/-! ## Workers -/

/-- A worker that runs `judge`, as one of the other server. -/
inductive ProgramWorker.StandsFor (ext : Externals) : ProgramWorker → Worker → Prop
  | idle : StandsFor ext .idle .idle
  | receiving : StandsFor ext .receiving .receiving
  | judging {job : JudgeJob} {st : JudgeState} {left : JudgeProgram Ending} :
    JudgeLeft ext job st left → StandsFor ext (.judging job left) (.judging job st)
  | returned {job : JudgeJob} : StandsFor ext (.judging job (.pure .returned)) .idle

/-- A worker that takes the steps of judging, as one that runs `judge`. -/
inductive Worker.StandsFor (ext : Externals) : Worker → ProgramWorker → Prop
  | idle : StandsFor ext .idle .idle
  | receiving : StandsFor ext .receiving .receiving
  | judging {job : JudgeJob} {st : JudgeState} {left : JudgeProgram Ending} :
    JudgeHas ext job st left → StandsFor ext (.judging job st) (.judging job left)

/-- The servers differ in their workers only, and these stand for those of the other. -/
def ProgramServer.StandsFor (ext : Externals) (s : ProgramServer) (t : Server) : Prop :=
  ∃ workers, List.Forall₂ (ProgramWorker.StandsFor ext) s.workers workers ∧ t = s.withWorkers workers

/-- The same, the other way. -/
def Server.StandsFor (ext : Externals) (t : Server) (s : ProgramServer) : Prop :=
  ∃ workers, List.Forall₂ (Worker.StandsFor ext) workers s.workers ∧ t = s.withWorkers workers

section

theorem getElem?_of_forall₂ {α β : Type} {R : α → β → Prop} {l : List α} {l' : List β}
    (h : List.Forall₂ R l l') {i : Nat} {x : α} (hx : l[i]? = some x) :
    ∃ y, l'[i]? = some y ∧ R x y := by
  obtain ⟨hi, rfl⟩ := List.getElem?_eq_some_iff.mp hx
  have hi' : i < l'.length := h.length_eq ▸ hi
  exact ⟨l'[i], List.getElem?_eq_getElem hi', h.get hi hi'⟩

theorem forall₂_set {α β : Type} {R : α → β → Prop} {l : List α} {l' : List β}
    (h : List.Forall₂ R l l') {x : α} {y : β} (hxy : R x y) (i : Nat) :
    List.Forall₂ R (l.set i x) (l'.set i y) := by
  induction h generalizing i with
  | nil => exact .nil
  | cons hab h ih =>
    cases i with
    | zero => exact .cons hxy h
    | succ i => exact .cons hab (ih i)

theorem forall₂_replicate {α β : Type} {R : α → β → Prop} {x : α} {y : β} (h : R x y) (n : Nat) :
    List.Forall₂ R (List.replicate n x) (List.replicate n y) := by
  induction n with
  | zero => exact .nil
  | succ n ih => exact .cons h ih

theorem standsFor_boot (cfg : Config) (clock : Time) (db : Db) (sessions : List (Nat × SessionRecord)) :
    (ProgramServer.boot cfg clock db sessions).StandsFor cfg.ext (.boot cfg clock db sessions) :=
  ⟨List.replicate cfg.numWorkers .idle, forall₂_replicate .idle cfg.numWorkers, rfl⟩

theorem standsFor_programBoot (cfg : Config) (clock : Time) (db : Db)
    (sessions : List (Nat × SessionRecord)) :
    (Server.boot cfg clock db sessions).StandsFor cfg.ext (.boot cfg clock db sessions) :=
  ⟨List.replicate cfg.numWorkers .idle, forall₂_replicate .idle cfg.numWorkers, rfl⟩

@[simp] theorem Server.setWorker_setWorker (s : Server) (w : Nat) (x y : Worker) :
    (s.setWorker w x).setWorker w y = s.setWorker w y := by
  rw [Server.setWorker, Server.setWorker, List.set_set]
  rfl

@[simp] theorem ProgramServer.setWorker_setWorker (s : ProgramServer) (w : Nat) (x y : ProgramWorker) :
    (s.setWorker w x).setWorker w y = s.setWorker w y := by
  rw [ProgramServer.setWorker, ProgramServer.setWorker, List.set_set]
  rfl

/-! ## From the program to the steps -/

variable {cfg : Config} {w : Nat} {job : JudgeJob} {st st' : JudgeState}

/-- A step of the server that is none of judging may happen. -/
theorem real_of_step {s t : Server} {a : Action} (h : s.step cfg a = some t)
    (ha : a.isEvent = false) : (Server.real cfg).step s a t := by
  refine ⟨?_, h⟩
  rintro w ev rfl
  cases ha

/-- Steps of judging are steps of the server that show nothing. -/
theorem run_of_goes {s : Server} (h : JudgeGoes cfg.ext job st st')
    (hw : s.workers[w]? = some (.judging job st)) :
    ∃ tr, (Server.real cfg).Run s tr (s.setWorker w (.judging job st')) ∧
      tr.filterMap (Server.shown cfg) = [] := by
  obtain ⟨hlt, e⟩ := List.getElem?_eq_some_iff.mp hw
  induction h with
  | refl =>
    refine ⟨[], ?_, rfl⟩
    rw [Server.setWorker, ← e, List.set_getElem_self]
    exact .nil s
  | @tail st₁ st₂ _ hmove ih =>
    obtain ⟨tr, hr, hshown⟩ := ih
    obtain ⟨ev, hsee, hst⟩ := hmove
    have hw' : (s.setWorker w (.judging job st₁)).workers[w]? = some (.judging job st₁) :=
      List.getElem?_set_self hlt
    refine ⟨_, hr.snoc (a := .event w ev) ⟨fun w' ev' h job' st hw => ?_, ?_⟩, ?_⟩
    · cases h
      cases hw'.symm.trans hw
      exact hsee
    · change Server.step cfg _ _ = _
      simp only [Server.step, hw', Option.bind_some, Server.stepWorker, hst, Option.map_some,
        Server.setWorker_setWorker]
    · rw [filterMap_snoc, hshown]
      rfl

variable {s : ProgramServer} {workers : List Worker} {e : JudgeRequest}
  {k : e.Reply → JudgeProgram Ending} {answer : Replies} {connected : Bool}

@[simp] theorem workers_perform (id : Uuid) : (s.perform cfg id connected e).workers = s.workers := by
  cases e with
  | write u => cases connected <;> rfl
  | tempdir | writeFile | path | isFile | output | outputWithin | sandbox => rfl

variable (cfg answer connected) in
/-- A request that is no statement changes no table, and shows nothing. -/
theorem quiet_of_not_write (hw : s.workers[w]? = some (.judging job (.request e k)))
    (h : ∀ u, e ≠ .write u) : s.perform cfg job.id connected e = s ∧
      ProgramServer.shown cfg (s, .request w answer connected) = none := by
  have hnone : s.visible (.request w answer connected) = none := by
    simp only [ProgramServer.visible, hw]
    cases e with
    | write u => exact absurd rfl (h u)
    | tempdir | writeFile | path | isFile | output | outputWithin | sandbox => rfl
  refine ⟨?_, by rw [ProgramServer.shown, hnone, Option.map_none]⟩
  cases e with
  | write u => exact absurd rfl (h u)
  | tempdir | writeFile | path | isFile | output | outputWithin | sandbox => rfl

variable (s connected) in
/-- The write of a worker is that of `judge`. -/
theorem writeRow_withWorkers (workers : List Worker) (w : Nat) (id : Uuid) (u : RowUpdate)
    (worker : Worker) (worker' : ProgramWorker) :
    ((s.withWorkers workers).writeRow cfg id u connected).setWorker w worker =
      ((s.perform cfg id connected (.write u)).setWorker w worker').withWorkers (workers.set w worker) := by
  cases connected <;> rfl

/-- It shows the same. -/
theorem shown_start {k : (JudgeRequest.write (.status .running)).Reply → JudgeProgram Ending}
    (hw : s.workers[w]? = some (.judging job (.request (.write (.status .running)) k)))
    (hw' : workers[w]? = some (.judging job .start)) :
    Server.shown cfg (s.withWorkers workers, .write w connected) =
      ProgramServer.shown cfg (s, .request w answer connected) := by
  simp only [Server.shown, ProgramServer.shown, Server.visible, ProgramServer.visible,
    ProgramServer.withWorkers, hw, hw', Option.map_some]
  cases connected with
  | false => simp only [Server.entry, ProgramServer.entry, ProgramServer.visible, hw]
  | true =>
    simp only [Server.entry, ProgramServer.entry, ProgramServer.visible, hw, hw']
    rfl

theorem shown_finish {u : FinalUpdate} {k : (JudgeRequest.write u.val).Reply → JudgeProgram Ending}
    (hw : s.workers[w]? = some (.judging job (.request (.write u.val) k)))
    (hw' : workers[w]? = some (.judging job (.finish u))) :
    Server.shown cfg (s.withWorkers workers, .write w connected) =
      ProgramServer.shown cfg (s, .request w answer connected) := by
  simp only [Server.shown, ProgramServer.shown, Server.visible, ProgramServer.visible,
    ProgramServer.withWorkers, hw, hw', Option.map_some]
  cases connected with
  | false => simp only [Server.entry, ProgramServer.entry, ProgramServer.visible, hw]
  | true =>
    simp only [Server.entry, ProgramServer.entry, ProgramServer.visible, hw, hw']
    simp [u.property]

/-- A request of `judge` is matched by a run of the other server. -/
theorem run_of_request (hall : List.Forall₂ (ProgramWorker.StandsFor cfg.ext) s.workers workers)
    (hw : s.workers[w]? = some (.judging job (.request e k))) :
    ∃ t' tr, (Server.real cfg).Run (s.withWorkers workers) tr t' ∧
      ((s.perform cfg job.id connected e).setWorker w (.judging job (k (answer e)))).StandsFor cfg.ext t' ∧
      tr.filterMap (Server.shown cfg) =
        (ProgramServer.shown cfg (s, .request w answer connected)).toList := by
  obtain ⟨worker, hw', hR⟩ := getElem?_of_forall₂ hall hw
  have hset : ∀ {x : Worker}, ProgramWorker.StandsFor cfg.ext (.judging job (k (answer e))) x →
      ((s.perform cfg job.id connected e).setWorker w (.judging job (k (answer e)))).StandsFor cfg.ext
        (((s.perform cfg job.id connected e).setWorker w (.judging job (k (answer e)))).withWorkers
          (workers.set w x)) := by
    intro x hx
    refine ⟨_, ?_, rfl⟩
    rw [ProgramServer.setWorker, workers_perform]
    exact forall₂_set hall hx w
  cases hR with
  | @judging _ st _ hleft =>
  cases next_of_left hleft with
  | running hst hleft' =>
    subst hst
    refine ⟨_, [(s.withWorkers workers, .write w connected)], System.Run.one (real_of_step ?_ rfl),
      hset (.judging hleft'), ?_⟩
    · have hstep : (s.withWorkers workers).step cfg (.write w connected) =
          some (((s.withWorkers workers).writeRow cfg job.id (.status .running) connected).setWorker w
            (.judging job .tempdir)) := by
        simp only [Server.step, ProgramServer.withWorkers, hw', Option.bind_some, Server.stepWorker]
      exact hstep.trans (congrArg some (writeRow_withWorkers ..))
    · rw [filterMap_one, shown_start hw hw']
  | @finish u k hgoes hk =>
    obtain ⟨tr, hr, hshown⟩ := run_of_goes (s := s.withWorkers workers) hgoes hw'
    have hw'' : (workers.set w (.judging job (.finish u)))[w]? = some (.judging job (.finish u)) :=
      List.getElem?_set_self (List.getElem?_eq_some_iff.mp hw').1
    have hidle : ProgramWorker.StandsFor cfg.ext (.judging job (k (answer (.write u.val)))) .idle := by
      rw [show k (answer (.write u.val)) = .pure .returned from hk]
      exact .returned
    refine ⟨_, _, hr.snoc (a := .write w connected) (real_of_step ?_ rfl), hset hidle, ?_⟩
    · have hstep : (s.withWorkers (workers.set w (.judging job (.finish u)))).step cfg
          (.write w connected) = some (((s.withWorkers (workers.set w (.judging job (.finish u)))).writeRow
            cfg job.id u.val connected).setWorker w .idle) := by
        simp only [Server.step, ProgramServer.withWorkers, hw'', Option.bind_some, Server.stepWorker]
      refine hstep.trans (congrArg some ?_)
      rw [writeRow_withWorkers s connected _ w job.id u.val .idle
        (.judging job (k (answer (.write u.val)))), List.set_set]
    · rw [filterMap_snoc, hshown, List.nil_append]
      exact congrArg Option.toList (shown_finish hw hw'')
  | quiet hne hnext =>
    obtain ⟨st', hgoes, hleft'⟩ := hnext (answer e)
    obtain ⟨tr, hr, hshown⟩ := run_of_goes (s := s.withWorkers workers) hgoes hw'
    obtain ⟨hperform, hquiet⟩ := quiet_of_not_write cfg answer connected hw hne
    refine ⟨_, tr, ?_, hset (.judging hleft'), ?_⟩
    · rw [hperform]
      exact hr
    · rw [hshown, hquiet, Option.toList_none]

theorem shown_server {a : Action} (ha : a.works = false) :
    Server.shown cfg (s.withWorkers workers, a) = ProgramServer.shown cfg (s, .server a) := by
  cases a with
  | insert i connected => cases connected <;> rfl
  | tick | arrive | check | record | send | respond | cancel | account | restart => rfl
  | lock | recv | write | event => cases ha

theorem step_server {a : Action} {t : Server} (ha : a ≠ .restart)
    (h : (s.withWorkers []).step cfg a = some t) : s.step cfg (.server a) = some (s.become t) := by
  have hs : s.step cfg (.server a) = ((s.withWorkers []).step cfg a).map s.become := by
    cases a <;> first | rfl | exact absurd rfl ha
  rw [hs, h, Option.map_some]

theorem isEvent_of_works {a : Action} (ha : a.works = false) : a.isEvent = false := by
  cases a with
  | event => cases ha
  | tick | arrive | check | insert | record | send | respond | cancel | account | lock | recv | write
    | restart => rfl

/-- Every step of the server with `judge` as a program is matched by a run of the
other server. -/
theorem program_refines (cfg : Config) :
    (ProgramServer.system cfg).Refines (Server.real cfg) (ProgramServer.shown cfg) (Server.shown cfg)
      (ProgramServer.StandsFor cfg.ext) where
  init {s} hs := by
    obtain ⟨clock, db, sessions, rfl⟩ := hs
    exact ⟨.boot cfg clock db sessions, ⟨clock, db, sessions, rfl⟩, standsFor_boot cfg clock db sessions⟩
  step {s s' a t} hR hstep := by
    obtain ⟨workers, hall, rfl⟩ := hR
    -- one step of the other server
    have hone : ∀ (a' : Action) {t' : Server}, (s.withWorkers workers).step cfg a' = some t' →
        a'.isEvent = false → s'.StandsFor cfg.ext t' →
        Server.shown cfg (s.withWorkers workers, a') = ProgramServer.shown cfg (s, a) →
        ∃ t' tr, (Server.real cfg).Run (s.withWorkers workers) tr t' ∧ s'.StandsFor cfg.ext t' ∧
          tr.filterMap (Server.shown cfg) = (ProgramServer.shown cfg (s, a)).toList := by
      intro a' t' hstep ha hR hshown
      refine ⟨t', _, System.Run.one (real_of_step hstep ha), hR, ?_⟩
      rw [filterMap_one, hshown]
    cases programStep_cases hstep with
    | server ha ht =>
      have hworks := not_works_of_step ht
      exact hone _ (step_withWorkers hworks ha ht workers) (isEvent_of_works hworks) ⟨workers, hall, rfl⟩
        (shown_server hworks)
    | restart => exact hone .restart rfl rfl (standsFor_boot cfg s.clock s.db s.sessions) rfl
    | @lock w hw hfree =>
      obtain ⟨worker, hw', hR⟩ := getElem?_of_forall₂ hall hw
      cases hR
      refine hone (.lock w) ?_ rfl ⟨_, forall₂_set hall .receiving w, rfl⟩ rfl
      simp only [Server.step, ProgramServer.withWorkers, hw', Option.bind_some, Server.stepWorker]
      refine if_neg fun hany => ?_
      obtain ⟨worker, hmem, hworker⟩ := List.any_eq_true.mp hany
      obtain ⟨i, hi⟩ := List.mem_iff_getElem?.mp hmem
      obtain ⟨worker', hi', hR⟩ := getElem?_of_forall₂ hall.flip hi
      cases hR with
      | receiving => exact hfree (List.mem_of_getElem? hi')
      | idle | judging | returned => cases hworker
    | @recv w job jobs hw hc =>
      obtain ⟨worker, hw', hR⟩ := getElem?_of_forall₂ hall hw
      cases hR
      refine hone (.recv w) ?_ rfl ⟨_, forall₂_set hall (.judging .start) w, rfl⟩ rfl
      simp only [Server.step, ProgramServer.withWorkers, hw', Option.bind_some, Server.stepWorker, hc]
      rfl
    | request hw => exact run_of_request hall hw
    | @returned w job hw =>
      obtain ⟨worker, hw', hR⟩ := getElem?_of_forall₂ hall hw
      have hidle : worker = .idle := by
        cases hR with
        | judging hleft => exact absurd hleft not_left_pure
        | returned => rfl
      subst hidle
      refine ⟨_, [], .nil _, ⟨workers, ?_, rfl⟩, rfl⟩
      have hset := forall₂_set hall (show ProgramWorker.StandsFor cfg.ext .idle .idle from .idle) w
      obtain ⟨hlt, e⟩ := List.getElem?_eq_some_iff.mp hw'
      rwa [← e, List.set_getElem_self] at hset

/-! ## From the steps to the program -/

variable (cfg) in
open Classical in
/-- A worker can make any exchanges that `judge` can; without a write they show nothing. -/
theorem run_of_reaches {p q : JudgeProgram Ending} {tr : JudgeTrace} (h : p.Reaches tr q)
    (hwrites : writes tr = []) (hw : s.workers[w]? = some (.judging job p)) :
    ∃ tr', (ProgramServer.system cfg).Run s tr' (s.setWorker w (.judging job q)) ∧
      tr'.filterMap (ProgramServer.shown cfg) = [] := by
  induction h generalizing s with
  | refl p =>
    obtain ⟨hlt, e⟩ := List.getElem?_eq_some_iff.mp hw
    refine ⟨[], ?_, rfl⟩
    rw [ProgramServer.setWorker, ← e, List.set_getElem_self]
    exact .nil s
  | @request e k r tr q _ ih =>
    have hne : ∀ u, e ≠ .write u := by
      rintro u rfl
      cases hwrites
    have hanswer : Function.update anyReply e r e = r := Function.update_self ..
    obtain ⟨hperform, hquiet⟩ := quiet_of_not_write cfg (Function.update anyReply e r) true hw hne
    have hstep : s.step cfg (.request w (Function.update anyReply e r) true) =
        some (s.setWorker w (.judging job (k r))) := by
      simp only [ProgramServer.step, hw, Option.bind_some, ProgramServer.stepWorker, hperform, hanswer]
    have hrest : writes tr = [] := List.filterMap_eq_nil_iff.mpr fun x hx =>
      List.filterMap_eq_nil_iff.mp hwrites x (List.mem_cons_of_mem _ hx)
    obtain ⟨tr', hr, hshown⟩ := @ih (s.setWorker w (.judging job (k r))) hrest
      (List.getElem?_set_self (List.getElem?_eq_some_iff.mp hw).1)
    rw [ProgramServer.setWorker_setWorker] at hr
    refine ⟨_, (System.Run.one hstep).trans hr, ?_⟩
    rw [List.filterMap_append, hshown, List.append_nil]
    exact List.filterMap_cons_none hquiet

/-- Every step of the server whose workers take the steps of judging, if it may happen,
is matched by a run of the server with `judge` as a program. -/
theorem server_refines (cfg : Config) :
    (Server.real cfg).Refines (ProgramServer.system cfg) (Server.shown cfg) (ProgramServer.shown cfg)
      (Server.StandsFor cfg.ext) where
  init {s} hs := by
    obtain ⟨clock, db, sessions, rfl⟩ := hs
    exact ⟨.boot cfg clock db sessions, ⟨clock, db, sessions, rfl⟩,
      standsFor_programBoot cfg clock db sessions⟩
  step {t t' a s} hR hstep := by
    obtain ⟨workers, hall, rfl⟩ := hR
    obtain ⟨hsee, hstep⟩ := hstep
    change (s.withWorkers workers).step cfg a = some t' at hstep
    -- one step of the other server
    have hone : ∀ (a' : ProgramAction) (s' : ProgramServer), s.step cfg a' = some s' →
        t'.StandsFor cfg.ext s' →
        ProgramServer.shown cfg (s, a') = Server.shown cfg (s.withWorkers workers, a) →
        ∃ s' tr, (ProgramServer.system cfg).Run s tr s' ∧ t'.StandsFor cfg.ext s' ∧
          tr.filterMap (ProgramServer.shown cfg) =
            (Server.shown cfg (s.withWorkers workers, a)).toList := by
      intro a' s' hstep hR hshown
      refine ⟨s', _, System.Run.one hstep, hR, ?_⟩
      rw [filterMap_one, hshown]
    -- one that no worker takes
    have hserver : a.works = false → a.restarts = false → ∃ s' tr, (ProgramServer.system cfg).Run s tr s' ∧
        t'.StandsFor cfg.ext s' ∧ tr.filterMap (ProgramServer.shown cfg) =
          (Server.shown cfg (s.withWorkers workers, a)).toList := by
      intro hworks hrestarts
      have ha : a ≠ .restart := by
        rintro rfl
        cases hrestarts
      refine hone (.server a) _ (step_server ha (step_withWorkers hworks ha hstep []))
        ⟨workers, hall, ?_⟩ (shown_server hworks).symm
      exact Option.some.inj (hstep.symm.trans (step_withWorkers hworks ha hstep workers))
    cases step_cases hstep with
    | tick | arrive | account => exact hserver rfl rfl
    | request hq hr => exact hserver (by cases hr <;> rfl) (by cases hr <;> rfl)
    | restart => exact hone (.server .restart) _ rfl (standsFor_programBoot cfg s.clock s.db s.sessions) rfl
    | @worker w worker a t' hw' hstep' =>
      obtain ⟨worker', hw, hR⟩ := getElem?_of_forall₂ hall hw'
      -- a write of `judge` whose worker then has this left
      have hwrite : ∀ {job : JudgeJob} {u : RowUpdate} {left : JudgeProgram Ending} (connected : Bool),
          s.workers[w]? = some (.judging job (.request (.write u) fun _ => left)) →
          s.step cfg (.request w anyReply connected) =
            some ((s.perform cfg job.id connected (.write u)).setWorker w (.judging job left)) := by
        intro job u left connected hw
        simp only [ProgramServer.step, hw, Option.bind_some, ProgramServer.stepWorker]
      cases hstep' with
      | lock =>
        cases hR
        refine hone (.lock w) (s.setWorker w .receiving) ?_ ⟨_, forall₂_set hall .receiving w, rfl⟩ rfl
        simp only [ProgramServer.step, hw, Option.bind_some, ProgramServer.stepWorker]
        refine if_neg fun hany => ?_
        obtain ⟨worker, hmem, hworker⟩ := List.any_eq_true.mp hany
        obtain ⟨i, hi⟩ := List.mem_iff_getElem?.mp hmem
        obtain ⟨worker', hi', hR⟩ := getElem?_of_forall₂ hall.flip hi
        cases hR with
        | receiving =>
          exact absurd rfl (List.countP_eq_zero.mp (lock_free hstep) _ (List.mem_of_getElem? hi'))
        | idle | judging => cases hworker
      | @recv job jobs hc =>
        cases hR
        refine hone (.recv w)
          { s.setWorker w (.judging job (judgeProgram cfg.ext job)) with channel := jobs } ?_
          ⟨_, forall₂_set hall (.judging .start) w, rfl⟩ rfl
        change s.channel = _ at hc
        simp only [ProgramServer.step, hw, Option.bind_some, ProgramServer.stepWorker, hc]
      | @start job connected =>
        cases hR with
        | judging h =>
        cases h with
        | on h => cases h
        | start =>
        have hstart : s.workers[w]? = some (.judging job (.request (.write (.status .running))
            fun _ => judgeRunning cfg.ext job)) := hw
        refine hone (.request w anyReply connected) _ (hwrite connected hstart)
          ⟨workers.set w (.judging job .tempdir), ?_, ?_⟩ (shown_start hstart hw').symm
        · rw [ProgramServer.setWorker, workers_perform]
          exact forall₂_set hall (.judging .tempdir) w
        · exact writeRow_withWorkers ..
      | @finish job u connected =>
        cases hR with
        | judging h =>
        cases h with
        | on h =>
        cases h with
        | finish =>
        obtain ⟨hlt, e⟩ := List.getElem?_eq_some_iff.mp hw
        have hdone : ((s.perform cfg job.id connected (.write u.val)).setWorker w
            (.judging job (.pure .returned))).workers[w]? = some (.judging job (.pure .returned)) := by
          rw [ProgramServer.setWorker, workers_perform]
          exact List.getElem?_set_self hlt
        have hlast : ((s.perform cfg job.id connected (.write u.val)).setWorker w
            (.judging job (.pure .returned))).step cfg (.returned w) =
              some ((s.perform cfg job.id connected (.write u.val)).setWorker w .idle) := by
          simp only [ProgramServer.step, hdone, Option.bind_some, ProgramServer.stepWorker,
            ProgramServer.setWorker_setWorker]
        refine ⟨_, _, (System.Run.one (hwrite connected hw)).snoc hlast,
          ⟨workers.set w .idle, ?_, ?_⟩, ?_⟩
        · rw [ProgramServer.setWorker, workers_perform]
          exact forall₂_set hall .idle w
        · exact writeRow_withWorkers ..
        · have hshown : ProgramServer.shown cfg (s, .request w anyReply connected) =
              Server.shown cfg (s.withWorkers workers, .write w connected) := (shown_finish hw hw').symm
          rw [filterMap_snoc, filterMap_one, hshown]
          exact List.append_nil _
      | @event job st st' ev hst =>
        cases hR with
        | judging h =>
        obtain ⟨tr, q, hreach, hwrites, hhas⟩ := reaches_of_step h (hsee w ev rfl job st hw') hst
        obtain ⟨tr', hr, hshown⟩ := run_of_reaches cfg hreach hwrites hw
        exact ⟨_, tr', hr, ⟨_, forall₂_set hall (.judging hhas) w, rfl⟩, hshown⟩

end

/-- Each run of the server with `judge` as a program shows what some run of the server
whose workers take the steps of judging shows, where `compile` comes to what it can,
from and to the same tables, sessions, requests and channel; and the other way. -/
theorem servers_agree (cfg : Config) :
    (∀ s tr t, (ProgramServer.system cfg).init s → (ProgramServer.system cfg).Run s tr t →
      ∃ s' tr' t', (Server.real cfg).init s' ∧ (Server.real cfg).Run s' tr' t' ∧
        s' = s.withWorkers s'.workers ∧ t' = t.withWorkers t'.workers ∧
        tr'.filterMap (Server.shown cfg) = tr.filterMap (ProgramServer.shown cfg)) ∧
    ∀ s' tr' t', (Server.real cfg).init s' → (Server.real cfg).Run s' tr' t' →
      ∃ s tr t, (ProgramServer.system cfg).init s ∧ (ProgramServer.system cfg).Run s tr t ∧
        s' = s.withWorkers s'.workers ∧ t' = t.withWorkers t'.workers ∧
        tr.filterMap (ProgramServer.shown cfg) = tr'.filterMap (Server.shown cfg) := by
  constructor
  · intro s tr t hs h
    obtain ⟨s', hs', hR⟩ := (program_refines cfg).init hs
    obtain ⟨t', tr', hr, hR', e⟩ := (program_refines cfg).run h hR
    obtain ⟨_, -, rfl⟩ := hR
    obtain ⟨_, -, rfl⟩ := hR'
    exact ⟨_, tr', _, hs', hr, rfl, rfl, e⟩
  · intro s' tr' t' hs' h
    obtain ⟨s, hs, hR⟩ := (server_refines cfg).init hs'
    obtain ⟨t, tr, hr, hR', e⟩ := (server_refines cfg).run h hR
    obtain ⟨_, -, rfl⟩ := hR
    obtain ⟨_, -, rfl⟩ := hR'
    exact ⟨s, tr, t, hs, hr, rfl, rfl, e⟩

end MikanJudge

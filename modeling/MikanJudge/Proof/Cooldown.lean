import MikanJudge.Proof.Jobs

/-!
# Five seconds between submissions

`contest_problem_submit` compares the clock with the time its session record
has under one of two keys, and writes the record only with the answer;
`problems_submit` does neither. So the submissions of a user are kept apart as
far as each request knows of those before it (`SeesSubmissions`): none of the
user's requests is checked while another is about to be inserted, and what was
submitted less than five seconds ago is in the record the request has read.
-/

namespace MikanJudge

open MikanJudge.Lib System

/-! ## Submissions of a run -/

/-- The insert of a user's submission, and its time in milliseconds. -/
structure Insertion where
  id : Uuid
  userId : Uuid
  ms : Int
  deriving DecidableEq

namespace Server

/-- The insert an action makes for a user. -/
def insertion (s : Server) : Action → Option Insertion
  | .insert i true => (s.requests[i]?).bind fun q =>
    match q.stage with
    | .checked task =>
      if (s.db.insertSubmission task.sub s.clock).isOk then
        task.sub.userId.map fun u => { id := task.sub.id, userId := u, ms := s.clock.millis }
      else none
    | _ => none
  | _ => none

/-- The submission whose job an action sends. -/
def enqueues (s : Server) : Action → Option Uuid
  | .send i => (s.requests[i]?).bind Request.unsent
  | _ => none

end Server

/-- What the users submit in a run, in order. -/
def insertions (tr : List (Server × Action)) : List Insertion :=
  tr.filterMap fun e => e.1.insertion e.2

/-- The submissions whose job is sent in a run. -/
def enqueued (tr : List (Server × Action)) : List Uuid := tr.filterMap fun e => e.1.enqueues e.2

/-- The job of a submission has been sent, or may still be. -/
def Alive (tr : List (Server × Action)) (s : Server) (id : Uuid) : Prop :=
  id ∈ enqueued tr ∨ id ∈ bag Request.unsent s.requests

/-! ## What a request knows -/

/-- The user whom a request to one of the HTML routes submits for. -/
def Request.submitter (q : Request) : Option Uuid :=
  match q.route with
  | .contestProblem _ _ _ | .problem _ _ => q.session.userId
  | .api _ => none

/-- The user of a request between its check and its insert. -/
def Request.checkedUser (q : Request) : Option Uuid :=
  match q.stage with
  | .checked task => task.sub.userId
  | _ => none

/-- The key a route looks up its cooldown under, if it has one. -/
def SubmitRoute.cooldownKey (db : Db) : SubmitRoute → Option CooldownKey
  | contestProblem contestId _ _ =>
    match db.getContest contestId with
    | .ok (some contest) => some contest.cooldown.1
    | _ => none
  | problem _ _ => none
  | api _ => none

/-- The record a request has read holds, under the key of its route, a time no
earlier than the insert. -/
def Request.Knows (q : Request) (db : Db) (e : Insertion) : Prop :=
  ∃ key ∈ q.route.cooldownKey db, ∃ ms ∈ q.session.get key, e.ms ≤ ms

/-- The request an action checks, with the user it submits for. -/
def Server.checking (s : Server) : Action → Option (Request × Uuid)
  | .check i => (s.requests[i]?).bind fun q => q.submitter.map fun u => (q, u)
  | _ => none

/-- If the step is the check of a request of a user: no other request of the
user is about to be inserted, and each submission of the user is known to the
request or at least five seconds old. -/
def SeesSubmissions (pre : List (Server × Action)) (s : Server) (a : Action) : Prop :=
  ∀ p ∈ s.checking a,
    p.2 ∉ bag Request.checkedUser s.requests ∧
    ∀ e ∈ insertions pre, e.userId = p.2 → Alive pre s e.id →
      p.1.Knows s.db e ∨ e.ms + 5000 ≤ s.clock.millis

instance (tr : List (Server × Action)) (s : Server) (id : Uuid) : Decidable (Alive tr s id) :=
  inferInstanceAs (Decidable (_ ∨ _))

instance (q : Request) (db : Db) (e : Insertion) : Decidable (q.Knows db e) :=
  inferInstanceAs (Decidable (∃ key ∈ q.route.cooldownKey db, _))

instance (pre : List (Server × Action)) (s : Server) (a : Action) :
    Decidable (SeesSubmissions pre s a) :=
  inferInstanceAs (Decidable (∀ p ∈ s.checking a, _))

section

variable {ext : Externals} {app : AppState} {db : Db} {now₁ now₂ : Time} {task : SubmitTask}

/-- What passes is submitted for the user of its request. -/
theorem submitter_of_check {q : Request} {u : Uuid}
    (h : q.route.check ext app db q.session now₁ now₂ q.id = .ok task)
    (hu : task.sub.userId = some u) : q.submitter = some u := by
  rw [Request.submitter]
  cases hr : q.route with
  | contestProblem contestId problemId form =>
    rw [hr] at h
    obtain ⟨_, _, _, _, _, _, _, _, rfl⟩ := contestProblemSubmit_ok h
    exact hu
  | problem problemId form =>
    rw [hr] at h
    obtain ⟨_, _, _, rfl⟩ := problemsSubmit_ok h
    exact hu
  | api req =>
    rw [hr] at h
    rw [(apiSubmit_ok h).2.1] at hu
    cases hu

theorem cooldown_ge (c : Contest) : 5000 ≤ c.cooldown.2 := by
  unfold Contest.cooldown
  split <;> decide

/-- No cooldown remains five seconds after the time recorded. -/
theorem add_le_of_cooldown {session : SessionRecord} {key : CooldownKey} {cooldownMs ms : Int}
    {now : Time} (h : checkSubmitCooldown session key cooldownMs now ≤ 0)
    (hms : session.get key = some ms) : ms + cooldownMs ≤ now.millis := by
  simp only [checkSubmitCooldown, hms, Option.getD_some] at h
  split at h <;> omega

/-- What a request knows of when it passes its check is five seconds old. -/
theorem Request.Knows.apart {q : Request} {e : Insertion} (hk : q.Knows db e)
    (h : q.route.check ext app db q.session now₁ now₂ q.id = .ok task) :
    e.ms + 5000 ≤ now₂.millis := by
  obtain ⟨key, hkey, ms, hms, hle⟩ := hk
  cases hr : q.route with
  | contestProblem contestId problemId form =>
    rw [hr] at h hkey
    obtain ⟨contest, _, hc, _, _, hcool, _⟩ := contestProblemSubmit_ok h
    simp only [SubmitRoute.cooldownKey, hc, Option.mem_def, Option.some.injEq] at hkey
    subst hkey
    have := add_le_of_cooldown hcool hms
    have := cooldown_ge contest
    omega
  | problem problemId form =>
    rw [hr] at hkey
    cases hkey
  | api req =>
    rw [hr] at hkey
    cases hkey

end

/-! ## One step -/

section

variable {cfg : Config} {s t : Server} {a : Action}

theorem millis_mono {x y : Time} (h : x ≤ y) : x.millis ≤ y.millis :=
  Int.ediv_le_ediv (by decide) h

theorem clock_le_of_step (h : ServerStep cfg s a t) : s.clock ≤ t.clock := by
  cases h with
  | tick h => exact h
  | arrive | account | restart => exact le_refl _
  | worker _ h =>
    cases h with
    | @start job connected => cases connected <;> exact le_refl _
    | @finish job u connected => cases connected <;> exact le_refl _
    | lock | recv | event => exact le_refl _
  | request _ h => cases h <;> exact le_refl _

/-- What a step means to those who wait for their insert and their send. -/
inductive Progress (cfg : Config) (s : Server) : Action → Server → Prop
  | quiet {a : Action} {t : Server} : s.insertion a = none → s.enqueues a = none →
    bag Request.checkedUser t.requests ≤ bag Request.checkedUser s.requests →
    bag Request.unsent t.requests ≤ bag Request.unsent s.requests → Progress cfg s a t
  | check {i : Nat} {q : Request} {task : SubmitTask} {t : Server} : s.requests[i]? = some q →
    q.route.check cfg.ext cfg.app s.db q.session s.clock s.clock q.id = .ok task →
    bag Request.checkedUser t.requests =
      task.sub.userId.toList + bag Request.checkedUser s.requests →
    bag Request.unsent t.requests = bag Request.unsent s.requests → Progress cfg s (.check i) t
  | insert {a : Action} {task : SubmitTask} {t : Server} :
    (s.insertion a = task.sub.userId.map fun u =>
      { id := task.sub.id, userId := u, ms := s.clock.millis }) →
    s.enqueues a = none →
    bag Request.checkedUser s.requests =
      task.sub.userId.toList + bag Request.checkedUser t.requests →
    bag Request.unsent t.requests = task.sub.id ::ₘ bag Request.unsent s.requests →
    task.sub.id ∉ s.db.submissions.map (·.id) → task.sub.id ∈ t.db.submissions.map (·.id) →
    Progress cfg s a t
  | send {a : Action} {id : Uuid} {t : Server} : s.insertion a = none → s.enqueues a = some id →
    bag Request.checkedUser t.requests = bag Request.checkedUser s.requests →
    bag Request.unsent s.requests = id ::ₘ bag Request.unsent t.requests → Progress cfg s a t

theorem Progress.drop {i : Nat} (hi : s.insertion a = none) (he : s.enqueues a = none)
    (ht : t.requests = s.requests.eraseIdx i) : Progress cfg s a t :=
  .quiet hi he (ht ▸ bag_le_of_sublist (List.eraseIdx_sublist ..))
    (ht ▸ bag_le_of_sublist (List.eraseIdx_sublist ..))

theorem progress_of_request {i : Nat} {q : Request} (hq : s.requests[i]? = some q)
    (h : RequestStep cfg s i q a t) : Progress cfg s a t := by
  have hbag := bag_eq_held_add (f := Request.checkedUser) hq
  have hbag' := bag_eq_held_add (f := Request.unsent) hq
  cases h with
  | refuse => exact .drop rfl rfl rfl
  | @check task hs hc =>
    have h₁ : q.checkedUser = none := by rw [Request.checkedUser, hs]
    have h₂ : q.unsent = none := unsent_loaded hs
    refine .check hq hc ?_ ?_
    · simp only [Server.setStage]
      rw [bag_set hq, hbag, held_none h₁, zero_add]
      rfl
    · exact bag_set_of_eq hq h₂.symm
  | @insertFail task connected hs hf =>
    refine .drop ?_ rfl rfl
    cases connected with
    | false => rfl
    | true =>
      rw [Bool.true_and] at hf
      simp only [Server.insertion, hq, Option.bind_some, hs, hf, Bool.false_eq_true, if_false]
  | @insert task db hs hi =>
    obtain ⟨hid, rfl⟩ := insertSubmission_ok hi
    have h₁ : q.checkedUser = task.sub.userId := by rw [Request.checkedUser, hs]
    have h₂ : q.unsent = none := unsent_checked hs
    have h₃ : ({ q with stage := .inserted task } : Request).checkedUser = none := rfl
    have h₄ : ({ q with stage := .inserted task } : Request).unsent = some task.sub.id := rfl
    refine .insert ?_ rfl ?_ ?_ hid ?_
    · simp only [Server.insertion, hq, Option.bind_some, hs, hi]
      rfl
    · simp only [Server.setStage]
      rw [hbag, bag_set hq, held_none h₃, zero_add, held, h₁]
    · simp only [Server.setStage]
      rw [hbag', bag_set hq, held_some h₄, held_none h₂, zero_add, Multiset.singleton_add]
    · rw [List.map_append]
      exact List.mem_append_right _ List.mem_cons_self
  | @record task key hs hk =>
    refine .quiet rfl rfl (le_of_eq ?_) (le_of_eq ?_)
    · exact bag_set_of_eq hq (by rw [Request.checkedUser, Request.checkedUser, hs])
    · exact bag_set_of_eq hq (by rw [Request.unsent, Request.unsent, hs])
  | @send task hs _ =>
    have h₁ : q.unsent = some task.sub.id := by
      rcases hs with ⟨hs, -⟩ | hs <;> rw [Request.unsent, hs]
    have h₂ : ({ q with stage := .sent task } : Request).unsent = none := rfl
    refine .send rfl (?_ : _ = some task.sub.id) ?_ ?_
    · simp only [Server.enqueues, hq, Option.bind_some, h₁]
    · refine bag_set_of_eq hq ?_
      rcases hs with ⟨hs, -⟩ | hs <;> rw [Request.checkedUser, Request.checkedUser, hs]
    · simp only [Server.setStage]
      rw [hbag', bag_set hq, held_some h₁, held_none h₂, zero_add, Multiset.singleton_add]
  | respond | cancel => exact .drop rfl rfl rfl

theorem progress_of_step (h : ServerStep cfg s a t) : Progress cfg s a t := by
  cases h with
  | tick | account => exact .quiet rfl rfl (le_refl _) (le_refl _)
  | arrive =>
    refine .quiet rfl rfl (le_of_eq ?_) (le_of_eq ?_) <;>
      rw [bag_append, bag_cons, bag_nil, held_none rfl, zero_add, add_zero]
  | request hq h => exact progress_of_request hq h
  | worker _ h =>
    have hr := h.requests_eq
    cases h <;> exact .quiet rfl rfl (le_of_eq (by rw [hr])) (le_of_eq (by rw [hr]))
  | restart => exact .quiet rfl rfl (Multiset.zero_le _) (Multiset.zero_le _)

theorem ids_of_step (h : s.step cfg a = some t) {id : Uuid}
    (hid : id ∈ s.db.submissions.map (·.id)) : id ∈ t.db.submissions.map (·.id) := by
  have hknown : s.queue.known ⊆ t.queue.known := by
    rcases (step_effect h).queueStep with ⟨-, e⟩ | ⟨l, -, hstep⟩
    · rw [e]
    · exact hstep.known_subset
  exact hknown hid

/-! ## Over a run -/

/-- The users' submissions of a run that are sent, or may still be, are five
seconds apart, and whoever is about to insert another one has waited for them. -/
structure Spaced (tr : List (Server × Action)) (s : Server) : Prop where
  ids : ∀ e ∈ insertions tr, e.id ∈ s.db.submissions.map (·.id)
  users : (bag Request.checkedUser s.requests).Nodup
  ready : ∀ u ∈ bag Request.checkedUser s.requests, ∀ e ∈ insertions tr, e.userId = u →
    Alive tr s e.id → e.ms + 5000 ≤ s.clock.millis
  apart : (insertions tr).Pairwise fun e e' => e.userId = e'.userId → Alive tr s e.id →
    Alive tr s e'.id → e.ms + 5000 ≤ e'.ms

variable {tr : List (Server × Action)}

theorem insertions_snoc : insertions (tr ++ [(s, a)]) = insertions tr ++ (s.insertion a).toList := by
  rw [insertions, filterMap_snoc, insertions]

theorem enqueued_snoc : enqueued (tr ++ [(s, a)]) = enqueued tr ++ (s.enqueues a).toList := by
  rw [enqueued, filterMap_snoc, enqueued]

/-- A step that inserts nothing for a user keeps the submissions apart, if
those who are about to insert have waited. -/
theorem Spaced.of_no_insertion (hi : Spaced tr s) (h : s.step cfg a = some t)
    (hins : s.insertion a = none)
    (halive : ∀ id, Alive (tr ++ [(s, a)]) t id → Alive tr s id)
    (husers : (bag Request.checkedUser t.requests).Nodup)
    (hready : ∀ u ∈ bag Request.checkedUser t.requests, ∀ e ∈ insertions tr, e.userId = u →
      Alive tr s e.id → e.ms + 5000 ≤ s.clock.millis) : Spaced (tr ++ [(s, a)]) t := by
  have heq : insertions (tr ++ [(s, a)]) = insertions tr := by
    rw [insertions_snoc, hins, Option.toList_none, List.append_nil]
  have hclock := millis_mono (clock_le_of_step (step_cases h))
  refine ⟨?_, husers, ?_, ?_⟩ <;> rw [heq]
  · exact fun e he => ids_of_step h (hi.ids e he)
  · exact fun u hu e he heu hal => (hready u hu e he heu (halive _ hal)).trans hclock
  · exact hi.apart.imp fun h heu hal hal' => h heu (halive _ hal) (halive _ hal')

/-- A step that inserts for a user who has waited keeps the submissions apart. -/
theorem Spaced.of_insertion (hi : Spaced tr s) (h : s.step cfg a = some t) {task : SubmitTask}
    (hins : s.insertion a = task.sub.userId.map fun u =>
      { id := task.sub.id, userId := u, ms := s.clock.millis })
    (hc : bag Request.checkedUser s.requests =
      task.sub.userId.toList + bag Request.checkedUser t.requests)
    (hid : task.sub.id ∈ t.db.submissions.map (·.id))
    (halive : ∀ e ∈ insertions tr, Alive (tr ++ [(s, a)]) t e.id → Alive tr s e.id) :
    Spaced (tr ++ [(s, a)]) t := by
  have hclock := millis_mono (clock_le_of_step (step_cases h))
  have hready : ∀ u ∈ bag Request.checkedUser s.requests, ∀ e ∈ insertions tr, e.userId = u →
      Alive (tr ++ [(s, a)]) t e.id → e.ms + 5000 ≤ s.clock.millis :=
    fun u hu e he heu hal => hi.ready u hu e he heu (halive e he hal)
  have hold := hi.apart.imp_of_mem fun {e e'} he he' h heu hal hal' =>
    h heu (halive e he hal) (halive e' he' hal')
  cases hu' : task.sub.userId with
  | none =>
    rw [hu', Option.map_none] at hins
    rw [hu', Option.toList_none, Multiset.coe_nil, zero_add] at hc
    refine ⟨?_, hc ▸ hi.users, ?_, ?_⟩ <;>
      rw [insertions_snoc, hins, Option.toList_none, List.append_nil]
    · exact fun e he => ids_of_step h (hi.ids e he)
    · exact fun u hu e he heu hal => (hready u (hc ▸ hu) e he heu hal).trans hclock
    · exact hold
  | some u =>
    rw [hu', Option.map_some] at hins
    rw [hu', Option.toList_some, Multiset.coe_singleton, Multiset.singleton_add] at hc
    have hnodup := hi.users
    rw [hc, Multiset.nodup_cons] at hnodup
    refine ⟨?_, hnodup.2, ?_, ?_⟩ <;> rw [insertions_snoc, hins, Option.toList_some]
    · intro e he
      rcases List.mem_append.mp he with he | he
      · exact ids_of_step h (hi.ids e he)
      · rw [List.mem_singleton.mp he]
        exact hid
    · intro v hv e he heu hal
      rcases List.mem_append.mp he with he | he
      · exact (hready v (hc ▸ Multiset.mem_cons_of_mem hv) e he heu hal).trans hclock
      · -- no other request of the user is about to be inserted
        obtain rfl := List.mem_singleton.mp he
        obtain rfl : u = v := heu
        exact absurd hv hnodup.1
    · refine List.pairwise_append.mpr ⟨hold, List.pairwise_singleton _ _, ?_⟩
      intro e he e' he' heu hal _
      rw [List.mem_singleton.mp he'] at heu ⊢
      exact hready u (hc ▸ Multiset.mem_cons_self _ _) e he heu hal

theorem Spaced.step (hi : Spaced tr s) (ha : SeesSubmissions tr s a) (h : s.step cfg a = some t) :
    Spaced (tr ++ [(s, a)]) t := by
  -- what is alive after a step that sends nothing was so before
  have hquiet : s.enqueues a = none → ∀ id, Alive (tr ++ [(s, a)]) t id →
      id ∈ enqueued tr ∨ id ∈ bag Request.unsent t.requests := by
    intro he id hal
    rwa [Alive, enqueued_snoc, he, Option.toList_none, List.append_nil] at hal
  cases progress_of_step (step_cases h) with
  | quiet hins henq hc hu =>
    refine hi.of_no_insertion h hins (fun id hal => ?_) (Multiset.nodup_of_le hc hi.users) ?_
    · exact (hquiet henq id hal).imp_right (Multiset.mem_of_le hu)
    · exact fun u hu => hi.ready u (Multiset.mem_of_le hc hu)
  | @check i q task _ hq hcheck hc hu =>
    have hsub : ∀ u ∈ task.sub.userId, u ∉ bag Request.checkedUser s.requests ∧
        ∀ e ∈ insertions tr, e.userId = u → Alive tr s e.id →
          q.Knows s.db e ∨ e.ms + 5000 ≤ s.clock.millis :=
      fun u hu => ha (q, u) (by
        rw [Server.checking, hq, Option.bind_some, submitter_of_check hcheck hu, Option.map_some]
        rfl)
    refine hi.of_no_insertion h rfl (fun id hal => ?_) ?_ ?_
    · exact (hquiet rfl id hal).imp_right fun hid => hu ▸ hid
    · rw [hc]
      cases hu' : task.sub.userId with
      | none => exact hi.users
      | some u => exact Multiset.nodup_cons.mpr ⟨(hsub u hu').1, hi.users⟩
    · intro u hu' e he heu hal
      rw [hc, Multiset.mem_add, Multiset.mem_coe, Option.mem_toList] at hu'
      rcases hu' with hu' | hu'
      · rcases (hsub u hu').2 e he heu hal with hk | hk
        · exact hk.apart hcheck
        · exact hk
      · exact hi.ready u hu' e he heu hal
  | @insert _ task _ hins henq hc hu hid hid' =>
    refine hi.of_insertion h hins hc hid' fun e he hal => ?_
    refine (hquiet henq _ hal).imp_right fun hm => ?_
    rw [hu, Multiset.mem_cons] at hm
    -- the one inserted now is new
    exact hm.resolve_left fun heq => hid (heq ▸ hi.ids e he)
  | @send _ id _ hins henq hc hu =>
    refine hi.of_no_insertion h hins (fun id' hal => ?_) (hc ▸ hi.users) fun u hu' => ?_
    · rw [Alive, enqueued_snoc, henq, Option.toList_some, List.mem_append, List.mem_singleton] at hal
      rcases hal with (hal | rfl) | hal
      · exact .inl hal
      · exact .inr (hu ▸ Multiset.mem_cons_self _ _)
      · exact .inr (hu ▸ Multiset.mem_cons_of_mem hal)
    · exact hi.ready u (hc ▸ hu')

end

/-- In a run in which every check of a user's request sees the user's
submissions so far, any two submissions of a user that are inserted and
enqueued are at least five seconds apart. -/
theorem submissions_apart (cfg : Config) {s t : Server} {tr : List (Server × Action)}
    (hs : (Server.system cfg).init s) (h : (Server.system cfg).Run s tr t)
    (hm : Meets SeesSubmissions tr) :
    (insertions tr).Pairwise fun e e' => e.userId = e'.userId → e.id ∈ enqueued tr →
      e'.id ∈ enqueued tr → e.ms + 5000 ≤ e'.ms := by
  obtain ⟨clock, db, sessions, rfl⟩ := hs
  have h0 : Spaced [] (Server.boot cfg clock db sessions) :=
    ⟨(fun e he => nomatch he), Multiset.nodup_zero, (fun u hu => absurd hu (Multiset.notMem_zero u)),
      List.Pairwise.nil⟩
  have hsp := h.history_of_meets (I := Spaced) h0 (fun _ _ _ _ hi ha hst => hi.step ha hst) hm
  exact hsp.apart.imp fun h heu he he' => h heu (.inl he) (.inl he')

/-! ### Requests one after another, and at once -/

/-- Two submissions in one session, five seconds apart. -/
def patientActions : List Action :=
  contestSubmitActions 0 7 ++ [.tick 15000000] ++ contestSubmitActions 0 8

example : insertions (Server.traceOf contestConfig (contestServer "a") patientActions) =
    [⟨7, 1, 10000⟩, ⟨8, 1, 15000⟩] := by decide +kernel

theorem submissions_apart_patient :
    (insertions (Server.traceOf contestConfig (contestServer "a") patientActions)).Pairwise
      fun e e' => e.userId = e'.userId →
        e.id ∈ enqueued (Server.traceOf contestConfig (contestServer "a") patientActions) →
        e'.id ∈ enqueued (Server.traceOf contestConfig (contestServer "a") patientActions) →
        e.ms + 5000 ≤ e'.ms :=
  submissions_apart contestConfig ⟨_, _, _, rfl⟩
    (Server.run_traceOf _ (contestServer "a") patientActions (by decide +kernel))
    (by decide +kernel)

/-- Two requests read the session before either is answered. -/
def overlappingActions : List Action :=
  [.arrive 0 (.contestProblem "c" "a" { language := "cpp", sourceCode := "" }) 7,
    .arrive 0 (.contestProblem "c" "a" { language := "cpp", sourceCode := "" }) 8,
    .check 0, .check 1] ++ finishActions 0 ++ finishActions 0

/-- Both submissions are inserted and enqueued, at the same time. -/
theorem submissions_apart_fails :
    (Server.system contestConfig).Run (contestServer "a")
      (Server.traceOf contestConfig (contestServer "a") overlappingActions)
      (Server.lastOf contestConfig (contestServer "a") overlappingActions) ∧
    insertions (Server.traceOf contestConfig (contestServer "a") overlappingActions) =
      [⟨7, 1, 10000⟩, ⟨8, 1, 10000⟩] ∧
    enqueued (Server.traceOf contestConfig (contestServer "a") overlappingActions) = [7, 8] :=
  ⟨Server.run_traceOf _ _ _ (by decide +kernel), by decide +kernel, by decide +kernel⟩

end MikanJudge

import MikanJudge.Proof.Cooldown
import MikanJudge.Proof.Tables

/-!
# Who may act for a user

A session is the user's of whoever signed in with it. Over any run, an account
is changed or deleted, and a submission entered for a user, only from a session
with which someone has signed in as that user (`acts_authenticated`).
-/

namespace MikanJudge

open MikanJudge.Lib

/-! ## Signing in -/

/-- A password that is an account's. -/
def Db.Admits (db : Db) (ext : Externals) (userId : Uuid) (password : String) : Prop :=
  ∃ user ∈ db.users, user.id = userId ∧
    ext.verifyPassword (trim password) user.passwordHash = true

/-- A request that signs in as a user: by the name and password of the account,
or by making it. -/
def AccountRoute.SignsIn (ext : Externals) (db : Db) (userId : Uuid) : AccountRoute → Prop
  | register form newId salt => newId = userId ∧ ∃ hash db',
    ext.hashPassword salt (trim form.password) = .ok hash ∧
      db.insertUser newId (trim form.username) hash = .ok db'
  | login form => ∃ user ∈ db.users, user.id = userId ∧ user.username = trim form.username ∧
    ext.verifyPassword (trim form.password) user.passwordHash = true
  | logout | settings _ | deleteAccount _ | changePassword _ _ _ => False

/-- A session was the user's when the process was first started, or someone has
signed in with it since. -/
def SignedIn (cfg : Config) (s₀ : Server) (tr : List (Server × Action)) (sid : Nat)
    (userId : Uuid) : Prop :=
  (∃ record, (sid, record) ∈ s₀.sessions ∧ record.userId = some userId) ∨
    ∃ e ∈ tr, ∃ route, e.2 = .account sid route ∧ route.SignsIn cfg.ext e.1.db userId

section

variable {cfg : Config} {s₀ s t : Server} {a : Action} {tr : List (Server × Action)} {sid : Nat}
  {userId : Uuid} {record : SessionRecord} {q q' : Request}

theorem SignedIn.snoc (h : SignedIn cfg s₀ tr sid userId) (e : Server × Action) :
    SignedIn cfg s₀ (tr ++ [e]) sid userId :=
  h.imp_right fun ⟨e', he, h⟩ => ⟨e', List.mem_append_left _ he, h⟩

/-- A saved session is that of the user it was, or of one who signs in. -/
theorem AccountStep.signsIn {ext : Externals} {db db' : Db} {session : SessionRecord}
    {route : AccountRoute} (h : AccountStep ext db session route db' (.save record))
    (hu : record.userId = some userId) : route.SignsIn ext db userId := by
  cases h with
  | registered _ _ _ hhash hinsert => exact ⟨Option.some.inj hu, _, _, hhash, hinsert⟩
  | loggedIn hmem hname hverify => exact ⟨_, hmem, Option.some.inj hu, hname, hverify⟩

/-! ## What one step makes of the sessions -/

theorem loadSession_cases (s : Server) (sid : Nat) :
    s.loadSession sid = .empty ∨ (sid, s.loadSession sid) ∈ s.sessions := by
  unfold Server.loadSession
  cases hfind : s.sessions.find? (·.1 == sid) with
  | none => exact .inl rfl
  | some x =>
    obtain ⟨sid', record⟩ := x
    obtain rfl : sid' = sid := by simpa using List.find?_some hfind
    exact .inr (List.mem_of_find?_eq_some hfind)

theorem mem_saveSession {x : Nat × SessionRecord} (h : x ∈ s.saveSession sid record) :
    x = (sid, record) ∨ x ∈ s.sessions :=
  (List.mem_cons.mp h).imp_right List.mem_of_mem_filter

/-- A stored session was stored before, or is the copy of a request that has
been answered, or saved by an account request. -/
theorem sessions_of_step (h : ServerStep cfg s a t) (hmem : (sid, record) ∈ t.sessions) :
    (sid, record) ∈ s.sessions ∨ (∃ q ∈ s.requests, q.sid = sid ∧ q.session = record) ∨
      ∃ route, a = .account sid route ∧
        (route.handle cfg.ext s.db (s.loadSession sid)).session = .save record := by
  cases h with
  | tick | arrive | restart => exact .inl hmem
  | @account sid' route =>
    cases heffect : (route.handle cfg.ext s.db (s.loadSession sid')).session with
    | keep =>
      simp only [heffect] at hmem
      exact .inl hmem
    | save record' =>
      simp only [heffect] at hmem
      rcases mem_saveSession hmem with h | h
      · cases h
        exact .inr (.inr ⟨route, rfl, heffect⟩)
      · exact .inl h
    | delete =>
      simp only [heffect] at hmem
      exact .inl (List.mem_of_mem_filter hmem)
  | worker _ h =>
    cases h with
    | lock | recv | event => exact .inl hmem
    | @start _ connected => cases connected <;> exact .inl hmem
    | @finish _ _ connected => cases connected <;> exact .inl hmem
  | @request i q _ _ hq h =>
    cases h with
    | refuse | check | insertFail | insert | record | send | cancel => exact .inl hmem
    | respond =>
      change (sid, record) ∈ (if q.modified then s.saveSession q.sid q.session else s.sessions) at hmem
      split_ifs at hmem
      · rcases mem_saveSession hmem with h | h
        · cases h
          exact .inr (.inl ⟨q, List.mem_of_getElem? hq, rfl, rfl⟩)
        · exact .inl h
      · exact .inl hmem

theorem recordSubmitTime_userId (session : SessionRecord) (key : CooldownKey) (now : Time) :
    (recordSubmitTime session key now).userId = session.userId := by
  cases key <;> rfl

/-- The step in which a request records its time under a key. -/
def Server.Records (s : Server) (a : Action) (q : Request) (key : CooldownKey) : Prop :=
  ∃ i task, a = .record i ∧ s.requests[i]? = some q ∧ q.stage = .inserted task ∧
    task.cooldownKey = some key

/-- A request has the session of a request before the step, but for a time that
it records, or one that it has just read. -/
theorem requests_of_step (h : ServerStep cfg s a t) (hmem : q' ∈ t.requests) :
    (∃ q ∈ s.requests, q'.sid = q.sid ∧ (q'.session = q.session ∨
      ∃ key, s.Records a q key ∧ q'.session = recordSubmitTime q.session key s.clock)) ∨
      q'.session = s.loadSession q'.sid := by
  have hkeep : q' ∈ s.requests → (∃ q ∈ s.requests, q'.sid = q.sid ∧ (q'.session = q.session ∨
      ∃ key, s.Records a q key ∧ q'.session = recordSubmitTime q.session key s.clock)) ∨
      q'.session = s.loadSession q'.sid := fun h => .inl ⟨q', h, rfl, .inl rfl⟩
  cases h with
  | tick | account => exact hkeep hmem
  | arrive =>
    rcases List.mem_append.mp hmem with hmem | hmem
    · exact hkeep hmem
    · rw [List.mem_singleton.mp hmem]
      exact .inr rfl
  | worker _ h => exact hkeep (h.requests_eq ▸ hmem)
  | restart => cases hmem
  | @request i q _ _ hget h =>
    have hq := List.mem_of_getElem? hget
    cases h with
    | refuse | insertFail | respond | cancel => exact hkeep (List.mem_of_mem_eraseIdx hmem)
    | check | insert | send =>
      rcases List.mem_or_eq_of_mem_set hmem with hmem | rfl
      · exact hkeep hmem
      · exact .inl ⟨q, hq, rfl, .inl rfl⟩
    | @record task key hs hkey =>
      rcases List.mem_or_eq_of_mem_set hmem with hmem | rfl
      · exact hkeep hmem
      · exact .inl ⟨q, hq, rfl, .inr ⟨key, ⟨i, task, rfl, hget, hs, hkey⟩, rfl⟩⟩

/-! ## Over a run -/

/-- The users of the sessions have signed in, and what was checked is for the
user of its session. -/
structure Authority (cfg : Config) (s₀ : Server) (tr : List (Server × Action)) (s : Server) :
    Prop where
  stored : ∀ sid record, (sid, record) ∈ s.sessions → ∀ u, record.userId = some u →
    SignedIn cfg s₀ tr sid u
  read : ∀ q ∈ s.requests, ∀ u, q.session.userId = some u → SignedIn cfg s₀ tr q.sid u
  checked : ∀ q ∈ s.requests, ∀ task, q.stage = .checked task → ∀ u, task.sub.userId = some u →
    q.session.userId = some u

theorem Authority.loaded (hI : Authority cfg s₀ tr s)
    (h : (s.loadSession sid).userId = some userId) : SignedIn cfg s₀ tr sid userId := by
  rcases loadSession_cases s sid with hempty | hmem
  · rw [hempty] at h
    cases h
  · exact hI.stored sid _ hmem userId h

theorem userId_of_submitter (h : q.submitter = some userId) : q.session.userId = some userId := by
  unfold Request.submitter at h
  split at h
  · exact h
  · exact h
  · cases h

theorem Authority.step (hI : Authority cfg s₀ tr s) (h : ServerStep cfg s a t) :
    Authority cfg s₀ (tr ++ [(s, a)]) t where
  stored sid record hmem u hu := by
    rcases sessions_of_step h hmem with hmem | ⟨q, hq, rfl, rfl⟩ | ⟨route, rfl, hsave⟩
    · exact (hI.stored sid record hmem u hu).snoc _
    · exact (hI.read q hq u hu).snoc _
    · have hstep := accountStep_handle cfg.ext s.db (s.loadSession sid) route
      rw [hsave] at hstep
      exact .inr ⟨_, List.mem_append_right _ List.mem_cons_self, route, rfl, hstep.signsIn hu⟩
  read q' hq' u hu := by
    rcases requests_of_step h hq' with ⟨q, hq, hsid, hsession⟩ | hload
    · have huser : q'.session.userId = q.session.userId := by
        rcases hsession with e | ⟨key, -, e⟩
        · rw [e]
        · rw [e, recordSubmitTime_userId]
      rw [hsid]
      exact (hI.read q hq u (huser ▸ hu)).snoc _
    · exact (hI.loaded (hload ▸ hu)).snoc _
  checked q' hq' task hs u hu := by
    rcases checked_of_step h hq' hs with hq | ⟨q, hq, hcheck, rfl⟩
    · exact hI.checked q' hq task hs u hu
    · exact userId_of_submitter (submitter_of_check hcheck hu)

theorem authority_of_run (hs : (Server.system cfg).init s₀) (h : (Server.system cfg).Run s₀ tr s) :
    Authority cfg s₀ tr s := by
  refine h.history ⟨fun sid record hmem u hu => .inl ⟨record, hmem, hu⟩, fun q hq => ?_,
    fun q hq => ?_⟩ fun tr t a u hI hst => hI.step (step_cases hst)
  · obtain ⟨clock, db, sessions, rfl⟩ := hs
    cases hq
  · obtain ⟨clock, db, sessions, rfl⟩ := hs
    cases hq

/-! ## What is done to an account -/

/-- A request that changes an account, or deletes it, and what is left of it:
its default language may change, and for more its password has to be shown. -/
inductive AccountRoute.ActsOn (ext : Externals) (db : Db) (user : UserRow)
    (users : List UserRow) : AccountRoute → Prop
  | language {lang : Option String} :
    { user with defaultLanguage := lang.filter (· != "") } ∈ users →
    ActsOn ext db user users (.settings lang)
  | password {current new hash : String} {salt : Nat} : db.Admits ext user.id current →
    ext.hashPassword salt (trim new) = .ok hash → { user with passwordHash := hash } ∈ users →
    ActsOn ext db user users (.changePassword current new salt)
  | deleted {password : String} : db.Admits ext user.id password →
    (∀ v ∈ users, v.id ≠ user.id) → ActsOn ext db user users (.deleteAccount password)

/-- The update of a row, if it changes the row. -/
theorem mem_of_updateUser {db : Db} {id : Uuid} {f : UserRow → UserRow} {user : UserRow}
    (hmem : user ∈ db.users) (hgone : user ∉ (db.updateUser id f).users) :
    user.id = id ∧ f user ∈ (db.updateUser id f).users := by
  have hrow : (if user.id = id then f user else user) ∈ (db.updateUser id f).users :=
    mem_updateUser.mpr ⟨user, hmem, rfl⟩
  split_ifs at hrow with hid
  · exact ⟨hid, hrow⟩
  · exact absurd hrow hgone

/-- An account that a request does not leave as it was is that of its session. -/
theorem AccountStep.actsOn {ext : Externals} {db db' : Db} {session : SessionRecord}
    {route : AccountRoute} {effect : SessionEffect}
    (h : AccountStep ext db session route db' effect) {user : UserRow} (hmem : user ∈ db.users)
    (hgone : user ∉ db'.users) :
    session.userId = some user.id ∧ route.ActsOn ext db user db'.users := by
  cases h with
  | kept | loggedIn | loggedOut => exact absurd hmem hgone
  | registered _ _ _ _ hinsert =>
    obtain ⟨-, -, rfl⟩ := insertUser_ok hinsert
    exact absurd (List.mem_append_left _ hmem) hgone
  | language hid =>
    obtain ⟨e, hrow⟩ := mem_of_updateUser hmem hgone
    exact ⟨hid.trans (congrArg some e.symm), .language hrow⟩
  | password hid hu hverify _ hhash =>
    obtain ⟨e, hrow⟩ := mem_of_updateUser hmem hgone
    exact ⟨hid.trans (congrArg some e.symm), .password ⟨_, hu, e.symm, hverify⟩ hhash hrow⟩
  | @deleted password owner hid hu hverify =>
    have e : owner.id = user.id := by
      by_contra hne
      exact hgone (List.mem_filter.mpr ⟨hmem, by simpa using Ne.symm hne⟩)
    refine ⟨hid.trans (congrArg some e), .deleted ⟨_, hu, e, hverify⟩ fun v hv => ?_⟩
    rw [← e]
    simpa using (List.mem_filter.mp hv).2

theorem AccountStep.sameWork {ext : Externals} {db db' : Db} {session : SessionRecord}
    {route : AccountRoute} {effect : SessionEffect}
    (h : AccountStep ext db session route db' effect) : db.SameWork db' := by
  cases h with
  | kept | loggedIn | loggedOut => exact .refl db
  | registered _ _ _ _ hinsert => exact Db.sameWork_insertUser hinsert
  | language | password => exact ⟨rfl, rfl, (Db.SameWork.refl db).submissions⟩
  | deleted => exact Db.sameWork_deleteUser _

theorem userId_apply (ext : Externals) (u : RowUpdate) (r : SubmissionRow) :
    (u.apply ext r).userId = r.userId := by cases u <;> rfl

/-- What has an owner after the step and is new was entered by a request of the
owner. -/
theorem TableStep.enters {db' : Db} (h : TableStep cfg s a db') {r : SubmissionRow}
    (hmem : r ∈ db'.submissions) (hnew : r.id ∉ s.db.submissions.map (·.id))
    (hu : r.userId = some userId) :
    ∃ i q task, a = .insert i true ∧ s.requests[i]? = some q ∧ q.stage = .checked task ∧
      task.sub.id = r.id ∧ task.sub.userId = some userId := by
  cases h with
  | kept => exact absurd (List.mem_map.mpr ⟨r, hmem, rfl⟩) hnew
  | @entered i q task db hq hs hi =>
    obtain ⟨-, rfl⟩ := insertSubmission_ok hi
    rcases List.mem_append.mp hmem with hmem | hmem
    · exact absurd (List.mem_map.mpr ⟨r, hmem, rfl⟩) hnew
    · rw [List.mem_singleton.mp hmem] at hu ⊢
      exact ⟨i, q, task, rfl, hq, hs, rfl, hu⟩
  | @written w job st u _ _ =>
    have hids : (u.write cfg.ext s.db.submissions job.id).map (·.id) = s.db.submissions.map (·.id) := by
      rw [RowUpdate.write_eq]
      split_ifs
      · exact map_id_updateWhere fun r => RowUpdate.apply_id r
      · rfl
    exact absurd (hids ▸ List.mem_map.mpr ⟨r, hmem, rfl⟩) hnew
  | @account sid route db effect h =>
    obtain ⟨f, hf, hd⟩ := h.sameWork.submissions
    rw [hf] at hmem
    obtain ⟨r₀, hr₀, rfl⟩ := List.mem_map.mp hmem
    exact absurd (List.mem_map.mpr ⟨r₀, hr₀, (hd r₀).id_eq.symm⟩) hnew

/-- A submission loses its owner only with the account. -/
theorem TableStep.disowns {db' : Db} (h : TableStep cfg s a db') {r : SubmissionRow}
    (hmem : r ∈ s.db.submissions) (hu : r.userId = some userId)
    (hgone : ∀ r' ∈ db'.submissions, r'.id = r.id → r'.userId ≠ some userId) :
    ∃ sid password, a = .account sid (.deleteAccount password) ∧
      (s.loadSession sid).userId = some userId ∧ s.db.Admits cfg.ext userId password := by
  cases h with
  | kept => exact absurd hu (hgone r hmem rfl)
  | entered _ _ hi =>
    obtain ⟨-, rfl⟩ := insertSubmission_ok hi
    exact absurd hu (hgone r (List.mem_append_left _ hmem) rfl)
  | @written w job st u _ _ =>
    rw [RowUpdate.write_eq] at hgone
    split_ifs at hgone
    · have hrow := hgone _ (mem_updateWhere.mpr ⟨r, hmem, rfl⟩)
      split_ifs at hrow
      · exact absurd ((userId_apply _ u r).trans hu) (hrow (RowUpdate.apply_id r))
      · exact absurd hu (hrow rfl)
    · exact absurd hu (hgone r hmem rfl)
  | @account sid route db effect h =>
    cases h with
    | kept | loggedIn | loggedOut | language | password => exact absurd hu (hgone r hmem rfl)
    | registered _ _ _ _ hinsert =>
      obtain ⟨-, -, rfl⟩ := insertUser_ok hinsert
      exact absurd hu (hgone r hmem rfl)
    | @deleted password owner hid howner hverify =>
      have hrow := hgone _ (List.mem_map.mpr ⟨r, hmem, rfl⟩)
      split_ifs at hrow with he
      · obtain rfl := Option.some.inj (hu.symm.trans he)
        exact ⟨sid, password, rfl, hid, owner, howner, rfl, hverify⟩
      · exact absurd hu (hrow rfl)

end

/-! ## Over a run -/

/-- In any state a run has reached, whatever step follows: an account is changed
or deleted, a submission entered for a user, and a submission taken from its
owner, only from a session with which someone has signed in as that user. To change
the password and to delete the account, which takes its submissions from the owner,
a password of the account has to be shown. -/
theorem acts_authenticated (cfg : Config) {s₀ s t : Server} {tr : List (Server × Action)}
    {a : Action} (hs : (Server.system cfg).init s₀) (h : (Server.system cfg).Run s₀ tr s)
    (hst : (Server.system cfg).step s a t) :
    (∀ user ∈ s.db.users, user ∉ t.db.users →
      ∃ sid route, a = .account sid route ∧ SignedIn cfg s₀ tr sid user.id ∧
        route.ActsOn cfg.ext s.db user t.db.users) ∧
    (∀ r ∈ t.db.submissions, r.id ∉ s.db.submissions.map (·.id) → ∀ u, r.userId = some u →
      ∃ i q, a = .insert i true ∧ s.requests[i]? = some q ∧ SignedIn cfg s₀ tr q.sid u) ∧
    ∀ r ∈ s.db.submissions, ∀ u, r.userId = some u →
      (∀ r' ∈ t.db.submissions, r'.id = r.id → r'.userId ≠ some u) →
      ∃ sid password, a = .account sid (.deleteAccount password) ∧
        SignedIn cfg s₀ tr sid u ∧ s.db.Admits cfg.ext u password := by
  have hI := authority_of_run hs h
  have htables := (step_cases hst).tables
  refine ⟨fun user hmem hgone => ?_, fun r hmem hnew u hu => ?_, fun r hmem u hu hgone => ?_⟩
  · generalize t.db = db' at htables hgone
    cases htables with
    | kept => exact absurd hmem hgone
    | entered _ _ hi =>
      obtain ⟨-, rfl⟩ := insertSubmission_ok hi
      exact absurd hmem hgone
    | written => exact absurd hmem hgone
    | account hstep =>
      obtain ⟨hid, hact⟩ := hstep.actsOn hmem hgone
      exact ⟨_, _, rfl, hI.loaded hid, hact⟩
  · obtain ⟨i, q, task, rfl, hq, hs, -, htask⟩ := htables.enters hmem hnew hu
    have hmem := List.mem_of_getElem? hq
    exact ⟨i, q, rfl, hq, hI.read q hmem u (hI.checked q hmem task hs u htask)⟩
  · obtain ⟨sid, password, rfl, hid, hadmits⟩ := htables.disowns hmem hu hgone
    exact ⟨sid, password, rfl, hI.loaded hid, hadmits⟩

/-! ### A user who goes -/

theorem acts_authenticated_left :
    ∃ user ∈ (Server.lastOf contestConfig freshServer (leavingActions.take 1)).db.users,
      ∃ sid, SignedIn contestConfig freshServer
        (Server.traceOf contestConfig freshServer (leavingActions.take 1)) sid user.id := by
  have hrun := Server.run_traceOf contestConfig freshServer (leavingActions.take 1) (by decide +kernel)
  have huser : ∃ user ∈ (Server.lastOf contestConfig freshServer (leavingActions.take 1)).db.users,
      user ∉ (((Server.lastOf contestConfig freshServer (leavingActions.take 1)).step contestConfig
        (.account 0 (.deleteAccount "secret1"))).getD freshServer).db.users := by decide +kernel
  obtain ⟨user, hmem, hgone⟩ := huser
  have hacts := (acts_authenticated contestConfig ⟨_, _, _, rfl⟩ hrun
    (show (Server.system contestConfig).step _ (.account 0 (.deleteAccount "secret1")) _ from rfl)).1
  obtain ⟨sid, _, _, hsigned, _⟩ := hacts user hmem hgone
  exact ⟨user, hmem, sid, hsigned⟩

end MikanJudge

import MikanJudge.Proof.Accounts
import MikanJudge.Proof.Jobs

/-!
# What the tables hold

What one account request can do (`AccountStep`), and what one step of the server
makes of the tables (`TableStep`), with all the guards it passes. From these,
what holds of the tables over any run, if it did at its start: the accounts are
well-formed (`accounts_sound`), each submission belongs to a user and a contest
that exist, or to none, and the rows hold what can be read back
(`submissions_sound`).
-/

namespace MikanJudge

open MikanJudge.Lib

/-! ## One account request -/

/-- What an account request leaves of the tables and of its session, with the
guards it passes. -/
inductive AccountStep (ext : Externals) (db : Db) (session : SessionRecord) :
    AccountRoute → Db → SessionEffect → Prop
  | kept (route : AccountRoute) : AccountStep ext db session route db .keep
  | registered {form : AuthForm} {newId : Uuid} {salt : Nat} {hash : String} {db' : Db} :
    3 ≤ (trim form.username).utf8ByteSize → (trim form.username).utf8ByteSize ≤ 20 →
    6 ≤ (trim form.password).utf8ByteSize → ext.hashPassword salt (trim form.password) = .ok hash →
    db.insertUser newId (trim form.username) hash = .ok db' →
    AccountStep ext db session (.register form newId salt) db'
      (.save { session with userId := some newId })
  | loggedIn {form : AuthForm} {user : UserRow} : user ∈ db.users →
    user.username = trim form.username →
    ext.verifyPassword (trim form.password) user.passwordHash = true →
    AccountStep ext db session (.login form) db (.save { session with userId := some user.id })
  | loggedOut : AccountStep ext db session .logout db .delete
  | language {lang : Option String} {user : UserRow} : session.userId = some user.id →
    user ∈ db.users →
    AccountStep ext db session (.settings lang)
      (db.updateUser user.id fun u => { u with defaultLanguage := lang.filter (· != "") }) .keep
  | password {current new : String} {salt : Nat} {user : UserRow} {hash : String} :
    session.userId = some user.id → user ∈ db.users →
    ext.verifyPassword (trim current) user.passwordHash = true →
    6 ≤ (trim new).utf8ByteSize → ext.hashPassword salt (trim new) = .ok hash →
    AccountStep ext db session (.changePassword current new salt)
      (db.updateUser user.id fun u => { u with passwordHash := hash }) .keep
  | deleted {password : String} {user : UserRow} : session.userId = some user.id →
    user ∈ db.users → ext.verifyPassword (trim password) user.passwordHash = true →
    AccountStep ext db session (.deleteAccount password) (db.deleteUser user.id) .delete

section

variable {ext : Externals} {db : Db} {session : SessionRecord} {route : AccountRoute}

theorem accountStep_refuse (response : Response) :
    AccountStep ext db session route (AccountResult.refuse db response).db
      (AccountResult.refuse db response).session := .kept route

/-- The handlers of a logged-in user. -/
theorem accountStep_withUser {handle : Uuid → UserRow → AccountResult}
    (h : ∀ user ∈ db.users, session.userId = some user.id →
      AccountStep ext db session route (handle user.id user).db (handle user.id user).session) :
    AccountStep ext db session route (withUser db session handle).db
      (withUser db session handle).session := by
  unfold withUser
  split
  · exact accountStep_refuse _
  · rename_i userId hid
    split
    · exact accountStep_refuse _
    · rename_i user hfind
      have hu : user.id = userId := by simpa using List.find?_some hfind
      rw [← hu]
      exact h user (List.mem_of_find?_eq_some hfind) (hid.trans (congrArg some hu.symm))

theorem findUserByUsername_eq_some {username : String} {user : UserRow}
    (h : db.findUserByUsername username = .ok (some user)) :
    user ∈ db.users ∧ user.username = username := by
  unfold Db.findUserByUsername at h
  split_ifs at h
  have hfind := Except.ok.inj h
  exact ⟨List.mem_of_find?_eq_some hfind, by simpa using List.find?_some hfind⟩

theorem accountStep_handle (ext : Externals) (db : Db) (session : SessionRecord)
    (route : AccountRoute) :
    AccountStep ext db session route (route.handle ext db session).db
      (route.handle ext db session).session := by
  cases route with
  | register form newId salt =>
    rw [AccountRoute.handle, register]
    split_ifs with hname hpassword
    · exact accountStep_refuse _
    · exact accountStep_refuse _
    · split
      · exact accountStep_refuse _
      · exact accountStep_refuse _
      · split
        · exact accountStep_refuse _
        · rename_i hash hhash
          split
          · exact accountStep_refuse _
          · rename_i hinsert
            exact .registered (by omega) (by omega) (by omega) hhash hinsert
  | login form =>
    rw [AccountRoute.handle, login]
    split
    · exact accountStep_refuse _
    · exact accountStep_refuse _
    · rename_i user hfind
      obtain ⟨hmem, hname⟩ := findUserByUsername_eq_some hfind
      split_ifs with hverify
      · exact .loggedIn hmem hname hverify
      · exact accountStep_refuse _
  | logout => exact .loggedOut
  | settings lang =>
    refine accountStep_withUser fun user huser hid => ?_
    dsimp only
    split
    · exact accountStep_refuse _
    · rename_i hupdate
      rw [Db.updateDefaultLanguage] at hupdate
      split_ifs at hupdate
      cases hupdate
      exact .language hid huser
  | deleteAccount password =>
    refine accountStep_withUser fun user huser hid => ?_
    split_ifs with hverify
    · exact .deleted hid huser hverify
    · exact accountStep_refuse _
  | changePassword current new salt =>
    refine accountStep_withUser fun user huser hid => ?_
    split_ifs with hverify hlong
    · exact accountStep_refuse _
    · exact accountStep_refuse _
    · split
      · exact accountStep_refuse _
      · rename_i hash hhash
        split
        · exact accountStep_refuse _
        · rename_i hupdate
          rw [Db.updatePassword] at hupdate
          split_ifs at hupdate
          cases hupdate
          exact .password hid huser (by simpa using hverify) (by omega) hhash

end

/-! ## One step of the server -/

/-- What a step makes of the tables. -/
inductive TableStep (cfg : Config) (s : Server) : Action → Db → Prop
  | kept (a : Action) : TableStep cfg s a s.db
  | entered {i : Nat} {q : Request} {task : SubmitTask} {db : Db} : s.requests[i]? = some q →
    q.stage = .checked task → s.db.insertSubmission task.sub s.clock = .ok db →
    TableStep cfg s (.insert i true) db
  | written {w : Nat} {job : JudgeJob} {st : JudgeState} {u : RowUpdate} :
    s.workers[w]? = some (.judging job st) →
    (st = .start ∧ u = .status .running ∨ ∃ v, st = .finish v ∧ u = v.val) →
    TableStep cfg s (.write w true)
      { s.db with submissions := u.write cfg.ext s.db.submissions job.id }
  | account {sid : Nat} {route : AccountRoute} {db : Db} {effect : SessionEffect} :
    AccountStep cfg.ext s.db (s.loadSession sid) route db effect →
    TableStep cfg s (.account sid route) db

theorem ServerStep.tables {cfg : Config} {s t : Server} {a : Action} (h : ServerStep cfg s a t) :
    TableStep cfg s a t.db := by
  cases h with
  | tick | arrive | restart => exact .kept _
  | account => exact .account (accountStep_handle _ _ _ _)
  | worker hw h =>
    cases h with
    | lock | recv | event => exact .kept _
    | @start _ connected =>
      cases connected with
      | false => exact .kept _
      | true => exact .written hw (.inl ⟨rfl, rfl⟩)
    | @finish _ u connected =>
      cases connected with
      | false => exact .kept _
      | true => exact .written hw (.inr ⟨u, rfl, rfl⟩)
  | request hq h =>
    cases h with
    | refuse | check | insertFail | record | send | respond | cancel => exact .kept _
    | insert hs hi => exact .entered hq hs hi

/-! ## Accounts -/

theorem trim_trim (s : String) : trim (trim s) = trim s := by
  rw [trim, trim, String.toList_ofList, trimBy_trimBy]

/-- An account as its form was checked: a trimmed name of three to twenty bytes,
and the hash of a trimmed password of six bytes or more. -/
structure UserRow.Sound (ext : Externals) (user : UserRow) : Prop where
  trimmed : trim user.username = user.username
  length : 3 ≤ user.username.utf8ByteSize ∧ user.username.utf8ByteSize ≤ 20
  text : textOk user.username = true
  hashed : ∃ password salt, trim password = password ∧ 6 ≤ password.utf8ByteSize ∧
    ext.hashPassword salt password = .ok user.passwordHash
  language : user.defaultLanguage ≠ some ""

structure Db.AccountsSound (ext : Externals) (db : Db) : Prop where
  ids : (db.users.map (·.id)).Nodup
  usernames : (db.users.map (·.username)).Nodup
  rows : ∀ user ∈ db.users, user.Sound ext

section

variable {ext : Externals} {cfg : Config} {s t : Server} {db db' : Db} {a : Action}
  {session : SessionRecord} {route : AccountRoute} {effect : SessionEffect}

theorem insertUser_ok {id : Uuid} {username hash : String}
    (h : db.insertUser id username hash = .ok db') :
    textOk username = true ∧ (∀ u ∈ db.users, u.id ≠ id ∧ u.username ≠ username) ∧
      db' = { db with users := db.users ++ [⟨id, username, hash, none⟩] } := by
  unfold Db.insertUser at h
  split_ifs at h with htext hnew
  cases h
  rw [Bool.not_eq_true', Bool.not_eq_false, Bool.and_eq_true] at htext
  refine ⟨htext.1, fun u hu => ?_, rfl⟩
  simp only [List.any_eq_true, not_exists, not_and] at hnew
  simpa using hnew u hu

theorem Db.AccountsSound.update (hI : db.AccountsSound ext) {id : Uuid} {f : UserRow → UserRow}
    (hid : ∀ u, (f u).id = u.id) (hname : ∀ u, (f u).username = u.username)
    (hf : ∀ u, u.Sound ext → (f u).Sound ext) : (db.updateUser id f).AccountsSound ext where
  ids := nodup_updateUser hid hI.ids
  usernames := nodup_updateUser hname hI.usernames
  rows u hu := by
    obtain ⟨v, hv, rfl⟩ := mem_updateUser.mp hu
    split_ifs
    · exact hf v (hI.rows v hv)
    · exact hI.rows v hv

/-- An account request keeps the accounts well-formed. -/
theorem Db.AccountsSound.account (hI : db.AccountsSound ext)
    (h : AccountStep ext db session route db' effect) : db'.AccountsSound ext := by
  cases h with
  | kept | loggedIn | loggedOut => exact hI
  | @registered form newId salt hash _ hmin hmax hlong hhash hinsert =>
    obtain ⟨htext, hnew, rfl⟩ := insertUser_ok hinsert
    refine ⟨?_, ?_, fun u hu => ?_⟩
    · rw [List.map_append, List.nodup_append]
      refine ⟨hI.ids, List.nodup_singleton _, fun x hx y hy => ?_⟩
      obtain ⟨u, hu, rfl⟩ := List.mem_map.mp hx
      rw [List.mem_singleton.mp hy]
      exact (hnew u hu).1
    · rw [List.map_append, List.nodup_append]
      refine ⟨hI.usernames, List.nodup_singleton _, fun x hx y hy => ?_⟩
      obtain ⟨u, hu, rfl⟩ := List.mem_map.mp hx
      rw [List.mem_singleton.mp hy]
      exact (hnew u hu).2
    · rcases List.mem_append.mp hu with hu | hu
      · exact hI.rows u hu
      · rw [List.mem_singleton.mp hu]
        exact ⟨trim_trim _, ⟨hmin, hmax⟩, htext, ⟨_, salt, trim_trim _, hlong, hhash⟩, by simp⟩
  | language =>
    refine hI.update (fun _ => rfl) (fun _ => rfl) fun u hu =>
      ⟨hu.trimmed, hu.length, hu.text, hu.hashed, fun h => ?_⟩
    simpa using (Option.filter_eq_some_iff.mp h).2
  | @password current new salt user hash _ _ _ hlong hhash =>
    exact hI.update (fun _ => rfl) (fun _ => rfl) fun u hu =>
      ⟨hu.trimmed, hu.length, hu.text, ⟨_, salt, trim_trim _, hlong, hhash⟩, hu.language⟩
  | deleted =>
    exact ⟨hI.ids.sublist (List.filter_sublist.map _), hI.usernames.sublist (List.filter_sublist.map _),
      fun u hu => hI.rows u (List.mem_of_mem_filter hu)⟩

/-- So does any step. -/
theorem Db.AccountsSound.step (hI : s.db.AccountsSound cfg.ext) (h : TableStep cfg s a db') :
    db'.AccountsSound cfg.ext := by
  cases h with
  | kept => exact hI
  | entered _ _ hi =>
    obtain ⟨-, rfl⟩ := insertSubmission_ok hi
    exact ⟨hI.ids, hI.usernames, hI.rows⟩
  | written => exact ⟨hI.ids, hI.usernames, hI.rows⟩
  | account h => exact hI.account h

/-! ## Submissions -/

/-- A row as it was checked: its texts are those the database takes, and its
language and its status can be read back. -/
structure SubmissionRow.Sound (r : SubmissionRow) : Prop where
  entered : textOk r.problemId = true ∧ optTextOk r.contestId = true ∧ textOk r.sourceCode = true
  results : optTextOk r.stdout = true ∧ optTextOk r.stderr = true ∧
    optTextOk r.testcaseResults = true
  language : (Language.fromDb r.language).toDb = r.language
  status : ∃ status : JudgeStatus, status.toDb = r.status

/-- Each submission is of a user and of a contest that exist, or of none. -/
structure Db.SubmissionsSound (db : Db) : Prop where
  ids : (db.submissions.map (·.id)).Nodup
  owners : ∀ r ∈ db.submissions, ∀ u, r.userId = some u → u ∈ db.users.map (·.id)
  contests : ∀ r ∈ db.submissions, ∀ c, r.contestId = some c → c ∈ db.contests.map (·.id)
  rows : ∀ r ∈ db.submissions, r.Sound

/-- What passes the constraints of the schema. -/
theorem insertSubmission_guards {sub : Submission} {now : Time}
    (h : db.insertSubmission sub now = .ok db') :
    (textOk sub.problemId = true ∧ optTextOk sub.contestId = true ∧ textOk sub.sourceCode = true) ∧
      (∀ u, sub.userId = some u → u ∈ db.users.map (·.id)) ∧
      ∀ c, sub.contestId = some c → c ∈ db.contests.map (·.id) := by
  unfold Db.insertSubmission at h
  split_ifs at h with htext _ href
  rw [Bool.not_eq_true', Bool.not_eq_false, Bool.and_eq_true, Bool.and_eq_true] at htext
  rw [Bool.not_eq_true, Bool.or_eq_false_iff, Bool.not_eq_false', Bool.not_eq_false'] at href
  refine ⟨⟨htext.1.1, htext.1.2, htext.2⟩, fun u hu => ?_, fun c hc => ?_⟩
  · rw [hu] at href
    simpa using href.1
  · rw [hc] at href
    simpa using href.2

theorem Db.SubmissionsSound.of_users (hI : db.SubmissionsSound)
    (hids : ∀ x ∈ db.users.map (·.id), x ∈ db'.users.map (·.id))
    (hcontests : db'.contests = db.contests) (hrows : db'.submissions = db.submissions) :
    db'.SubmissionsSound where
  ids := hrows ▸ hI.ids
  owners r hr u hu := hids u (hI.owners r (hrows ▸ hr) u hu)
  contests r hr c hc := hcontests ▸ hI.contests r (hrows ▸ hr) c hc
  rows r hr := hI.rows r (hrows ▸ hr)

theorem map_id_updateUser {id : Uuid} {f : UserRow → UserRow} (hf : ∀ u, (f u).id = u.id) :
    (db.updateUser id f).users.map (·.id) = db.users.map (·.id) := by
  rw [Db.updateUser, List.map_map]
  refine List.map_congr_left fun u _ => ?_
  rw [Function.comp_apply]
  split_ifs
  · exact hf u
  · rfl

/-- A deleted account leaves its submissions without an owner. -/
theorem Db.SubmissionsSound.delete (hI : db.SubmissionsSound) (id : Uuid) :
    (db.deleteUser id).SubmissionsSound := by
  have hmem : ∀ r ∈ (db.deleteUser id).submissions, ∃ r₀ ∈ db.submissions,
      r = { r₀ with userId := r.userId } ∧
        ∀ u, r.userId = some u → r₀.userId = some u ∧ u ≠ id := by
    intro r hr
    obtain ⟨r₀, hr₀, rfl⟩ := List.mem_map.mp hr
    refine ⟨r₀, hr₀, ?_⟩
    split_ifs with h
    · exact ⟨rfl, fun u hu => nomatch hu⟩
    · exact ⟨rfl, fun u hu => ⟨hu, fun e => h (e ▸ hu)⟩⟩
  refine ⟨?_, fun r hr u hu => ?_, fun r hr c hc => ?_, fun r hr => ?_⟩
  · rw [Db.deleteUser, List.map_map, List.map_congr_left fun r _ => ?_]
    · exact hI.ids
    · rw [Function.comp_apply]
      split_ifs <;> rfl
  · obtain ⟨r₀, hr₀, -, howner⟩ := hmem r hr
    obtain ⟨hu₀, hne⟩ := howner u hu
    obtain ⟨user, huser, rfl⟩ := List.mem_map.mp (hI.owners r₀ hr₀ u hu₀)
    exact List.mem_map.mpr ⟨user, List.mem_filter.mpr ⟨huser, by simpa using hne⟩, rfl⟩
  · obtain ⟨r₀, hr₀, e, -⟩ := hmem r hr
    rw [e] at hc
    exact hI.contests r₀ hr₀ c hc
  · obtain ⟨r₀, hr₀, e, -⟩ := hmem r hr
    have hr₀ := hI.rows r₀ hr₀
    rw [e]
    exact ⟨hr₀.entered, hr₀.results, hr₀.language, hr₀.status⟩

/-- A write of a worker changes the columns of the result and no other. -/
theorem Db.SubmissionsSound.write (hI : db.SubmissionsSound) (u : RowUpdate) (id : Uuid) :
    ({ db with submissions := u.write ext db.submissions id } : Db).SubmissionsSound := by
  rw [RowUpdate.write_eq]
  split_ifs with htexts
  swap
  · exact hI
  have hmem : ∀ r ∈ updateWhere id (u.apply ext) db.submissions, ∃ r₀ ∈ db.submissions,
      r.userId = r₀.userId ∧ r.contestId = r₀.contestId ∧ r.Sound := by
    intro r hr
    obtain ⟨r₀, hr₀, rfl⟩ := mem_updateWhere.mp hr
    have hrow := hI.rows r₀ hr₀
    refine ⟨r₀, hr₀, ?_⟩
    split_ifs
    · cases u with
      | status st => exact ⟨rfl, rfl, hrow.entered, hrow.results, hrow.language, st, rfl⟩
      | result st time mem stdout stderr results score =>
        simp only [RowUpdate.textsOk, Bool.and_eq_true] at htexts
        exact ⟨rfl, rfl, hrow.entered, ⟨htexts.1.1, htexts.1.2, htexts.2⟩, hrow.language, st, rfl⟩
    · exact ⟨rfl, rfl, hrow⟩
  refine ⟨?_, fun r hr v hv => ?_, fun r hr c hc => ?_, fun r hr => ?_⟩
  · rw [map_id_updateWhere fun r => RowUpdate.apply_id r]
    exact hI.ids
  · obtain ⟨r₀, hr₀, hu, -, -⟩ := hmem r hr
    exact hI.owners r₀ hr₀ v (hu ▸ hv)
  · obtain ⟨r₀, hr₀, -, hc₀, -⟩ := hmem r hr
    exact hI.contests r₀ hr₀ c (hc₀ ▸ hc)
  · exact (hmem r hr).choose_spec.2.2.2

theorem Db.SubmissionsSound.insert (hI : db.SubmissionsSound) {sub : Submission} {now : Time}
    (h : db.insertSubmission sub now = .ok db') : db'.SubmissionsSound := by
  obtain ⟨htexts, howner, hcontest⟩ := insertSubmission_guards h
  obtain ⟨hnew, rfl⟩ := insertSubmission_ok h
  refine ⟨?_, fun r hr u hu => ?_, fun r hr c hc => ?_, fun r hr => ?_⟩
  · rw [List.map_append, List.nodup_append]
    refine ⟨hI.ids, List.nodup_singleton _, fun x hx y hy => ?_⟩
    rw [List.mem_singleton.mp hy]
    exact fun e => hnew (show sub.id ∈ _ from (show x = sub.id from e) ▸ hx)
  · rcases List.mem_append.mp hr with hr | hr
    · exact hI.owners r hr u hu
    · rw [List.mem_singleton.mp hr] at hu
      exact howner u hu
  · rcases List.mem_append.mp hr with hr | hr
    · exact hI.contests r hr c hc
    · rw [List.mem_singleton.mp hr] at hc
      exact hcontest c hc
  · rcases List.mem_append.mp hr with hr | hr
    · exact hI.rows r hr
    · rw [List.mem_singleton.mp hr]
      exact ⟨htexts, ⟨rfl, rfl, rfl⟩, congrArg Language.toDb (Language.fromDb_toDb _), sub.status, rfl⟩

theorem Db.SubmissionsSound.account (hI : db.SubmissionsSound)
    (h : AccountStep ext db session route db' effect) : db'.SubmissionsSound := by
  cases h with
  | kept | loggedIn | loggedOut => exact hI
  | registered _ _ _ _ hinsert =>
    obtain ⟨-, -, rfl⟩ := insertUser_ok hinsert
    refine hI.of_users (fun x hx => ?_) rfl rfl
    rw [List.map_append]
    exact List.mem_append_left _ hx
  | language | password =>
    refine hI.of_users (fun x hx => ?_) rfl rfl
    rw [map_id_updateUser]
    · exact hx
    · exact fun _ => rfl
  | deleted => exact hI.delete _

theorem Db.SubmissionsSound.step (hI : s.db.SubmissionsSound) (h : TableStep cfg s a db') :
    db'.SubmissionsSound := by
  cases h with
  | kept => exact hI
  | entered _ _ hi => exact hI.insert hi
  | written => exact hI.write _ _
  | account h => exact hI.account h

/-- The name in a list is that of the owner. -/
theorem isSome_username_listRow (hI : db.SubmissionsSound) {r : SubmissionRow}
    (hr : r ∈ db.submissions) : (db.listRow r).username.isSome = r.userId.isSome := by
  rw [Db.listRow]
  cases hu : r.userId with
  | none => rfl
  | some u =>
    obtain ⟨user, huser, e⟩ := List.mem_map.mp (hI.owners r hr u hu)
    rw [Option.bind_some, Option.isSome_map, Option.isSome_some, List.find?_isSome]
    exact ⟨user, huser, beq_iff_eq.mpr e⟩

end

/-! ## Over a run -/

/-- Over any run, if the accounts are well-formed at its start, so they are at
its end. -/
theorem accounts_sound (cfg : Config) {s t : Server} {tr : List (Server × Action)}
    (h : (Server.system cfg).Run s tr t) (hdb : s.db.AccountsSound cfg.ext) :
    t.db.AccountsSound cfg.ext :=
  h.invariant (I := fun t => t.db.AccountsSound cfg.ext)
    (fun _ _ _ hI hst => hI.step (step_cases hst).tables) hdb

/-- Over any run, if the submissions fit the other tables at its start, so they
do at its end; and a list of them names a user exactly for those with an owner. -/
theorem submissions_sound (cfg : Config) {s t : Server} {tr : List (Server × Action)}
    (h : (Server.system cfg).Run s tr t) (hdb : s.db.SubmissionsSound) :
    t.db.SubmissionsSound ∧
      ∀ r ∈ t.db.submissions, (t.db.listRow r).username.isSome = r.userId.isSome := by
  have hI : t.db.SubmissionsSound := h.invariant (I := fun t => t.db.SubmissionsSound)
    (fun _ _ _ hI hst => hI.step (step_cases hst).tables) hdb
  exact ⟨hI, fun r hr => isSome_username_listRow hI hr⟩

/-! ### A user who submits and then goes -/

/-- The small contest, without users. -/
def freshServer : Server := .boot contestConfig 10000000 { contestDb "a" with users := [] } []

/-- A user registers, submits in the contest, and deletes the account. -/
def leavingActions : List Action :=
  .account 0 (.register ⟨" alice ", "secret1"⟩ 1 0) ::
    (contestSubmitActions 0 5 ++ [.account 0 (.deleteAccount "secret1\n")])

theorem accounts_sound_registered :
    ∃ user ∈ (Server.lastOf contestConfig freshServer (leavingActions.take 1)).db.users,
      user.Sound contestConfig.ext := by
  have hsound := accounts_sound contestConfig
    (Server.run_traceOf contestConfig freshServer (leavingActions.take 1) (by decide +kernel))
    ⟨List.nodup_nil, List.nodup_nil, fun _ h => nomatch h⟩
  have huser : ∃ user ∈ (Server.lastOf contestConfig freshServer (leavingActions.take 1)).db.users,
      user.username = "alice" := by decide +kernel
  obtain ⟨user, hmem, -⟩ := huser
  exact ⟨user, hmem, hsound.rows user hmem⟩

theorem submissions_sound_left :
    ∃ r ∈ (Server.lastOf contestConfig freshServer leavingActions).db.submissions,
      r.userId = none ∧ r.Sound := by
  have hsound := (submissions_sound contestConfig
    (Server.run_traceOf contestConfig freshServer leavingActions (by decide +kernel))
    ⟨List.nodup_nil, fun _ h => (List.not_mem_nil h).elim, fun _ h => (List.not_mem_nil h).elim,
      fun _ h => (List.not_mem_nil h).elim⟩).1
  have hrow : ∃ r ∈ (Server.lastOf contestConfig freshServer leavingActions).db.submissions,
      r.userId = none := by decide +kernel
  obtain ⟨r, hmem, hnone⟩ := hrow
  exact ⟨r, hmem, hnone, hsound.rows r hmem⟩

end MikanJudge

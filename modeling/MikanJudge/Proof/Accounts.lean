import MikanJudge.Lib.Transition
import MikanJudge.Model.Account

/-!
# Who can log in

The account routes over any history of requests, with any sessions. A history
comes to the passwords its successful requests set and the accounts they
delete (`accountEvent`); a login succeeds exactly for the password last set.
-/

namespace MikanJudge

open MikanJudge.Lib

/-- A request that went through: it leads to the top page, or its page says so. -/
def AccountResult.succeeds (r : AccountResult) : Bool :=
  match r.response, r.response.field "success" with
  | .redirect location, _ => location == "/"
  | _, some (.bool b) => b
  | _, _ => false

/-- The user of a session. -/
def Db.sessionUser (db : Db) (session : SessionRecord) : Option UserRow :=
  session.userId.bind db.findUserById

/-- The account a request is about, with the password it sets, or none if it deletes
the account. -/
def AccountRoute.sets (db : Db) (session : SessionRecord) :
    AccountRoute → Option (String × Option String)
  | register form _ _ => some (trim form.username, some (trim form.password))
  | changePassword _ new _ => (db.sessionUser session).map fun u => (u.username, some (trim new))
  | deleteAccount _ => (db.sessionUser session).map fun u => (u.username, none)
  | login _ | logout | settings _ => none

/-- What a request changed of the accounts. -/
def accountEvent (ext : Externals) (e : Db × (SessionRecord × AccountRoute)) :
    Option (String × Option String) :=
  if (e.2.2.handle ext e.1 e.2.1).succeeds then e.2.2.sets e.1 e.2.1 else none

/-- The password last set for an account, if the account exists. -/
def passwordOf (events : List (String × Option String)) (name : String) : Option String :=
  (events.reverse.lookup name).join

/-- The account routes, from no accounts on. -/
def accounts (ext : Externals) : System Db (SessionRecord × AccountRoute) :=
  .ofStep (fun db => db.users = []) fun db r => some (r.2.handle ext db r.1).db

/-- The hash of a password verifies it and no other. -/
def Externals.Verifies (ext : Externals) : Prop :=
  ∀ salt p hash, ext.hashPassword salt p = .ok hash → ∀ q, ext.verifyPassword q hash = true ↔ q = p

/-! ## What a request does -/

section

variable {ext : Externals} {db : Db} {session : SessionRecord}

/-- What a request leaves of the tables, with its event. -/
inductive AccountEffect (ext : Externals) (db : Db) :
    Option (String × Option String) → Db → Prop
  | kept : AccountEffect ext db none db
  | registered {name password hash : String} {id : Uuid} {salt : Nat} :
    ext.hashPassword salt password = .ok hash → textOk name = true →
    (∀ u ∈ db.users, u.id ≠ id ∧ u.username ≠ name) →
    AccountEffect ext db (some (name, some password))
      { db with users := db.users ++ [⟨id, name, hash, none⟩] }
  | language {user : UserRow} (lang : Option String) : user ∈ db.users →
    AccountEffect ext db none (db.updateUser user.id fun u => { u with defaultLanguage := lang })
  | password {user : UserRow} {password hash : String} {salt : Nat} : user ∈ db.users →
    ext.hashPassword salt password = .ok hash →
    AccountEffect ext db (some (user.username, some password))
      (db.updateUser user.id fun u => { u with passwordHash := hash })
  | deleted {user : UserRow} : user ∈ db.users →
    AccountEffect ext db (some (user.username, none)) (db.deleteUser user.id)

/-- A result as it follows from the events a request would set: refused, with nothing
changed, or gone through. -/
def Outcome (ext : Externals) (db : Db) (sets : Option (String × Option String))
    (r : AccountResult) : Prop :=
  (r.succeeds = false ∧ r.db = db) ∨ (r.succeeds = true ∧ AccountEffect ext db sets r.db)

theorem outcome_register (form : AuthForm) (newId : Uuid) (salt : Nat) :
    Outcome ext db (some (trim form.username, some (trim form.password)))
      (register ext db session form newId salt) := by
  unfold register
  dsimp only
  split_ifs
  · exact .inl ⟨rfl, rfl⟩
  · exact .inl ⟨rfl, rfl⟩
  · split
    · exact .inl ⟨rfl, rfl⟩
    · exact .inl ⟨rfl, rfl⟩
    · split
      · exact .inl ⟨rfl, rfl⟩
      · rename_i hash hhash
        split
        · exact .inl ⟨rfl, rfl⟩
        · rename_i db' hinsert
          rw [Db.insertUser] at hinsert
          split_ifs at hinsert with htext hnew
          cases hinsert
          refine .inr ⟨rfl, .registered hhash ?_ fun u hu => ?_⟩
          · rw [Bool.not_eq_true', Bool.not_eq_false, Bool.and_eq_true] at htext
            exact htext.1
          · simp only [List.any_eq_true, not_exists, not_and] at hnew
            simpa using hnew u hu

theorem outcome_login (form : AuthForm) : Outcome ext db none (login ext db session form) := by
  unfold login
  dsimp only
  split
  · exact .inl ⟨rfl, rfl⟩
  · exact .inl ⟨rfl, rfl⟩
  · split_ifs
    · exact .inr ⟨rfl, .kept⟩
    · exact .inl ⟨rfl, rfl⟩

/-- The handlers of a logged-in user. -/
theorem outcome_withUser {handle : Uuid → UserRow → AccountResult}
    {sets : UserRow → Option (String × Option String)}
    (h : ∀ user ∈ db.users, Outcome ext db (sets user) (handle user.id user)) :
    Outcome ext db ((db.sessionUser session).bind sets) (withUser db session handle) := by
  unfold withUser
  split
  · exact .inl ⟨rfl, rfl⟩
  · rename_i userId hid
    split
    · exact .inl ⟨rfl, rfl⟩
    · rename_i user hfind
      have hu : user.id = userId := by simpa using List.find?_some hfind
      have hsession : db.sessionUser session = some user := by
        rw [Db.sessionUser, hid]
        exact hfind
      rw [hsession, Option.bind_some, ← hu]
      exact h user (List.mem_of_find?_eq_some hfind)

theorem outcome_settingsPost (lang : Option String) :
    Outcome ext db none (settingsPost ext db session lang) := by
  have h : Outcome ext db ((db.sessionUser session).bind fun _ => none)
      (settingsPost ext db session lang) := by
    refine outcome_withUser fun user huser => ?_
    dsimp only
    split
    · exact .inl ⟨rfl, rfl⟩
    · rename_i db' hupdate
      rw [Db.updateDefaultLanguage] at hupdate
      split_ifs at hupdate
      cases hupdate
      exact .inr ⟨rfl, .language _ huser⟩
  rwa [Option.bind_fun_none] at h

theorem outcome_deleteAccount (password : String) :
    Outcome ext db ((db.sessionUser session).bind fun u => some (u.username, none))
      (deleteAccount ext db session password) := by
  refine outcome_withUser fun user huser => ?_
  split_ifs
  · exact .inr ⟨rfl, .deleted huser⟩
  · exact .inl ⟨rfl, rfl⟩

theorem outcome_changePassword (current new : String) (salt : Nat) :
    Outcome ext db ((db.sessionUser session).bind fun u => some (u.username, some (trim new)))
      (changePassword ext db session current new salt) := by
  refine outcome_withUser fun user huser => ?_
  split_ifs
  · exact .inl ⟨rfl, rfl⟩
  · exact .inl ⟨rfl, rfl⟩
  · split
    · exact .inl ⟨rfl, rfl⟩
    · rename_i hash hhash
      split
      · exact .inl ⟨rfl, rfl⟩
      · rename_i db' hupdate
        rw [Db.updatePassword] at hupdate
        split_ifs at hupdate
        cases hupdate
        exact .inr ⟨rfl, .password huser hhash⟩

theorem outcome_handle (route : AccountRoute) :
    Outcome ext db (route.sets db session) (route.handle ext db session) := by
  cases route with
  | register form newId salt =>
    rw [AccountRoute.sets, AccountRoute.handle]
    exact outcome_register form newId salt
  | login form =>
    rw [AccountRoute.sets, AccountRoute.handle]
    exact outcome_login form
  | logout =>
    rw [AccountRoute.sets, AccountRoute.handle]
    exact .inl ⟨rfl, rfl⟩
  | settings lang =>
    rw [AccountRoute.sets, AccountRoute.handle]
    exact outcome_settingsPost lang
  | deleteAccount password =>
    rw [AccountRoute.sets, AccountRoute.handle, Option.map_eq_bind]
    exact outcome_deleteAccount password
  | changePassword current new salt =>
    rw [AccountRoute.sets, AccountRoute.handle, Option.map_eq_bind]
    exact outcome_changePassword current new salt

/-- A request with its event. -/
theorem effect_of_request (route : AccountRoute) :
    AccountEffect ext db (accountEvent ext (db, (session, route)))
      (route.handle ext db session).db := by
  unfold accountEvent
  rcases (outcome_handle route : Outcome ext db _ (route.handle ext db session)) with ⟨hs, hdb⟩ | ⟨hs, heffect⟩
  · rw [if_neg (by rw [hs]; exact Bool.false_ne_true), hdb]
    exact .kept
  · rw [if_pos hs]
    exact heffect

/-! ## The passwords of the accounts -/

variable {events : List (String × Option String)} {event : Option (String × Option String)}
  {db' : Db} {name name' : String}

theorem passwordOf_snoc (password : Option String) :
    passwordOf (events ++ [(name', password)]) name =
      if name = name' then password else passwordOf events name := by
  rw [passwordOf, List.reverse_append, List.reverse_singleton, List.singleton_append,
    List.lookup_cons]
  by_cases h : name = name'
  · rw [if_pos h, beq_iff_eq.mpr h]
    rfl
  · rw [if_neg h, beq_eq_false_iff_ne.mpr h]
    rfl

/-- An event of another account. -/
theorem passwordOf_append_of_ne (h : ∀ x ∈ event, x.1 ≠ name) :
    passwordOf (events ++ event.toList) name = passwordOf events name := by
  cases event with
  | none => rw [Option.toList_none, List.append_nil]
  | some x => rw [Option.toList_some, passwordOf_snoc, if_neg (h x rfl).symm]

/-- The accounts are those the events leave, with hashes of the passwords last set. -/
structure Accounts (ext : Externals) (events : List (String × Option String)) (db : Db) : Prop where
  ids : (db.users.map (·.id)).Nodup
  names : (db.users.map (·.username)).Nodup
  text : ∀ u ∈ db.users, textOk u.username = true
  stored : ∀ u ∈ db.users, ∃ p salt, passwordOf events u.username = some p ∧
    ext.hashPassword salt p = .ok u.passwordHash
  absent : ∀ name, (∀ u ∈ db.users, u.username ≠ name) → passwordOf events name = none

theorem mem_updateUser {id : Uuid} {f : UserRow → UserRow} {u : UserRow} :
    u ∈ (db.updateUser id f).users ↔ ∃ v ∈ db.users, u = if v.id = id then f v else v := by
  rw [Db.updateUser, List.mem_map]
  exact exists_congr fun v => and_congr_right fun _ => eq_comm

/-- An update of another column changes none. -/
theorem nodup_updateUser {α : Type} {id : Uuid} {f : UserRow → UserRow} {g : UserRow → α}
    (hf : ∀ u, g (f u) = g u) (h : (db.users.map g).Nodup) :
    ((db.updateUser id f).users.map g).Nodup := by
  have hmap : (db.updateUser id f).users.map g = db.users.map g := by
    rw [Db.updateUser, List.map_map]
    refine List.map_congr_left fun u _ => ?_
    rw [Function.comp_apply]
    split_ifs
    · exact hf u
    · rfl
  rwa [hmap]

theorem Accounts.register {p hash : String} {id : Uuid} {salt : Nat} (hI : Accounts ext events db)
    (hhash : ext.hashPassword salt p = .ok hash) (htext : textOk name = true)
    (hnew : ∀ u ∈ db.users, u.id ≠ id ∧ u.username ≠ name) :
    Accounts ext (events ++ [(name, some p)])
      { db with users := db.users ++ [⟨id, name, hash, none⟩] } where
  ids := by
    rw [List.map_append, List.nodup_append]
    refine ⟨hI.ids, List.nodup_singleton _, fun x hx y hy => ?_⟩
    obtain ⟨u, hu, rfl⟩ := List.mem_map.mp hx
    rw [List.mem_singleton.mp hy]
    exact (hnew u hu).1
  names := by
    rw [List.map_append, List.nodup_append]
    refine ⟨hI.names, List.nodup_singleton _, fun x hx y hy => ?_⟩
    obtain ⟨u, hu, rfl⟩ := List.mem_map.mp hx
    rw [List.mem_singleton.mp hy]
    exact (hnew u hu).2
  text u hu := by
    rcases List.mem_append.mp hu with hu | hu
    · exact hI.text u hu
    · rwa [List.mem_singleton.mp hu]
  stored u hu := by
    rw [passwordOf_snoc]
    rcases List.mem_append.mp hu with hu | hu
    · rw [if_neg (hnew u hu).2]
      exact hI.stored u hu
    · rw [List.mem_singleton.mp hu, if_pos rfl]
      exact ⟨p, salt, rfl, hhash⟩
  absent name' h := by
    have hne := h _ (List.mem_append_right _ List.mem_cons_self)
    rw [passwordOf_snoc, if_neg (Ne.symm hne)]
    exact hI.absent name' fun u hu => h u (List.mem_append_left _ hu)

theorem Accounts.updateLanguage {user : UserRow} (hI : Accounts ext events db)
    (lang : Option String) :
    Accounts ext events (db.updateUser user.id fun u => { u with defaultLanguage := lang }) := by
  have hmem : ∀ u ∈ (db.updateUser user.id fun u => { u with defaultLanguage := lang }).users,
      ∃ v ∈ db.users, u.username = v.username ∧ u.passwordHash = v.passwordHash := by
    intro u hu
    obtain ⟨v, hv, rfl⟩ := mem_updateUser.mp hu
    refine ⟨v, hv, ?_⟩
    split_ifs <;> exact ⟨rfl, rfl⟩
  refine ⟨?_, ?_, fun u hu => ?_, fun u hu => ?_, fun name h => hI.absent name fun v hv => ?_⟩
  · exact nodup_updateUser (fun _ => rfl) hI.ids
  · exact nodup_updateUser (fun _ => rfl) hI.names
  · obtain ⟨v, hv, hn, -⟩ := hmem u hu
    rw [hn]
    exact hI.text v hv
  · obtain ⟨v, hv, hn, hh⟩ := hmem u hu
    rw [hn, hh]
    exact hI.stored v hv
  · have h := h _ (mem_updateUser.mpr ⟨v, hv, rfl⟩)
    split_ifs at h <;> exact h

theorem Accounts.updatePassword {user : UserRow} {p hash : String} {salt : Nat}
    (hI : Accounts ext events db) (huser : user ∈ db.users)
    (hhash : ext.hashPassword salt p = .ok hash) :
    Accounts ext (events ++ [(user.username, some p)])
      (db.updateUser user.id fun u => { u with passwordHash := hash }) := by
  refine ⟨?_, ?_, fun u hu => ?_, fun u hu => ?_, fun name h => ?_⟩
  · exact nodup_updateUser (fun _ => rfl) hI.ids
  · exact nodup_updateUser (fun _ => rfl) hI.names
  · obtain ⟨v, hv, rfl⟩ := mem_updateUser.mp hu
    have h := hI.text v hv
    split_ifs <;> exact h
  · obtain ⟨v, hv, rfl⟩ := mem_updateUser.mp hu
    rw [passwordOf_snoc]
    by_cases hid : v.id = user.id
    · obtain rfl : v = user := List.inj_on_of_nodup_map hI.ids hv huser hid
      rw [if_pos rfl, if_pos rfl]
      exact ⟨p, salt, rfl, hhash⟩
    · have hne : v.username ≠ user.username := fun e =>
        hid (congrArg (·.id) (List.inj_on_of_nodup_map hI.names hv huser e))
      rw [if_neg hid, if_neg hne]
      exact hI.stored v hv
  · have hold : ∀ v ∈ db.users, v.username ≠ name := fun v hv => by
      have h := h _ (mem_updateUser.mpr ⟨v, hv, rfl⟩)
      split_ifs at h <;> exact h
    rw [passwordOf_snoc, if_neg (Ne.symm (hold user huser))]
    exact hI.absent name hold

theorem Accounts.delete {user : UserRow} (hI : Accounts ext events db) (huser : user ∈ db.users) :
    Accounts ext (events ++ [(user.username, none)]) (db.deleteUser user.id) where
  ids := hI.ids.sublist (List.filter_sublist.map _)
  names := hI.names.sublist (List.filter_sublist.map _)
  text u hu := hI.text u (List.mem_of_mem_filter hu)
  stored u hu := by
    obtain ⟨hu, hid⟩ := List.mem_filter.mp hu
    have hne : u.username ≠ user.username := fun e => by
      rw [List.inj_on_of_nodup_map hI.names hu huser e] at hid
      simp at hid
    rw [passwordOf_snoc, if_neg hne]
    exact hI.stored u hu
  absent name h := by
    rw [passwordOf_snoc]
    split_ifs with hname
    · rfl
    · refine hI.absent name fun u hu e => ?_
      by_cases hid : u.id = user.id
      · rw [List.inj_on_of_nodup_map hI.ids hu huser hid] at e
        exact hname e.symm
      · exact h u (List.mem_filter.mpr ⟨hu, by simpa using hid⟩) e

/-- A request keeps the invariant. -/
theorem Accounts.step (hI : Accounts ext events db) (h : AccountEffect ext db event db') :
    Accounts ext (events ++ event.toList) db' := by
  cases h with
  | kept => rwa [Option.toList_none, List.append_nil]
  | registered hhash htext hnew => exact hI.register hhash htext hnew
  | language lang =>
    rw [Option.toList_none, List.append_nil]
    exact hI.updateLanguage lang
  | password huser hhash => exact hI.updatePassword huser hhash
  | deleted huser => exact hI.delete huser

theorem accounts_of_run {db₀ : Db} {tr : List (Db × (SessionRecord × AccountRoute))}
    (h0 : (accounts ext).init db₀) (h : (accounts ext).Run db₀ tr db) :
    Accounts ext (tr.filterMap (accountEvent ext)) db := by
  have hempty : db₀.users = [] := h0
  refine h.history (I := fun tr db => Accounts ext (tr.filterMap (accountEvent ext)) db) ?_ ?_
  · refine ⟨?_, ?_, ?_, ?_, fun _ _ => rfl⟩ <;> rw [hempty] <;> simp
  · rintro tr db ⟨session, route⟩ db' hI hstep
    obtain rfl := Option.some.inj hstep
    rw [filterMap_snoc]
    exact hI.step (effect_of_request route)

/-- Who can log in. -/
theorem Accounts.login_iff (hI : Accounts ext events db) (hverify : ext.Verifies)
    (form : AuthForm) :
    (login ext db session form).succeeds = true ↔
      passwordOf events (trim form.username) = some (trim form.password) := by
  unfold login
  dsimp only
  rw [Db.findUserByUsername]
  by_cases htext : textOk (trim form.username) = true
  · rw [htext, Bool.not_true, if_neg Bool.false_ne_true]
    cases hfind : db.users.find? (·.username == trim form.username) with
    | none =>
      have habsent := hI.absent (trim form.username) fun u hu e =>
        List.find?_eq_none.mp hfind u hu (beq_iff_eq.mpr e)
      rw [habsent]
      exact iff_of_false Bool.false_ne_true fun h => by cases h
    | some user =>
      have hname : user.username = trim form.username := by simpa using List.find?_some hfind
      obtain ⟨p, salt, hp, hhash⟩ := hI.stored user (List.mem_of_find?_eq_some hfind)
      have hiff := hverify salt p _ hhash (trim form.password)
      rw [← hname, hp, Option.some.injEq]
      dsimp only
      split_ifs with h
      · exact iff_of_true rfl (hiff.mp h).symm
      · exact iff_of_false Bool.false_ne_true fun e => h (hiff.mpr e.symm)
  · have habsent := hI.absent (trim form.username) fun u hu e => htext (e ▸ hI.text u hu)
    rw [habsent, Bool.eq_false_iff.mpr htext, Bool.not_false, if_pos rfl]
    exact iff_of_false Bool.false_ne_true fun h => by cases h

end

/-- After any history of account requests that starts without accounts, a login
succeeds exactly for an account that exists, with the password last set for it, names
and passwords trimmed; a request that is refused changes nothing; and one about
another account does not change who can log in. -/
theorem login_succeeds_iff (ext : Externals) (hverify : ext.Verifies) {db₀ db : Db}
    {tr : List (Db × (SessionRecord × AccountRoute))} (h0 : (accounts ext).init db₀)
    (h : (accounts ext).Run db₀ tr db) :
    (∀ session form, (login ext db session form).succeeds = true ↔
      passwordOf (tr.filterMap (accountEvent ext)) (trim form.username) =
        some (trim form.password)) ∧
    ∀ session (route : AccountRoute),
      ((route.handle ext db session).succeeds = false → (route.handle ext db session).db = db) ∧
      ∀ session' form, (∀ x ∈ route.sets db session, x.1 ≠ trim form.username) →
        ((login ext (route.handle ext db session).db session' form).succeeds = true ↔
          (login ext db session' form).succeeds = true) := by
  have hI := accounts_of_run h0 h
  refine ⟨fun session form => hI.login_iff hverify form, fun session route => ⟨fun hrefused => ?_,
    fun session' form hother => ?_⟩⟩
  · rcases (outcome_handle route : Outcome ext db _ (route.handle ext db session)) with
      ⟨-, hdb⟩ | ⟨hs, -⟩
    · exact hdb
    · cases hrefused.symm.trans hs
  · have hI' := hI.step
      (effect_of_request route : AccountEffect ext db _ (route.handle ext db session).db)
    rw [hI'.login_iff hverify, hI.login_iff hverify, passwordOf_append_of_ne fun x hx => ?_]
    refine hother x ?_
    rw [accountEvent] at hx
    split_ifs at hx
    · exact hx
    · cases hx

/-! ### An account and its password -/

/-- A user registers, changes the password, and is deleted; another one stays. -/
def accountRequests : List (SessionRecord × AccountRoute) := [
  (.empty, .register ⟨" alice ", "secret1"⟩ 1 0),
  (.empty, .register ⟨"bob", " secret2"⟩ 2 0),
  ({ SessionRecord.empty with userId := some 2 }, .changePassword "secret2 " "\tsecret3" 0),
  ({ SessionRecord.empty with userId := some 1 }, .deleteAccount "secret1\n")]

theorem verifies_simple : Externals.simple.Verifies := by
  intro salt p hash h q
  cases h
  exact beq_iff_eq

/-- The second user logs in with the new password, and the first not at all. -/
theorem login_succeeds_iff_changed :
    ∃ db, (login .simple db .empty ⟨"bob ", "secret3"⟩).succeeds = true ∧
      (login .simple db .empty ⟨"alice", "secret1"⟩).succeeds = false := by
  obtain ⟨tr, db, hrun, hcheck⟩ := System.run_of_execAll_any (by decide +kernel :
    (System.execAll (fun (db : Db) (r : SessionRecord × AccountRoute) =>
        some (r.2.handle .simple db r.1).db) ⟨[], [], [], []⟩ accountRequests).any (fun r =>
      decide (passwordOf (r.1.filterMap (accountEvent .simple)) "bob" = some "secret3") &&
        decide (passwordOf (r.1.filterMap (accountEvent .simple)) "alice" = none)) = true)
  obtain ⟨hbob, halice⟩ := Bool.and_eq_true_iff.mp hcheck
  have hempty : (accounts .simple).init ⟨[], [], [], []⟩ := rfl
  have hlogin := (login_succeeds_iff .simple verifies_simple hempty hrun).1
  refine ⟨db, (hlogin .empty ⟨"bob ", "secret3"⟩).mpr (of_decide_eq_true hbob), ?_⟩
  rw [Bool.eq_false_iff, ne_eq, hlogin .empty ⟨"alice", "secret1"⟩]
  intro h
  cases (of_decide_eq_true halice).symm.trans h

end MikanJudge

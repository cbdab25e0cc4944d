import MikanJudge.Model.Pages
import MikanJudge.Model.Sandbox

/-!
# The account handlers (`api/handlers.rs`)

Registering, logging in and out, the settings, and deleting an account. Each
handler answers, leaves a state of the database, and may save the session or
delete it.
-/

namespace MikanJudge

inductive SessionEffect where
  | keep
  | save (record : SessionRecord)
  | delete

structure AccountResult where
  response : Response
  db : Db
  session : SessionEffect

/-- An answer that changes nothing. -/
def AccountResult.refuse (db : Db) (response : Response) : AccountResult :=
  { response := response, db := db, session := .keep }

structure AuthForm where
  username : String
  password : String

/-- The page of `register` and `login`, with an error. -/
def authPage (template error : String) : Response :=
  .html template [("current_user", .null), ("contest_id", .null), ("error", .str error)]

/-- The settings page of a user. -/
def settingsPage (user : UserRow) (defaultLanguage error : Option String) (success : Bool) :
    Response :=
  .html "settings.html" [
    ("current_user", .str user.username),
    ("contest_id", .null),
    ("default_language", optStrJson defaultLanguage),
    ("error", optStrJson error),
    ("success", .bool success)]

section

variable (ext : Externals) (db : Db) (session : SessionRecord)

/-- `register`, with the id the database generates and the salt drawn. -/
def register (form : AuthForm) (newId : Uuid) (salt : Nat) : AccountResult :=
  let username := trim form.username
  let password := trim form.password
  if username.utf8ByteSize < 3 ∨ username.utf8ByteSize > 20 then
    .refuse db (authPage "auth/register.html" "ユーザ名は3〜20文字にしてください")
  else if password.utf8ByteSize < 6 then
    .refuse db (authPage "auth/register.html" "パスワードは6文字以上にしてください")
  else match db.findUserByUsername username with
  | .error e => .refuse db (.htmlError (ext.dbErrorText e))
  | .ok (some _) =>
    .refuse db (authPage "auth/register.html" "そのユーザ名はすでに使われています")
  | .ok none =>
    match ext.hashPassword salt password with
    | .error e => .refuse db (.htmlError ("hash error: " ++ e))
    | .ok hash =>
      match db.insertUser newId username hash with
      | .error e => .refuse db (.htmlError (ext.dbErrorText e))
      | .ok db' =>
        { response := .redirect "/", db := db', session := .save { session with userId := some newId } }

def login (form : AuthForm) : AccountResult :=
  let fail := authPage "auth/login.html" "ユーザ名またはパスワードが違います"
  match db.findUserByUsername (trim form.username) with
  | .error e => .refuse db (.htmlError (ext.dbErrorText e))
  | .ok none => .refuse db fail
  | .ok (some user) =>
    if ext.verifyPassword (trim form.password) user.passwordHash then
      { response := .redirect "/", db := db, session := .save { session with userId := some user.id } }
    else .refuse db fail

def logout : AccountResult := { response := .redirect "/login", db := db, session := .delete }

/-- What the handlers of a logged-in user begin with. -/
def withUser (handle : Uuid → UserRow → AccountResult) : AccountResult :=
  match session.userId with
  | none => .refuse db (.redirect "/login")
  | some userId =>
    match db.findUserById userId with
    | none => .refuse db (.htmlError "user not found")
    | some user => handle userId user

def settingsPost (defaultLanguage : Option String) : AccountResult :=
  withUser db session fun userId user =>
    let lang := defaultLanguage.filter (· != "")
    match db.updateDefaultLanguage userId lang with
    | .error e => .refuse db (.htmlError (ext.dbErrorText e))
    | .ok db' => { response := settingsPage user lang none true, db := db', session := .keep }

def deleteAccount (password : String) : AccountResult :=
  withUser db session fun userId user =>
    if ext.verifyPassword (trim password) user.passwordHash then
      { response := .redirect "/", db := db.deleteUser userId, session := .delete }
    else
      .refuse db (settingsPage user user.defaultLanguage (some "パスワードが違います") false)

def changePassword (currentPassword newPassword : String) (salt : Nat) : AccountResult :=
  withUser db session fun userId user =>
    if !ext.verifyPassword (trim currentPassword) user.passwordHash then
      .refuse db (settingsPage user user.defaultLanguage (some "現在のパスワードが違います") false)
    else if (trim newPassword).utf8ByteSize < 6 then
      .refuse db (settingsPage user user.defaultLanguage
        (some "新しいパスワードは6文字以上にしてください") false)
    else match ext.hashPassword salt (trim newPassword) with
    | .error e => .refuse db (.htmlError ("hash error: " ++ e))
    | .ok hash =>
      match db.updatePassword userId hash with
      | .error e => .refuse db (.htmlError (ext.dbErrorText e))
      | .ok db' =>
        { response := settingsPage user user.defaultLanguage none true, db := db', session := .keep }

end

/-- A request to one of the account routes. -/
inductive AccountRoute where
  | register (form : AuthForm) (newId : Uuid) (salt : Nat)
  | login (form : AuthForm)
  | logout
  | settings (defaultLanguage : Option String)
  | deleteAccount (password : String)
  | changePassword (currentPassword newPassword : String) (salt : Nat)

def AccountRoute.handle (ext : Externals) (db : Db) (session : SessionRecord) :
    AccountRoute → AccountResult
  | register form newId salt => MikanJudge.register ext db session form newId salt
  | login form => MikanJudge.login ext db session form
  | logout => MikanJudge.logout db
  | settings lang => settingsPost ext db session lang
  | deleteAccount password => MikanJudge.deleteAccount ext db session password
  | changePassword current new salt => MikanJudge.changePassword ext db session current new salt

/-! ## What they leave of the tables -/

section

variable {ext : Externals} {db : Db} {session : SessionRecord}

/-- A row whose owner may have been deleted since. -/
def SubmissionRow.Disowned (r r' : SubmissionRow) : Prop := r' = r ∨ r' = { r with userId := none }

/-- The tables the account handlers leave: the contests as they were, and the
submissions as they were but for owners that are gone. -/
structure Db.SameWork (db db' : Db) : Prop where
  contests : db'.contests = db.contests
  contestProblems : db'.contestProblems = db.contestProblems
  submissions : ∃ f : SubmissionRow → SubmissionRow,
    db'.submissions = db.submissions.map f ∧ ∀ r : SubmissionRow, r.Disowned (f r)

theorem Db.SameWork.refl (db : Db) : db.SameWork db :=
  ⟨rfl, rfl, id, (List.map_id _).symm, fun _ => .inl rfl⟩

theorem sameWork_withUser {handle : Uuid → UserRow → AccountResult}
    (h : ∀ u user, db.SameWork (handle u user).db) : db.SameWork (withUser db session handle).db := by
  unfold withUser
  split
  · exact .refl db
  · split
    · exact .refl db
    · exact h _ _

theorem Db.sameWork_deleteUser (id : Uuid) : db.SameWork (db.deleteUser id) := by
  refine ⟨rfl, rfl, _, rfl, fun r => ?_⟩
  split
  · exact .inr rfl
  · exact .inl rfl

theorem Db.sameWork_insertUser {db' : Db} {id : Uuid} {username hash : String}
    (h : db.insertUser id username hash = .ok db') : db.SameWork db' := by
  unfold Db.insertUser at h
  split_ifs at h
  cases h
  exact ⟨rfl, rfl, (Db.SameWork.refl db).submissions⟩

theorem Db.sameWork_updateDefaultLanguage {db' : Db} {id : Uuid} {lang : Option String}
    (h : db.updateDefaultLanguage id lang = .ok db') : db.SameWork db' := by
  unfold Db.updateDefaultLanguage at h
  split_ifs at h
  cases h
  exact ⟨rfl, rfl, (Db.SameWork.refl db).submissions⟩

theorem Db.sameWork_updatePassword {db' : Db} {id : Uuid} {hash : String}
    (h : db.updatePassword id hash = .ok db') : db.SameWork db' := by
  unfold Db.updatePassword at h
  split_ifs at h
  cases h
  exact ⟨rfl, rfl, (Db.SameWork.refl db).submissions⟩

/-- No account handler touches a submission but for its owner. -/
theorem AccountRoute.sameWork (ext : Externals) (db : Db) (session : SessionRecord)
    (route : AccountRoute) : db.SameWork (route.handle ext db session).db := by
  cases route with
  | register form newId salt =>
    change db.SameWork (MikanJudge.register ext db session form newId salt).db
    unfold MikanJudge.register
    dsimp only
    split_ifs
    · exact .refl db
    · exact .refl db
    · split
      · exact .refl db
      · exact .refl db
      · split
        · exact .refl db
        · split
          · exact .refl db
          · rename_i h
            exact Db.sameWork_insertUser h
  | login form =>
    change db.SameWork (MikanJudge.login ext db session form).db
    unfold MikanJudge.login
    dsimp only
    split
    · exact .refl db
    · exact .refl db
    · split_ifs <;> exact .refl db
  | logout => exact .refl db
  | settings lang =>
    refine sameWork_withUser fun u user => ?_
    dsimp only
    split
    · exact .refl db
    · rename_i h
      exact Db.sameWork_updateDefaultLanguage h
  | deleteAccount password =>
    refine sameWork_withUser fun u user => ?_
    split_ifs
    · exact Db.sameWork_deleteUser u
    · exact .refl db
  | changePassword current new salt =>
    refine sameWork_withUser fun u user => ?_
    split_ifs
    · exact .refl db
    · exact .refl db
    · split
      · exact .refl db
      · split
        · exact .refl db
        · rename_i h
          exact Db.sameWork_updatePassword h

end

end MikanJudge

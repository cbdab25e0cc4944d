import MikanJudge.Lib.Transition
import MikanJudge.Model.Db

/-!
# The session store (`session_store.rs`)

The calls of `PgSessionStore` under way and the table `tower_sessions`. A
step is one SQL statement, or the reading of the clock between the two
statements of `load`, so a run is an interleaving of any number of calls. A
statement may fail, and the caller of a call may go away.
-/

namespace MikanJudge

open MikanJudge.Lib

/-- A row of `tower_sessions`. -/
structure SessionRow where
  id : String
  data : String
  /-- Seconds since the epoch. -/
  expiryUnix : Int
  deriving DecidableEq

/-- `tower_sessions::session::Record`; the id is its text. -/
structure Record where
  id : String
  data : List (String × Json)
  expiryDate : Time

inductive StoreError where
  | decode
  | backend (e : DbError)
  deriving DecidableEq

/-- `OffsetDateTime::unix_timestamp`. -/
def unixTimestamp (t : Time) : Int := t / 1000000

/-- `OffsetDateTime::from_unix_timestamp`: a year of up to four digits. -/
def fromUnixTimestamp (secs : Int) : Except StoreError Time :=
  if -377705116800 ≤ secs ∧ secs ≤ 253402300799 then .ok (secs * 1000000) else .error .decode

/-- The row `save` writes. -/
def Record.toRow (ext : Externals) (r : Record) : SessionRow where
  id := r.id
  data := String.ofList (Json.render ext.fmtDecimal (.obj r.data))
  expiryUnix := unixTimestamp r.expiryDate

/-- `serde_json::from_str`, to a map. -/
def decodeData (ext : Externals) (text : String) : Except StoreError (List (String × Json)) :=
  match ext.parseJson text with
  | some (.obj fields) => .ok fields
  | _ => .error .decode

/-! ## The statements -/

/-- `INSERT … ON CONFLICT (id) DO UPDATE`. -/
def upsertSession (rows : List SessionRow) (row : SessionRow) : List SessionRow :=
  if rows.any (·.id == row.id) then rows.map fun r => if r.id = row.id then row else r
  else rows ++ [row]

/-- `DELETE … WHERE id = id`. -/
def deleteSession (rows : List SessionRow) (id : String) : List SessionRow :=
  rows.filter (·.id != id)

/-! ## Calls -/

inductive StoreCall where
  /-- `save`, before its statement. -/
  | save (record : Record)
  /-- `load`, before its SELECT. -/
  | load (id : String)
  /-- `load`, with the row the SELECT found. -/
  | fetched (row : SessionRow)
  /-- `load`, before the DELETE of an expired row. -/
  | cleanUp (id : String)
  /-- `delete`, before its statement. -/
  | delete (id : String)
  | returned (result : Except StoreError (Option Record))

structure SessionStore where
  clock : Time
  rows : List SessionRow
  calls : List StoreCall

inductive StoreAction where
  | tick (now : Time)
  /-- A caller calls `save`, `load` or `delete`. -/
  | save (record : Record)
  | load (id : String)
  | delete (id : String)
  /-- The next statement of the call at position `i`, over a connection that may fail. -/
  | exec (i : Nat) (connected : Bool)
  /-- `load` looks at the row it found. -/
  | check (i : Nat)
  /-- The caller goes away. -/
  | cancel (i : Nat)

namespace SessionStore

def setCall (s : SessionStore) (i : Nat) (c : StoreCall) : SessionStore :=
  { s with calls := s.calls.set i c }

def addCall (s : SessionStore) (c : StoreCall) : SessionStore := { s with calls := s.calls ++ [c] }

/-- The next statement of a call. -/
def stepExec (ext : Externals) (s : SessionStore) (i : Nat) (connected : Bool) :
    StoreCall → Option SessionStore
  | .save record =>
    if connected then
      some { s.setCall i (.returned (.ok none)) with rows := upsertSession s.rows (record.toRow ext) }
    else some (s.setCall i (.returned (.error (.backend .connection))))
  | .load id =>
    if connected then
      match s.rows.find? (·.id == id) with
      | none => some (s.setCall i (.returned (.ok none)))
      | some row => some (s.setCall i (.fetched row))
    else some (s.setCall i (.returned (.error (.backend .connection))))
  | .cleanUp id =>
    -- an error of this DELETE is ignored
    if connected then
      some { s.setCall i (.returned (.ok none)) with rows := deleteSession s.rows id }
    else some (s.setCall i (.returned (.ok none)))
  | .delete id =>
    if connected then
      some { s.setCall i (.returned (.ok none)) with rows := deleteSession s.rows id }
    else some (s.setCall i (.returned (.error (.backend .connection))))
  | .fetched _ | .returned _ => none

/-- What `load` makes of the row it found. -/
def afterSelect (ext : Externals) (now : Time) (row : SessionRow) : StoreCall :=
  match fromUnixTimestamp row.expiryUnix with
  | .error e => .returned (.error e)
  | .ok expiryDate =>
    if expiryDate < now then .cleanUp row.id
    else match decodeData ext row.data with
    | .error e => .returned (.error e)
    | .ok data => .returned (.ok (some { id := row.id, data := data, expiryDate := expiryDate }))

def step (ext : Externals) (s : SessionStore) : StoreAction → Option SessionStore
  | .tick now => if s.clock ≤ now then some { s with clock := now } else none
  | .save record => some (s.addCall (.save record))
  | .load id => some (s.addCall (.load id))
  | .delete id => some (s.addCall (.delete id))
  | .exec i connected => (s.calls[i]?).bind (s.stepExec ext i connected)
  | .check i =>
    match s.calls[i]? with
    | some (.fetched row) => some (s.setCall i (afterSelect ext s.clock row))
    | _ => none
  | .cancel i => some { s with calls := s.calls.eraseIdx i }

/-- The runs of the store, on any table. -/
def system (ext : Externals) : System SessionStore StoreAction :=
  .ofStep (fun s => s.calls = []) (step ext)

end SessionStore

end MikanJudge

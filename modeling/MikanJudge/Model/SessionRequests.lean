import MikanJudge.Model.SessionStore
import MikanJudge.Model.Submit

/-!
# Requests that use a session

A session of `tower-sessions` loads its record when a handler first uses it.
A handler that modified it has the whole record saved with its answer;
`flush` deletes it. These are the requests that do so with the session of a
cookie, over the calls of the store: the submissions that record their time,
`logout` and `delete_account`. A step is one of a request or one statement of
its call, so a run is an interleaving. A request whose client went away is one
that takes no further step.
-/

namespace MikanJudge

open MikanJudge.Lib

/-- The key of the session. -/
def CooldownKey.toKey : CooldownKey → String
  | .lastSubmitAt => "last_submit_at"
  | .lastHeuristicSubmitAt => "last_heuristic_submit_at"

/-- `session.get("user_id")`, up to the spelling of the id. -/
def Record.userId (record : Record) : Option String :=
  match record.data.lookup "user_id" with
  | some (.str s) => some s
  | _ => none

/-- `session.insert`. -/
def Record.insert (record : Record) (key : String) (value : Json) : Record :=
  { record with data := (key, value) :: record.data.filter (·.1 != key) }

inductive RequestKind where
  /-- `contest_problem_submit`, which records its time under the key. -/
  | submit (key : CooldownKey)
  | logout
  | deleteAccount

/-- How far a request is; a call of the store is named by its position. -/
inductive RequestStage where
  | arrived
  | loading (call : Nat)
  | loaded (record : Option Record)
  /-- The session was modified. -/
  | modified (record : Record)
  | saving (call : Nat)
  | flushing (call : Nat)
  | refused

structure SessionRequest where
  /-- The id in the cookie. -/
  id : String
  kind : RequestKind
  stage : RequestStage

def RequestStage.call : RequestStage → Option Nat
  | loading n | saving n | flushing n => some n
  | _ => none

structure SessionRequests where
  store : SessionStore
  requests : List SessionRequest

inductive RequestAction where
  | tick (now : Time)
  | arrive (id : String) (kind : RequestKind)
  /-- The first use of the session. -/
  | start (v : Nat)
  /-- The record is there. -/
  | resume (v : Nat)
  /-- The handler gets past its checks. -/
  | accept (v : Nat)
  | refuse (v : Nat)
  /-- The answer of a request that modified the session, which gets a new expiry. -/
  | respond (v : Nat) (expiryDate : Time)
  /-- The next statement of the request's call. -/
  | exec (v : Nat) (connected : Bool)
  /-- `load` looks at the row it found. -/
  | check (v : Nat)

namespace SessionRequests

def setStage (s : SessionRequests) (v : Nat) (req : SessionRequest) (stage : RequestStage) :
    SessionRequests :=
  { s with requests := s.requests.set v { req with stage := stage } }

/-- The request calls the store. -/
def issue (s : SessionRequests) (v : Nat) (req : SessionRequest) (call : StoreCall)
    (stage : Nat → RequestStage) : SessionRequests :=
  { s.setStage v req (stage s.store.calls.length) with store := s.store.addCall call }

/-- A handler that got past its checks. -/
def accepted (s : SessionRequests) (v : Nat) (req : SessionRequest) (record : Record) :
    Option SessionRequests :=
  match req.kind with
  | .submit key =>
    -- `record_submit_time`
    some (s.setStage v req (.modified (record.insert key.toKey (.int s.store.clock.millis))))
  | .deleteAccount => some (s.issue v req (.delete req.id) .flushing)
  | .logout => none

/-- A step of the request at position `v`. -/
def stepRequest (ext : Externals) (s : SessionRequests) (v : Nat) (req : SessionRequest) :
    RequestAction → Option SessionRequests
  | .start _ =>
    match req.stage, req.kind with
    | .arrived, .logout => some (s.issue v req (.delete req.id) .flushing)
    | .arrived, _ => some (s.issue v req (.load req.id) .loading)
    | _, _ => none
  | .resume _ =>
    match req.stage with
    | .loading n =>
      match s.store.calls[n]? with
      | some (.returned (.ok record)) => some (s.setStage v req (.loaded record))
      -- an error counts as no record
      | some (.returned (.error _)) => some (s.setStage v req (.loaded none))
      | _ => none
    | _ => none
  | .accept _ =>
    match req.stage with
    | .loaded (some record) => if record.userId = none then none else s.accepted v req record
    | _ => none
  | .refuse _ =>
    match req.stage with
    | .loaded _ => some (s.setStage v req .refused)
    | _ => none
  | .respond _ expiryDate =>
    match req.stage with
    | .modified record =>
      some (s.issue v req (.save { record with expiryDate := expiryDate }) .saving)
    | _ => none
  | .exec _ connected =>
    req.stage.call.bind fun n => (s.store.step ext (.exec n connected)).map fun store =>
      { s with store := store }
  | .check _ =>
    req.stage.call.bind fun n => (s.store.step ext (.check n)).map fun store =>
      { s with store := store }
  | .tick _ | .arrive _ _ => none

def step (ext : Externals) (s : SessionRequests) (a : RequestAction) : Option SessionRequests :=
  match a with
  | .tick now => (s.store.step ext (.tick now)).map fun store => { s with store := store }
  | .arrive id kind =>
    some { s with requests := s.requests ++ [{ id := id, kind := kind, stage := .arrived }] }
  | .start v | .resume v | .accept v | .refuse v | .respond v _ | .exec v _ | .check v =>
    (s.requests[v]?).bind fun req => s.stepRequest ext v req a

/-- The runs of the requests, on any table. -/
def system (ext : Externals) : System SessionRequests RequestAction :=
  .ofStep (fun s => s.store.calls = [] ∧ s.requests = []) (step ext)

end SessionRequests

end MikanJudge

import MikanJudge.Lib.Transition
import MikanJudge.Model.Account
import MikanJudge.Model.Submit

/-!
# The running server (`main.rs`, `api/`, `worker/`)

The state of the process and of what outlives it: the tables and the stored
sessions, the submit requests under way, the job channel and the workers. An
action is one step of one of them, so a run is an interleaving. A request
reads its session once, checks, inserts its row, records the time in its copy
of the session, sends its job and saves the copy; between any two of these its
client may go away (`cancel`). `restart` leaves only the tables and the stored
sessions.

The process is that of a build without overflow checks: a worker ends its judging
by a write or its failure, and never by a panic. An account request is taken as
one step, with no statement of another request between its own.
-/

namespace MikanJudge

open MikanJudge.Lib

/-- What the process runs with. -/
structure Config where
  ext : Externals
  app : AppState
  numWorkers : Nat
  pos : 0 < numWorkers

/-! ## Requests and workers -/

inductive Stage where
  | loaded
  /-- Before the insert. -/
  | checked (task : SubmitTask)
  | inserted (task : SubmitTask)
  | recorded (task : SubmitTask)
  | sent (task : SubmitTask)

/-- A submit request, with its copy of the session. -/
structure Request where
  sid : Nat
  session : SessionRecord
  modified : Bool
  route : SubmitRoute
  /-- `Uuid::new_v4`. -/
  id : Uuid
  stage : Stage

inductive Worker where
  | idle
  /-- Holds the lock of the receiver. -/
  | receiving
  | judging (job : JudgeJob) (st : JudgeState)

structure Server where
  clock : Time
  db : Db
  sessions : List (Nat × SessionRecord)
  requests : List Request
  channel : List JudgeJob
  workers : List Worker

/-- The capacity of the job channel. -/
def channelCapacity : Nat := 256

inductive Action where
  | tick (now : Time)
  /-- A submit request arrives and reads its session. -/
  | arrive (sid : Nat) (route : SubmitRoute) (id : Uuid)
  | check (i : Nat)
  /-- The insert, over a connection that may fail. -/
  | insert (i : Nat) (connected : Bool)
  | record (i : Nat)
  | send (i : Nat)
  /-- The answer; a session that was modified is saved. -/
  | respond (i : Nat)
  | cancel (i : Nat)
  | account (sid : Nat) (route : AccountRoute)
  /-- A worker takes the lock of the receiver. -/
  | lock (w : Nat)
  | recv (w : Nat)
  /-- A write of `judge`, over a connection that may fail. -/
  | write (w : Nat) (connected : Bool)
  | event (w : Nat) (e : JudgeEvent)
  | restart

namespace Server

def loadSession (s : Server) (sid : Nat) : SessionRecord :=
  ((s.sessions.find? (·.1 == sid)).map (·.2)).getD .empty

def saveSession (s : Server) (sid : Nat) (record : SessionRecord) : List (Nat × SessionRecord) :=
  (sid, record) :: s.sessions.filter (·.1 != sid)

def applySession (s : Server) (sid : Nat) : SessionEffect → List (Nat × SessionRecord)
  | .keep => s.sessions
  | .save record => s.saveSession sid record
  | .delete => s.sessions.filter (·.1 != sid)

def setStage (s : Server) (i : Nat) (q : Request) (stage : Stage) : Server :=
  { s with requests := s.requests.set i { q with stage := stage } }

def dropRequest (s : Server) (i : Nat) : Server := { s with requests := s.requests.eraseIdx i }

def setWorker (s : Server) (w : Nat) (worker : Worker) : Server :=
  { s with workers := s.workers.set w worker }

/-- The process at its start: only the tables and the stored sessions are
given. -/
def boot (cfg : Config) (clock : Time) (db : Db) (sessions : List (Nat × SessionRecord)) : Server where
  clock := clock
  db := db
  sessions := sessions
  requests := []
  channel := []
  workers := List.replicate cfg.numWorkers .idle

/-- A write of `judge`, on the table of submissions. -/
def writeRow (cfg : Config) (s : Server) (id : Uuid) (u : RowUpdate) (connected : Bool) : Server :=
  if connected then { s with db := { s.db with submissions := u.write cfg.ext s.db.submissions id } }
  else s

/-- A step of the request at position `i`. -/
def stepRequest (cfg : Config) (s : Server) (i : Nat) (q : Request) (a : Action) : Option Server :=
  match a, q.stage with
  | .check _, .loaded =>
    match q.route.check cfg.ext cfg.app s.db q.session s.clock s.clock q.id with
    | .error _ => some (s.dropRequest i)
    | .ok task => some (s.setStage i q (.checked task))
  | .insert _ connected, .checked task =>
    if connected then
      match s.db.insertSubmission task.sub s.clock with
      | .error _ => some (s.dropRequest i)
      | .ok db => some { s.setStage i q (.inserted task) with db := db }
    else some (s.dropRequest i)
  | .record _, .inserted task =>
    match task.cooldownKey with
    | some key => some (s.setStage i
        { q with session := recordSubmitTime q.session key s.clock, modified := true }
        (.recorded task))
    | none => none
  | .send _, .inserted task =>
    if task.cooldownKey = none ∧ s.channel.length < channelCapacity then
      some { s.setStage i q (.sent task) with channel := s.channel ++ [task.job] }
    else none
  | .send _, .recorded task =>
    if s.channel.length < channelCapacity then
      some { s.setStage i q (.sent task) with channel := s.channel ++ [task.job] }
    else none
  | .respond _, .sent _ =>
    some { s.dropRequest i with
      sessions := if q.modified then s.saveSession q.sid q.session else s.sessions }
  | .cancel _, _ => some (s.dropRequest i)
  | _, _ => none

/-- A step of the worker at position `w`. -/
def stepWorker (cfg : Config) (s : Server) (w : Nat) (worker : Worker) (a : Action) :
    Option Server :=
  match a, worker with
  | .lock _, .idle =>
    if s.workers.any fun w => match w with | .receiving => true | _ => false then none
    else some (s.setWorker w .receiving)
  | .recv _, .receiving =>
    match s.channel with
    | [] => none
    | job :: jobs => some { s.setWorker w (.judging job .start) with channel := jobs }
  | .write _ connected, .judging job .start =>
    some ((s.writeRow cfg job.id (.status .running) connected).setWorker w (.judging job .tempdir))
  | .write _ connected, .judging job (.finish u) =>
    some ((s.writeRow cfg job.id u.val connected).setWorker w .idle)
  | .event _ e, .judging job st =>
    (st.step cfg.ext job e).map fun st' => s.setWorker w (.judging job st')
  | _, _ => none

def step (cfg : Config) (s : Server) (a : Action) : Option Server :=
  match a with
  | .tick now => if s.clock ≤ now then some { s with clock := now } else none
  | .arrive sid route id => some { s with requests := s.requests ++ [{
      sid := sid, session := s.loadSession sid, modified := false, route := route, id := id
      stage := .loaded }] }
  | .check i | .insert i _ | .record i | .send i | .respond i | .cancel i =>
    (s.requests[i]?).bind fun q => s.stepRequest cfg i q a
  | .account sid route =>
    let result := route.handle cfg.ext s.db (s.loadSession sid)
    some { s with db := result.db, sessions := s.applySession sid result.session }
  | .lock w | .recv w | .write w _ | .event w _ =>
    (s.workers[w]?).bind fun worker => s.stepWorker cfg w worker a
  | .restart => some (boot cfg s.clock s.db s.sessions)

/-- The runs of the server, on any tables and stored sessions. -/
def system (cfg : Config) : System Server Action :=
  .ofStep (fun s => ∃ clock db sessions, s = boot cfg clock db sessions) (step cfg)

def traceOf (cfg : Config) (s : Server) (as : List Action) : List (Server × Action) :=
  ((System.execAll (step cfg) s as).map (·.1)).getD []

def lastOf (cfg : Config) (s : Server) (as : List Action) : Server :=
  ((System.execAll (step cfg) s as).map (·.2)).getD s

/-- Actions that can be taken one after another make a run. -/
theorem run_traceOf (cfg : Config) (s : Server) (as : List Action)
    (h : (System.execAll (step cfg) s as).isSome = true) :
    (system cfg).Run s (traceOf cfg s as) (lastOf cfg s as) := by
  obtain ⟨⟨tr, t⟩, h⟩ := Option.isSome_iff_exists.mp h
  rw [traceOf, lastOf, h]
  exact System.run_of_execAll h

end Server

/-! ### A small server -/

/-- One worker, no files. -/
def smallConfig : Config where
  ext := .simple
  app := .empty
  numWorkers := 1
  pos := by decide

def emptyDb : Db := ⟨[], [], [], []⟩

/-- The steps of a request to `POST /submit`, up to the send. -/
def apiSubmitActions : List Action := [
  .arrive 0 (.api {
    sourceCode := "", language := .cpp, problemId := "a", stdin := "", expectedOutput := "1"
    timeLimitMs := 2000, memoryLimitKb := 262144 }) 1,
  .check 0, .insert 0 true, .send 0]

/-- A worker takes a job, and judging it goes as the events say. -/
def judgeActions (events : List JudgeEvent) : List Action :=
  [.lock 0, .recv 0, .write 0 true] ++ events.map (.event 0) ++ [.write 0 true]

/-! ### A small contest -/

/-- A problem whose only case expects `1`. -/
def contestFiles : FileTree :=
  smallTree [(⟨"a", by decide⟩, smallProblem [(⟨"1.out", by decide⟩, .file [49])] [])] []

def contestConfig : Config where
  ext := .titled
  app := { AppState.empty with fs := contestFiles }
  numWorkers := 1
  pos := by decide

/-- A user, and an exact contest from time 0 to time 100 with one problem. -/
def contestDb (problemId : String) : Db where
  users := [{ id := 1, username := "alice", passwordHash := "", defaultLanguage := none }]
  contests := [{
    id := "c", title := "C", description := "", startTime := 0, endTime := 100
    judgeType := "exact" }]
  contestProblems := [{ contestId := "c", problemId := problemId, displayOrder := 1, label := "A" }]
  submissions := []

/-- The server ten seconds later, with two sessions of the user. -/
def contestServer (problemId : String) : Server :=
  .boot contestConfig 10000000 (contestDb problemId)
    [(0, { SessionRecord.empty with userId := some 1 }),
      (1, { SessionRecord.empty with userId := some 1 })]

/-- The request at position `i` goes to its end. -/
def finishActions (i : Nat) : List Action := [.insert i true, .record i, .send i, .respond i]

/-- A submission to the problem `a` in the contest. -/
def contestSubmitActions (sid : Nat) (id : Uuid) : List Action :=
  [.arrive sid (.contestProblem "c" "a" { language := "cpp", sourceCode := "" }) id, .check 0] ++
    finishActions 0

end MikanJudge

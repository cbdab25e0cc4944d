import MikanJudge.Model.Judging
import MikanJudge.Model.Server

/-!
# The server with `judge` as a program (`worker/mod.rs`)

The workers of this server run `judge` itself, one request after another: between
two of them, to the row, the file system, a command or the sandbox, anything else
may happen. What a request is replied is open. A statement on the row is made over
a connection that may fail, which is only logged.
-/

namespace MikanJudge

open MikanJudge.Lib

inductive ProgramWorker where
  | idle
  /-- Holds the lock of the receiver. -/
  | receiving
  /-- In `judge`, with this left of it. -/
  | judging (job : JudgeJob) (left : JudgeProgram Ending)

structure ProgramServer where
  clock : Time
  db : Db
  sessions : List (Nat × SessionRecord)
  requests : List Request
  channel : List JudgeJob
  workers : List ProgramWorker

/-- A reply for each request. -/
abbrev Replies := (e : JudgeRequest) → e.Reply

inductive ProgramAction where
  /-- A step that no worker takes. -/
  | server (a : Action)
  /-- A worker takes the lock of the receiver. -/
  | lock (w : Nat)
  | recv (w : Nat)
  /-- The next request of `judge`, with its reply, over a connection that may fail. -/
  | request (w : Nat) (answer : Replies) (connected : Bool)
  /-- `judge` has returned. -/
  | returned (w : Nat)

namespace ProgramServer

/-- The same server with other workers. -/
def withWorkers (s : ProgramServer) (workers : List Worker) : Server where
  clock := s.clock
  db := s.db
  sessions := s.sessions
  requests := s.requests
  channel := s.channel
  workers := workers

/-- Everything but the workers is as here. -/
def become (s : ProgramServer) (t : Server) : ProgramServer where
  clock := t.clock
  db := t.db
  sessions := t.sessions
  requests := t.requests
  channel := t.channel
  workers := s.workers

def setWorker (s : ProgramServer) (w : Nat) (worker : ProgramWorker) : ProgramServer :=
  { s with workers := s.workers.set w worker }

def boot (cfg : Config) (clock : Time) (db : Db) (sessions : List (Nat × SessionRecord)) :
    ProgramServer where
  clock := clock
  db := db
  sessions := sessions
  requests := []
  channel := []
  workers := List.replicate cfg.numWorkers .idle

/-- What a request of `judge` makes of the tables. -/
def perform (cfg : Config) (s : ProgramServer) (id : Uuid) (connected : Bool) :
    JudgeRequest → ProgramServer
  | .write u =>
    if connected then { s with db := { s.db with submissions := u.write cfg.ext s.db.submissions id } }
    else s
  | _ => s

/-- A step of the worker at position `w`. -/
def stepWorker (cfg : Config) (s : ProgramServer) (w : Nat) (worker : ProgramWorker)
    (a : ProgramAction) : Option ProgramServer :=
  match a, worker with
  | .lock _, .idle =>
    if s.workers.any fun w => match w with | .receiving => true | _ => false then none
    else some (s.setWorker w .receiving)
  | .recv _, .receiving =>
    match s.channel with
    | [] => none
    | job :: jobs =>
      some { s.setWorker w (.judging job (judgeProgram cfg.ext job)) with channel := jobs }
  | .request _ answer connected, .judging job (.request e k) =>
    some ((s.perform cfg job.id connected e).setWorker w (.judging job (k (answer e))))
  | .returned _, .judging _ (.pure .returned) => some (s.setWorker w .idle)
  | _, _ => none

/-- A step that no worker takes is one of the server without its workers. -/
def step (cfg : Config) (s : ProgramServer) (a : ProgramAction) : Option ProgramServer :=
  match a with
  | .server .restart => some (boot cfg s.clock s.db s.sessions)
  | .server a => ((s.withWorkers []).step cfg a).map s.become
  | .lock w | .recv w | .request w _ _ | .returned w =>
    (s.workers[w]?).bind fun worker => s.stepWorker cfg w worker a

/-- The runs of the server, on any tables and stored sessions. -/
def system (cfg : Config) : System ProgramServer ProgramAction where
  init s := ∃ clock db sessions, s = boot cfg clock db sessions
  step s a t := s.step cfg a = some t

/-! ## What a worker exchanges -/

/-- The exchange a worker has next, given the replies. -/
def exchange? (s : ProgramServer) (w : Nat) (answer : Replies) :
    Option (Exchange JudgeRequest.Reply) :=
  match s.workers[w]? with
  | some (.judging _ (.request e _)) => some ⟨e, answer e⟩
  | _ => none

/-- What a worker has exchanged since it got its job, after one more step. -/
def exchanged (w : Nat) (xs : List (Exchange JudgeRequest.Reply)) (s : ProgramServer) :
    ProgramAction → List (Exchange JudgeRequest.Reply)
  | .recv w' => if w' = w then [] else xs
  | .request w' answer _ => if w' = w then xs ++ (s.exchange? w answer).toList else xs
  | _ => xs

/-- What a worker has exchanged in a run since it got its job. -/
def exchanges (w : Nat) (tr : List (ProgramServer × ProgramAction)) :
    List (Exchange JudgeRequest.Reply) :=
  tr.foldl (fun xs e => exchanged w xs e.1 e.2) []

end ProgramServer

end MikanJudge

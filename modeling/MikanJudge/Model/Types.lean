import MikanJudge.Lib.Float
import MikanJudge.Lib.Json
import Mathlib.Algebra.GroupWithZero.Nat

/-!
# The types of `types.rs`

Languages, statuses, submissions and contests, with the texts they are stored
and shown as. Integers of fixed width are `Nat` or `Int`; a time is a number
of microseconds since the epoch. Identifiers are the 128-bit numbers a UUID
spells.
-/

namespace MikanJudge

open MikanJudge.Lib (F64 Json)

abbrev Uuid := Fin (2 ^ 128)

instance Uuid.neZero : NeZero (2 ^ 128) := ⟨by decide⟩

/-- A `DateTime<Utc>`: microseconds since the epoch. -/
abbrev Time := Int

namespace Uuid

def hexDigits : Nat → Nat → List Char
  | 0, _ => []
  | k + 1, n => hexDigits k (n / 16) ++ [Json.hexDigit (n % 16)]

/-- The hyphenated form. -/
def toString (id : Uuid) : String :=
  let ds := hexDigits 32 id.val
  String.ofList (ds.take 8 ++ '-' :: (ds.drop 8).take 4 ++ '-' :: (ds.drop 12).take 4 ++
    '-' :: (ds.drop 16).take 4 ++ '-' :: ds.drop 20)

end Uuid

/-! ## Languages -/

inductive Language where
  | cpp
  | rust
  | python
  | pyPy
  | java
  | go
  | text
  deriving DecidableEq

structure LanguageVersions where
  cpp : String
  rust : String
  python : String
  pypy : String
  java : String
  go : String
  text : String

namespace Language

def toDb : Language → String
  | cpp => "cpp"
  | rust => "rust"
  | python => "python"
  | pyPy => "pypy"
  | java => "java"
  | go => "go"
  | text => "text"

def fromDb (s : String) : Language :=
  if s = "rust" then rust else if s = "python" then python else if s = "pypy" then pyPy
  else if s = "java" then java else if s = "go" then go else if s = "text" then text else cpp

@[simp] theorem fromDb_toDb (l : Language) : fromDb l.toDb = l := by cases l <;> decide

def displayNameVersioned (l : Language) (versions : LanguageVersions) : String :=
  match l with
  | cpp => "C++17 (GCC " ++ versions.cpp ++ ")"
  | rust => "Rust (rustc " ++ versions.rust ++ ")"
  | python => "Python (CPython " ++ versions.python ++ ")"
  | pyPy => "Python (PyPy " ++ versions.pypy ++ ")"
  | java => "Java (OpenJDK " ++ versions.java ++ ")"
  | go => "Go (" ++ versions.go ++ ")"
  | text => "Text (cat " ++ versions.text ++ ")"

def needsUnlimitedVm : Language → Bool
  | python | pyPy | java | go => true
  | _ => false

def needsRelaxedSeccomp : Language → Bool
  | java | go | text => true
  | _ => false

def needsRelaxedNproc : Language → Bool
  | java | go => true
  | _ => false

end Language

/-! ## Statuses -/

inductive JudgeType where
  | exact
  | heuristic
  deriving DecidableEq

def JudgeType.fromDb (s : String) : JudgeType := if s = "heuristic" then .heuristic else .exact

inductive JudgeStatus where
  | pending
  | running
  | accepted
  | wrongAnswer
  | timeLimitExceeded
  | memoryLimitExceeded
  | runtimeError (exitCode : Int)
  | compileError (message : String)
  | internalError (message : String)
  | scored
  deriving DecidableEq

namespace JudgeStatus

def toDb : JudgeStatus → String
  | pending => "pending"
  | running => "running"
  | accepted => "accepted"
  | wrongAnswer => "wrong_answer"
  | timeLimitExceeded => "time_limit_exceeded"
  | memoryLimitExceeded => "memory_limit_exceeded"
  | runtimeError _ => "runtime_error"
  | compileError _ => "compile_error"
  | internalError _ => "internal_error"
  | scored => "scored"

def fromDb (s : String) : JudgeStatus :=
  if s = "running" then running
  else if s = "accepted" then accepted
  else if s = "wrong_answer" then wrongAnswer
  else if s = "time_limit_exceeded" then timeLimitExceeded
  else if s = "memory_limit_exceeded" then memoryLimitExceeded
  else if s = "runtime_error" then runtimeError (-1)
  else if s = "compile_error" then compileError ""
  else if s = "internal_error" then internalError ""
  else if s = "scored" then scored
  else pending

/-- Neither pending nor running: judging is over. -/
def isTerminal : JudgeStatus → Bool
  | pending | running => false
  | _ => true

/-- `matches!(status, Accepted | Scored)`. -/
def isSuccess : JudgeStatus → Bool
  | accepted | scored => true
  | _ => false

/-- The stored text tells a terminal status from the others. -/
theorem isTerminal_iff_toDb (s : JudgeStatus) :
    s.isTerminal = true ↔ s.toDb ≠ "pending" ∧ s.toDb ≠ "running" := by
  cases s <;> simp [isTerminal, toDb]

end JudgeStatus

/-! ## Submissions -/

/-- The result of one test case. -/
structure TestcaseVerdict where
  verdict : String
  timeMs : Option Nat
  memoryKb : Option Nat
  score : Option F64
  deriving DecidableEq

structure Submission where
  id : Uuid
  userId : Option Uuid
  contestId : Option String
  sourceCode : String
  language : Language
  problemId : String
  status : JudgeStatus
  timeUsedMs : Option Nat
  memoryUsedKb : Option Nat
  stdout : Option String
  stderr : Option String
  testcaseResults : Option (List TestcaseVerdict)
  score : Option F64
  deriving DecidableEq

/-! ## Contests -/

structure ContestProblem where
  label : String
  problemId : String
  displayOrder : Int
  deriving DecidableEq

inductive ContestStatus where
  | upcoming
  | ongoing
  | past
  deriving DecidableEq

structure Contest where
  id : String
  title : String
  description : String
  startTime : Time
  endTime : Time
  judgeType : JudgeType
  deriving DecidableEq

/-- `Contest::status`, at a clock reading. -/
def Contest.status (c : Contest) (now : Time) : ContestStatus :=
  if now < c.startTime then .upcoming else if now ≤ c.endTime then .ongoing else .past

/-- The body of `POST /submit`. -/
structure SubmitRequest where
  sourceCode : String
  language : Language
  problemId : String
  stdin : String
  expectedOutput : String
  timeLimitMs : Nat
  memoryLimitKb : Nat

end MikanJudge

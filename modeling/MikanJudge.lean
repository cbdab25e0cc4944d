import MikanJudge.Proof.Outcomes
import MikanJudge.Proof.Verdict
import MikanJudge.Proof.FinalStatus
import MikanJudge.Proof.Confinement
import MikanJudge.Proof.Secrecy
import MikanJudge.Proof.Steps
import MikanJudge.Proof.Jobs
import MikanJudge.Proof.Conservation
import MikanJudge.Proof.AtMostOnce
import MikanJudge.Proof.Standings
import MikanJudge.Proof.ContestProblems
import MikanJudge.Proof.Cooldown
import MikanJudge.Lib.Ranking
import MikanJudge.Proof.Totals
import MikanJudge.Proof.Ranks
import MikanJudge.Proof.Comparator
import MikanJudge.Proof.HashOrder
import MikanJudge.Proof.Monotone
import MikanJudge.Proof.SessionStore
import MikanJudge.Proof.SizeLimit
import MikanJudge.Lib.FileUpdate
import MikanJudge.Model.Routes
import MikanJudge.Proof.Hidden
import MikanJudge.Lib.Processes
import MikanJudge.Model.Runner
import MikanJudge.Proof.PipeEnds
import MikanJudge.Proof.Isolation
import MikanJudge.Model.JobProcesses
import MikanJudge.Proof.Leftovers
import MikanJudge.Lib.ExpiringMap
import MikanJudge.Proof.StoreMap
import MikanJudge.Model.SessionRequests
import MikanJudge.Proof.Logout
import MikanJudge.Model.Polling
import MikanJudge.Proof.Polling
import MikanJudge.Proof.OwnSubmissions
import MikanJudge.Proof.Accounts
import MikanJudge.Proof.Aggregate
import MikanJudge.Model.ProblemFaults
import MikanJudge.Proof.AllCases
import MikanJudge.Proof.ExpectedOutput
import MikanJudge.Proof.MemoryLimit
import MikanJudge.Model.Limits
import MikanJudge.Proof.Limits
import MikanJudge.Model.WaitLoop
import MikanJudge.Proof.WaitLoop
import MikanJudge.Model.Pumping
import MikanJudge.Proof.Pumping
import MikanJudge.Lib.Windows
import MikanJudge.Model.Paging
import MikanJudge.Proof.Paging
import MikanJudge.Proof.PagedLists
import MikanJudge.Lib.Gaps
import MikanJudge.Proof.Pagination
import MikanJudge.Proof.ResultsCodec
import MikanJudge.Proof.StoredStatus
import MikanJudge.Proof.Columns
import MikanJudge.Proof.PollDetail
import MikanJudge.Lib.Python
import MikanJudge.Lib.Cut
import MikanJudge.Model.MaxCut
import MikanJudge.Proof.MaxCut
import MikanJudge.Lib.Decimal
import MikanJudge.Proof.FormatScore
import MikanJudge.Lib.Ledger
import MikanJudge.Proof.Ledger
import MikanJudge.Proof.Served
import MikanJudge.Proof.Progress
import MikanJudge.Proof.Channel
import MikanJudge.Proof.Tables
import MikanJudge.Proof.Authority
import MikanJudge.Lib.Program
import MikanJudge.Model.Judging
import MikanJudge.Proof.Judging
import MikanJudge.Proof.JudgeTrace
import MikanJudge.Proof.Waits
import MikanJudge.Proof.Answers
import MikanJudge.Proof.ProblemList
import MikanJudge.Model.ProgramServer
import MikanJudge.Proof.JudgeStates
import MikanJudge.Proof.ProgramSteps
import MikanJudge.Proof.ProgramServer
import MikanJudge.Proof.JudgedRows
import MikanJudge.Proof.Measuring

import MikanJudge.Proof.FinalStatus
import MikanJudge.Model.Pages

/-!
# A status that was stored

The table has a text for each kind of status and no place for what comes with
it: `from_db` puts -1 for an exit code and the empty text for a message
(`fromDb_toDb_status`). So after `judge` the status that is read is of the kind
that was judged; the message of a compile error is read as the standard error
(`judged_status_stored`).
-/

namespace MikanJudge

open MikanJudge.Lib

namespace JudgeStatus

/-- What is left of a status in the table. -/
def stored : JudgeStatus → JudgeStatus
  | runtimeError _ => runtimeError (-1)
  | compileError _ => compileError ""
  | internalError _ => internalError ""
  | s => s

theorem fromDb_toDb_status (s : JudgeStatus) : fromDb s.toDb = s.stored := by
  cases s <;> simp [toDb, fromDb, stored]

/-- Nothing comes with the status but what `from_db` puts. -/
structure Bare (s : JudgeStatus) : Prop where
  exitCode {code : Int} : s = runtimeError code → code = -1
  compileMessage {message : String} : s = compileError message → message = ""
  internalMessage {message : String} : s = internalError message → message = ""

theorem stored_eq_iff (s : JudgeStatus) : s.stored = s ↔ s.Bare := by
  constructor
  · intro h
    refine ⟨fun hs => ?_, fun hs => ?_, fun hs => ?_⟩
    · rw [hs, stored, runtimeError.injEq] at h
      exact h.symm
    · rw [hs, stored, compileError.injEq] at h
      exact h.symm
    · rw [hs, stored, internalError.injEq] at h
      exact h.symm
  · intro h
    cases s with
    | runtimeError code => rw [stored, h.exitCode rfl]
    | compileError message => rw [stored, h.compileMessage rfl]
    | internalError message => rw [stored, h.internalMessage rfl]
    | _ => rfl

end JudgeStatus

section

variable {ext : Externals} {job : JudgeJob} {env : JudgeEnv}

/-- No case ends with a compile error. -/
theorem caseStatus_ne_compileError (expectedOutput : Option String) (r : RunResult)
    (scorer : ScorerRun) (message : String) :
    (caseStatus ext job expectedOutput r scorer).1.val ≠ .compileError message := by
  rw [caseStatus]
  split
  · exact JudgeStatus.noConfusion
  · split_ifs <;> exact JudgeStatus.noConfusion
  · split_ifs <;> exact JudgeStatus.noConfusion
  · split_ifs
    · split <;> exact JudgeStatus.noConfusion
    · exact JudgeStatus.noConfusion
    · exact JudgeStatus.noConfusion

/-- A compile error is written by `compileErrorUpdate` alone. -/
theorem judgeFinal_eq_of_compileError {message : String}
    (h : (judgeFinal ext job env).val.newStatus = .compileError message) :
    judgeFinal ext job env = compileErrorUpdate message := by
  have hends := judgeEnds ext job env
  generalize judgeFinal ext job env = u at h hends
  cases hends with
  | internalError e _ _ => cases h
  | compileError _ _ _ =>
    cases h
    rfl
  | @finished compiled results hjudged =>
    have hstatus : (Accum.of ext job compiled
        (outcomes env.runs results 0 job.testcases)).finalStatus.val = .compileError message := h
    cases hfind : (outcomes env.runs results 0 job.testcases).find? (·.fails ext job) with
    | none =>
      rw [(Accum.of_none hfind).1, JudgeJob.successStatus] at hstatus
      split_ifs at hstatus
    | some c =>
      rw [(Accum.of_some hfind).1] at hstatus
      exact absurd hstatus (caseStatus_ne_compileError _ _ _ _)

/-- What is found after an update that the database accepts. -/
theorem find?_write {rows : List SubmissionRow} {id : Uuid} {u : RowUpdate} {r : SubmissionRow}
    (hr : rows.find? (·.id == id) = some r) (hok : u.textsOk ext = true) :
    (u.write ext rows id).find? (·.id == id) = some (u.apply ext r) := by
  rw [RowUpdate.write_eq, if_pos hok, find?_updateWhere fun r => RowUpdate.apply_id r, hr,
    Option.map_some]

/-- What is found for the job after `judge`, if the database accepts the last write. -/
theorem find?_judge {rows : List SubmissionRow} (hrow : job.id ∈ rows.map (·.id))
    (hok : (judgeFinal ext job env).val.textsOk ext = true) :
    ∃ r, (judge ext job env rows).find? (·.id == job.id) =
      some ((judgeFinal ext job env).val.apply ext r) := by
  obtain ⟨r₀, hr₀, hid⟩ := List.mem_map.mp hrow
  have hfound : (rows.find? (·.id == job.id)).isSome :=
    List.find?_isSome.mpr ⟨r₀, hr₀, beq_iff_eq.mpr hid⟩
  obtain ⟨r, hr⟩ := Option.isSome_iff_exists.mp hfound
  exact ⟨_, find?_write (find?_write (u := .status .running) hr rfl) hok⟩

/-- What is stored of a judged job is the kind of its status: an exit code is
read as -1 and a message as empty, so that the status is the one judged exactly
if it had none to lose. The message of a compile error is the standard error. -/
theorem judged_status_stored (ext : Externals) (job : JudgeJob) (env : JudgeEnv) (db : Db)
    (hrow : job.id ∈ db.submissions.map (·.id))
    (hok : (judgeFinal ext job env).val.textsOk ext = true) :
    let judged := (judgeFinal ext job env).val.newStatus
    ∃ sub, Db.getSubmission ext { db with submissions := judge ext job env db.submissions } job.id =
        some sub ∧
      apiGetResult ext { db with submissions := judge ext job env db.submissions } job.id =
        .json sub.toJson ∧
      sub.status = judged.stored ∧ (sub.status = judged ↔ judged.Bare) ∧
      ∀ message, judged = .compileError message → sub.stderr = some message := by
  intro judged
  obtain ⟨r, hr⟩ := find?_judge hrow hok
  have hget : Db.getSubmission ext
      { db with submissions := judge ext job env db.submissions } job.id =
        some (((judgeFinal ext job env).val.apply ext r).intoSubmission ext) := by
    rw [Db.getSubmission, hr, Option.map_some]
  have hstatus : (((judgeFinal ext job env).val.apply ext r).intoSubmission ext).status =
      judged.stored := by
    rw [SubmissionRow.intoSubmission, RowUpdate.apply_status, JudgeStatus.fromDb_toDb_status]
  refine ⟨_, hget, ?_, hstatus, ?_, fun message hmessage => ?_⟩
  · rw [apiGetResult, hget]
  · rw [hstatus, JudgeStatus.stored_eq_iff]
  · rw [judgeFinal_eq_of_compileError hmessage]
    rfl

end

/-! ### A program that exits with 3 -/

/-- A table with the submission that is judged. -/
def pendingDb : Db where
  users := []
  contests := []
  contestProblems := []
  submissions := [pendingRow]

def exiting (code : Int) : ProcRun := { printing [] with finalStatus := some (.exited code) }

theorem judged_status_stored_exit :
    let judged := (judgeFinal .simple oneJob (envOf (exiting 3))).val.newStatus
    ∃ sub, Db.getSubmission .simple { pendingDb with
        submissions := judge .simple oneJob (envOf (exiting 3)) pendingDb.submissions } 1 = some sub ∧
      sub.status = judged.stored ∧ (sub.status = judged ↔ judged.Bare) := by
  obtain ⟨sub, hget, -, hstored, hiff, -⟩ :=
    judged_status_stored .simple oneJob (envOf (exiting 3)) pendingDb (by decide) (by decide)
  exact ⟨sub, hget, hstored, hiff⟩

/-- The exit code that was judged is 3, the one that is read is -1. -/
theorem judged_status_stored_fails :
    (judgeFinal .simple oneJob (envOf (exiting 3))).val.newStatus = .runtimeError 3 ∧
    (Db.getSubmission .simple { pendingDb with
        submissions := judge .simple oneJob (envOf (exiting 3)) pendingDb.submissions } 1).map
      (·.status) = some (.runtimeError (-1)) := by
  decide

end MikanJudge

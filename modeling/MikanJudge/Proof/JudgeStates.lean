import MikanJudge.Model.ProgramServer
import MikanJudge.Proof.Judging
import Mathlib.Logic.Relation

/-!
# The states of judging and the program

What `judge` may have left at each state of judging (`JudgeLeft`), and what its next
request then means: a write, or nothing but steps of judging that may happen
(`next_of_left`).
-/

namespace MikanJudge

open MikanJudge.Lib Program

/-! ## What is left of `judge` at a state -/

/-- `judge` after its first write. -/
def judgeRunning (ext : Externals) (job : JudgeJob) : JudgeProgram Ending := do
  match ← Ask.tempdir with
  | .error e => do
    setStatus (.internalError e)
    return .returned
  | .ok workDir => do
    let compiled ← (compile job.sourceCode job.language workDir).run
    judgeCompiled ext job workDir compiled

/-- The loop after the run of a case. -/
def judgeAfterRun (ext : Externals) (job : JudgeJob) (workDir : String) (compiled : CompileOutput)
    (tc : String × Option String) (rest : List (String × Option String)) (acc : Accum)
    (p : Except String ProcRun) : JudgeProgram Unit :=
  match runInSandbox job.sandboxConfig p with
  | .error e => setStatus (.internalError e)
  | .ok run => do
    let case ← judgeCase ext job workDir tc.1 tc.2 run
    judgeLoop ext job workDir compiled rest (acc.add compiled run case)

/-- `judge` from the loop on. -/
def judgeLooping (ext : Externals) (job : JudgeJob) (workDir : String) (compiled : CompileOutput)
    (rest : List (String × Option String)) (acc : Accum) : JudgeProgram Ending :=
  (judgeLoop ext job workDir compiled rest acc).bind fun _ => .pure .returned

/-- What `judge` has left before a case, or before its last write. -/
inductive JudgeOn (ext : Externals) (job : JudgeJob) : JudgeState → JudgeProgram Ending → Prop
  | cases {workDir : String} {compiled : CompileOutput} {rest : List (String × Option String)}
    {acc : Accum} :
    JudgeOn ext job (.cases compiled rest acc) (judgeLooping ext job workDir compiled rest acc)
  | finish (u : FinalUpdate) :
    JudgeOn ext job (.finish u) (.request (.write u.val) fun _ => .pure .returned)

/-- What `judge` may have left at a state. -/
inductive JudgeLeft (ext : Externals) (job : JudgeJob) : JudgeState → JudgeProgram Ending → Prop
  | start : JudgeLeft ext job .start (judgeProgram ext job)
  | tempdir : JudgeLeft ext job .tempdir (judgeRunning ext job)
  | compile {workDir : String} {tr : JudgeTrace} {q : JudgeProgram (Except Fault CompileOutput)}
    {e : JudgeRequest} {k : e.Reply → JudgeProgram (Except Fault CompileOutput)} :
    (compile job.sourceCode job.language workDir).run.Reaches tr q → q = .request e k →
    JudgeLeft ext job .compile (q.bind (judgeCompiled ext job workDir))
  | on {st : JudgeState} {p : JudgeProgram Ending} : JudgeOn ext job st p → JudgeLeft ext job st p
  /-- In `run_scorer`, after the run of the case. -/
  | scoring {workDir : String} {compiled : CompileOutput} {tc : String × Option String}
    {rest : List (String × Option String)} {acc : Accum} {p : Except String ProcRun}
    {run : RunResult} {tr : JudgeTrace} {q : JudgeProgram (FinalStatus × Option F64)}
    {e : JudgeRequest} {k : e.Reply → JudgeProgram (FinalStatus × Option F64)} :
    runInSandbox job.sandboxConfig p = .ok run →
    (judgeCase ext job workDir tc.1 tc.2 run).Reaches tr q → q = .request e k →
    JudgeLeft ext job (.cases compiled (tc :: rest) acc)
      (q.bind fun case => judgeLooping ext job workDir compiled rest (acc.add compiled run case))

/-- What may happen outside while a job is judged: `compile` comes to what it can. -/
def JudgeJob.MaySee (job : JudgeJob) : JudgeEvent → Prop
  | .compiled r => job.CompilesTo r
  | _ => True

/-- A step of judging that may happen. -/
def JudgeMoves (ext : Externals) (job : JudgeJob) (st st' : JudgeState) : Prop :=
  ∃ e, job.MaySee e ∧ st.step ext job e = some st'

/-- Any number of them. -/
abbrev JudgeGoes (ext : Externals) (job : JudgeJob) : JudgeState → JudgeState → Prop :=
  Relation.ReflTransGen (JudgeMoves ext job)

/-- What the next request of `judge` means for the state. -/
inductive JudgeNext (ext : Externals) (job : JudgeJob) (st : JudgeState) :
    (e : JudgeRequest) → (e.Reply → JudgeProgram Ending) → Prop
  | running {k : (JudgeRequest.write (.status .running)).Reply → JudgeProgram Ending} :
    st = .start → JudgeLeft ext job .tempdir (k ()) → JudgeNext ext job st _ k
  | finish {u : FinalUpdate} {k : (JudgeRequest.write u.val).Reply → JudgeProgram Ending} :
    JudgeGoes ext job st (.finish u) → k () = .pure .returned → JudgeNext ext job st _ k
  /-- No statement: the state goes on, or stays. -/
  | quiet {e : JudgeRequest} {k : e.Reply → JudgeProgram Ending} : (∀ u, e ≠ .write u) →
    (∀ r, ∃ st', JudgeGoes ext job st st' ∧ JudgeLeft ext job st' (k r)) → JudgeNext ext job st e k

section

variable {ext : Externals} {job : JudgeJob} {st st' st'' : JudgeState} {e : JudgeRequest}
  {workDir : String} {tr : JudgeTrace}

/-- Some reply to each request. -/
def anyReply : Replies
  | .write _ => ()
  | .tempdir => .error ""
  | .writeFile _ _ => .error ""
  | .path => none
  | .isFile _ => false
  | .output _ => .error ""
  | .outputWithin _ _ => none
  | .sandbox _ _ _ _ => .error ""

/-- No request of a program with such runs is a statement. -/
theorem not_write_of_reaches {α : Type} {p : JudgeProgram α} {k : e.Reply → JudgeProgram α}
    (hp : ∀ tr a, p.Runs tr a → writes tr = []) (h : p.Reaches tr (.request e k)) (u : RowUpdate) :
    e ≠ .write u := by
  rintro rfl
  obtain ⟨tr', a, hr, hmem⟩ := h.request_mem anyReply ()
  exact nomatch List.filterMap_eq_nil_iff.mp (hp tr' a hr) _ hmem

/-- After `compile`, `judge` goes on to what it reports, or to the loop. -/
theorem on_judgeCompiled (r : Except String CompileOutput) :
    JudgeOn ext job (afterCompile job r) (judgeCompiled ext job workDir (r.mapError .error)) := by
  cases r with
  | error e => exact .finish (internalError e)
  | ok compiled =>
    change JudgeOn ext job (afterCompile job (.ok compiled)) (judgeCompiled ext job workDir (.ok compiled))
    unfold afterCompile judgeCompiled
    cases he : compiled.error with
    | some msg =>
      simp only [he]
      exact .finish (compileErrorUpdate msg)
    | none =>
      simp only [he]
      exact .cases

variable (ext) in
/-- In `compile`, or just after it. -/
theorem left_compile {q : JudgeProgram (Except Fault CompileOutput)}
    (h : (compile job.sourceCode job.language workDir).run.Reaches tr q) :
    ∃ st', JudgeGoes ext job .compile st' ∧
      JudgeLeft ext job st' (q.bind (judgeCompiled ext job workDir)) := by
  cases q with
  | request e k => exact ⟨_, .refl, .compile h rfl⟩
  | pure r =>
    obtain ⟨r, rfl⟩ := compile_noPanic h.done
    exact ⟨_, .single ⟨.compiled r, ⟨workDir, tr, h.done⟩, rfl⟩, .on (on_judgeCompiled r)⟩

/-- In `run_scorer`, or after the case. -/
theorem left_judgeCase {compiled : CompileOutput} {tc : String × Option String}
    {rest : List (String × Option String)} {p : Except String ProcRun} {run : RunResult}
    {q : JudgeProgram (FinalStatus × Option F64)} (acc : Accum)
    (hp : runInSandbox job.sandboxConfig p = .ok run)
    (h : (judgeCase ext job workDir tc.1 tc.2 run).Reaches tr q) :
    ∃ st', JudgeGoes ext job (.cases compiled (tc :: rest) acc) st' ∧
      JudgeLeft ext job st'
        (q.bind fun case => judgeLooping ext job workDir compiled rest (acc.add compiled run case)) := by
  cases q with
  | request e k => exact ⟨_, .refl, .scoring hp h rfl⟩
  | pure case =>
    obtain ⟨scorer, rfl⟩ := (runs_judgeCase h.done).2
    refine ⟨.cases compiled rest (acc.record ext job compiled tc.2 run scorer),
      .single ⟨.ran ⟨p, scorer⟩, trivial, ?_⟩, .on .cases⟩
    simp only [JudgeState.step, afterCase, hp]

/-- After the run of a case. -/
theorem left_afterRun {compiled : CompileOutput} {tc : String × Option String}
    {rest : List (String × Option String)} {acc : Accum} (p : Except String ProcRun) :
    ∃ st', JudgeGoes ext job (.cases compiled (tc :: rest) acc) st' ∧
      JudgeLeft ext job st' ((judgeAfterRun ext job workDir compiled tc rest acc p).bind
        fun _ => .pure .returned) := by
  cases hp : runInSandbox job.sandboxConfig p with
  | error e =>
    refine ⟨.finish (internalError e), .single ⟨.ran ⟨p, .failed ""⟩, trivial, ?_⟩, ?_⟩
    · simp only [JudgeState.step, afterCase, hp]
    · simp only [judgeAfterRun, hp]
      exact .on (.finish (internalError e))
  | ok run =>
    obtain ⟨st', hgoes, hleft⟩ := left_judgeCase acc hp
      (Reaches.refl (judgeCase ext job workDir tc.1 tc.2 run))
    refine ⟨st', hgoes, ?_⟩
    simp only [judgeAfterRun, hp]
    exact (Program.bind_assoc _ _ _).symm ▸ hleft

/-- At each state, `judge` has a request left. -/
theorem not_left_pure {ending : Ending} : ¬JudgeLeft ext job st (.pure ending) := by
  intro h
  generalize hp : Program.pure ending = p at h
  cases h with
  | start | tempdir => cases hp
  | compile _ hq | scoring _ _ hq =>
    subst hq
    cases hp
  | on h =>
    cases h with
    | @cases _ _ rest => cases rest <;> cases hp
    | finish => cases hp

/-- What each request of `judge` means, at any state. -/
theorem next_of_left {k : e.Reply → JudgeProgram Ending}
    (h : JudgeLeft ext job st (.request e k)) : JudgeNext ext job st e k := by
  generalize hp : Program.request e k = p at h
  cases h with
  | start =>
    cases hp
    exact .running rfl .tempdir
  | tempdir =>
    cases hp
    refine .quiet (fun _ => JudgeRequest.noConfusion) fun r => ?_
    cases r with
    | error e =>
      exact ⟨_, .single ⟨.tempdir (.error e), trivial, rfl⟩, .on (.finish (internalError e))⟩
    | ok workDir =>
      obtain ⟨st', hgoes, hleft⟩ := left_compile ext
        (Reaches.refl (compile job.sourceCode job.language workDir).run)
      exact ⟨st', .head ⟨.tempdir (.ok ()), trivial, rfl⟩ hgoes, hleft⟩
  | compile hr hq =>
    subst hq
    cases hp
    refine .quiet (not_write_of_reaches (fun tr r hr => writes_eq_nil (part_compile _ _ _ _ _ hr).1) hr)
      fun r => ?_
    exact left_compile ext (hr.snoc r)
  | scoring hrun hr hq =>
    subst hq
    cases hp
    refine .quiet (not_write_of_reaches (fun tr r hr => writes_judgeCase hr) hr) fun r => ?_
    exact left_judgeCase _ hrun (hr.snoc r)
  | on h =>
    cases h with
    | @cases workDir compiled rest acc =>
      cases rest with
      | nil =>
        cases hp
        exact .finish (.single ⟨.loopEnd, trivial, rfl⟩) rfl
      | cons tc rest =>
        cases hp
        exact .quiet (fun _ => JudgeRequest.noConfusion) fun p => left_afterRun p
    | finish u =>
      cases hp
      exact .finish .refl rfl

/-! ## What the steps of judging are in the program -/

/-- What `judge` has at a state, if its directory is only made with `compile`. -/
inductive JudgeHas (ext : Externals) (job : JudgeJob) : JudgeState → JudgeProgram Ending → Prop
  | start : JudgeHas ext job .start (judgeProgram ext job)
  | tempdir : JudgeHas ext job .tempdir (judgeRunning ext job)
  | compile : JudgeHas ext job .compile (judgeRunning ext job)
  | on {st : JudgeState} {p : JudgeProgram Ending} : JudgeOn ext job st p → JudgeHas ext job st p

variable (ext job workDir) in
theorem on_afterCase (compiled : CompileOutput) (tc : String × Option String)
    (rest : List (String × Option String)) (acc : Accum) (c : CaseRun) :
    ∃ tr q, ((judgeAfterRun ext job workDir compiled tc rest acc c.run).bind
        fun _ => .pure .returned).Reaches tr q ∧ writes tr = [] ∧
      JudgeOn ext job (afterCase ext job compiled tc rest acc c) q := by
  unfold judgeAfterRun afterCase
  cases hr : runInSandbox job.sandboxConfig c.run with
  | error e =>
    dsimp only
    exact ⟨[], _, .refl _, rfl, .finish (internalError e)⟩
  | ok run =>
    dsimp only
    obtain ⟨tr, hcase⟩ := exists_runs_judgeCase ext job workDir tc.1 tc.2 run c.scorer
    refine ⟨tr, judgeLooping ext job workDir compiled rest (acc.record ext job compiled tc.2 run c.scorer),
      ?_, writes_judgeCase hcase, .cases⟩
    have hreach := (reaches_of_runs hcase).bind fun case =>
      judgeLooping ext job workDir compiled rest (acc.add compiled run case)
    exact (Program.bind_assoc _ _ _).symm ▸ hreach

/-- What may happen in judging, `judge` may do, without a write. -/
theorem reaches_of_step {ev : JudgeEvent} {p : JudgeProgram Ending} (h : JudgeHas ext job st p)
    (hsee : job.MaySee ev) (hst : st.step ext job ev = some st') :
    ∃ tr q, p.Reaches tr q ∧ writes tr = [] ∧ JudgeHas ext job st' q := by
  cases h with
  | start => cases hst
  | tempdir =>
    cases ev with
    | tempdir r =>
      cases hst
      cases r with
      | ok u => exact ⟨[], _, .refl _, rfl, .compile⟩
      | error e =>
        exact ⟨[⟨.tempdir, .error e⟩], _, .request (.refl _), rfl, .on (.finish (internalError e))⟩
    | compiled | ran | loopEnd => cases hst
  | compile =>
    cases ev with
    | compiled r =>
      cases hst
      obtain ⟨workDir, tr, hr⟩ := hsee
      refine ⟨⟨.tempdir, .ok workDir⟩ :: tr, _,
        .request ((reaches_of_runs hr).bind (judgeCompiled ext job workDir)), ?_,
        .on (on_judgeCompiled r)⟩
      change writes tr = []
      exact writes_eq_nil (part_compile _ _ _ _ _ hr).1
    | tempdir | ran | loopEnd => cases hst
  | on h =>
    cases h with
    | @cases workDir compiled rest acc =>
      cases rest with
      | nil =>
        cases ev with
        | loopEnd =>
          cases hst
          exact ⟨[], _, .refl _, rfl, .on (.finish (acc.finish job))⟩
        | tempdir | compiled | ran => cases hst
      | cons tc rest =>
        cases ev with
        | ran c =>
          cases hst
          obtain ⟨tr, q, hreach, hwrites, hon⟩ := on_afterCase ext job workDir compiled tc rest acc c
          exact ⟨⟨.sandbox compiled.executable compiled.runArgs tc.1 job.sandboxConfig, c.run⟩ :: tr, q,
            .request hreach, hwrites, .on hon⟩
        | tempdir | compiled | loopEnd => cases hst
    | finish => cases hst

end

end MikanJudge

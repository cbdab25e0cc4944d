import MikanJudge.Model.Judging
import MikanJudge.Proof.Ledger

/-!
# Judging as a program and as steps

The steps a worker of the server takes between its two writes are those of the
program `judge`, whatever it is replied (`judge_refines`). So all that is shown of
the steps holds of the program with its files and commands.
-/

namespace MikanJudge

open MikanJudge.Lib Program

abbrev JudgeTrace := List (Exchange JudgeRequest.Reply)

/-- The statements of a run on the row, in order. -/
def writes (tr : JudgeTrace) : List RowUpdate :=
  tr.filterMap fun x => match x.1 with
    | .write u => some u
    | _ => none

@[simp] theorem writes_nil : writes [] = [] := rfl

theorem writes_append (tr tr' : JudgeTrace) : writes (tr ++ tr') = writes tr ++ writes tr' :=
  List.filterMap_append

@[simp] theorem writes_write (u : RowUpdate) (r : Unit) (tr : JudgeTrace) :
    writes (⟨.write u, r⟩ :: tr) = u :: writes tr := rfl

/-- What `resolve_command` may ask for. -/
def JudgeRequest.Looks : JudgeRequest → Prop
  | path | isFile _ => True
  | output cmd => cmd.program = "which"
  | _ => False

/-- What `compile` may ask for: besides, its one file and the compiler. -/
def JudgeRequest.OfCompile (srcPath sourceCode : String) (e : JudgeRequest) : Prop :=
  e.Looks ∨ e = writeFile srcPath sourceCode ∨ ∃ secs cmd, e = outputWithin secs cmd

theorem writes_eq_nil {srcPath sourceCode : String} {tr : JudgeTrace}
    (h : ∀ y ∈ tr, y.1.OfCompile srcPath sourceCode) : writes tr = [] := by
  refine List.filterMap_eq_nil_iff.mpr fun y hy => ?_
  obtain ⟨e, r⟩ := y
  rcases h _ hy with h | h | ⟨secs, cmd, h⟩
  · cases e <;> first | rfl | exact h.elim
  · cases h
    rfl
  · cases h
    rfl

/-! ## `resolve_command` -/

theorem within_orFail {α : Type} {S : JudgeRequest → Prop} {p : JudgeProgram (Except String α)}
    (h : p.Ensures fun tr _ => ∀ y ∈ tr, S y.1) : Within S (· ≠ Fault.panic) (orFail p) := by
  refine Ensures.bind h fun tr r htr => Ensures.pure ⟨fun y hy => ?_, fun err e => ?_⟩
  · rw [List.append_nil] at hy
    exact htr y hy
  · cases r with
    | error msg =>
      cases e
      simp
    | ok a => cases e

theorem ensures_ask {S : JudgeRequest → Prop} {e : JudgeRequest} (h : S e) :
    (ask e : JudgeProgram e.Reply).Ensures fun tr _ => ∀ y ∈ tr, S y.1 := by
  intro tr r hr
  rw [runs_ask.mp hr]
  exact fun y hy => List.mem_singleton.mp hy ▸ h

theorem ensures_candidates (name : String) (dirs : List String) :
    (candidates name dirs).Ensures fun tr _ => ∀ y ∈ tr, y.1.Looks := by
  induction dirs with
  | nil => exact Ensures.pure fun _ h => nomatch h
  | cons dir dirs ih =>
    refine Ensures.ask_bind fun file => Ensures.bind ih fun tr rest htr => Ensures.pure ?_
    rw [List.append_nil]
    exact List.forall_mem_cons.mpr ⟨trivial, htr⟩

theorem within_resolveCommand (name : String) :
    Within JudgeRequest.Looks (· ≠ Fault.panic) (resolveCommand name) := by
  refine Within.bind (Within.ask trivial) fun path => ?_
  cases path with
  | none => exact Within.throw (by simp)
  | some path =>
    refine Within.bind (Within.lift (ensures_candidates name _)) fun found => ?_
    cases found with
    | cons file rest => exact Within.pure
    | nil =>
      refine Within.bind (within_orFail (ensures_ask rfl)) fun out => ?_
      split
      · exact Within.bind (within_orFail (Ensures.pure fun _ h => nomatch h)) fun _ => Within.pure
      · exact Within.throw (by simp)

/-! ## `compile` -/

/-- Asks for what `compile` may, and does not panic. -/
abbrev Part {α : Type} (srcPath sourceCode : String) (x : Fallible α) : Prop :=
  Within (JudgeRequest.OfCompile srcPath sourceCode) (· ≠ Fault.panic) x

section

variable (srcPath sourceCode : String)

theorem part_resolveCommand (name : String) : Part srcPath sourceCode (resolveCommand name) :=
  (within_resolveCommand name).mono fun _ => .inl

theorem part_orPanic {α : Type} {x : Option α} (h : x ≠ none) :
    Part srcPath sourceCode (orPanic x) := by
  cases x with
  | none => exact absurd rfl h
  | some a => exact Within.pure

theorem part_outputWithin (secs : Nat) (cmd : Command) :
    Part srcPath sourceCode (liftM (Ask.outputWithin secs cmd)) :=
  Within.ask (.inr (.inr ⟨secs, cmd, rfl⟩))

theorem part_runCompiler (cmd : Command) : Part srcPath sourceCode (runCompiler cmd) := by
  refine Within.bind (part_outputWithin _ _ _ _) fun reply => ?_
  split
  · exact Within.throw (by simp)
  · exact Within.throw (by simp)
  · exact Within.pure

end

/-- `compile` panics for no language. -/
theorem part_compile (sourceCode : String) (language : Language) (workDir : String) :
    Part (Path.join workDir language.sourceFileName) sourceCode
      (compile sourceCode language workDir) := by
  have hnative : ∀ srcPath, language = .cpp ∨ language = .rust ∨ language = .go →
      Part srcPath sourceCode (compileNative language srcPath workDir) := by
    intro srcPath hl
    refine Within.bind (part_orPanic _ _ ?_) fun _ => Within.bind (part_resolveCommand _ _ _) fun _ =>
      Within.bind (part_orPanic _ _ ?_) fun _ => Within.bind (part_runCompiler _ _ _) fun _ =>
        Within.pure
    · rcases hl with rfl | rfl | rfl <;> simp [Language.compiler]
    · rcases hl with rfl | rfl | rfl <;> simp [Language.compileArgs]
  have hinterpreted : ∀ srcPath, language = .python ∨ language = .pyPy →
      Part srcPath sourceCode (compileInterpreted language srcPath) := by
    intro srcPath hl
    refine Within.bind (part_orPanic _ _ ?_) fun _ => Within.bind (part_resolveCommand _ _ _) fun _ =>
      Within.bind (part_outputWithin _ _ _ _) fun _ => Within.pure
    rcases hl with rfl | rfl <;> simp [Language.interpreter]
  refine Within.bind (within_orFail (ensures_ask (.inr (.inl rfl)))) fun _ => ?_
  cases language with
  | text => exact Within.bind (part_resolveCommand _ _ _) fun _ => Within.pure
  | python => exact hinterpreted _ (.inl rfl)
  | pyPy => exact hinterpreted _ (.inr rfl)
  | java =>
    exact Within.bind Within.pure fun _ => Within.bind (part_resolveCommand _ _ _) fun _ =>
      Within.bind Within.pure fun _ => Within.bind (part_runCompiler _ _ _) fun _ =>
        Within.bind (part_resolveCommand _ _ _) fun _ => Within.pure
  | cpp => exact hnative _ (.inl rfl)
  | rust => exact hnative _ (.inr (.inl rfl))
  | go => exact hnative _ (.inr (.inr rfl))

/-! ## One case -/

section

variable {ext : Externals} {job : JudgeJob} {workDir stdin : String} {expectedOutput : Option String}
  {run : RunResult} {compiled : CompileOutput} {acc : Accum} {tr : JudgeTrace}

theorem add_caseStatus (scorer : ScorerRun) :
    acc.add compiled run (caseStatus ext job expectedOutput run scorer) =
      acc.record ext job compiled expectedOutput run scorer := rfl

/-- What `run_scorer` asks for, given a scorer. -/
inductive Scoring (workDir input output scorer : String) : JudgeTrace → Prop
  | input (e : String) : Scoring workDir input output scorer
    [⟨.writeFile (scorerInput workDir) input, .error e⟩]
  | output (e : String) : Scoring workDir input output scorer
    [⟨.writeFile (scorerInput workDir) input, .ok ()⟩,
      ⟨.writeFile (scorerOutput workDir) output, .error e⟩]
  | command (r : Except String Output) : Scoring workDir input output scorer
    [⟨.writeFile (scorerInput workDir) input, .ok ()⟩,
      ⟨.writeFile (scorerOutput workDir) output, .ok ()⟩,
      ⟨.output (scorerCommand scorer workDir), r⟩]

theorem Scoring.writes_eq {input output scorer : String} (h : Scoring workDir input output scorer tr) :
    writes tr = [] := by cases h <;> rfl

/-- What `run_scorer` can ask for and come to. -/
theorem runs_scoreRun {input output : String} {scorerPath : Option String} {d : Except String F64}
    (h : (scoreRun ext scorerPath input output workDir).run.Runs tr d) :
    (tr = [] ∨ ∃ scorer, scorerPath = some scorer ∧ Scoring workDir input output scorer tr) ∧
      ∃ scorer, d = runScorer ext scorerPath scorer := by
  cases scorerPath with
  | none =>
    obtain ⟨rfl, rfl⟩ := runs_pure.mp h
    exact ⟨.inl rfl, .failed "", rfl⟩
  | some path =>
    rcases runs_bind_run.mp h with ⟨err, h₁, rfl⟩ | ⟨tr₁, _, tr₂, h₁, h₂, rfl⟩
    · rw [runs_ask.mp h₁]
      exact ⟨.inr ⟨path, rfl, .input err⟩, .failed err, rfl⟩
    rcases runs_bind_run.mp h₂ with ⟨err, h₃, rfl⟩ | ⟨tr₃, _, tr₄, h₃, h₄, rfl⟩
    · rw [runs_ask.mp h₁, runs_ask.mp h₃]
      exact ⟨.inr ⟨path, rfl, .output err⟩, .failed err, rfl⟩
    rcases runs_bind_run.mp h₄ with ⟨err, h₅, rfl⟩ | ⟨tr₅, out, tr₆, h₅, h₆, rfl⟩
    · rw [runs_ask.mp h₁, runs_ask.mp h₃, runs_ask.mp h₅]
      exact ⟨.inr ⟨path, rfl, .command (.error err)⟩, .failed err, rfl⟩
    obtain ⟨rfl, rfl⟩ := runs_pure.mp h₆
    rw [runs_ask.mp h₁, runs_ask.mp h₃, runs_ask.mp h₅]
    obtain ⟨success, stdout, stderr⟩ := out
    refine ⟨.inr ⟨path, rfl, .command (.ok ⟨success, stdout, stderr⟩)⟩,
      .exited success stdout stderr, ?_⟩
    cases success <;> rfl

/-- The scorer can do whatever it may. -/
theorem exists_runs_scoreRun (ext : Externals) (scorerPath : Option String)
    (input output workDir : String) (scorer : ScorerRun) :
    ∃ tr, (scoreRun ext scorerPath input output workDir).run.Runs tr
      (runScorer ext scorerPath scorer) := by
  cases scorerPath with
  | none => exact ⟨[], .pure _⟩
  | some path =>
    cases scorer with
    | failed message =>
      exact ⟨_, runs_bind_run.mpr (.inl ⟨message, runs_ask.mpr rfl, rfl⟩)⟩
    | exited success stdout stderr =>
      have hscore : runScorer ext (some path) (.exited success stdout stderr) =
          scoreOf ext ⟨success, stdout, stderr⟩ := by cases success <;> rfl
      rw [hscore]
      exact ⟨_, .bind_run (a := ()) (runs_ask.mpr rfl) (.bind_run (a := ()) (runs_ask.mpr rfl)
        (.bind_run (runs_ask.mpr rfl) (.pure _)))⟩

/-- What judging a case can ask for and come to: only a run that ended well is
scored. -/
theorem runs_judgeCase {case : FinalStatus × Option F64}
    (h : (judgeCase ext job workDir stdin expectedOutput run).Runs tr case) :
    (tr = [] ∨ run.status = .ok ∧ job.isHeuristic = true ∧ ∃ scorer, job.scorerPath = some scorer ∧
        Scoring workDir stdin (fromUtf8Lossy run.stdout) scorer tr) ∧
      ∃ scorer, case = caseStatus ext job expectedOutput run scorer := by
  unfold judgeCase at h
  unfold caseStatus
  cases hst : run.status with
  | timeLimitExceeded =>
    simp only [hst] at h ⊢
    obtain ⟨rfl, rfl⟩ := runs_pure.mp h
    exact ⟨.inl rfl, .failed "", rfl⟩
  | runtimeError | killed =>
    simp only [hst] at h ⊢
    split_ifs at h ⊢
    all_goals
      obtain ⟨rfl, rfl⟩ := runs_pure.mp h
      exact ⟨.inl rfl, .failed "", rfl⟩
  | ok =>
    simp only [hst] at h ⊢
    split_ifs at h ⊢ with hheuristic
    · obtain ⟨tr₁, d, tr₂, h₁, h₂, rfl⟩ := runs_bind.mp h
      obtain ⟨htr, scorer, rfl⟩ := runs_scoreRun h₁
      obtain ⟨rfl, rfl⟩ := runs_pure.mp h₂
      rw [List.append_nil]
      refine ⟨htr.imp_right fun h => ⟨trivial, hheuristic, h⟩, scorer, ?_⟩
      cases runScorer ext job.scorerPath scorer <;> rfl
    all_goals
      obtain ⟨rfl, rfl⟩ := runs_pure.mp h
      exact ⟨.inl rfl, .failed "", rfl⟩

theorem writes_judgeCase {case : FinalStatus × Option F64}
    (h : (judgeCase ext job workDir stdin expectedOutput run).Runs tr case) : writes tr = [] := by
  rcases (runs_judgeCase h).1 with rfl | ⟨-, -, scorer, -, hs⟩
  · rfl
  · exact hs.writes_eq

theorem exists_runs_judgeCase (ext : Externals) (job : JudgeJob) (workDir stdin : String)
    (expectedOutput : Option String) (run : RunResult) (scorer : ScorerRun) :
    ∃ tr, (judgeCase ext job workDir stdin expectedOutput run).Runs tr
      (caseStatus ext job expectedOutput run scorer) := by
  unfold judgeCase caseStatus
  cases hst : run.status with
  | timeLimitExceeded => exact ⟨[], .pure _⟩
  | runtimeError | killed =>
    dsimp only
    split_ifs <;> exact ⟨[], .pure _⟩
  | ok =>
    dsimp only
    split_ifs
    · obtain ⟨tr, h⟩ := exists_runs_scoreRun ext job.scorerPath stdin (fromUtf8Lossy run.stdout)
        workDir scorer
      refine ⟨tr, runs_bind.mpr ⟨tr, _, [], h, ?_, (List.append_nil tr).symm⟩⟩
      cases runScorer ext job.scorerPath scorer <;> exact .pure _
    all_goals exact ⟨[], .pure _⟩

/-! ## The loop -/

/-- The loop from a position on does not look at the runs before it. -/
theorem judgeCases_congr {runs runs' : Nat → CaseRun} {k : Nat}
    {rest : List (String × Option String)} (h : ∀ i, k ≤ i → runs i = runs' i) :
    judgeCases ext job compiled runs k rest acc = judgeCases ext job compiled runs' k rest acc := by
  induction rest generalizing k acc with
  | nil => rfl
  | cons tc rest ih =>
    rw [judgeCases, judgeCases, h k le_rfl]
    split
    · rfl
    · exact ih fun i hi => h i (by omega)

/-- A run of the loop writes once, what the loop comes to for some runs. -/
theorem writes_judgeLoop {rest : List (String × Option String)} {u : Unit} (k : Nat)
    (h : (judgeLoop ext job workDir compiled rest acc).Runs tr u) :
    ∃ runs, writes tr = [(judgeCases ext job compiled runs k rest acc).val] := by
  induction rest generalizing acc tr k with
  | nil =>
    rw [runs_ask.mp h]
    exact ⟨fun _ => .none, rfl⟩
  | cons tc rest ih =>
    obtain ⟨p, tr', h', rfl⟩ := runs_ask_bind.mp h
    cases hr : runInSandbox job.sandboxConfig p with
    | error e =>
      rw [hr] at h'
      rw [runs_ask.mp h']
      exact ⟨fun _ => ⟨p, .failed ""⟩, by rw [judgeCases, hr]; rfl⟩
    | ok run =>
      rw [hr] at h'
      obtain ⟨tr₁, case, tr₂, h₁, h₂, rfl⟩ := runs_bind.mp h'
      have hw := writes_judgeCase h₁
      obtain ⟨-, scorer, rfl⟩ := runs_judgeCase h₁
      rw [add_caseStatus] at h₂
      obtain ⟨runs, hu⟩ := ih (k + 1) h₂
      refine ⟨Function.update runs k ⟨p, scorer⟩, ?_⟩
      change writes (tr₁ ++ tr₂) = _
      rw [writes_append, hw, List.nil_append, hu, judgeCases, Function.update_self, hr]
      dsimp only
      have hupdate : ∀ i, k + 1 ≤ i → Function.update runs k ⟨p, scorer⟩ i = runs i := fun i hi =>
        Function.update_of_ne (by omega) _ _
      rw [judgeCases_congr hupdate]

end

/-! ## `judge` -/

/-- `compile` can come to a result for a job. -/
def JudgeJob.CompilesTo (job : JudgeJob) (r : Except String CompileOutput) : Prop :=
  ∃ workDir tr, (compile job.sourceCode job.language workDir).run.Runs tr (r.mapError .error)

/-- An environment in which `compile` comes to what it can. -/
def JudgeEnv.Realizes (env : JudgeEnv) (job : JudgeJob) : Prop :=
  ∀ u, env.tempdir = .ok u → job.CompilesTo env.compiled

section

variable {ext : Externals} {job : JudgeJob} {tr : JudgeTrace} {ending : Ending}

/-- The exchanges up to `compile`. -/
def opening (workDir : String) : JudgeTrace :=
  [⟨.write (.status .running), ()⟩, ⟨.tempdir, .ok workDir⟩]

/-- A run of `judge`, taken apart. -/
theorem runs_judgeProgram : (judgeProgram ext job).Runs tr ending ↔
    (∃ e : String, ending = .returned ∧ tr = [⟨.write (.status .running), ()⟩, ⟨.tempdir, .error e⟩,
      ⟨.write (internalError e).val, ()⟩]) ∨
    ∃ workDir trc r trl, (compile job.sourceCode job.language workDir).run.Runs trc r ∧
      (judgeCompiled ext job workDir r).Runs trl ending ∧ tr = opening workDir ++ (trc ++ trl) := by
  constructor
  · intro h
    obtain ⟨_, tr₁, h₁, rfl⟩ := runs_ask_bind.mp h
    obtain ⟨dir, tr₂, h₂, rfl⟩ := runs_ask_bind.mp h₁
    cases dir with
    | error e =>
      obtain ⟨_, tr₃, h₃, rfl⟩ := runs_ask_bind.mp h₂
      obtain ⟨rfl, rfl⟩ := runs_pure.mp h₃
      exact .inl ⟨e, rfl, rfl⟩
    | ok workDir =>
      obtain ⟨trc, r, trl, hc, hl, rfl⟩ := runs_bind.mp h₂
      exact .inr ⟨workDir, trc, r, trl, hc, hl, rfl⟩
  · rintro (⟨e, rfl, rfl⟩ | ⟨workDir, trc, r, trl, hc, hl, rfl⟩)
    · exact runs_ask_bind.mpr ⟨(), _, runs_ask_bind.mpr ⟨.error e, _, runs_ask_bind.mpr
        ⟨(), [], runs_pure.mpr ⟨rfl, rfl⟩, rfl⟩, rfl⟩, rfl⟩
    · exact runs_ask_bind.mpr ⟨(), _, runs_ask_bind.mpr ⟨.ok workDir, _, .bind hc hl, rfl⟩, rfl⟩

theorem compile_noPanic {workDir : String} {r : Except Fault CompileOutput}
    (h : (compile job.sourceCode job.language workDir).run.Runs tr r) :
    ∃ r' : Except String CompileOutput, r = r'.mapError .error := by
  have hpanic := (part_compile _ _ _ _ _ h).2
  cases r with
  | ok compiled => exact ⟨.ok compiled, rfl⟩
  | error fault =>
    cases fault with
    | panic => exact absurd rfl (hpanic _ rfl)
    | error e => exact ⟨.error e, rfl⟩

/-- What is written with a temporary directory, as of `compile`. -/
theorem writes_opening {workDir : String} {trc trl : JudgeTrace} {r : Except Fault CompileOutput}
    (h : (compile job.sourceCode job.language workDir).run.Runs trc r) :
    writes (opening workDir ++ (trc ++ trl)) = .status .running :: writes trl := by
  rw [writes_append, writes_append, writes_eq_nil (part_compile _ _ _ _ _ h).1, List.nil_append]
  rfl

/-- What `judge` does after `compile`, which has not panicked. -/
theorem writes_judgeCompiled {workDir : String} {r : Except String CompileOutput}
    (h : (judgeCompiled ext job workDir (r.mapError .error)).Runs tr ending) :
    ending = .returned ∧
      ∃ runs, writes tr = [(judgeFinal ext job ⟨.ok (), r, runs⟩).val] := by
  cases r with
  | error e =>
    obtain ⟨_, tr₁, h₁, rfl⟩ := runs_ask_bind.mp h
    obtain ⟨rfl, rfl⟩ := runs_pure.mp h₁
    exact ⟨rfl, fun _ => .none, rfl⟩
  | ok compiled =>
    change (judgeCompiled ext job workDir (.ok compiled)).Runs tr ending at h
    unfold judgeCompiled at h
    cases he : compiled.error with
    | some msg =>
      simp only [he] at h
      obtain ⟨_, tr₁, h₁, rfl⟩ := runs_ask_bind.mp h
      obtain ⟨rfl, rfl⟩ := runs_pure.mp h₁
      refine ⟨rfl, fun _ => .none, ?_⟩
      simp only [judgeFinal, he]
      rfl
    | none =>
      simp only [he] at h
      obtain ⟨tr₁, u, tr₂, h₁, h₂, rfl⟩ := runs_bind.mp h
      obtain ⟨rfl, rfl⟩ := runs_pure.mp h₂
      obtain ⟨runs, hu⟩ := writes_judgeLoop 0 h₁
      exact ⟨rfl, runs, by rw [List.append_nil, hu, ← judgeFinal_compiledTo he]; rfl⟩

/-- A run of `judge` does not panic, and writes what judging comes to. -/
theorem writes_judgeProgram (h : (judgeProgram ext job).Runs tr ending) : ending = .returned ∧
    ∃ env : JudgeEnv, env.Realizes job ∧
      writes tr = [.status .running, (judgeFinal ext job env).val] := by
  rcases runs_judgeProgram.mp h with ⟨e, rfl, rfl⟩ | ⟨workDir, trc, r, trl, hc, hl, rfl⟩
  · exact ⟨rfl, ⟨.error e, .error e, fun _ => .none⟩, fun _ h => (nomatch h), rfl⟩
  · obtain ⟨r, rfl⟩ := compile_noPanic hc
    obtain ⟨rfl, runs, hu⟩ := writes_judgeCompiled hl
    refine ⟨rfl, ⟨.ok (), r, runs⟩, fun _ _ => ⟨workDir, trc, hc⟩, ?_⟩
    rw [writes_opening hc, hu]

end

end MikanJudge

import MikanJudge.Proof.Judging
import MikanJudge.Proof.Outcomes
import MikanJudge.Proof.Verdict

/-!
# What judging asks for

All files `judge` writes lie in its temporary directory, which is there before, the
submitted program is run on the inputs of the test cases, one after another, as
`compile` said, and a scorer gets the input and the output of the run right before
it (`judge_asks`). A compile error is reported exactly for a compiler that ran and failed,
and for an interpreted language for a check that did not run
(`compile_error_iff`).
-/

namespace MikanJudge

open MikanJudge.Lib Program

/-- A run of the submitted program. -/
structure SandboxCall where
  executable : String
  args : List String
  stdin : String
  config : SandboxConfig

/-- The runs in a trace, in order. -/
def sandboxCalls (tr : JudgeTrace) : List SandboxCall :=
  tr.filterMap fun x => match x.1 with
    | .sandbox executable args stdin config => some ⟨executable, args, stdin, config⟩
    | _ => none

theorem sandboxCalls_append (tr tr' : JudgeTrace) :
    sandboxCalls (tr ++ tr') = sandboxCalls tr ++ sandboxCalls tr' := List.filterMap_append

/-- The run of a test case. -/
def CompileOutput.call (compiled : CompileOutput) (job : JudgeJob) (tc : String × Option String) :
    SandboxCall := ⟨compiled.executable, compiled.runArgs, tc.1, job.sandboxConfig⟩

/-- No compiler and no syntax check. -/
def Uncompiled (tr : JudgeTrace) : Prop := ∀ y ∈ tr, ∀ secs cmd, y.1 ≠ .outputWithin secs cmd

theorem uncompiled_nil : Uncompiled [] := fun _ h => (List.not_mem_nil h).elim

theorem uncompiled_append {tr tr' : JudgeTrace} :
    Uncompiled (tr ++ tr') ↔ Uncompiled tr ∧ Uncompiled tr' := List.forall_mem_append

theorem uncompiled_cons {y : Exchange JudgeRequest.Reply} {tr : JudgeTrace} :
    Uncompiled (y :: tr) ↔ (∀ secs cmd, y.1 ≠ .outputWithin secs cmd) ∧ Uncompiled tr :=
  List.forall_mem_cons

/-- What `judge` may write to its directory. -/
def JudgeJob.MayWrite (job : JudgeJob) (workDir path content : String) : Prop :=
  path = Path.join workDir job.language.sourceFileName ∧ content = job.sourceCode ∨
    (path = scorerInput workDir ∧ ∃ tc ∈ job.testcases, content = tc.1) ∨
    path = scorerOutput workDir

/-- A file is written after the directory is there, and only in it. -/
def FileWritten (job : JudgeJob) (workDir : String) (pre : JudgeTrace)
    (x : Exchange JudgeRequest.Reply) : Prop :=
  ∀ path content, x.1 = .writeFile path content →
    ⟨.tempdir, .ok workDir⟩ ∈ pre ∧ job.MayWrite workDir path content

/-- A command without a timeout only looks up a name, or it is the scorer, called for the
run of a test case that ended well, with its input and its output. -/
def ScoredRun (job : JudgeJob) (workDir : String) (compiled : CompileOutput) (pre : JudgeTrace)
    (x : Exchange JudgeRequest.Reply) : Prop :=
  ∀ cmd, x.1 = .output cmd → cmd.program ≠ "which" → job.isHeuristic = true ∧
    ∃ scorer, job.scorerPath = some scorer ∧ cmd = scorerCommand scorer workDir ∧
    ∃ tc ∈ job.testcases, ∃ p : ProcRun, (parentCollect job.sandboxConfig p).status = .ok ∧
      [⟨.sandbox compiled.executable compiled.runArgs tc.1 job.sandboxConfig, .ok p⟩,
        ⟨.writeFile (scorerInput workDir) tc.1, .ok ()⟩,
        ⟨.writeFile (scorerOutput workDir)
          (fromUtf8Lossy (parentCollect job.sandboxConfig p).stdout), .ok ()⟩] <:+ pre

section

variable {ext : Externals} {job : JudgeJob} {workDir : String} {compiled : CompileOutput}
  {tr : JudgeTrace}

theorem ScoredRun.append {pre' : JudgeTrace} {x : Exchange JudgeRequest.Reply} (pre : JudgeTrace)
    (h : ScoredRun job workDir compiled pre' x) : ScoredRun job workDir compiled (pre ++ pre') x := by
  intro cmd hx hcmd
  obtain ⟨hh, scorer, hs, hc, tc, htc, p, hp, hsuffix⟩ := h cmd hx hcmd
  exact ⟨hh, scorer, hs, hc, tc, htc, p, hp, hsuffix.trans (List.suffix_append _ _)⟩

/-- An exchange that is no scorer. -/
theorem ScoredRun.of_which {pre : JudgeTrace} {x : Exchange JudgeRequest.Reply}
    (h : ∀ cmd, x.1 = .output cmd → cmd.program = "which") : ScoredRun job workDir compiled pre x :=
  fun cmd hx hcmd => absurd (h cmd hx) hcmd

/-! ## The loop -/

/-- What the loop over some of the test cases asks for. -/
structure LoopAsks (job : JudgeJob) (workDir : String) (compiled : CompileOutput)
    (rest : List (String × Option String)) (tr : JudgeTrace) : Prop where
  calls : ∃ n ≤ rest.length, sandboxCalls tr = (rest.take n).map (compiled.call job) ∧
    (n < rest.length → ∃ e, writes tr = [(internalError e).val])
  files : ∀ x ∈ tr, ∀ path content, x.1 = .writeFile path content → job.MayWrite workDir path content
  scored : Throughout (ScoredRun job workDir compiled) tr
  uncompiled : Uncompiled tr

/-- What one case asks for besides its run. -/
theorem asks_judgeCase {tc : String × Option String} {p : ProcRun} {case : FinalStatus × Option F64}
    (htc : tc ∈ job.testcases)
    (h : (judgeCase ext job workDir tc.1 tc.2 (parentCollect job.sandboxConfig p)).Runs tr case) :
    sandboxCalls tr = [] ∧
      (∀ x ∈ tr, ∀ path content, x.1 = .writeFile path content →
        job.MayWrite workDir path content) ∧
      Throughout (ScoredRun job workDir compiled)
        (⟨.sandbox compiled.executable compiled.runArgs tc.1 job.sandboxConfig, .ok p⟩ :: tr) ∧
      Uncompiled tr := by
  have hrun : ScoredRun job workDir compiled []
      ⟨.sandbox compiled.executable compiled.runArgs tc.1 job.sandboxConfig, .ok p⟩ :=
    .of_which fun _ h => nomatch h
  have hfile : ∀ {pre path content} {r : Except String Unit},
      ScoredRun job workDir compiled pre ⟨.writeFile path content, r⟩ :=
    .of_which fun _ h => nomatch h
  have hin : job.MayWrite workDir (scorerInput workDir) tc.1 := .inr (.inl ⟨rfl, tc, htc, rfl⟩)
  have hout : job.MayWrite workDir (scorerOutput workDir)
      (fromUtf8Lossy (parentCollect job.sandboxConfig p).stdout) := .inr (.inr rfl)
  rcases (runs_judgeCase h).1 with rfl | ⟨hok, hheuristic, scorer, hscorer, hs⟩
  · exact ⟨rfl, fun _ h => (List.not_mem_nil h).elim, throughout_cons.mpr ⟨hrun, throughout_nil⟩,
      uncompiled_nil⟩
  · cases hs with
    | input e =>
      refine ⟨rfl, fun x hx path content e => ?_, ?_, by simp [Uncompiled]⟩
      · rw [List.mem_singleton.mp hx] at e
        cases e
        exact hin
      · exact throughout_cons.mpr ⟨hrun, throughout_cons.mpr ⟨hfile, throughout_nil⟩⟩
    | output e =>
      refine ⟨rfl, fun x hx path content e => ?_, ?_, by simp [Uncompiled]⟩
      · rcases List.mem_cons.mp hx with rfl | hx
        · cases e
          exact hin
        · rw [List.mem_singleton.mp hx] at e
          cases e
          exact hout
      · exact throughout_cons.mpr ⟨hrun, throughout_cons.mpr ⟨hfile,
          throughout_cons.mpr ⟨hfile, throughout_nil⟩⟩⟩
    | command r =>
      refine ⟨rfl, fun x hx path content e => ?_, ?_, by simp [Uncompiled]⟩
      · rcases List.mem_cons.mp hx with rfl | hx
        · cases e
          exact hin
        · rcases List.mem_cons.mp hx with rfl | hx
          · cases e
            exact hout
          · rw [List.mem_singleton.mp hx] at e
            cases e
      · refine throughout_cons.mpr ⟨hrun, throughout_cons.mpr ⟨hfile,
          throughout_cons.mpr ⟨hfile, throughout_cons.mpr ⟨?_, throughout_nil⟩⟩⟩⟩
        intro cmd hx _
        cases hx
        exact ⟨hheuristic, scorer, hscorer, rfl, tc, htc, p, hok, List.suffix_refl _⟩

theorem asks_judgeLoop {rest : List (String × Option String)} {acc : Accum} {u : Unit}
    (hrest : rest ⊆ job.testcases)
    (h : (judgeLoop ext job workDir compiled rest acc).Runs tr u) :
    LoopAsks job workDir compiled rest tr := by
  have hwrite : ∀ {u : RowUpdate} {r : Unit}, Throughout (ScoredRun job workDir compiled)
      [⟨.write u, r⟩] := throughout_cons.mpr ⟨.of_which fun _ h => (nomatch h), throughout_nil⟩
  induction rest generalizing acc tr with
  | nil =>
    rw [runs_ask.mp h]
    refine ⟨⟨0, le_rfl, rfl, fun h => absurd h (Nat.lt_irrefl _)⟩, fun x hx path content e => ?_, hwrite,
      by simp [Uncompiled]⟩
    rw [List.mem_singleton.mp hx] at e
    cases e
  | cons tc rest ih =>
    obtain ⟨p, tr', h', rfl⟩ := runs_ask_bind.mp h
    cases p with
    | error e =>
      rw [runs_ask.mp (show (setStatus (.internalError e)).Runs tr' u from h')]
      refine ⟨⟨1, by rw [List.length_cons]; omega, rfl, fun _ => ⟨e, rfl⟩⟩,
        fun x hx path content e => ?_, throughout_cons.mpr ⟨.of_which fun _ h => (nomatch h), ?_⟩,
        by simp [Uncompiled]⟩
      · rcases List.mem_cons.mp hx with rfl | hx
        · cases e
        · rw [List.mem_singleton.mp hx] at e
          cases e
      · exact throughout_cons.mpr ⟨.of_which fun _ h => (nomatch h), throughout_nil⟩
    | ok p =>
      obtain ⟨tr₁, case, tr₂, h₁, h₂, rfl⟩ := runs_bind.mp
        (show (judgeCase ext job workDir tc.1 tc.2 (parentCollect job.sandboxConfig p) >>= fun case =>
          judgeLoop ext job workDir compiled rest (acc.add compiled _ case)).Runs tr' u from h')
      have htc : tc ∈ job.testcases := hrest List.mem_cons_self
      obtain ⟨hcalls, hfiles, hscored, hun⟩ := asks_judgeCase htc h₁
      obtain ⟨⟨n, hn, hcalls₂, herr⟩, hfiles₂, hscored₂, hun₂⟩ :=
        ih (fun _ h => hrest (List.mem_cons_of_mem _ h)) h₂
      refine ⟨⟨n + 1, by rw [List.length_cons]; omega, ?_, fun hlt => ?_⟩,
        fun x hx path content e => ?_, ?_, ?_⟩
      · change compiled.call job tc :: sandboxCalls (tr₁ ++ tr₂) = _
        rw [sandboxCalls_append, hcalls, List.nil_append, hcalls₂]
        rfl
      · obtain ⟨e, hw⟩ := herr (by rw [List.length_cons] at hlt; omega)
        refine ⟨e, ?_⟩
        change writes (tr₁ ++ tr₂) = _
        rw [writes_append, writes_judgeCase h₁, List.nil_append, hw]
      · rcases List.mem_cons.mp hx with rfl | hx
        · cases e
        · rcases List.mem_append.mp hx with hx | hx
          · exact hfiles x hx path content e
          · exact hfiles₂ x hx path content e
      · exact Throughout.append (fun pre _ _ h => h.append pre) hscored hscored₂
      · exact uncompiled_cons.mpr ⟨fun _ _ => JudgeRequest.noConfusion, uncompiled_append.mpr ⟨hun, hun₂⟩⟩

/-! ## The whole run -/

theorem throughout_scoredRun (h : ∀ x ∈ tr, ∀ cmd, x.1 = .output cmd → cmd.program = "which") :
    Throughout (ScoredRun job workDir compiled) tr := by
  rintro pre x post rfl
  exact .of_which (h x (List.mem_append_right _ List.mem_cons_self))

/-- What a run of `judge` asks for: the compiled program is run on the cases from the
first one on, and on all of them unless the job ends early. -/
structure JudgeAsks (job : JudgeJob) (workDir : String) (compiled : CompileOutput)
    (tr : JudgeTrace) : Prop where
  calls : ∃ n ≤ job.testcases.length,
    sandboxCalls tr = (job.testcases.take n).map (compiled.call job) ∧
      (n < job.testcases.length → ∃ u : FinalUpdate, writes tr = [.status .running, u.val] ∧
        ((∃ e, u = internalError e) ∨ ∃ msg, u = compileErrorUpdate msg))
  compiles : sandboxCalls tr ≠ [] → compiled.error = none ∧
    ∃ trc, (compile job.sourceCode job.language workDir).run.Runs trc (.ok compiled) ∧ trc <:+: tr
  files : Throughout (FileWritten job workDir) tr
  scored : Throughout (ScoredRun job workDir compiled) tr

theorem throughout_fileWritten (h : ∀ x ∈ tr, ∀ path content, x.1 ≠ .writeFile path content) :
    Throughout (FileWritten job workDir) tr := by
  rintro pre x post rfl path content e
  exact absurd e (h x (List.mem_append_right _ List.mem_cons_self) path content)

/-- What is written once the temporary directory is there. -/
theorem throughout_opening
    (h : ∀ x ∈ tr, ∀ path content, x.1 = .writeFile path content →
      job.MayWrite workDir path content) :
    Throughout (FileWritten job workDir) (opening workDir ++ tr) := by
  refine throughout_cons.mpr ⟨fun _ _ e => (nomatch e), throughout_cons.mpr
    ⟨fun _ _ e => (nomatch e), ?_⟩⟩
  rintro pre x post rfl path content e
  exact ⟨by simp, h x (List.mem_append_right _ List.mem_cons_self) path content e⟩

/-- What compiling asks for: no run, the source file, and no command without a timeout
but those that look up a name. -/
theorem asks_compile {job : JudgeJob} {r : Except Fault CompileOutput} {trc : JudgeTrace}
    (hc : (compile job.sourceCode job.language workDir).run.Runs trc r) :
    sandboxCalls trc = [] ∧
      (∀ x ∈ trc, ∀ path content, x.1 = .writeFile path content →
        job.MayWrite workDir path content) ∧
      ∀ x ∈ trc, ∀ cmd, x.1 = .output cmd → cmd.program = "which" := by
  have hof := (part_compile _ _ _ _ _ hc).1
  refine ⟨List.filterMap_eq_nil_iff.mpr fun y hy => ?_, fun x hx path content e => ?_,
    fun x hx cmd e => ?_⟩
  · obtain ⟨e, r⟩ := y
    rcases hof _ hy with h | h | ⟨secs, cmd, h⟩
    · cases e <;> first | rfl | exact h.elim
    · cases h
      rfl
    · cases h
      rfl
  · have hx := hof x hx
    rw [e] at hx
    rcases hx with h | h | ⟨_, _, h⟩
    · exact h.elim
    · cases h
      exact .inl ⟨rfl, rfl⟩
    · cases h
  · have hx := hof x hx
    rw [e] at hx
    rcases hx with h | h | ⟨_, _, h⟩
    · exact h
    · cases h
    · cases h

theorem asks_opening {job : JudgeJob} (compiled : CompileOutput) {trl : JudgeTrace}
    {r : Except Fault CompileOutput} {trc : JudgeTrace}
    (hc : (compile job.sourceCode job.language workDir).run.Runs trc r)
    (hfiles : ∀ x ∈ trl, ∀ path content, x.1 = .writeFile path content →
      job.MayWrite workDir path content)
    (hscored : Throughout (ScoredRun job workDir compiled) trl) :
    sandboxCalls (opening workDir ++ (trc ++ trl)) = sandboxCalls trl ∧
      Throughout (FileWritten job workDir) (opening workDir ++ (trc ++ trl)) ∧
      Throughout (ScoredRun job workDir compiled) (opening workDir ++ (trc ++ trl)) := by
  obtain ⟨hcalls, hsource, hwhich⟩ := asks_compile hc
  refine ⟨?_, throughout_opening fun x hx => ?_, ?_⟩
  · rw [sandboxCalls_append, sandboxCalls_append, hcalls]
    rfl
  · rcases List.mem_append.mp hx with hx | hx
    · exact hsource x hx
    · exact hfiles x hx
  · have happend : ∀ {tr tr'}, Throughout (ScoredRun job workDir compiled) tr →
        Throughout (ScoredRun job workDir compiled) tr' →
          Throughout (ScoredRun job workDir compiled) (tr ++ tr') :=
      Throughout.append fun pre _ _ h => h.append pre
    refine happend (throughout_scoredRun fun x hx cmd e => ?_)
      (happend (throughout_scoredRun hwhich) hscored)
    rcases List.mem_cons.mp hx with rfl | hx
    · cases e
    · rw [List.mem_singleton.mp hx] at e
      cases e

/-- A job that ends before a case is run. -/
theorem judgeAsks_of_write {trc : JudgeTrace} {r : Except Fault CompileOutput} {u : FinalUpdate}
    (hc : (compile job.sourceCode job.language workDir).run.Runs trc r)
    (hu : (∃ e, u = internalError e) ∨ ∃ msg, u = compileErrorUpdate msg) :
    JudgeAsks job workDir compiled (opening workDir ++ (trc ++ [⟨.write u.val, ()⟩])) := by
  have hwrite : ∀ x ∈ ([⟨.write u.val, ()⟩] : JudgeTrace), x = ⟨.write u.val, ()⟩ :=
    fun _ => List.mem_singleton.mp
  obtain ⟨hcalls, hfiles, hscored⟩ := asks_opening compiled hc
    (fun x hx path content e => by
      rw [hwrite x hx] at e
      cases e)
    (throughout_scoredRun fun x hx cmd e => by
      rw [hwrite x hx] at e
      cases e)
  refine ⟨⟨0, Nat.zero_le _, hcalls, fun _ => ⟨u, ?_, hu⟩⟩, fun h => absurd hcalls h, hfiles, hscored⟩
  rw [writes_opening hc]
  rfl

end

/-- What a run of `judge` asks for, whatever it is replied: only files of its directory
are written, only the compiled program is run, case by case, and only a run that
ended well is scored, on its own input and output. -/
theorem judge_asks (ext : Externals) (job : JudgeJob) (tr : JudgeTrace) (ending : Ending)
    (h : (judgeProgram ext job).Runs tr ending) :
    ∃ workDir compiled, JudgeAsks job workDir compiled tr := by
  rcases runs_judgeProgram.mp h with ⟨e, -, rfl⟩ | ⟨workDir, trc, r, trl, hc, hl, rfl⟩
  · refine ⟨"", ⟨"", [], none, ""⟩, ⟨0, Nat.zero_le _, rfl, fun _ => ⟨internalError e, rfl, .inl ⟨e, rfl⟩⟩⟩,
      fun h => absurd rfl h, throughout_fileWritten fun x hx path content e => ?_,
      throughout_scoredRun fun x hx cmd e => ?_⟩
    all_goals
      simp only [List.mem_cons, List.not_mem_nil, or_false] at hx
      rcases hx with rfl | rfl | rfl <;> cases e
  cases r with
  | error fault =>
    cases fault with
    | panic => exact absurd rfl ((part_compile _ _ _ _ _ hc).2 _ rfl)
    | error e =>
      obtain ⟨_, tr₁, h₁, rfl⟩ := runs_ask_bind.mp hl
      obtain ⟨rfl, -⟩ := runs_pure.mp h₁
      exact ⟨workDir, ⟨"", [], none, ""⟩, judgeAsks_of_write (u := internalError e) hc (.inl ⟨e, rfl⟩)⟩
  | ok compiled =>
    refine ⟨workDir, compiled, ?_⟩
    unfold judgeCompiled at hl
    cases he : compiled.error with
    | some msg =>
      simp only [he] at hl
      obtain ⟨_, tr₁, h₁, rfl⟩ := runs_ask_bind.mp hl
      obtain ⟨rfl, -⟩ := runs_pure.mp h₁
      exact judgeAsks_of_write hc (.inr ⟨msg, rfl⟩)
    | none =>
      simp only [he] at hl
      obtain ⟨tr₁, u, tr₂, h₁, h₂, rfl⟩ := runs_bind.mp hl
      obtain ⟨rfl, -⟩ := runs_pure.mp h₂
      rw [List.append_nil]
      obtain ⟨⟨n, hn, hloop, herr⟩, hfiles, hscored, -⟩ := asks_judgeLoop (List.Subset.refl _) h₁
      obtain ⟨hcalls, hfiles, hscored⟩ := asks_opening compiled hc hfiles hscored
      refine ⟨⟨n, hn, hcalls.trans hloop, fun hlt => ?_⟩,
        fun _ => ⟨he, trc, hc, opening workDir, tr₁, List.append_assoc _ _ _⟩, hfiles, hscored⟩
      obtain ⟨e, hw⟩ := herr hlt
      exact ⟨internalError e, by rw [writes_opening hc, hw], .inl ⟨e, rfl⟩⟩

/-- Surroundings in which the compiler exits as given, and a program prints `1`. -/
def compilerExiting (success : Bool) (stderr : List UInt8) : Nat → (e : JudgeRequest) → e.Reply
  | _, .write _ => ()
  | _, .tempdir => .ok "work"
  | _, .writeFile _ _ => .ok ()
  | _, .path => some "bin"
  | _, .isFile _ => true
  | _, .output _ => .error "No such file or directory"
  | _, .outputWithin _ _ => some (.ok ⟨success, [], stderr⟩)
  | _, .sandbox _ _ _ _ => .ok (printing [.byte 49])

theorem judge_asks_oneJob : ∃ workDir compiled, JudgeAsks oneJob workDir compiled
    (play (compilerExiting true []) 0 (judgeProgram .simple oneJob)).1 :=
  judge_asks .simple oneJob _ _ (runs_play (compilerExiting true []) 0 (judgeProgram .simple oneJob))

/-! ## Compile errors -/

/-- The message of the compile error for what the compiler, or the check of an
interpreted language, came to. -/
def Language.rejection (language : Language) : Option (Except String Output) → Option String
  | none => if language.isInterpreted then some "構文チェックがタイムアウトしました" else none
  | some (.error e) =>
    if language.isInterpreted then some ("インタプリタの起動に失敗しました: " ++ e) else none
  | some (.ok out) => if out.success then none else some (fromUtf8Lossy out.stderr)

/-- That `java` is found, for Java: it is looked for after its compiler. -/
def Language.Resolved (language : Language) (after : JudgeTrace) : Prop :=
  language = .java → ∃ found, (resolveCommand "java").run.Runs after (.ok found)

/-- What `compile` asks for after the compiler and comes to. -/
structure TellsAfter (language : Language) (reply : Option (Except String Output))
    (after : JudgeTrace) (r : Except Fault CompileOutput) : Prop where
  uncompiled : Uncompiled after
  ok : ∀ compiled, r = .ok compiled →
    compiled.error = language.rejection reply ∧ language.Resolved after
  error : ∀ fault, r = .error fault → language.rejection reply = none ∨ ¬ language.Resolved after

/-- How the result of `compile` is told from its exchanges. -/
def Tells (language : Language) (tr : JudgeTrace) (r : Except Fault CompileOutput) : Prop :=
  (Uncompiled tr ∧ ∀ compiled, r = .ok compiled → compiled.error = none) ∨
  ∃ pre secs cmd reply after, tr = pre ++ ⟨.outputWithin secs cmd, reply⟩ :: after ∧
    Uncompiled pre ∧ TellsAfter language reply after r

section

variable {language : Language} {tr : JudgeTrace}

theorem tells_error {fault : Fault} (h : Uncompiled tr) : Tells language tr (.error fault) :=
  .inl ⟨h, fun _ e => nomatch e⟩

theorem tells_ok {compiled : CompileOutput} (h : Uncompiled tr) (he : compiled.error = none) :
    Tells language tr (.ok compiled) := .inl ⟨h, fun _ e => Except.ok.inj e ▸ he⟩

theorem Tells.append {tr' : JudgeTrace} {r : Except Fault CompileOutput} (h : Uncompiled tr)
    (h' : Tells language tr' r) : Tells language (tr ++ tr') r := by
  rcases h' with ⟨h', hr⟩ | ⟨pre, secs, cmd, reply, after, rfl, hpre, hafter⟩
  · exact .inl ⟨uncompiled_append.mpr ⟨h, h'⟩, hr⟩
  · exact .inr ⟨tr ++ pre, secs, cmd, reply, after, (List.append_assoc _ _ _).symm,
      uncompiled_append.mpr ⟨h, hpre⟩, hafter⟩

/-- A part before the compiler. -/
theorem tells_bind {α : Type} {S : JudgeRequest → Prop} {B : Fault → Prop} {x : Fallible α}
    {g : α → Fallible CompileOutput} (hx : Within S B x)
    (hS : ∀ e, S e → ∀ secs cmd, e ≠ .outputWithin secs cmd)
    (hg : ∀ a, (g a).run.Ensures (Tells language)) : (x >>= g).run.Ensures (Tells language) := by
  have huncompiled : ∀ {tr r}, x.run.Runs tr r → Uncompiled tr := fun h y hy =>
    hS y.1 ((hx _ _ h).1 y hy)
  refine Ensures.bind_run (Q := fun tr _ => Uncompiled tr) (fun tr r => huncompiled)
    (fun tr err h => tells_error h) fun tr a h tr' d hr => ?_
  exact (hg a tr' d hr).append h

theorem JudgeRequest.Looks.ne_outputWithin {e : JudgeRequest} (h : e.Looks) (secs : Nat)
    (cmd : Command) : e ≠ outputWithin secs cmd := by
  rintro rfl
  exact h

theorem within_orPanic {α : Type} (x : Option α) :
    Within (fun _ => False) (fun _ => True) (orPanic x) := by
  cases x with
  | none => exact Within.throw trivial
  | some a => exact Within.pure

theorem tells_orPanic {α : Type} (x : Option α) {g : α → Fallible CompileOutput}
    (hg : ∀ a, (g a).run.Ensures (Tells language)) :
    (orPanic x >>= g).run.Ensures (Tells language) :=
  tells_bind (within_orPanic x) (fun _ h => h.elim) hg

theorem tells_resolveCommand (name : String) {g : String → Fallible CompileOutput}
    (hg : ∀ a, (g a).run.Ensures (Tells language)) :
    (resolveCommand name >>= g).run.Ensures (Tells language) :=
  tells_bind (within_resolveCommand name) (fun _ => JudgeRequest.Looks.ne_outputWithin) hg

theorem tells_outputWithin {secs : Nat} {cmd : Command}
    {g : Option (Except String Output) → Fallible CompileOutput}
    (hg : ∀ reply, (g reply).run.Ensures (TellsAfter language reply)) :
    (liftM (Ask.outputWithin secs cmd) >>= g).run.Ensures (Tells language) := by
  intro tr d hr
  rcases runs_bind_run.mp hr with ⟨err, h, rfl⟩ | ⟨tr₁, reply, after, h, h', rfl⟩
  · obtain ⟨_, -, h⟩ := runs_lift.mp h
    cases h
  · obtain ⟨_, h, e⟩ := runs_lift.mp h
    cases e
    rw [runs_ask.mp h]
    exact .inr ⟨[], secs, cmd, reply, after, rfl, uncompiled_nil, hg reply after d h'⟩

theorem runs_runCompiler {cmd : Command} {d : Except Fault Output}
    (h : (runCompiler cmd).run.Runs tr d) : ∃ reply, tr = [⟨.outputWithin 30 cmd, reply⟩] ∧
      ((∃ out, reply = some (.ok out) ∧ d = .ok out) ∨
        (∀ out, reply ≠ some (.ok out)) ∧ ∃ fault, d = .error fault) := by
  rcases runs_bind_run.mp h with ⟨err, h₁, rfl⟩ | ⟨tr₁, reply, tr₂, h₁, h₂, rfl⟩
  · obtain ⟨_, -, e⟩ := runs_lift.mp h₁
    cases e
  · obtain ⟨_, h₁, e⟩ := runs_lift.mp h₁
    cases e
    rw [runs_ask.mp h₁]
    refine ⟨reply, ?_⟩
    rcases reply with _ | e | out
    · obtain ⟨rfl, rfl⟩ := runs_pure.mp h₂
      exact ⟨rfl, .inr ⟨fun _ => nofun, _, rfl⟩⟩
    · obtain ⟨rfl, rfl⟩ := runs_pure.mp h₂
      exact ⟨rfl, .inr ⟨fun _ => nofun, _, rfl⟩⟩
    · obtain ⟨rfl, rfl⟩ := runs_pure.mp h₂
      exact ⟨rfl, .inl ⟨out, rfl, rfl⟩⟩

theorem tells_runCompiler {cmd : Command} {g : Output → Fallible CompileOutput}
    (hl : language.isInterpreted = false)
    (hg : ∀ out, (g out).run.Ensures (TellsAfter language (some (.ok out)))) :
    (runCompiler cmd >>= g).run.Ensures (Tells language) := by
  intro tr d hr
  rcases runs_bind_run.mp hr with ⟨err, h, rfl⟩ | ⟨tr₁, out, after, h, h', rfl⟩
  · obtain ⟨reply, rfl, ⟨_, -, e⟩ | ⟨hreply, -⟩⟩ := runs_runCompiler h
    · cases e
    refine .inr ⟨[], 30, cmd, reply, [], rfl, uncompiled_nil, uncompiled_nil, fun _ h => (nomatch h),
      fun _ _ => .inl ?_⟩
    rcases reply with _ | e | out
    · simp [Language.rejection, hl]
    · simp [Language.rejection, hl]
    · exact absurd rfl (hreply out)
  · obtain ⟨reply, rfl, ⟨_, rfl, e⟩ | ⟨-, _, e⟩⟩ := runs_runCompiler h
    · cases e
      exact .inr ⟨[], 30, cmd, _, after, rfl, uncompiled_nil, hg out after d h'⟩
    · cases e

theorem compileOutput_error (executable : String) (runArgs : List String) (out : Output) :
    (compileOutput executable runArgs out).error = language.rejection (some (.ok out)) := by
  unfold compileOutput
  split_ifs with h <;> simp [Language.rejection, h]

/-- Each run of `compile` tells how it went. -/
theorem tells_compile (sourceCode : String) (language : Language) (workDir : String) :
    (compile sourceCode language workDir).run.Ensures (Tells language) := by
  have hnative : ∀ srcPath, language.isInterpreted = false → language ≠ .java →
      (compileNative language srcPath workDir).run.Ensures (Tells language) := by
    intro srcPath hl hjava
    refine tells_orPanic _ fun _ => tells_resolveCommand _ fun _ => tells_orPanic _ fun _ =>
      tells_runCompiler hl fun out => Ensures.pure ⟨uncompiled_nil, ?_, fun _ h => (nomatch h)⟩
    rintro _ ⟨⟩
    exact ⟨compileOutput_error _ _ out, fun h => absurd h hjava⟩
  have hinterpreted : ∀ srcPath, language.isInterpreted = true → language ≠ .java →
      (compileInterpreted language srcPath).run.Ensures (Tells language) := by
    intro srcPath hl hjava
    refine tells_orPanic _ fun _ => tells_resolveCommand _ fun _ =>
      tells_outputWithin fun reply => Ensures.pure ⟨uncompiled_nil, ?_, fun _ h => (nomatch h)⟩
    rintro _ ⟨⟩
    refine ⟨?_, fun h => absurd h hjava⟩
    rcases reply with _ | e | out
    · simp [Language.rejection, hl]
    · simp [Language.rejection, hl]
    · cases hs : out.success <;> simp [Language.rejection, hs]
  have hwrite : ∀ e, JudgeRequest.writeFile (Path.join workDir language.sourceFileName) sourceCode = e →
      ∀ secs cmd, e ≠ .outputWithin secs cmd := by
    rintro _ rfl _ _ ⟨⟩
  refine tells_bind (within_orFail (ensures_ask rfl)) hwrite fun _ => ?_
  cases language with
  | text => exact tells_resolveCommand _ fun _ => Ensures.pure (tells_ok uncompiled_nil rfl)
  | python => exact hinterpreted _ rfl nofun
  | pyPy => exact hinterpreted _ rfl nofun
  | java =>
    refine tells_orPanic _ fun _ => tells_resolveCommand _ fun _ => tells_orPanic _ fun _ =>
      tells_runCompiler rfl fun out tr d hr => ?_
    have huncompiled : ∀ {tr r}, (resolveCommand "java").run.Runs tr r → Uncompiled tr := fun h y hy =>
      ((within_resolveCommand _ _ _ h).1 y hy).ne_outputWithin
    rcases runs_bind_run.mp hr with ⟨err, h, rfl⟩ | ⟨after, java, tr₂, h, h', rfl⟩
    · refine ⟨huncompiled h, fun _ h => (nomatch h), fun _ _ => .inr fun hjava => ?_⟩
      obtain ⟨_, h'⟩ := hjava rfl
      cases h.unique h'
    · obtain ⟨rfl, rfl⟩ := runs_pure.mp h'
      rw [List.append_nil]
      refine ⟨huncompiled h, ?_, fun _ h => (nomatch h)⟩
      rintro _ ⟨⟩
      exact ⟨compileOutput_error _ _ out, fun _ => ⟨java, h⟩⟩
  | cpp => exact hnative _ rfl nofun
  | rust => exact hnative _ rfl nofun
  | go => exact hnative _ rfl nofun

theorem Uncompiled.ne_split {pre after : JudgeTrace} {secs : Nat} {cmd : Command}
    {reply : Option (Except String Output)} (h : Uncompiled tr) :
    tr ≠ pre ++ ⟨.outputWithin secs cmd, reply⟩ :: after := by
  rintro rfl
  exact h _ (List.mem_append_right _ List.mem_cons_self) secs cmd rfl

/-- The one call of a compiler in a trace. -/
theorem split_unique {pre pre' after after' : JudgeTrace} {secs secs' : Nat} {cmd cmd' : Command}
    {reply reply' : Option (Except String Output)} (hpre : Uncompiled pre) (hafter : Uncompiled after)
    (h : pre ++ ⟨.outputWithin secs cmd, reply⟩ :: after =
      pre' ++ ⟨.outputWithin secs' cmd', reply'⟩ :: after') : reply = reply' ∧ after = after' := by
  rcases List.append_eq_append_iff.mp h with ⟨mid, -, e⟩ | ⟨mid, rfl, e⟩
  · cases mid with
    | nil =>
      cases e
      exact ⟨rfl, rfl⟩
    | cons y mid =>
      cases e
      exact absurd rfl (hafter _ (List.mem_append_right _ List.mem_cons_self) secs' cmd')
  · cases mid with
    | nil =>
      cases e
      exact ⟨rfl, rfl⟩
    | cons y mid =>
      cases e
      exact absurd rfl (hpre _ (List.mem_append_right _ List.mem_cons_self) secs' cmd')

/-- After `compile`: no compiler, and only the row is written unless the cases are
judged. -/
theorem runs_judgeCompiled {ext : Externals} {job : JudgeJob} {workDir : String}
    {r : Except String CompileOutput} {ending : Ending}
    (h : (judgeCompiled ext job workDir (r.mapError .error)).Runs tr ending) : Uncompiled tr ∧
      ((∃ x, tr = [x]) ∨ ∃ compiled, r = .ok compiled ∧ compiled.error = none) := by
  have hwrite : ∀ {u : RowUpdate}, (do Ask.write u; return Ending.returned : JudgeProgram Ending).Runs tr ending →
      Uncompiled tr ∧ ∃ x, tr = [x] := by
    intro u h
    obtain ⟨_, tr₁, h₁, rfl⟩ := runs_ask_bind.mp h
    obtain ⟨rfl, -⟩ := runs_pure.mp h₁
    exact ⟨by simp [Uncompiled], _, rfl⟩
  cases r with
  | error e => exact (hwrite h).imp_right .inl
  | ok compiled =>
    change (judgeCompiled ext job workDir (.ok compiled)).Runs tr ending at h
    unfold judgeCompiled at h
    cases he : compiled.error with
    | some msg =>
      simp only [he] at h
      exact (hwrite h).imp_right .inl
    | none =>
      simp only [he] at h
      obtain ⟨tr₁, u, tr₂, h₁, h₂, rfl⟩ := runs_bind.mp h
      obtain ⟨rfl, -⟩ := runs_pure.mp h₂
      rw [List.append_nil]
      exact ⟨(asks_judgeLoop (List.Subset.refl _) h₁).uncompiled, .inr ⟨compiled, rfl, he⟩⟩

theorem judgeFinal_eq_compileErrorUpdate {ext : Externals} {job : JudgeJob}
    {r : Except String CompileOutput} {runs : Nat → CaseRun} {msg : String} :
    (judgeFinal ext job ⟨.ok (), r, runs⟩).val = (compileErrorUpdate msg).val ↔
      ∃ compiled, r = .ok compiled ∧ compiled.error = some msg := by
  cases r with
  | error e =>
    constructor
    · rintro ⟨⟩
    · rintro ⟨_, ⟨⟩, _⟩
  | ok compiled =>
    cases he : compiled.error with
    | some m =>
      simp only [judgeFinal, he, compileErrorUpdate]
      simp [he]
    | none =>
      constructor
      · intro h
        have hends := judgeEnds ext job ⟨.ok (), .ok compiled, runs⟩
        generalize judgeFinal ext job ⟨.ok (), .ok compiled, runs⟩ = u at h hends
        cases hends with
        | internalError e => cases h
        | compileError _ hcompiled herror =>
          cases hcompiled
          cases herror.symm.trans he
        | finished _ => cases (RowUpdate.result.inj h).2.2.2.1
      · rintro ⟨_, ⟨⟩, h⟩
        cases h.symm.trans he

end

/-- `judge` ends with a compile error exactly if the compiler, or the check of an
interpreted language, ran and rejected the source, and `java` is found for Java. -/
theorem compile_error_iff (ext : Externals) (job : JudgeJob) (tr : JudgeTrace) (ending : Ending)
    (h : (judgeProgram ext job).Runs tr ending) (msg : String) :
    writes tr = [.status .running, (compileErrorUpdate msg).val] ↔
      ∃ pre secs cmd reply after, tr = pre ++ ⟨.outputWithin secs cmd, reply⟩ :: after ∧
        job.language.rejection reply = some msg ∧ job.language.Resolved after.dropLast := by
  rcases runs_judgeProgram.mp h with ⟨e, -, rfl⟩ | ⟨workDir, trc, r, trl, hc, hl, rfl⟩
  · refine ⟨fun h => (nomatch h), ?_⟩
    rintro ⟨_, _, _, _, _, e, -, -⟩
    exact absurd e (Uncompiled.ne_split (by simp [Uncompiled]))
  obtain ⟨r, rfl⟩ := compile_noPanic hc
  obtain ⟨-, runs, hfinal⟩ := writes_judgeCompiled hl
  rw [writes_opening hc, hfinal, List.cons.injEq, eq_self, true_and, List.cons.injEq,
    and_iff_left rfl, judgeFinal_eq_compileErrorUpdate]
  obtain ⟨htrl, hstop⟩ := runs_judgeCompiled hl
  have hopening : Uncompiled (opening workDir) := by simp [Uncompiled, opening]
  rcases tells_compile _ _ _ _ _ hc with ⟨htrc, hr⟩ |
    ⟨pre, secs, cmd, reply, after, rfl, hpre, hafter⟩
  · constructor
    · rintro ⟨compiled, hcompiled, herror⟩
      have hnone := hr compiled (by rw [hcompiled]; rfl)
      exact nomatch hnone.symm.trans herror
    · rintro ⟨_, _, _, _, _, e, -, -⟩
      exact absurd e (uncompiled_append.mpr ⟨hopening, uncompiled_append.mpr ⟨htrc, htrl⟩⟩).ne_split
  have hsplit : opening workDir ++ (pre ++ ⟨.outputWithin secs cmd, reply⟩ :: after ++ trl) =
      opening workDir ++ pre ++ ⟨.outputWithin secs cmd, reply⟩ :: (after ++ trl) := by simp
  rw [hsplit]
  constructor
  · rintro ⟨compiled, rfl, herror⟩
    obtain ⟨hok, hresolved⟩ := hafter.ok compiled rfl
    obtain ⟨x, rfl⟩ : ∃ x, trl = [x] := by
      rcases hstop with h | ⟨_, hcompiled, hnone⟩
      · exact h
      · cases hcompiled
        exact nomatch hnone.symm.trans herror
    refine ⟨_, secs, cmd, reply, _, rfl, hok.symm.trans herror, ?_⟩
    rwa [List.dropLast_concat]
  · rintro ⟨pre', secs', cmd', reply', after', e, hrejection, hresolved⟩
    obtain ⟨rfl, rfl⟩ := split_unique (uncompiled_append.mpr ⟨hopening, hpre⟩)
      (uncompiled_append.mpr ⟨hafter.uncompiled, htrl⟩) e
    cases r with
    | ok compiled =>
      exact ⟨compiled, rfl, (hafter.ok compiled rfl).1.trans hrejection⟩
    | error err =>
      obtain ⟨x, rfl⟩ : ∃ x, trl = [x] := hstop.resolve_right fun ⟨_, h, _⟩ => nomatch h
      rw [List.dropLast_concat] at hresolved
      rcases hafter.error _ rfl with hnone | hno
      · exact nomatch hnone.symm.trans hrejection
      · exact absurd hresolved hno

theorem compile_error_iff_oneJob :
    writes (play (compilerExiting false [0x65]) 0 (judgeProgram .simple oneJob)).1 =
      [.status .running, (compileErrorUpdate "e").val] :=
  (compile_error_iff .simple oneJob _ _
    (runs_play (compilerExiting false [0x65]) 0 (judgeProgram .simple oneJob)) "e").mpr
    ⟨_, _, _, _, _, (List.take_append_drop 5 _).symm, by decide, nofun⟩

end MikanJudge

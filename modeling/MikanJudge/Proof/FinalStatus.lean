import MikanJudge.Proof.Verdict

/-!
# Whether judging ends

`judge` only logs a write that fails, and the database refuses a text that
holds U+0000. So a submission ends with a terminal status exactly if the texts
of the last write are free of it (`not_unfinished_judge_iff`), which is a
condition on what the compiler and the first failing case wrote
(`JudgeEnv.TextsOk`): a lossily decoded output holds U+0000 wherever the
program wrote a zero byte.
-/

namespace MikanJudge

open MikanJudge.Lib

/-- The case at position `i` is run and does not succeed. -/
def CaseFails (ext : Externals) (job : JudgeJob) (runs : Nat → CaseRun) (i : Nat) : Prop :=
  ∃ tc p, job.testcases[i]? = some tc ∧ (runs i).run = .ok p ∧
    (caseStatus ext job tc.2 (parentCollect job.sandboxConfig p) (runs i).scorer).1.val.isSuccess =
      false

/-- What a failing case stores holds no U+0000: no zero byte among what is
kept of its two outputs, and none in the compiler's warnings. -/
def CaseTextsOk (compiled : CompileOutput) (p : ProcRun) : Prop :=
  0 ∉ (stream p.stdout).take (16 * 1024 * 1024) ∧ '\x00' ∉ compiled.warnings.toList ∧
    0 ∉ (stream p.stderr).take 65536

/-- No text that judging a job stores holds U+0000. -/
structure JudgeEnv.TextsOk (ext : Externals) (job : JudgeJob) (env : JudgeEnv) : Prop where
  compileError {u : Unit} {compiled : CompileOutput} {msg : String} : env.tempdir = .ok u →
    env.compiled = .ok compiled → compiled.error = some msg → '\x00' ∉ msg.toList
  firstFail {compiled : CompileOutput} {i : Nat} {p : ProcRun} : env.Completes job →
    env.compiled = .ok compiled → (env.runs i).run = .ok p → CaseFails ext job env.runs i →
    (∀ j < i, ¬ CaseFails ext job env.runs j) → CaseTextsOk compiled p

/-! ## Texts the database accepts -/

theorem textOk_iff {s : String} : textOk s = true ↔ '\x00' ∉ s.toList := by
  simp [textOk]

theorem textOk_fromUtf8Lossy {bytes : List UInt8} : textOk (fromUtf8Lossy bytes) = true ↔ 0 ∉ bytes := by
  rw [textOk_iff, nul_mem_fromUtf8Lossy]

/-- Serialized results never hold U+0000: a serializer escapes it. -/
theorem textOk_encodeResults {ext : Externals} (hf : ∀ q, '\x00' ∉ ext.fmtDecimal q)
    (results : List TestcaseVerdict) : textOk (encodeResults ext results) = true := by
  rw [textOk_iff, encodeResults, String.toList_ofList]
  exact Json.nul_notMem_render hf _

theorem textOk_append {s t : String} : textOk (s ++ t) = (textOk s && textOk t) := by
  rw [Bool.eq_iff_iff, Bool.and_eq_true, textOk_iff, textOk_iff, textOk_iff, String.toList_append,
    List.mem_append, not_or]

/-- The warnings and the standard error of a case are stored together. -/
theorem textOk_caseStderr (warnings stderr : String) :
    textOk (caseStderr warnings stderr) = (textOk warnings && textOk stderr) := by
  have hw : textOk "[Compile warnings]\n" = true := by decide
  have hs : textOk "\n[Runtime stderr]\n" = true := by decide
  have he : textOk "" = true := by decide
  rw [caseStderr]
  split_ifs with h₁ h₂
  · rw [h₁, he, Bool.true_and]
  · rw [h₂, he, Bool.and_true, textOk_append, hw, Bool.true_and]
  · rw [textOk_append, textOk_append, textOk_append, hw, hs, Bool.true_and, Bool.and_true]

section

variable {ext : Externals} (hf : ∀ q, '\x00' ∉ ext.fmtDecimal q) {job : JudgeJob}
  {compiled : CompileOutput}

include hf

theorem textsOk_finish (acc : Accum) :
    (acc.finish job).val.textsOk ext = (textOk acc.outputs.1 && textOk acc.outputs.2) := by
  rw [Accum.finish_eq]
  simp only [RowUpdate.textsOk, optTextOk, Option.map_some, Option.all_some,
    textOk_encodeResults hf, Bool.and_true]

/-! ## The first case that fails -/

omit hf in
/-- What a failing case stores, in terms of its run. -/
theorem caseTextsOk_iff {c : CaseOutcome} {p : ProcRun}
    (hc : c.result = parentCollect job.sandboxConfig p) :
    CaseTextsOk compiled p ↔ textOk c.stdout = true ∧ textOk (c.stderr compiled) = true := by
  rw [CaseOutcome.stdout, CaseOutcome.stderr, textOk_caseStderr, Bool.and_eq_true,
    textOk_fromUtf8Lossy, textOk_fromUtf8Lossy, textOk_iff, hc, CaseTextsOk, parentCollect,
    drainFd_eq, drainFd_eq]
  rfl

variable {env : JudgeEnv} {results : Nat → RunResult}

omit hf in
/-- The cases that fail, of a job judged to the end. -/
theorem JudgedWith.caseFails_iff (h : JudgedWith job env compiled results) {i : Nat} :
    CaseFails ext job env.runs i ↔
      ∃ c, (outcomes env.runs results 0 job.testcases)[i]? = some c ∧ c.fails ext job = true := by
  simp only [getElem?_outcomes, Nat.zero_add, Option.map_eq_some_iff]
  constructor
  · rintro ⟨tc, p, htc, hp, hs⟩
    have hi : i < job.testcases.length := (List.getElem?_eq_some_iff.mp htc).1
    refine ⟨_, ⟨tc, htc, rfl⟩, ?_⟩
    rw [CaseOutcome.fails, CaseOutcome.status, h.results_eq hi hp, hs]
    rfl
  · rintro ⟨c, ⟨tc, htc, rfl⟩, hs⟩
    have hi : i < job.testcases.length := (List.getElem?_eq_some_iff.mp htc).1
    obtain ⟨p, hp⟩ := h.completes.2.2 i hi
    rw [CaseOutcome.fails, CaseOutcome.status, h.results_eq hi hp, Bool.not_eq_true'] at hs
    exact ⟨tc, p, htc, hp, hs⟩

/-- For a job judged to the end, the texts of the last write are those of the
first case that fails. -/
theorem JudgedWith.textsOk_iff (h : JudgedWith job env compiled results) :
    (judgeFinal ext job env).val.textsOk ext = true ↔
      ∀ i p, (env.runs i).run = .ok p → CaseFails ext job env.runs i →
        (∀ j < i, ¬ CaseFails ext job env.runs j) → CaseTextsOk compiled p := by
  rw [h.judgeFinal_eq, textsOk_finish hf]
  cases hfind : (outcomes env.runs results 0 job.testcases).find? (·.fails ext job) with
  | none =>
    rw [(Accum.of_none hfind).2]
    refine iff_of_true (by decide) fun i p _ hi _ => ?_
    obtain ⟨c, hc, hs⟩ := h.caseFails_iff.mp hi
    exact absurd hs (List.find?_eq_none.mp hfind c (List.mem_of_getElem? hc))
  | some c =>
    obtain ⟨hs, k, hk, hck, hprev⟩ := List.find?_eq_some_iff_getElem.mp hfind
    have hkc : (outcomes env.runs results 0 job.testcases)[k]? = some c :=
      List.getElem?_eq_some_iff.mpr ⟨hk, hck⟩
    have hfails : CaseFails ext job env.runs k := h.caseFails_iff.mpr ⟨c, hkc, hs⟩
    have hfirst : ∀ j < k, ¬ CaseFails ext job env.runs j := by
      intro j hj hj'
      obtain ⟨d, hd, hds⟩ := h.caseFails_iff.mp hj'
      obtain ⟨_, rfl⟩ := List.getElem?_eq_some_iff.mp hd
      have hjs := hprev j hj
      rw [hds] at hjs
      cases hjs
    have hresult : ∀ p, (env.runs k).run = .ok p → c.result = parentCollect job.sandboxConfig p := by
      intro p hp
      rw [length_outcomes] at hk
      rw [getElem?_outcomes, Nat.zero_add, Option.map_eq_some_iff] at hkc
      obtain ⟨tc, -, rfl⟩ := hkc
      exact h.results_eq hk hp
    rw [(Accum.of_some hfind).2, Bool.and_eq_true]
    constructor
    · intro htexts i p hp hi hfirst'
      -- the first case that fails is the one found
      obtain rfl : i = k := by
        rcases Nat.lt_trichotomy i k with hlt | rfl | hlt
        · exact absurd hi (hfirst i hlt)
        · rfl
        · exact absurd hfails (hfirst' k hlt)
      exact (caseTextsOk_iff (hresult p hp)).mpr htexts
    · intro hall
      obtain ⟨p, hp⟩ := h.completes.2.2 k (by rwa [length_outcomes] at hk)
      exact (caseTextsOk_iff (hresult p hp)).mp (hall k p hp hfails hfirst)

/-- The database accepts the last write exactly if the texts are fine. -/
theorem textsOk_judgeFinal_iff (env : JudgeEnv) :
    (judgeFinal ext job env).val.textsOk ext = true ↔ env.TextsOk ext job := by
  have hends := judgeEnds ext job env
  generalize hu : judgeFinal ext job env = u at hends
  cases hends with
  | internalError e hdone hcompile =>
    refine iff_of_true rfl ⟨fun {_ compiled _} ht hc he => ?_, fun hd => absurd hd hdone⟩
    rw [hcompile compiled ht hc] at he
    cases he
  | @compileError compiled msg ht hc he =>
    have hdone : ¬ env.Completes job := not_completes_of_error hc he
    have hmsg : (compileErrorUpdate msg).val.textsOk ext = textOk msg := by
      simp only [compileErrorUpdate, RowUpdate.textsOk, optTextOk, Option.map_none,
        Option.all_none, Option.all_some, Bool.true_and, Bool.and_true]
    rw [hmsg, textOk_iff]
    refine ⟨fun h => ⟨fun {_ c m} _ hc' he' => ?_, fun hd => absurd hd hdone⟩,
      fun h => h.compileError ht hc he⟩
    obtain rfl := Except.ok.inj (hc.symm.trans hc')
    obtain rfl := Option.some.inj (he.symm.trans he')
    exact h
  | finished h =>
    rw [← hu, h.textsOk_iff hf]
    constructor
    · refine fun hall => ⟨fun {_ c _} _ hc he => ?_, fun {c _ _} _ hc hp hi hfirst => ?_⟩
      · obtain rfl := Except.ok.inj (h.compiles.symm.trans hc)
        rw [h.no_error] at he
        cases he
      · obtain rfl := Except.ok.inj (h.compiles.symm.trans hc)
        exact hall _ _ hp hi hfirst
    · exact fun htexts i p hp hi hfirst => htexts.firstFail h.completes h.compiles hp hi hfirst

omit hf in
/-- The status is terminal once the last write is accepted, and stays
`running` otherwise. -/
theorem not_unfinished_write_iff {rows : List SubmissionRow} {id : Uuid} (u : FinalUpdate)
    (hrow : id ∈ rows.map (·.id)) (hrunning : ∀ r ∈ rows, r.id = id → r.status = "running") :
    (∀ r ∈ u.val.write ext rows id, r.id = id → ¬ r.Unfinished) ↔ u.val.textsOk ext = true := by
  rw [RowUpdate.write_eq]
  split_ifs with h
  · refine iff_of_true ?_ h
    rintro r hr hid
    obtain ⟨r₀, -, rfl⟩ := mem_updateWhere.mp hr
    split_ifs at hid ⊢ with h₀
    · exact FinalUpdate.not_unfinished_apply u r₀
    · exact absurd hid h₀
  · refine iff_of_false ?_ h
    obtain ⟨r, hr, rfl⟩ := List.mem_map.mp hrow
    exact fun hall => hall r hr rfl (.inr (hrunning r hr rfl))

/-- After `judge`, the status of the submission is terminal exactly if no text
it stores holds U+0000. -/
theorem not_unfinished_judge_iff (env : JudgeEnv) (rows : List SubmissionRow)
    (hrow : job.id ∈ rows.map (·.id)) :
    (∀ r ∈ judge ext job env rows, r.id = job.id → ¬ r.Unfinished) ↔ env.TextsOk ext job := by
  rw [← textsOk_judgeFinal_iff hf, judge]
  refine not_unfinished_write_iff _ ?_ ?_
  · rw [RowUpdate.write_status, updateStatus, map_id_updateWhere]
    · exact hrow
    · exact fun r => rfl
  · rintro r hr hid
    rw [RowUpdate.write_status, updateStatus] at hr
    obtain ⟨r₀, -, rfl⟩ := mem_updateWhere.mp hr
    split_ifs at hid ⊢ with h₀
    · rfl
    · exact absurd hid h₀

end

/-! ### A zero byte -/

/-- The row of `oneJob`, as it is inserted. -/
def pendingRow : SubmissionRow where
  id := 1
  problemId := "a"
  userId := none
  contestId := none
  language := "cpp"
  sourceCode := ""
  status := "pending"
  timeUsedMs := none
  memoryUsedKb := none
  stdout := none
  stderr := none
  testcaseResults := none
  score := none
  createdAt := 0

theorem not_unfinished_judge_one :
    ¬ ∃ r ∈ judge .simple oneJob (envOf (printing [.byte 49])) [pendingRow],
      r.id = oneJob.id ∧ r.Unfinished := by
  rintro ⟨r, hr, hid, hu⟩
  refine (not_unfinished_judge_iff Externals.nul_notMem_simple
    (envOf (printing [.byte 49])) [pendingRow] (by decide)).mpr ⟨?_, ?_⟩ r hr hid hu
  · intro u compiled msg _ hc he
    cases hc
    cases he
  · intro compiled i p _ hc hp _ _
    cases hc
    cases hp
    exact ⟨by decide, by decide, by decide⟩

/-- A program that prints a zero byte and a wrong answer stays `running`. -/
theorem not_unfinished_judge_fails :
    ∃ r ∈ judge .simple oneJob (envOf (printing [.byte 0])) [pendingRow],
      r.id = oneJob.id ∧ r.Unfinished := by
  decide

end MikanJudge

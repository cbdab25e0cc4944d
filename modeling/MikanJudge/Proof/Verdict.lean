import MikanJudge.Proof.Outcomes

/-!
# The verdict of a test case

The verdict `judge` records for the test case at a position (`verdictAt`) is
the one of that case's run, provided every case could be run at all. For exact
judging it is `AC` exactly if the program ended well and the part of its
output that was kept matches. The part beyond the limit is dropped unread:
`TailBlank` says when it would not have made a difference.
-/

namespace MikanJudge

open MikanJudge.Lib

/-- The verdict recorded for the test case at position `i`. -/
def RowUpdate.verdictAt (u : RowUpdate) (i : Nat) : Option String :=
  match u with
  | .result _ _ _ _ _ (some verdicts) _ => verdicts[i]?.map (·.verdict)
  | _ => none

@[simp] theorem verdictAt_internalError (message : String) (i : Nat) :
    (internalError message).val.verdictAt i = none := rfl

@[simp] theorem verdictAt_compileErrorUpdate (msg : String) (i : Nat) :
    (compileErrorUpdate msg).val.verdictAt i = none := rfl

@[simp] theorem verdictAt_finish (job : JudgeJob) (acc : Accum) (i : Nat) :
    (acc.finish job).val.verdictAt i = acc.tcVerdicts[i]?.map (·.verdict) := by
  rw [Accum.finish]
  split
  rfl

/-- The recorded verdict of a case, if all goes well around it, is that of its
run. -/
theorem verdictAt_judgeFinal (ext : Externals) (job : JudgeJob) (env : JudgeEnv) {i : Nat}
    {v : String} {tc : String × Option String} {p : ProcRun} (htc : job.testcases[i]? = some tc)
    (hp : (env.runs i).run = .ok p) :
    (judgeFinal ext job env).val.verdictAt i = some v ↔
      env.Completes job ∧ verdictStr (caseStatus ext job tc.2
        (parentCollect job.sandboxConfig p) (env.runs i).scorer).1.val = v := by
  have hends := judgeEnds ext job env
  generalize judgeFinal ext job env = u at hends
  cases hends with
  | internalError e hdone _ =>
    rw [verdictAt_internalError]
    exact iff_of_false (Option.some_ne_none v).symm fun h => hdone h.1
  | compileError _ hcompiled herror =>
    rw [verdictAt_compileErrorUpdate]
    exact iff_of_false (Option.some_ne_none v).symm fun h =>
      not_completes_of_error hcompiled herror h.1
  | finished h =>
    have hi : i < job.testcases.length := (List.getElem?_eq_some_iff.mp htc).1
    rw [verdictAt_finish, and_iff_right h.completes, Accum.of, List.getElem?_map,
      getElem?_outcomes, htc, Nat.zero_add, h.results_eq hi hp]
    exact Option.some_inj

/-! ## Exact judging -/

theorem verdictStr_eq_ac {s : JudgeStatus} : verdictStr s = "AC" ↔ s = .accepted := by
  cases s <;> simp [verdictStr]

/-- A case is accepted exactly if the program ended well and what was kept of
its output matches. -/
theorem caseStatus_accepted_iff (ext : Externals) {job : JudgeJob} (hj : job.judgeType = .exact)
    (expected : Option String) (r : RunResult) (scorer : ScorerRun) :
    (caseStatus ext job expected r scorer).1.val = .accepted ↔
      r.status = .ok ∧ trim (fromUtf8Lossy r.stdout) = trim (expected.getD "") := by
  have hh : job.isHeuristic = false := by rw [JudgeJob.isHeuristic, hj]; decide
  unfold caseStatus
  cases hs : r.status with
  | ok =>
    rw [hh]
    by_cases h : trim (fromUtf8Lossy r.stdout) = trim (expected.getD "") <;> simp [h]
  | timeLimitExceeded => simp
  | runtimeError | killed => split_ifs <;> simp

/-- How a run of the job ended. -/
def ProcRun.status (p : ProcRun) (job : JudgeJob) : RunStatus :=
  (determineStatus p.killed p.timeUsed job.sandboxConfig.timeLimit p.finalStatus).2

theorem parentCollect_spec (job : JudgeJob) (p : ProcRun) :
    (parentCollect job.sandboxConfig p).status = p.status job ∧
      (parentCollect job.sandboxConfig p).stdout = (stream p.stdout).take (16 * 1024 * 1024) :=
  ⟨rfl, drainFd_eq _ _⟩

/-- What is beyond the first `n` bytes adds nothing to the trimmed text: after
`kept`, the characters finished within them, there follow only `cut`, what is
written for a character the cut leaves unfinished, and white space (or, if all
of `kept` is white space, white space on both sides of `cut`). -/
def TailBlank (n : Nat) (s : List UInt8) : Prop :=
  let kept := Utf8.output [] (s.take n)
  let cut := Utf8.flush (Utf8.carried [] (s.take n))
  let rest := Utf8.decodeFrom (Utf8.carried [] (s.take n)) (s.drop n)
  (∃ w, Blank isWhitespace w ∧ rest = cut ++ w) ∨
    (Blank isWhitespace kept ∧
      ∃ u w, Blank isWhitespace u ∧ Blank isWhitespace w ∧ rest = u ++ cut ++ w)

theorem solid_flush (carry : List UInt8) : Solid isWhitespace (Utf8.flush carry) := by
  intro c hc
  cases carry with
  | nil => cases hc
  | cons b bs =>
    rw [Utf8.flush, List.mem_singleton] at hc
    subst hc
    decide

/-- Dropping what is beyond the first `n` bytes leaves the trimmed text as it
is exactly if that is blank. -/
theorem trim_take_eq_iff (n : Nat) (s : List UInt8) :
    trim (fromUtf8Lossy s) = trim (fromUtf8Lossy (s.take n)) ↔ TailBlank n s := by
  have h := Utf8.decodeFrom_append [] (s.take n) (s.drop n)
  rw [List.take_append_drop] at h
  rw [trim_eq_iff, fromUtf8Lossy, fromUtf8Lossy, String.toList_ofList, String.toList_ofList,
    Utf8.decodeLossy, h]
  exact trimBy_append_eq_iff (solid_flush _)

/-- An output that fits loses nothing. -/
theorem tailBlank_of_length_le {n : Nat} {s : List UInt8} (h : s.length ≤ n) : TailBlank n s := by
  rw [← trim_take_eq_iff, List.take_of_length_le h]

/-- The verdict of an exact case is `AC` exactly if all goes well around it,
the program ends well, and the first 16 MiB of its output match; no expected
output stands for an empty one. -/
theorem verdictAt_ac_iff (ext : Externals) {job : JudgeJob} (hj : job.judgeType = .exact)
    (env : JudgeEnv) {i : Nat} {stdin : String} {expected : Option String} {p : ProcRun}
    (htc : job.testcases[i]? = some (stdin, expected)) (hp : (env.runs i).run = .ok p) :
    (judgeFinal ext job env).val.verdictAt i = some "AC" ↔
      env.Completes job ∧ p.status job = .ok ∧
        trim (fromUtf8Lossy ((stream p.stdout).take (16 * 1024 * 1024))) =
          trim (expected.getD "") := by
  rw [verdictAt_judgeFinal ext job env htc hp, verdictStr_eq_ac, caseStatus_accepted_iff ext hj,
    (parentCollect_spec job p).1, (parentCollect_spec job p).2]

/-- A recorded `AC` means that the complete output matches, in exactly those
runs in which a matching first 16 MiB is followed by nothing but white space. -/
theorem accepted_output_matches_iff (ext : Externals) (job : JudgeJob)
    (hj : job.judgeType = .exact) (env : JudgeEnv) (i : Nat) (stdin e : String) (p : ProcRun)
    (htc : job.testcases[i]? = some (stdin, some e)) (hp : (env.runs i).run = .ok p) :
    ((judgeFinal ext job env).val.verdictAt i = some "AC" →
        trim (fromUtf8Lossy (stream p.stdout)) = trim e) ↔
      (env.Completes job → p.status job = .ok →
        trim (fromUtf8Lossy ((stream p.stdout).take (16 * 1024 * 1024))) = trim e →
        TailBlank (16 * 1024 * 1024) (stream p.stdout)) := by
  rw [verdictAt_ac_iff ext hj env htc hp, Option.getD_some, and_imp, and_imp]
  refine imp_congr_right fun _ => imp_congr_right fun _ => imp_congr_right fun h => ?_
  rw [← trim_take_eq_iff, h]

/-! ### A long output -/

/-- An exact job whose only case expects `1`. -/
def oneJob : JudgeJob where
  id := 1
  sourceCode := ""
  language := .cpp
  testcases := [("", some "1")]
  timeLimitMs := 2000
  memoryLimitKb := 262144
  judgeType := .exact
  scorerPath := none

/-- The environment in which every case runs as `p` does. -/
def envOf (p : ProcRun) : JudgeEnv where
  tempdir := .ok ()
  compiled := .ok { executable := "solution", runArgs := [], error := none, warnings := "" }
  runs := fun _ => { run := .ok p, scorer := .failed "" }

theorem accepted_output_matches_one :
    (judgeFinal .simple oneJob (envOf (printing [.byte 49]))).val.verdictAt 0 = some "AC" ∧
      trim (fromUtf8Lossy (stream [.byte 49])) = trim "1" := by
  have h := (accepted_output_matches_iff .simple oneJob rfl (envOf (printing [.byte 49])) 0 "" "1"
    (printing [.byte 49]) rfl rfl).mpr fun _ _ _ => tailBlank_of_length_le (by decide)
  have hac : (judgeFinal .simple oneJob (envOf (printing [.byte 49]))).val.verdictAt 0 =
      some "AC" := by decide
  exact ⟨hac, h hac⟩

/-- `1`, then `n` reads of `k` spaces, then `2`. -/
def paddedOutput (k n : Nat) (h₀ : 0 < k) (h : k ≤ 4096) : List Chunk :=
  .byte 49 ::
    (List.replicate n ⟨List.replicate k 32, by rw [List.length_replicate]; exact ⟨h₀, h⟩⟩ ++
      [.byte 50])

theorem stream_paddedOutput {k n : Nat} (h₀ : 0 < k) (h : k ≤ 4096) :
    stream (paddedOutput k n h₀ h) = (49 :: List.replicate (n * k) 32) ++ [50] := by
  rw [stream, paddedOutput, List.flatMap_cons, List.flatMap_append, List.flatMap_replicate,
    List.flatMap_singleton, List.flatten_replicate_replicate]
  rfl

/-- The output that fills 16 MiB with `1` and spaces. -/
def longOutput : List Chunk := paddedOutput 4095 4097 (by decide) (by decide)

/-- A program that prints `1`, fills 16 MiB with spaces and then prints `2` is
accepted where `1` is expected. -/
theorem accepted_output_matches_fails :
    (judgeFinal .simple oneJob (envOf (printing longOutput))).val.verdictAt 0 = some "AC" ∧
      trim (fromUtf8Lossy (stream longOutput)) ≠ trim "1" := by
  have hlen : (49 :: List.replicate (4097 * 4095) 32 : List UInt8).length =
      16 * 1024 * 1024 := by
    rw [List.length_cons, List.length_replicate]
  have hascii : ∀ l : List UInt8, l ⊆ [49, 32, 50] → ∀ b ∈ l, b < 0x80 := fun l hl b hb => by
    have hall : ([49, 32, 50] : List UInt8).all (fun b => decide (b < 0x80)) = true := by decide
    exact of_decide_eq_true (List.all_eq_true.mp hall b (hl hb))
  have hkept : (49 :: List.replicate (4097 * 4095) 32 : List UInt8) ⊆ [49, 32, 50] := by
    intro b hb
    rcases List.mem_cons.mp hb with rfl | hb
    · decide
    · rw [List.eq_of_mem_replicate hb]; decide
  have hblank : Blank isWhitespace (List.replicate (4097 * 4095) ' ') := fun c hc => by
    rw [List.eq_of_mem_replicate hc]; decide
  constructor
  · rw [verdictAt_ac_iff .simple rfl _ rfl rfl, Option.getD_some]
    refine ⟨⟨⟨(), rfl⟩, ⟨_, rfl, rfl⟩, fun _ _ => ⟨_, rfl⟩⟩, by decide, ?_⟩
    rw [trim_eq_iff, printing, longOutput, stream_paddedOutput, List.take_left' hlen, fromUtf8Lossy,
      String.toList_ofList, Utf8.decodeLossy_ascii (hascii _ hkept), List.map_cons,
      List.map_replicate]
    exact trimBy_append_blank (l := ['1']) hblank
  · rw [Ne, trim_eq_iff, longOutput, stream_paddedOutput, fromUtf8Lossy, String.toList_ofList,
      Utf8.decodeLossy_ascii (hascii _ (List.append_subset.mpr ⟨hkept, by decide⟩)),
      List.map_append, List.map_cons, List.map_replicate]
    intro h
    have h₂ := congrArg List.getLast? h
    rw [List.cons_append, trimBy_cons_neg (by decide), ← List.cons_append, List.map_singleton,
      List.rdropWhile_concat_neg _ _ _ (by decide), List.getLast?_concat] at h₂
    exact absurd h₂ (by decide)

end MikanJudge

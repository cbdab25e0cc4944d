import MikanJudge.Model.WaitLoop
import Mathlib.Order.Monotone.Basic

/-!
# The outcome of the wait loop

The loop goes on as long as a poll finds the child alive before the deadline
(`Continues`), so the first poll that does not is its last one, and it comes no
later than a reading of the clock that has come to the deadline
(`exists_last_poll`). The loop ends there in one of three ways (`WaitEnds`), and
a child is killed only after a reading that lies 50 ms and more above the time
limit: what `determine_status` makes of the wait status depends on the time
alone (`wait_outcome`).
-/

namespace MikanJudge

/-- The calls reaped the child, which had exited with this code. -/
def ReapedExited (child : Int) (calls : List Wait4) (code : Int) : Prop :=
  ∃ w ∈ calls, w.ret = child ∧ wifexited w.wstatus ∧ wexitstatus w.wstatus = code

/-- The polls before a position. -/
def WaitEnv.pollsBefore (env : WaitEnv) (k : Nat) : List Wait4 := (List.range k).map env.polls

/-- The poll at a position finds the child alive, before the deadline. -/
structure Continues (env : WaitEnv) (deadline : Instant) (i : Nat) : Prop where
  not_child : (env.polls i).ret ≠ env.child
  alive : (env.polls i).ret = 0
  before : env.clock i < deadline

/-- How the loop ends at the poll at position `k`, and before which reading. -/
inductive WaitEnds (env : WaitEnv) (deadline : Instant) (k : Nat) : WaitVars → Nat → Prop
  | reaped (hret : (env.polls k).ret = env.child) :
    WaitEnds env deadline k
      ⟨some (parseWaitStatus (env.polls k).wstatus), (env.polls k).maxRss, false,
        env.pollsBefore (k + 1)⟩ k
  | killed (hret : (env.polls k).ret ≠ env.child) (hzero : (env.polls k).ret = 0)
    (htime : deadline ≤ env.clock k) :
    WaitEnds env deadline k
      ⟨if env.blocking.ret = env.child then some (parseWaitStatus env.blocking.wstatus) else none,
        if env.blocking.ret = env.child then env.blocking.maxRss else 0, true,
        env.pollsBefore (k + 1) ++ [env.blocking]⟩ (k + 1)
  | failed (hret : (env.polls k).ret ≠ env.child) (hzero : (env.polls k).ret ≠ 0) :
    WaitEnds env deadline k ⟨none, 0, false, env.pollsBefore (k + 1)⟩ k

section

variable {env : WaitEnv} {deadline : Instant} {v : WaitVars} {i j k : Nat} {calls : List Wait4}

theorem WaitEnv.pollsBefore_succ (env : WaitEnv) (k : Nat) :
    env.pollsBefore (k + 1) = env.pollsBefore k ++ [env.polls k] := by
  rw [pollsBefore, List.range_succ, List.map_append]
  rfl

theorem waitLoop_continue (fuel : Nat) (h : Continues env deadline i) :
    waitLoop env deadline (fuel + 1) i calls =
      waitLoop env deadline fuel (i + 1) (calls ++ [env.polls i]) := by
  rw [waitLoop]
  simp only [if_neg h.not_child, if_pos h.alive, if_neg (not_le.mpr h.before)]

/-- The loop makes every poll up to one that it might end at. -/
theorem waitLoop_pollsBefore (hbefore : ∀ i < k, Continues env deadline i) (fuel : Nat) :
    waitLoop env deadline (fuel + k) 0 [] =
      waitLoop env deadline fuel k (env.pollsBefore k) := by
  induction k generalizing fuel with
  | zero => rfl
  | succ k ih =>
    rw [Nat.add_succ, ← Nat.succ_add, ih (fun i hi => hbefore i (Nat.lt_succ_of_lt hi)),
      waitLoop_continue fuel (hbefore k (Nat.lt_succ_self k)), WaitEnv.pollsBefore_succ]

/-- Where the loop does not go on, it ends in one of the three ways. -/
theorem waitLoop_stop (h : ¬ Continues env deadline k) :
    ∃ v j, WaitEnds env deadline k v j ∧
      ∀ fuel, waitLoop env deadline (fuel + 1) k (env.pollsBefore k) = some (v, j) := by
  by_cases hret : (env.polls k).ret = env.child
  · refine ⟨_, _, .reaped hret, fun fuel => ?_⟩
    simp only [waitLoop, if_pos hret, WaitEnv.pollsBefore_succ]
  · by_cases hzero : (env.polls k).ret = 0
    · have htime : deadline ≤ env.clock k := not_lt.mp fun hlt => h ⟨hret, hzero, hlt⟩
      refine ⟨_, _, .killed hret hzero htime, fun fuel => ?_⟩
      simp only [waitLoop, if_neg hret, if_pos hzero, if_pos htime, WaitEnv.pollsBefore_succ,
        List.append_assoc, List.singleton_append]
    · refine ⟨_, _, .failed hret hzero, fun fuel => ?_⟩
      simp only [waitLoop, if_neg hret, if_neg hzero, WaitEnv.pollsBefore_succ]

/-- Some poll is the first that the loop does not go on after, if the clock comes to
the deadline. -/
theorem exists_last_poll (hdeadline : ∃ k, deadline ≤ env.clock k) :
    ∃ k, (∀ i < k, Continues env deadline i) ∧ ¬ Continues env deadline k := by
  classical
  obtain ⟨m, hm⟩ := hdeadline
  have hstops : ∃ k, ¬ Continues env deadline k := ⟨m, fun h => not_lt.mpr hm h.before⟩
  exact ⟨Nat.find hstops, fun i hi => not_not.mp (Nat.find_min hstops hi), Nat.find_spec hstops⟩

/-! ## What the loop found out -/

theorem parseWaitStatus_eq_exited {raw : BitVec 32} {code : Int} :
    parseWaitStatus raw = .exited code ↔ wifexited raw ∧ wexitstatus raw = code := by
  unfold parseWaitStatus
  split_ifs with hexit hsig
  · simp [hexit]
  · simp [hexit]
  · simp [hexit]

theorem reapedExited_concat {child code : Int} {w : Wait4} (hbefore : ∀ u ∈ calls, u.ret ≠ child) :
    ReapedExited child (calls ++ [w]) code ↔
      w.ret = child ∧ parseWaitStatus w.wstatus = .exited code := by
  rw [parseWaitStatus_eq_exited]
  constructor
  · rintro ⟨u, hu, hret, hcode⟩
    rcases List.mem_append.mp hu with h | h
    · exact absurd hret (hbefore u h)
    · rw [List.mem_singleton.mp h] at hret hcode
      exact ⟨hret, hcode⟩
  · rintro ⟨hret, hcode⟩
    exact ⟨w, List.mem_append_right _ List.mem_cons_self, hret, hcode⟩

theorem not_child_of_mem_pollsBefore (h : ∀ i < k, (env.polls i).ret ≠ env.child) :
    ∀ u ∈ env.pollsBefore k, u.ret ≠ env.child := by
  intro u hu
  obtain ⟨i, hi, rfl⟩ := List.mem_map.mp hu
  exact h i (List.mem_range.mp hi)

/-- The final status is that of an exited child exactly if it was reaped as such. -/
theorem WaitEnds.finalStatus_iff (h : WaitEnds env deadline k v j)
    (hbefore : ∀ i < k, Continues env deadline i) (code : Int) :
    v.finalStatus = some (.exited code) ↔ ReapedExited env.child v.calls code := by
  have hbefore := not_child_of_mem_pollsBefore fun i hi => (hbefore i hi).not_child
  have hlast : (env.polls k).ret ≠ env.child → ∀ u ∈ env.pollsBefore (k + 1), u.ret ≠ env.child := by
    intro hret
    rw [WaitEnv.pollsBefore_succ]
    exact List.forall_mem_append.mpr ⟨hbefore, List.forall_mem_singleton.mpr hret⟩
  cases h with
  | reaped hret =>
    rw [WaitEnv.pollsBefore_succ, reapedExited_concat hbefore, Option.some.injEq]
    exact ⟨fun h => ⟨hret, h⟩, And.right⟩
  | killed hret hzero htime =>
    rw [reapedExited_concat (hlast hret)]
    split_ifs with hblocking
    · rw [Option.some.injEq]
      exact ⟨fun h => ⟨hblocking, h⟩, And.right⟩
    · exact ⟨fun h => (nomatch h), fun h => absurd h.1 hblocking⟩
  | failed hret hzero =>
    refine ⟨fun h => (nomatch h), ?_⟩
    rintro ⟨u, hu, hchild, -⟩
    exact absurd hchild (hlast hret u hu)

/-- Which calls are made, and which reading comes next. -/
theorem WaitEnds.calls_eq (h : WaitEnds env deadline k v j) :
    v.calls = env.pollsBefore (k + 1) ++ (if v.killed then [env.blocking] else []) ∧
      (v.killed = true ↔ (env.polls k).ret ≠ env.child ∧ (env.polls k).ret = 0) ∧
      j = if v.killed then k + 1 else k := by
  cases h with
  | reaped hret => simp [hret]
  | killed hret hzero htime => exact ⟨rfl, iff_of_true rfl ⟨hret, hzero⟩, rfl⟩
  | failed hret hzero => simp [hzero]

/-- The time taken from a reading on, if time does not run backwards. -/
theorem le_elapsed_of_le_clock {start : Instant} {d : Duration} (hclock : Monotone env.clock)
    (h : start + d ≤ env.clock i) (hij : i ≤ j) : d ≤ env.elapsed start j := by
  rw [WaitEnv.elapsed]
  exact Nat.le_sub_of_add_le' (h.trans (hclock hij))

/-- A child that was killed has run for more than 50 ms above the limit. -/
theorem WaitEnds.lt_elapsed_of_killed {config : SandboxConfig} {start : Instant}
    (hclock : Monotone env.clock) (h : WaitEnds env (config.deadlineFrom start) k v j)
    (hkilled : v.killed = true) :
    config.timeLimit + Duration.fromMillis 50 < env.elapsed start j := by
  cases h with
  | reaped hret => cases hkilled
  | failed hret hzero => cases hkilled
  | killed hret hzero htime =>
    rw [SandboxConfig.deadlineFrom, Nat.add_assoc] at htime
    have hlt : Duration.fromMillis 50 < Duration.fromMillis 100 := by decide
    exact (Nat.add_lt_add_left hlt config.timeLimit).trans_le
      (le_elapsed_of_le_clock hclock htime (Nat.le_succ k))

end

/-- `determine_status`, where the time decides on what was killed. -/
theorem determineStatus_spec {killed : Bool} {timeUsed timeLimit : Duration}
    (finalStatus : Option WaitStatus)
    (hkilled : killed = true → timeLimit + Duration.fromMillis 50 < timeUsed) :
    ((determineStatus killed timeUsed timeLimit finalStatus).2 = .ok ↔
      finalStatus = some (.exited 0) ∧ timeUsed ≤ timeLimit + Duration.fromMillis 50) ∧
    (timeLimit + Duration.fromMillis 50 < timeUsed →
      (determineStatus killed timeUsed timeLimit finalStatus).2 = .timeLimitExceeded) ∧
    ∀ code, (determineStatus killed timeUsed timeLimit finalStatus).1 = some code ↔
      finalStatus = some (.exited code) ∧
        (determineStatus killed timeUsed timeLimit finalStatus).2 ≠ .timeLimitExceeded := by
  by_cases hlate : timeLimit + Duration.fromMillis 50 < timeUsed
  · have hcond : (killed || decide (timeUsed > timeLimit + Duration.fromMillis 50)) = true := by
      rw [decide_eq_true hlate, Bool.or_true]
    have heq : determineStatus killed timeUsed timeLimit finalStatus =
        (none, .timeLimitExceeded) := if_pos hcond
    rw [heq]
    exact ⟨⟨fun h => (nomatch h), fun h => absurd hlate (not_lt.mpr h.2)⟩, fun _ => rfl,
      fun code => ⟨fun h => (nomatch h), fun h => absurd rfl h.2⟩⟩
  · have hnot : killed = false := by
      cases killed with
      | false => rfl
      | true => exact absurd (hkilled rfl) hlate
    have hcond : ¬ (killed || decide (timeUsed > timeLimit + Duration.fromMillis 50)) = true := by
      rw [hnot, Bool.false_or, decide_eq_true_eq]
      exact hlate
    have hle : timeUsed ≤ timeLimit + Duration.fromMillis 50 := not_lt.mp hlate
    refine ⟨?_, fun h => absurd h hlate, fun code => ?_⟩
    · rcases finalStatus with _ | code | sig | _
      · simp [determineStatus, hcond]
      · by_cases hcode : code = 0 <;> simp [determineStatus, hcond, hcode, hle]
      · by_cases hsig : sig = sigXcpu <;> simp [determineStatus, hcond, hsig]
      · simp [determineStatus, hcond]
    · rcases finalStatus with _ | code' | sig | _
      · simp [determineStatus, hcond]
      · by_cases hcode : code' = 0 <;> simp [determineStatus, hcond, hcode]
      · by_cases hsig : sig = sigXcpu <;> simp [determineStatus, hcond, hsig]
      · simp [determineStatus, hcond]

/-- Whatever the polls return and the clock reads, once it comes to the
deadline the loop has ended. It has polled up to the first poll that did not find
the child alive before the deadline, and waited for the child after that if it
was alive; and the exit code and the status of the run are those of the child and
of the time after the loop. -/
theorem wait_outcome (env : WaitEnv) (config : SandboxConfig) (start : Instant)
    (stdout stderr : List Chunk) (memoryPeak : Option Nat) (hclock : Monotone env.clock)
    (hdeadline : ∃ k, config.deadlineFrom start ≤ env.clock k) :
    ∃ (k : Nat) (v : WaitVars) (j n : Nat),
      (∀ i < k, Continues env (config.deadlineFrom start) i) ∧
      ¬ Continues env (config.deadlineFrom start) k ∧
      (∀ fuel, n ≤ fuel → waitLoop env (config.deadlineFrom start) fuel 0 [] = some (v, j)) ∧
      v.calls = env.pollsBefore (k + 1) ++ (if v.killed then [env.blocking] else []) ∧
      (v.killed = true ↔ (env.polls k).ret ≠ env.child ∧ (env.polls k).ret = 0) ∧
      j = (if v.killed then k + 1 else k) ∧
      (let r := parentCollect config (env.procRun start stdout stderr memoryPeak v j)
      let threshold := config.timeLimit + Duration.fromMillis 50
      (r.status = .ok ↔
        ReapedExited env.child v.calls 0 ∧ env.elapsed start j ≤ threshold) ∧
      (threshold < env.elapsed start j → r.status = .timeLimitExceeded) ∧
      (v.killed = true → threshold < env.elapsed start j) ∧
      ∀ code, r.exitCode = some code ↔
        ReapedExited env.child v.calls code ∧ r.status ≠ .timeLimitExceeded) := by
  obtain ⟨k, hbefore, hlast⟩ := exists_last_poll hdeadline
  obtain ⟨v, j, hends, hrun⟩ := waitLoop_stop hlast
  obtain ⟨hcalls, hkill, hreading⟩ := hends.calls_eq
  have hkilled := hends.lt_elapsed_of_killed hclock
  obtain ⟨hok, hlate, hcode⟩ := determineStatus_spec v.finalStatus hkilled
  refine ⟨k, v, j, k + 1, hbefore, hlast, fun fuel hfuel => ?_, hcalls, hkill, hreading, ?_⟩
  · obtain ⟨fuel, rfl⟩ := Nat.exists_eq_add_of_le hfuel
    rw [Nat.add_right_comm, Nat.add_comm k, Nat.add_right_comm, waitLoop_pollsBefore hbefore, hrun]
  · simp only [← hends.finalStatus_iff hbefore]
    exact ⟨hok, hlate, hkilled, hcode⟩

/-- A child that has exited with code 0 at the second poll, 5 ms later. -/
def quickEnv : WaitEnv where
  child := 42
  polls i := ⟨if i = 0 then 0 else 42, 0, 1024⟩
  blocking := ⟨42, 9, 1024⟩
  clock i := i * 5000000

def quickConfig : SandboxConfig where
  timeLimit := Duration.fromMillis 2000
  maxOutputBytes := 16 * 1024 * 1024
  vmLimitBytes := none
  nprocLimit := some 1
  enableSeccomp := true

theorem wait_outcome_quick : ∃ (k : Nat) (v : WaitVars) (j n : Nat),
    (∀ i < k, Continues quickEnv (quickConfig.deadlineFrom 0) i) ∧
    ¬ Continues quickEnv (quickConfig.deadlineFrom 0) k ∧
    (∀ fuel, n ≤ fuel → waitLoop quickEnv (quickConfig.deadlineFrom 0) fuel 0 [] = some (v, j)) ∧
    v.calls = quickEnv.pollsBefore (k + 1) ++ (if v.killed then [quickEnv.blocking] else []) ∧
    ((parentCollect quickConfig (quickEnv.procRun 0 [] [] none v j)).status = .ok ↔
      ReapedExited 42 v.calls 0 ∧ quickEnv.elapsed 0 j ≤
        quickConfig.timeLimit + Duration.fromMillis 50) := by
  obtain ⟨k, v, j, n, hbefore, hlast, hrun, hcalls, -, -, hok, -⟩ :=
    wait_outcome quickEnv quickConfig 0 [] [] none
      (fun _ _ h => Nat.mul_le_mul_right 5000000 h) ⟨420, by decide⟩
  exact ⟨k, v, j, n, hbefore, hlast, hrun, hcalls, hok⟩

/-- In this run the status is Ok. -/
example : (waitLoop quickEnv (quickConfig.deadlineFrom 0) 2 0 []).map (fun r =>
    (parentCollect quickConfig (quickEnv.procRun 0 [] [] none r.1 r.2)).status) = some .ok := by
  decide

end MikanJudge

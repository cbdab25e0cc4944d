import MikanJudge.Proof.PipeEnds

/-!
# Pipes of runs at once

The child closes the six ends it knows of, and `pipe(2)` leaves descriptors
open across `execvp`: what the server had open of other calls at the fork,
the program has open after it. `isolated_of_alone` is that the calls are
isolated when every fork finds no end of another call's pipes open, and
`isolated_fails` that they are not in general.
-/

namespace MikanJudge

open MikanJudge.Lib

/-- The runs are isolated from each other. -/
structure Isolated (s : Runner) : Prop where
  /-- After its `execvp` a child has no end of a pipe of another call. -/
  foreign : ∀ (c : Nat) (call : Call) (q : Collect), s.calls[c]? = some call →
    call.stage = .collecting q → q.script = [] →
    ∀ n c' e, s.kernel.fd q.child n = some (.pipe c' e) → c' = c
  /-- Once the writer has closed the program's standard input, nothing has it
  open for writing. -/
  stdin : ∀ (c : Nat) (call : Call) (q : Collect), s.calls[c]? = some call →
    call.stage = .collecting q → q.script = [] → .stdinW ∉ q.threads →
    ¬s.kernel.Held (.pipe c .stdinW)
  /-- Once the child has exited, with the readers running, nothing has its
  outputs open for writing. -/
  output : ∀ (c : Nat) (call : Call) (q : Collect), s.calls[c]? = some call →
    call.stage = .collecting q → q.closes = [] → s.kernel.origin? q.child = none →
    ¬s.kernel.Held (.pipe c .stdoutW) ∧ ¬s.kernel.Held (.pipe c .stderrW)

/-- A fork finds no end of a pipe of another call open in the server. -/
def Runner.forksAlone (s : Runner) : RunnerAction → Bool
  | .call c .fork => s.alone (fun _ => true) (some c)
  | _ => true

/-! ## What every step keeps -/

/-- Beside the ends, that only children run for a call. -/
structure IsolationInv (s : Runner) : Prop extends Tracked (fun _ => true) s where
  children : ∀ p j c, s.kernel.origin? p = some (.run j c) →
    ∃ call q, s.calls[c]? = some call ∧ call.stage = .collecting q ∧ p = q.child

theorem IsolationInv.start : IsolationInv .start where
  toTracked := .start
  children p j c ho := by cases Runner.origin_start ho

theorem IsolationInv.step {s t : Runner} {a : RunnerAction} (hi : IsolationInv s)
    (hok : s.forksAlone a = true) (h : s.step a = some t) : IsolationInv t := by
  cases a with
  | begin job =>
    cases h
    refine ⟨hi.begin job, fun p j c ho => ?_⟩
    obtain ⟨call, q, hc, h⟩ := hi.children p j c ho
    exact ⟨call, q, get_concat_iff.mpr (.inl hc), h⟩
  | call c a =>
    refine ⟨hi.call_step h fun ha => by rw [ha] at hok; exact hok, fun p j c' ho => ?_⟩
    obtain ⟨call, k, call', hc, hstep, rfl⟩ := Runner.call_cases h
    rcases hstep.origin ho with ho | ⟨-, rfl, e, -, hq⟩
    · obtain ⟨x, q, hx, hq, rfl⟩ := hi.children p j c' ho
      obtain ⟨x', q', hx', hq', hp, -⟩ := hstep.collecting_set hc hx hq
      exact ⟨x', q', hx', hq', hp.symm⟩
    · cases e
      exact ⟨call', _, (get_set_iff hc).mpr (.inl ⟨rfl, rfl⟩), hq, rfl⟩
  | exit p =>
    rw [Runner.step, Runner.exit] at h
    split_ifs at h with hp
    cases h
    refine ⟨hi.exit hp, fun p' j c ho => ?_⟩
    rw [Kernel.origin_exit] at ho
    split_ifs at ho
    exact hi.children p' j c ho

theorem IsolationInv.isolated {s : Runner} (hi : IsolationInv s) : Isolated s where
  foreign c call q hc hq _ n c' e hf := by
    have hok := hi.collects c call q hc hq
    obtain ⟨x, q', -, -, hm⟩ := hi.held q.child n c' e hok.child_ne rfl hf
    exact (Origin.run.inj (hok.child_origin _ hm.origin)).2
  stdin c call q hc hq hs hw hheld := by
    have hopen : PipeEnd.stdinW ∉ q.closes ++ q.threads := fun h =>
      (List.mem_append.mp h).elim (fun h => absurd ((hi.collects c call q hc hq).closes h) (by decide)) hw
    obtain ⟨p, n, hm⟩ := hi.of_held hc hq rfl hopen hheld
    rcases hm.use with ⟨he, -⟩ | ⟨-, -, hn⟩
    · exact absurd he (by decide)
    · rw [hs] at hn
      cases hn
  output c call q hc hq hcl hdead := by
    have hclosed {e : PipeEnd} (he : e ∉ PipeEnd.threaded) : ¬s.kernel.Held (.pipe c e) := by
      intro hheld
      obtain ⟨p, n, hm⟩ := hi.of_held_closed hc hq hcl rfl he hheld
      obtain ⟨x, q', hx, hq', rfl⟩ := hi.children p _ c hm.origin
      rw [hc] at hx
      cases hx
      rw [hq] at hq'
      cases hq'
      cases hdead.symm.trans hm.origin
    exact ⟨hclosed (by decide), hclosed (by decide)⟩

/-! ## Every run -/

/-- In every run of any number of calls, in any order of their steps, in
which each fork finds no end of another call's pipes open, the runs are
isolated in every state. -/
theorem isolated_of_alone {s t : Runner} {tr : List (Runner × RunnerAction)}
    (hs : runSandboxed.init s) (h : runSandboxed.Run s tr t)
    (hok : ∀ e ∈ tr, e.1.forksAlone e.2 = true) : (∀ e ∈ tr, Isolated e.1) ∧ Isolated t := by
  cases hs
  obtain ⟨hpre, ht⟩ := h.invariant_throughout (I := IsolationInv)
    (fun _ _ _ hi ha hst => hi.step ha hst) hok .start
  exact ⟨fun e he => (hpre e he).isolated, ht.isolated⟩

/-- A call up to its fork. -/
def forkActions (c : Nat) : List RunnerAction :=
  [.call c .pipe, .call c .pipe, .call c .pipe, .call c .fork]

/-- From the fork to the `execvp` and to the end of the parent's closes. -/
def execActions (c : Nat) : List RunnerAction :=
  List.replicate 10 (.call c .child) ++ List.replicate 3 (.call c .close)

/-- Two calls, of which the second makes its pipes after the first has
closed all of its own. -/
def callsInTurn : List RunnerAction :=
  [.begin 0, .begin 1] ++ forkActions 0 ++ execActions 0 ++
    [.call 0 (.threadClose .stdinW), .exit 1, .call 0 (.threadClose .stdoutR),
      .call 0 (.threadClose .stderrR)] ++
    forkActions 1 ++ execActions 1

theorem isolated_callsInTurn : ∃ tr t, runSandboxed.Run .start tr t ∧
    t.calls.length = 2 ∧ (∀ e ∈ tr, Isolated e.1) ∧ Isolated t := by
  obtain ⟨tr, t, hrun, hend⟩ := System.run_of_execAll_any (by decide +kernel :
    (System.execAll Runner.step .start callsInTurn).any (fun r =>
      r.2.calls.length == 2 && r.1.all fun e => e.1.forksAlone e.2) = true)
  rw [Bool.and_eq_true, beq_iff_eq, List.all_eq_true] at hend
  exact ⟨tr, t, hrun, hend.1, isolated_of_alone rfl hrun hend.2⟩

/-- Two calls that both make their pipes before the first forks. -/
def callsAtOnce : List RunnerAction :=
  [.begin 0, .begin 1, .call 1 .pipe, .call 1 .pipe, .call 1 .pipe] ++ forkActions 0 ++
    execActions 0 ++ [.call 1 .fork] ++ execActions 1 ++ [.call 1 (.threadClose .stdinW)]

/-- The first call's program has the second's standard input open for
writing, whose own writer has closed it. -/
theorem isolated_fails : ¬∀ s tr t, runSandboxed.init s → runSandboxed.Run s tr t → Isolated t := by
  intro hall
  obtain ⟨tr, t, hrun, hend⟩ := System.run_of_execAll_any (by decide +kernel :
    (System.execAll Runner.step .start callsAtOnce).any (fun r =>
      (r.2.collect? 1).any (fun q => q.script = [] ∧ .stdinW ∉ q.threads) &&
        decide (r.2.kernel.Held (.pipe 1 .stdinW))) = true)
  rw [Bool.and_eq_true, decide_eq_true_iff, Option.any_eq_true] at hend
  obtain ⟨⟨q, hq, hq'⟩, hheld⟩ := hend
  obtain ⟨call, hc, hq⟩ := Runner.collect?_eq_some.mp hq
  obtain ⟨hs, hw⟩ := of_decide_eq_true hq'
  exact (hall .start tr t rfl hrun).stdin 1 call q hc hq hs hw hheld

end MikanJudge

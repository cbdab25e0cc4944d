import MikanJudge.Model.JobProcesses
import MikanJudge.Proof.PipeEnds

/-!
# What judging leaves running

`judge` waits for the process it started itself, and a `kill` or a timeout
ends at most that one. `none_left` is that no process of a job is alive when
judging it has returned, and that nobody can write to the outputs of a run
killed at its deadline, when the judge never turns away from a process that is
alive and no end of a run's outputs is copied to a process started for
something else. `none_left_fails` is that a compiler outlives its timeout, and
what a program has forked the kill.
-/

namespace MikanJudge

open MikanJudge.Lib

/-! ## What is left, and what judging waits for -/

/-- The job a process was started for, directly or by another. -/
def Origin.job? : Origin → Option Nat
  | .server => none
  | .run j _ => some j
  | .command j => some j

structure Workers.NoneLeft (w : Workers) : Prop where
  /-- No process of a job is alive once judging it has returned. -/
  returned : ∀ (j : Nat) (x : JobState), w.jobs[j]? = some x → x.stage = .returned →
    ∀ p o, w.runner.kernel.origin? p = some o → o.job? ≠ some j
  /-- Once a run's child has been killed at the deadline and waited for, its
  outputs are open for writing nowhere. -/
  killed : ∀ (c : Nat) (call : Call) (q : Collect), w.runner.calls[c]? = some call →
    call.stage = .collecting q → q.killed = true →
    ¬w.runner.kernel.Held (.pipe c .stdoutW) ∧ ¬w.runner.kernel.Held (.pipe c .stderrW)

/-- The ends whose readers a run waits for. -/
def outputEnds (e : PipeEnd) : Bool := e ∈ [PipeEnd.stdoutW, PipeEnd.stderrW]

/-- What the processes a job waits for come from. -/
def JobState.awaits (j : Nat) (x : JobState) : Option Origin :=
  match x.stage with
  | .waiting .. => some (.command j)
  | .running c _ => some (.run j c)
  | _ => none

/-- Of the command or the run a job waits for, no process is alive. -/
def Workers.noneAwaited (w : Workers) (j : Nat) : Bool :=
  ((w.jobs[j]?.bind fun x => x.awaits j).all fun o => !decide (w.runner.kernel.HasOrigin o))

/-- No process a call has started is alive but its child. -/
def Workers.onlyChild (w : Workers) (c : Nat) : Bool :=
  w.runner.calls[c]?.all fun call => (w.runner.collect? c).all fun q =>
    !decide ((w.runner.kernel.exit q.child).HasOrigin (.run call.job c))

/-- The judge turns away from a command or a run, when it completes, times
out or fails, only if nothing started for it is alive; a child is killed only
if no other process of its program is alive; and a process is started only if
the server has no output end of another run open. -/
def Workers.waits (w : Workers) : WorkersAction → Bool
  | .job j (.output _) | .job j .timeout | .job j (.runReturns _) | .job j .runPanics =>
    w.noneAwaited j
  | .job _ .spawn => w.runner.alone outputEnds none
  | .call c .fork => w.runner.alone outputEnds (some c)
  | .call c .kill => w.onlyChild c
  | _ => true

/-! ## Steps of judging -/

/-- What a step of judging does: it goes on from where it awaits nothing, or
from what it awaited, or it starts a command or a run. -/
inductive JobState.Steps (s : Runner) (j : Nat) (x : JobState) :
    JobAction → Runner → JobStage → Prop
  | goOn {a st} : x.awaits j = none → Steps s j x a s st
  | leave {a st} : (∀ w : Workers, w.waits (.job j a) = w.noneAwaited j) →
    (∀ c n, x.stage = .running c n → ∃ q, s.collect? c = some q) → Steps s j x a s st
  | runFails {c n} : x.stage = .running c n → s.failed c = true →
    Steps s j x .runFails s .returned
  | spawn {timed done failed} : x.awaits j = none →
    Steps s j x .spawn (s.spawn j) (.waiting timed s.kernel.next done failed)
  | run {n} : x.awaits j = none → Steps s j x .run (s.begin j) (.running s.calls.length n)

theorem JobState.awaits_of_command {x : JobState} {j : Nat} {cmd : JobCommand}
    (h : x.stage.command? = some cmd) : x.awaits j = none := by
  unfold JobState.awaits
  split
  · next hs => rw [hs] at h; cases h
  · next hs => rw [hs] at h; cases h
  · rfl

theorem JobState.steps_of_step {s s' : Runner} {j : Nat} {x : JobState} {a : JobAction}
    {st : JobStage} (h : x.step s j a = some (s', st)) : x.Steps s j a s' st := by
  unfold JobState.step at h
  split at h
  · next hs => cases h; exact .goOn (by rw [JobState.awaits, hs])
  · next hs => cases h; exact .goOn (by rw [JobState.awaits, hs])
  · next hs => cases h; exact .goOn (by rw [JobState.awaits, hs])
  · next hs =>
    obtain ⟨-, h⟩ := Option.ite_none_right_eq_some.mp h
    cases h
    exact .leave (fun _ => rfl) fun _ _ hr => by rw [hs] at hr; cases hr
  · next hs =>
    cases h
    exact .leave (fun _ => rfl) fun _ _ hr => by rw [hs] at hr; cases hr
  · next hs => cases h; exact .run (by rw [JobState.awaits, hs])
  · next hs => cases h; exact .goOn (by rw [JobState.awaits, hs])
  · next hs =>
    obtain ⟨hq, h⟩ := Option.ite_none_right_eq_some.mp h
    obtain ⟨q, hq, -⟩ := (Option.any_eq_true ..).mp hq
    cases h
    exact .leave (fun _ => rfl) fun _ _ hr => by rw [hs] at hr; cases hr; exact ⟨q, hq⟩
  · next hs =>
    obtain ⟨hf, h⟩ := Option.ite_none_right_eq_some.mp h
    cases h
    exact .runFails hs hf
  · next hs =>
    obtain ⟨hq, h⟩ := Option.ite_none_right_eq_some.mp h
    obtain ⟨q, hq, -⟩ := (Option.any_eq_true ..).mp hq
    cases h
    exact .leave (fun _ => rfl) fun _ _ hr => by rw [hs] at hr; cases hr; exact ⟨q, hq⟩
  · next hs => cases h; exact .goOn (by rw [JobState.awaits, hs])
  · obtain ⟨cmd, hcmd, h⟩ := Option.map_eq_some_iff.mp h
    cases h
    exact .spawn (JobState.awaits_of_command hcmd)
  · obtain ⟨cmd, hcmd, h⟩ := Option.map_eq_some_iff.mp h
    cases h
    exact .goOn (JobState.awaits_of_command hcmd)
  · cases h

theorem JobState.running_of_awaits {x : JobState} {j j' c : Nat}
    (h : x.awaits j = some (.run j' c)) : ∃ n, x.stage = .running c n := by
  unfold JobState.awaits at h
  split at h
  · cases h
  · next n hs => cases h; exact ⟨n, hs⟩
  · cases h

theorem Runner.stage_of_failed {s : Runner} {c : Nat} (h : s.failed c = true) :
    ∃ call left, s.calls[c]? = some call ∧ call.stage = .failed left := by
  obtain ⟨call, hc, h⟩ := (Option.any_eq_true ..).mp h
  split at h
  · next left hs => exact ⟨call, left, hc, hs⟩
  · cases h

/-! ## The ends, under what programs do -/

/-- The process is not a child on its way to `execvp`. -/
def Runner.PastExec (s : Runner) (p : Pid) : Prop :=
  p ≠ server ∧ ∀ (c : Nat) (call : Call) (q : Collect), s.calls[c]? = some call →
    call.stage = .collecting q → s.kernel.origin? p = some (.run call.job c) → q.script = []

theorem Runner.origin_spawn {s : Runner} (hroot : s.kernel.origin? server = some .server) {j : Nat}
    {p : Pid} : (s.spawn j).kernel.origin? p =
      if p = s.kernel.next then some (.command j) else s.kernel.origin? p := by
  rw [Runner.spawn, Kernel.origin_install, Kernel.origin_install, Kernel.origin_fork hroot]

namespace Tracked

variable {E : PipeEnd → Bool} {s : Runner} {p : Pid}

/-- What a program has open, another process of the same origin may have, and
under any number. -/
theorem mayHold (ht : Tracked E s) (hp : s.PastExec p) {n m : Fd} {c : Nat} {e : PipeEnd}
    (hE : E e = true) (hf : s.kernel.fd p n = some (.pipe c e)) {k : Processes} {p' : Pid}
    (ho : k.origin? p' = s.kernel.origin? p) :
    ∃ call q, s.calls[c]? = some call ∧ call.stage = .collecting q ∧ MayHold k c call q p' m e := by
  obtain ⟨call, q, hc, hq, hm⟩ := ht.held p n c e hp.1 hE hf
  have hs := hp.2 c call q hc hq hm.origin
  refine ⟨call, q, hc, hq, ho.trans hm.origin, .inl ⟨?_, .inr hs⟩⟩
  rcases hm.use with ⟨he, -⟩ | ⟨-, -, hn⟩
  · exact he
  · rw [hs] at hn
    cases hn

theorem programFork (ht : Tracked E s) (hp : s.PastExec p) {o : Origin}
    (ho : s.kernel.origin? p = some o) : Tracked E ⟨s.kernel.fork p o, s.calls⟩ := by
  have hlt := Kernel.lt_next_of_origin ht.root
  refine ht.kernel (fun n => Kernel.fd_fork.trans (if_neg (Nat.ne_of_lt hlt))) ?_ ?_
    (fun p' o' hp' ho' => ?_) (fun p' n c e hp' hE hf => ?_)
  · rw [Kernel.origin_fork ho, if_neg (Nat.ne_of_lt hlt), ht.root]
  · rw [Kernel.next_fork]
    exact Nat.le_succ _
  · rwa [Kernel.origin_fork ho, if_neg (Nat.ne_of_lt hp')] at ho'
  · rcases Kernel.of_fd_fork hf with h | ⟨rfl, h⟩
    · have hne := Nat.ne_of_lt (Kernel.lt_next_of_fd h)
      exact ht.held_of_origin hp' hE h ((Kernel.origin_fork ho).trans (if_neg hne))
    · exact ht.mayHold hp hE h (by rw [Kernel.origin_fork ho, if_pos rfl, ho])

theorem programClose (ht : Tracked E s) (hp : s.PastExec p) (n : Fd) :
    Tracked E ⟨s.kernel.close p n, s.calls⟩ := by
  refine ht.kernel (fun m => Kernel.fd_close.trans (if_neg fun h => hp.1 h.1.symm))
    (Kernel.origin_close.trans ht.root) (Nat.le_of_eq Kernel.next_close.symm)
    (fun p' o' _ ho' => Kernel.origin_close.symm.trans ho') (fun p' m c e hp' hE hf => ?_)
  exact ht.held_of_origin hp' hE (Kernel.of_fd_close hf).1 Kernel.origin_close

theorem programDup2 (ht : Tracked E s) (hp : s.PastExec p) (old new : Fd) :
    Tracked E ⟨s.kernel.dup2 p old new, s.calls⟩ := by
  refine ht.kernel (fun m => Kernel.fd_dup2.trans (if_neg fun h => hp.1 h.1.symm))
    (Kernel.origin_dup2.trans ht.root) (Nat.le_of_eq Kernel.next_dup2.symm)
    (fun p' o' _ ho' => Kernel.origin_dup2.symm.trans ho') (fun p' m c e hp' hE hf => ?_)
  rcases Kernel.of_fd_dup2 hf with h | ⟨rfl, rfl, h⟩
  · exact ht.held_of_origin hp' hE h Kernel.origin_dup2
  · exact ht.mayHold hp hE h Kernel.origin_dup2

/-- A command's process has none of the ends if the server has none. -/
theorem spawn (ht : Tracked E s) (halone : s.alone E none = true) (j : Nat) :
    Tracked E (s.spawn j) := by
  have hlt := Kernel.lt_next_of_origin ht.root
  have hfd {p n} : (s.spawn j).kernel.fd p n =
      if p = s.kernel.next ∧ n = 2 then some (.output s.kernel.next .stderr)
      else if p = s.kernel.next ∧ n = 1 then some (.output s.kernel.next .stdout)
      else (s.kernel.fork server (.command j)).fd p n := by
    have hnew : (s.kernel.fork server (.command j)).origin? s.kernel.next = some (.command j) :=
      (Kernel.origin_fork ht.root).trans (if_pos rfl)
    rw [Runner.spawn, Kernel.fd_install (Kernel.origin_install.trans hnew), Kernel.fd_install hnew]
  refine ht.kernel (k := (s.spawn j).kernel) (fun n => ?_) ?_ ?_ (fun p o hp ho => ?_)
    (fun p n c e hp hE hf => ?_)
  · rw [hfd, if_neg (fun h => Nat.ne_of_lt hlt h.1), if_neg (fun h => Nat.ne_of_lt hlt h.1),
      Kernel.fd_fork, if_neg (Nat.ne_of_lt hlt)]
  · rw [Runner.origin_spawn ht.root, if_neg (Nat.ne_of_lt hlt), ht.root]
  · rw [Runner.spawn, Kernel.next_install, Kernel.next_install, Kernel.next_fork]
    exact Nat.le_succ _
  · rwa [Runner.origin_spawn ht.root, if_neg (Nat.ne_of_lt hp)] at ho
  · rw [hfd] at hf
    split_ifs at hf
    · cases hf
    · cases hf
    rcases Kernel.of_fd_fork hf with h | ⟨rfl, h⟩
    · have hne := Nat.ne_of_lt (Kernel.lt_next_of_fd h)
      exact ht.held_of_origin hp hE h ((Runner.origin_spawn ht.root).trans (if_neg hne))
    · cases Runner.eq_of_alone halone hE h

end Tracked

/-! ## What every step keeps -/

structure JobInv (w : Workers) : Prop where
  tracked : Tracked outputEnds w.runner
  /-- What is alive for a job is what the job awaits. -/
  awaited : ∀ o j, w.runner.kernel.HasOrigin o → o.job? = some j →
    ∃ x, w.jobs[j]? = some x ∧ x.awaits j = some o
  /-- A call that has not forked is awaited. -/
  piping : ∀ (c : Nat) (call : Call) (left : List Stream), w.runner.calls[c]? = some call →
    call.stage = .piping left →
    ∃ x, w.jobs[call.job]? = some x ∧ x.awaits call.job = some (.run call.job c)
  runs : ∀ j c, w.runner.kernel.HasOrigin (.run j c) →
    ∃ call q, w.runner.calls[c]? = some call ∧ call.stage = .collecting q ∧ call.job = j
  killed : ∀ (c : Nat) (call : Call) (q : Collect), w.runner.calls[c]? = some call →
    call.stage = .collecting q → q.killed = true → ¬w.runner.kernel.HasOrigin (.run call.job c)

namespace JobInv

variable {w : Workers} {j c : Nat} {x : JobState}

theorem start : JobInv .start where
  tracked := .start
  awaited o j ho hj := by
    obtain ⟨p, hp⟩ := ho
    rw [Runner.origin_start hp] at hj
    cases hj
  piping c call left hc := by cases hc
  runs j c ho := by
    obtain ⟨p, hp⟩ := ho
    cases Runner.origin_start hp
  killed c call q hc := by cases hc

/-- The processes change, and what is new is a command that is awaited. -/
theorem withKernel (hi : JobInv w) {k : Processes} (ht : Tracked outputEnds ⟨k, w.runner.calls⟩)
    (hnew : ∀ o, k.HasOrigin o → w.runner.kernel.HasOrigin o ∨
      ∃ j x, o = .command j ∧ w.jobs[j]? = some x ∧ x.awaits j = some o) :
    JobInv (w.withKernel k) where
  tracked := ht
  awaited o j ho hj := by
    rcases hnew o ho with h | ⟨j', x, rfl, hx, ha⟩
    · exact hi.awaited o j h hj
    · cases hj
      exact ⟨x, hx, ha⟩
  piping := hi.piping
  runs j c ho := by
    rcases hnew _ ho with h | ⟨j', x, e, -⟩
    · exact hi.runs j c h
    · cases e
  killed c call q hc hq hk ho := by
    rcases hnew _ ho with h | ⟨j', x, e, -⟩
    · exact hi.killed c call q hc hq hk h
    · cases e

/-- A job goes on, and leaves nothing alive that it awaited. -/
theorem setStage (hi : JobInv w) (hx : w.jobs[j]? = some x)
    (hleave : ∀ o, x.awaits j = some o → ¬w.runner.kernel.HasOrigin o ∧
      ∀ (c : Nat) (call : Call) (left : List Stream), w.runner.calls[c]? = some call →
        call.stage = .piping left → o ≠ .run j c) (st : JobStage) :
    JobInv { w with jobs := w.jobs.set j { x with stage := st } } where
  tracked := hi.tracked
  awaited o j' ho hj := by
    obtain ⟨y, hy, ha⟩ := hi.awaited o j' ho hj
    by_cases e : j' = j
    · rw [e, hx] at hy
      cases hy
      exact absurd ho (hleave o (e ▸ ha)).1
    · exact ⟨y, (get_set_iff hx).mpr (.inr ⟨e, hy⟩), ha⟩
  piping c call left hc hl := by
    obtain ⟨y, hy, ha⟩ := hi.piping c call left hc hl
    by_cases e : call.job = j
    · rw [e, hx] at hy
      cases hy
      rw [e] at ha
      exact absurd rfl ((hleave _ ha).2 c call left hc hl)
    · exact ⟨y, (get_set_iff hx).mpr (.inr ⟨e, hy⟩), ha⟩
  runs := hi.runs
  killed := hi.killed

/-- A job that awaits nothing goes on. -/
theorem goOn (hi : JobInv w) (hx : w.jobs[j]? = some x) (ha : x.awaits j = none) (st : JobStage) :
    JobInv { w with jobs := w.jobs.set j { x with stage := st } } :=
  hi.setStage hx (fun o ho => by rw [ha] at ho; cases ho) st

/-- The awaited call begins. -/
theorem begin (hi : JobInv w) (hx : w.jobs[j]? = some x)
    (ha : x.awaits j = some (.run j w.runner.calls.length)) :
    JobInv { w with runner := w.runner.begin j } := by
  refine ⟨hi.tracked.begin j, hi.awaited, fun c call left hc hl => ?_, fun j' c ho => ?_,
    fun c call q hc hq => ?_⟩
  · rcases get_concat_iff.mp hc with hc | ⟨rfl, rfl⟩
    · exact hi.piping c call left hc hl
    · exact ⟨x, hx, ha⟩
  · obtain ⟨call, q, hc, h⟩ := hi.runs j' c ho
    exact ⟨call, q, get_concat_iff.mpr (.inl hc), h⟩
  · rcases get_concat_iff.mp hc with hc | ⟨rfl, rfl⟩
    · exact hi.killed c call q hc hq
    · cases hq

/-- A step of judging. -/
theorem job_step (hi : JobInv w) (hx : w.jobs[j]? = some x) {a : JobAction} {s : Runner}
    {st : JobStage} (h : x.Steps w.runner j a s st) (hok : w.waits (.job j a) = true) :
    JobInv ⟨s, w.jobs.set j { x with stage := st }⟩ := by
  have hget (st : JobStage) : (w.jobs.set j { x with stage := st })[j]? =
      some { x with stage := st } := (get_set_iff hx).mpr (.inl ⟨rfl, rfl⟩)
  cases h with
  | goOn ha => exact hi.goOn hx ha st
  | leave hw hrun =>
    refine hi.setStage hx (fun o ho => ⟨?_, fun c call left hc hl e => ?_⟩) st
    · rw [hw, Workers.noneAwaited, hx, Option.bind_some, ho, Option.all_some] at hok
      simpa using hok
    · obtain ⟨n, hs⟩ := JobState.running_of_awaits (e ▸ ho)
      obtain ⟨q, hq⟩ := hrun c n hs
      obtain ⟨call', hc', hq⟩ := Runner.collect?_eq_some.mp hq
      rw [hc] at hc'
      cases hc'
      rw [hl] at hq
      cases hq
  | @runFails c n hs hf =>
    obtain ⟨call, left, hc, hf⟩ := Runner.stage_of_failed hf
    have ha : x.awaits j = some (.run j c) := by rw [JobState.awaits, hs]
    refine hi.setStage hx (fun o ho => ?_) _
    rw [ha] at ho
    cases ho
    refine ⟨fun ho => ?_, fun c' call' left' hc' hl e => ?_⟩
    · obtain ⟨call', q, hc', hq, -⟩ := hi.runs j c ho
      rw [hc] at hc'
      cases hc'
      rw [hf] at hq
      cases hq
    · cases e
      rw [hc] at hc'
      cases hc'
      rw [hf] at hl
      cases hl
  | spawn ha =>
    refine (hi.goOn hx ha _).withKernel (k := (w.runner.spawn j).kernel)
      (hi.tracked.spawn hok j) fun o ho => ?_
    obtain ⟨p, hp⟩ := ho
    rw [Runner.origin_spawn hi.tracked.root] at hp
    split_ifs at hp
    · cases hp
      exact .inr ⟨j, _, rfl, hget _, rfl⟩
    · exact .inl ⟨p, hp⟩
  | run ha => exact (hi.goOn hx ha _).begin (hget _) rfl

/-- A step of a call. -/
theorem call_step (hi : JobInv w) {a : CallAction} {s : Runner} (h : w.runner.call c a = some s)
    (hok : w.waits (.call c a) = true) : JobInv { w with runner := s } := by
  have ht := hi.tracked.call_step h fun e => by rw [e] at hok; exact hok
  obtain ⟨call, k, call', hc, hstep, rfl⟩ := Runner.call_cases h
  have horigin {o : Origin} (ho : k.HasOrigin o) : w.runner.kernel.HasOrigin o ∨
      o = .run call.job c ∧ call.stage = .piping [] ∧
        call'.stage = .collecting (call.collect w.runner.kernel.next) := by
    obtain ⟨p, hp⟩ := ho
    rcases hstep.origin hp with hp | ⟨-, -, hr⟩
    · exact .inl ⟨p, hp⟩
    · exact .inr hr
  refine ⟨ht, fun o j ho hj => ?_, fun c' x left hx hl => ?_, fun j c' ho => ?_,
    fun c' x q hx hq hk => ?_⟩
  · rcases horigin ho with ho | ⟨rfl, hs, -⟩
    · exact hi.awaited o j ho hj
    · cases hj
      exact hi.piping c call [] hc hs
  · rcases (get_set_iff hc).mp hx with ⟨rfl, rfl⟩ | ⟨-, hx⟩
    · rw [hstep.job]
      obtain ⟨left', hl'⟩ := hstep.piping hl
      exact hi.piping c' call left' hc hl'
    · exact hi.piping c' x left hx hl
  · rcases horigin ho with ho | ⟨e, -, hq⟩
    · obtain ⟨x, q, hx, hq, hj⟩ := hi.runs j c' ho
      obtain ⟨x', q', hx', hq', -, hj'⟩ := hstep.collecting_set hc hx hq
      exact ⟨x', q', hx', hq', hj'.trans hj⟩
    · cases e
      exact ⟨call', _, (get_set_iff hc).mpr (.inl ⟨rfl, rfl⟩), hq, hstep.job⟩
  · rcases (get_set_iff hc).mp hx with ⟨rfl, rfl⟩ | ⟨hne, hx⟩
    · obtain ⟨q', hq', hk'⟩ := hstep.killed hq hk
      rw [hstep.job]
      intro ho
      rcases hk' with hk' | ⟨rfl, rfl⟩
      · rcases horigin ho with ho | ⟨-, hs, -⟩
        · exact hi.killed c' call q' hc hq' hk' ho
        · rw [hq'] at hs
          cases hs
      · have hcol := Runner.collect?_eq_some.mpr ⟨call, hc, hq'⟩
        rw [Workers.waits, Workers.onlyChild, hc, Option.all_some, hcol, Option.all_some] at hok
        simp [ho] at hok
    · intro ho
      rcases horigin ho with ho | ⟨e, -⟩
      · exact hi.killed c' x q hx hq hk ho
      · exact hne (Origin.run.inj e).2

theorem pastExec (ht : Tracked outputEnds w.runner) {p : Pid} {o : Origin}
    (h : w.program? p = some o) : w.runner.kernel.origin? p = some o ∧ w.runner.PastExec p := by
  rw [Workers.program?, Option.filter_eq_some_iff] at h
  obtain ⟨ho, h⟩ := h
  refine ⟨ho, ?_, fun c call q hc hq hr => ?_⟩
  · rintro rfl
    cases ht.root.symm.trans ho
    cases h
  · cases hr.symm.trans ho
    have hcol := Runner.collect?_eq_some.mpr ⟨call, hc, hq⟩
    simpa [Workers.runsProgram, hcol] using h

theorem step {w' : Workers} {a : WorkersAction} (hi : JobInv w) (hok : w.waits a = true)
    (h : w.step a = some w') : JobInv w' := by
  cases a with
  | judge job =>
    cases h
    have hold {j : Nat} {o : Origin} : (∃ x, w.jobs[j]? = some x ∧ x.awaits j = some o) →
        ∃ x, (w.jobs ++ [⟨job, .start⟩])[j]? = some x ∧ x.awaits j = some o := by
      rintro ⟨x, hx, ha⟩
      exact ⟨x, get_concat_iff.mpr (.inl hx), ha⟩
    exact ⟨hi.tracked, fun o j ho hj => hold (hi.awaited o j ho hj),
      fun c call left hc hl => hold (hi.piping c call left hc hl), hi.runs, hi.killed⟩
  | job j a =>
    obtain ⟨x, hx, h⟩ := Option.bind_eq_some_iff.mp h
    obtain ⟨⟨s, st⟩, hr, rfl⟩ := Option.map_eq_some_iff.mp h
    exact hi.job_step hx (JobState.steps_of_step hr) hok
  | call c a =>
    obtain ⟨s, hs, rfl⟩ := Option.map_eq_some_iff.mp h
    exact hi.call_step hs hok
  | exit p =>
    obtain ⟨s, hs, rfl⟩ := Option.map_eq_some_iff.mp h
    rw [Runner.exit] at hs
    split_ifs at hs with hp
    cases hs
    refine hi.withKernel (hi.tracked.exit hp) fun o ⟨p', ho⟩ => ?_
    rw [Kernel.origin_exit] at ho
    split_ifs at ho
    exact .inl ⟨p', ho⟩
  | fork p =>
    obtain ⟨o, hp, h⟩ := Option.bind_eq_some_iff.mp h
    obtain ⟨-, h⟩ := Option.ite_none_right_eq_some.mp h
    cases h
    obtain ⟨ho, hpast⟩ := pastExec hi.tracked hp
    refine hi.withKernel (hi.tracked.programFork hpast ho) fun o' ⟨p', ho'⟩ => ?_
    rw [Kernel.origin_fork ho] at ho'
    split_ifs at ho'
    · cases ho'
      exact .inl ⟨p, ho⟩
    · exact .inl ⟨p', ho'⟩
  | close p n =>
    obtain ⟨o, hp, rfl⟩ := Option.map_eq_some_iff.mp h
    obtain ⟨ho, hpast⟩ := pastExec hi.tracked hp
    exact hi.withKernel (hi.tracked.programClose hpast n) fun o' ⟨p', ho'⟩ =>
      .inl ⟨p', Kernel.origin_close.symm.trans ho'⟩
  | dup2 p old new =>
    obtain ⟨o, hp, rfl⟩ := Option.map_eq_some_iff.mp h
    obtain ⟨ho, hpast⟩ := pastExec hi.tracked hp
    exact hi.withKernel (hi.tracked.programDup2 hpast old new) fun o' ⟨p', ho'⟩ =>
      .inl ⟨p', Kernel.origin_dup2.symm.trans ho'⟩

theorem noneLeft (hi : JobInv w) : w.NoneLeft where
  returned j x hx hs p o ho hj := by
    obtain ⟨y, hy, ha⟩ := hi.awaited o j ⟨p, ho⟩ hj
    rw [hx] at hy
    cases hy
    rw [JobState.awaits, hs] at ha
    cases ha
  killed c call q hc hq hk := by
    have hcl := (hi.tracked.collects c call q hc hq).killed hk
    have hclosed {e : PipeEnd} (hE : outputEnds e = true) (he : e ∉ PipeEnd.threaded) :
        ¬w.runner.kernel.Held (.pipe c e) := by
      intro hheld
      obtain ⟨p, n, hm⟩ := hi.tracked.of_held_closed hc hq hcl hE he hheld
      exact hi.killed c call q hc hq hk ⟨p, hm.origin⟩
    exact ⟨hclosed rfl (by decide), hclosed rfl (by decide)⟩

end JobInv

/-! ## Every run -/

/-- Whatever the programs do, in every run of any number of jobs whose steps
all meet the condition, in every state no process of a job that has been
judged is alive, and nobody can write to the outputs of a run killed at its
deadline. -/
theorem none_left {w w' : Workers} {tr : List (Workers × WorkersAction)} (hs : workers.init w)
    (h : workers.Run w tr w') (hok : ∀ e ∈ tr, e.1.waits e.2 = true) :
    (∀ e ∈ tr, e.1.NoneLeft) ∧ w'.NoneLeft := by
  cases hs
  obtain ⟨hpre, ht⟩ := h.invariant_throughout (I := JobInv)
    (fun _ _ _ hi ha hst => hi.step ha hst) hok .start
  exact ⟨fun e he => (hpre e he).noneLeft, ht.noneLeft⟩

def oneCase (language : Language) : JudgeJob where
  id := 0
  sourceCode := ""
  language := language
  testcases := [("", some "")]
  timeLimitMs := 1000
  memoryLimitKb := 65536
  judgeType := .exact
  scorerPath := none

/-- A job in Java up to the start of its program, which may fork. -/
def javaActions : List WorkersAction :=
  [.judge (oneCase .java), .job 0 (.setup true), .job 0 (.resolved true), .job 0 .spawn, .exit 1,
    .job 0 (.output true), .job 0 (.resolved true), .job 0 .compiled, .job 0 .run,
    .call 0 .pipe, .call 0 .pipe, .call 0 .pipe, .call 0 .fork] ++
  List.replicate 10 (.call 0 .child) ++ List.replicate 3 (.call 0 .close)

/-- The program forks, what it forked exits, and it is killed at the deadline. -/
def killedActions : List WorkersAction :=
  javaActions ++ [.fork 2, .exit 3, .call 0 .kill, .call 0 (.threadClose .stdoutR),
    .call 0 (.threadClose .stderrR), .job 0 (.runReturns false), .job 0 .finish]

theorem none_left_killed : ∃ tr w, workers.Run .start tr w ∧
    w.jobs.map (·.stage) = [.returned] ∧ (w.runner.collect? 0).any (·.killed) = true ∧
    (∀ e ∈ tr, e.1.NoneLeft) ∧ w.NoneLeft := by
  obtain ⟨tr, w, hrun, hend⟩ := System.run_of_execAll_any (by decide +kernel :
    (System.execAll Workers.step .start killedActions).any (fun r =>
      r.2.jobs.map (·.stage) == [.returned] && (r.2.runner.collect? 0).any (·.killed) &&
        r.1.all fun e => e.1.waits e.2) = true)
  rw [Bool.and_eq_true, Bool.and_eq_true, beq_iff_eq, List.all_eq_true] at hend
  exact ⟨tr, w, hrun, hend.1.1, hend.1.2, none_left rfl hrun hend.2⟩

/-- The compiler is still running when its timeout fires. -/
def timeoutActions : List WorkersAction :=
  [.judge (oneCase .cpp), .job 0 (.setup true), .job 0 (.resolved true), .job 0 .spawn,
    .job 0 .timeout]

/-- After the timeout judging has returned, and the compiler is alive; and
what a killed program has forked keeps its outputs open. -/
theorem none_left_fails :
    (∃ tr w, workers.Run .start tr w ∧ w.jobs.map (·.stage) = [.returned] ∧
      w.runner.kernel.HasOrigin (.command 0) ∧ ¬w.NoneLeft) ∧
    ∃ tr w, workers.Run .start tr w ∧ (w.runner.collect? 0).any (·.killed) = true ∧
      w.runner.kernel.Held (.pipe 0 .stdoutW) ∧ ¬w.NoneLeft := by
  constructor
  · obtain ⟨tr, w, hrun, hend⟩ := System.run_of_execAll_any (by decide +kernel :
      (System.execAll Workers.step .start timeoutActions).any (fun r =>
        decide (r.2.jobs.map (·.stage) = [.returned] ∧
          r.2.runner.kernel.HasOrigin (.command 0))) = true)
    obtain ⟨hstage, p, hp⟩ := of_decide_eq_true hend
    refine ⟨tr, w, hrun, hstage, ⟨p, hp⟩, fun hn => ?_⟩
    obtain ⟨x, hjobs, hx⟩ := List.map_eq_singleton_iff.mp hstage
    exact hn.returned 0 x (by rw [hjobs]; rfl) hx p _ hp rfl
  · obtain ⟨tr, w, hrun, hend⟩ := System.run_of_execAll_any (by decide +kernel :
      (System.execAll Workers.step .start (javaActions ++ [.fork 2, .call 0 .kill])).any (fun r =>
        decide ((r.2.runner.collect? 0).any (·.killed) = true ∧
          r.2.runner.kernel.Held (.pipe 0 .stdoutW))) = true)
    obtain ⟨hkilled, hheld⟩ := of_decide_eq_true hend
    refine ⟨tr, w, hrun, hkilled, hheld, fun hn => ?_⟩
    obtain ⟨q, hq, hk⟩ := (Option.any_eq_true ..).mp hkilled
    obtain ⟨call, hc, hq⟩ := Runner.collect?_eq_some.mp hq
    exact (hn.killed 0 call q hc hq hk).1 hheld

end MikanJudge

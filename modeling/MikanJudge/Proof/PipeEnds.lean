import MikanJudge.Lib.Positions
import MikanJudge.Model.Runner

/-!
# Who holds the ends of a call's pipes

`Tracked` is what holds of the descriptors in every run of the calls: the
server has open the ends its calls still have to close, under the numbers in
their variables, and an end another process has open is one a process of the
same call may have (`MayHold`). It is stated for the ends `E` that no fork
copied to a process of another call, and over any processes, so that it also
covers what programs and commands do.
-/

namespace MikanJudge

open MikanJudge.Lib

/-! ## The child's steps -/

theorem close_mem_childExec (fd : PipeEnd → Fd) (e : PipeEnd) : .close (fd e) ∈ childExec fd := by
  obtain ⟨_ | _ | _, _ | _⟩ := e <;> simp [childExec, PipeEnd.stdinR, PipeEnd.stdinW,
    PipeEnd.stdoutR, PipeEnd.stdoutW, PipeEnd.stderrR, PipeEnd.stderrW]

theorem childExec_cases {fd : PipeEnd → Fd} {op : ChildStep} (h : op ∈ childExec fd) :
    (∃ e ∈ PipeEnd.kept, ∃ new < 3, op = .dup2 (fd e) new) ∨ (∃ n, op = .close n) ∨ op = .exec := by
  simp only [childExec, List.mem_cons, List.not_mem_nil, or_false] at h
  rcases h with h | h | h | h | h | h | h | h | h | h
  · exact .inl ⟨_, by decide, 0, by decide, h⟩
  · exact .inl ⟨_, by decide, 1, by decide, h⟩
  · exact .inl ⟨_, by decide, 2, by decide, h⟩
  · exact .inr (.inl ⟨_, h⟩)
  · exact .inr (.inl ⟨_, h⟩)
  · exact .inr (.inl ⟨_, h⟩)
  · exact .inr (.inl ⟨_, h⟩)
  · exact .inr (.inl ⟨_, h⟩)
  · exact .inr (.inl ⟨_, h⟩)
  · exact .inr (.inr h)

namespace ChildStep

variable {k : Processes} {child p : Pid} {n : Fd}

theorem fd_run (op : ChildStep) (hp : p ≠ child) : (op.run k child).fd p n = k.fd p n := by
  cases op with
  | dup2 old new => exact Kernel.fd_dup2.trans (if_neg fun h => hp h.1)
  | close fd => exact Kernel.fd_close.trans (if_neg fun h => hp h.1)
  | exec => rfl

@[simp] theorem origin_run (op : ChildStep) : (op.run k child).origin? p = k.origin? p := by
  cases op with
  | dup2 old new => exact Kernel.origin_dup2
  | close fd => exact Kernel.origin_close
  | exec => rfl

@[simp] theorem next_run (op : ChildStep) : (op.run k child).next = k.next := by
  cases op with
  | dup2 old new => exact Kernel.next_dup2
  | close fd => exact Kernel.next_close
  | exec => rfl

/-- What a process has after a step of the child it had before, under this
number or the one duplicated. -/
theorem of_fd_run {op : ChildStep} {h : Handle} (hf : (op.run k child).fd p n = some h) :
    k.fd p n = some h ∨ ∃ old, op = .dup2 old n ∧ p = child ∧ k.fd child old = some h := by
  cases op with
  | dup2 old new =>
    rcases Kernel.of_fd_dup2 hf with h | ⟨rfl, rfl, h⟩
    · exact .inl h
    · exact .inr ⟨old, rfl, rfl, h⟩
  | close fd => exact .inl (Kernel.of_fd_close hf).1
  | exec => exact .inl hf

end ChildStep

/-! ## The steps of a call -/

section

variable {call : Call} {k : Processes} {c : Nat} {stream : Stream} {left : List Stream}

/-- The pipe a call makes next. -/
def Call.newPipe (k : Processes) (c : Nat) (stream : Stream) : Processes × Fd × Fd :=
  k.pipe server (.pipe c ⟨stream, .read⟩) (.pipe c ⟨stream, .write⟩)

theorem Call.fd_makePipe_read :
    (call.makePipe k c stream left).2.fd ⟨stream, .read⟩ = (Call.newPipe k c stream).2.1 :=
  if_pos rfl

theorem Call.fd_makePipe_write :
    (call.makePipe k c stream left).2.fd ⟨stream, .write⟩ = (Call.newPipe k c stream).2.2 :=
  (if_neg fun h => by cases h).trans (if_pos rfl)

theorem Call.fd_makePipe_of_ne {e : PipeEnd} (he : e.stream ≠ stream) :
    (call.makePipe k c stream left).2.fd e = call.fd e :=
  (if_neg fun h => he (by rw [h])).trans (if_neg fun h => he (by rw [h]))

end

/-- The end is open in the server, as far as the call goes. -/
def Call.Opens (call : Call) (e : PipeEnd) : Prop :=
  match call.stage with
  | .piping left | .failed left => e.stream ∉ left
  | .collecting q => e ∈ q.closes ++ q.threads

/-- What a step of the `c`-th call does, case by case. -/
inductive Call.Steps (k : Processes) (c : Nat) (call : Call) : CallAction → Processes → Call → Prop
  | pipe {stream left} : call.stage = .piping (stream :: left) →
    Steps k c call .pipe (call.makePipe k c stream left).1 (call.makePipe k c stream left).2
  | fails {a left} : call.stage = .piping left →
    Steps k c call a k { call with stage := .failed left }
  | fork : call.stage = .piping [] →
    Steps k c call .fork (k.fork server (.run call.job c))
      { call with stage := .collecting (call.collect k.next) }
  | child {q op script} : call.stage = .collecting q → q.script = op :: script →
    Steps k c call .child (op.run k q.child)
      { call with stage := .collecting { q with script := script } }
  | close {q e closes} : call.stage = .collecting q → q.closes = e :: closes →
    Steps k c call .close (k.close server (call.fd e))
      { call with stage := .collecting { q with closes := closes } }
  | threadClose {q e} : call.stage = .collecting q → q.closes = [] → e ∈ q.threads →
    Steps k c call (.threadClose e) (k.close server (call.fd e))
      { call with stage := .collecting { q with threads := q.threads.erase e } }
  | kill {q} : call.stage = .collecting q → q.closes = [] →
    Steps k c call .kill (k.exit q.child)
      { call with stage := .collecting { q with killed := true } }

theorem Call.steps_of_step {k k' : Processes} {c : Nat} {call call' : Call} {a : CallAction}
    (h : call.step k c a = some (k', call')) : Call.Steps k c call a k' call' := by
  unfold Call.step at h
  split at h
  · next stream left hs => cases h; exact .pipe hs
  · next stream left hs => cases h; exact .fails hs
  · next hs => cases h; exact .fork hs
  · next hs => cases h; exact .fails hs
  · next q hs =>
    split at h
    · cases h
    · next op script hq =>
      split_ifs at h
      cases h
      exact .child hs hq
  · next q hs =>
    split at h
    · cases h
    · next e closes hq => cases h; exact .close hs hq
  · next q e hs =>
    split_ifs at h with hq
    cases h
    exact .threadClose hs hq.1 hq.2.1
  · next q hs =>
    split_ifs at h with hq
    cases h
    exact .kill hs hq.1
  · cases h

theorem Runner.call_cases {s t : Runner} {c : Nat} {a : CallAction} (h : s.call c a = some t) :
    ∃ call k call', s.calls[c]? = some call ∧ call.Steps s.kernel c a k call' ∧
      t = ⟨k, s.calls.set c call'⟩ := by
  obtain ⟨call, hc, h⟩ := Option.bind_eq_some_iff.mp h
  obtain ⟨⟨k, call'⟩, hr, rfl⟩ := Option.map_eq_some_iff.mp h
  exact ⟨call, k, call', hc, Call.steps_of_step hr, rfl⟩

namespace Call.Steps

variable {k k' : Processes} {c : Nat} {call call' : Call} {a : CallAction}

/-- A step starts no process but the child. -/
theorem origin (h : call.Steps k c a k' call') {p : Pid} {o : Origin} (ho : k'.origin? p = some o) :
    k.origin? p = some o ∨ a = .fork ∧ p = k.next ∧ o = .run call.job c ∧
      call.stage = .piping [] ∧ call'.stage = .collecting (call.collect k.next) := by
  cases h with
  | pipe hs => exact .inl (Kernel.origin_pipe.symm.trans ho)
  | fails hs => exact .inl ho
  | fork hs =>
    cases hr : k.origin? server with
    | none =>
      obtain ⟨r, hp, rfl⟩ := Option.map_eq_some_iff.mp ho
      rw [Kernel.proc?_fork, Option.map_eq_none_iff.mp hr] at hp
      split_ifs at hp
      · cases hp
      · exact .inl (Option.map_eq_some_iff.mpr ⟨r, hp, rfl⟩)
    | some o' =>
      rw [Kernel.origin_fork hr] at ho
      split_ifs at ho with hp
      · cases ho
        exact .inr ⟨rfl, hp, rfl, hs, rfl⟩
      · exact .inl ho
  | child hs hq => exact .inl (ChildStep.origin_run _ |>.symm.trans ho)
  | close hs hq => exact .inl (Kernel.origin_close.symm.trans ho)
  | threadClose hs hq he => exact .inl (Kernel.origin_close.symm.trans ho)
  | kill hs hq =>
    rw [Kernel.origin_exit] at ho
    split_ifs at ho
    exact .inl ho

/-- After the fork a call keeps its child. -/
theorem collecting (h : call.Steps k c a k' call') {q : Collect} (hq : call.stage = .collecting q) :
    ∃ q', call'.stage = .collecting q' ∧ q'.child = q.child := by
  cases h with
  | pipe hs | fails hs | fork hs =>
    rw [hs] at hq
    cases hq
  | child hs _ | close hs _ | threadClose hs _ _ | kill hs _ =>
    rw [hs] at hq
    cases hq
    exact ⟨_, rfl, rfl⟩

/-- A call that has not forked had not. -/
theorem piping (h : call.Steps k c a k' call') {left : List Stream}
    (hl : call'.stage = .piping left) : ∃ left, call.stage = .piping left := by
  cases h with
  | pipe hs => exact ⟨_, hs⟩
  | fails | fork | child | close | threadClose | kill => cases hl

/-- A call is marked as killed by the kill. -/
theorem killed (h : call.Steps k c a k' call') {q' : Collect} (hq : call'.stage = .collecting q')
    (hk : q'.killed = true) : ∃ q, call.stage = .collecting q ∧
      (q.killed = true ∨ a = .kill ∧ k' = k.exit q.child) := by
  cases h with
  | pipe | fails => cases hq
  | fork =>
    cases hq
    cases hk
  | child hs _ | close hs _ | threadClose hs _ _ =>
    cases hq
    exact ⟨_, hs, .inl hk⟩
  | kill hs _ => exact ⟨_, hs, .inr ⟨rfl, rfl⟩⟩

theorem job (h : call.Steps k c a k' call') : call'.job = call.job := by cases h <;> rfl

end Call.Steps

/-- A call that has forked keeps its child and its job, whichever call takes
a step. -/
theorem Call.Steps.collecting_set {s : Runner} {k : Processes} {c c' : Nat} {call call' x : Call}
    {a : CallAction} {q : Collect} (h : call.Steps s.kernel c a k call')
    (hc : s.calls[c]? = some call) (hx : s.calls[c']? = some x) (hq : x.stage = .collecting q) :
    ∃ x' q', (s.calls.set c call')[c']? = some x' ∧ x'.stage = .collecting q' ∧
      q'.child = q.child ∧ x'.job = x.job := by
  by_cases e : c' = c
  · subst e
    rw [hc] at hx
    cases hx
    obtain ⟨q', hq', hp⟩ := h.collecting hq
    exact ⟨call', q', (get_set_iff hc).mpr (.inl ⟨rfl, rfl⟩), hq', hp, h.job⟩
  · exact ⟨x, q, (get_set_iff hc).mpr (.inr ⟨e, hx⟩), hq, rfl, rfl⟩

theorem Runner.collect?_eq_some {s : Runner} {c : Nat} {q : Collect} :
    s.collect? c = some q ↔ ∃ call, s.calls[c]? = some call ∧ call.stage = .collecting q := by
  rw [Runner.collect?, Option.bind_eq_some_iff]
  refine exists_congr fun call => and_congr_right fun _ => ?_
  cases hs : call.stage <;> simp

/-! ## What is tracked -/

/-- What holds of a call after its fork. -/
structure CollectOk (k : Processes) (c : Nat) (call : Call) (q : Collect) : Prop where
  injective : Function.Injective call.fd
  notStd : ∀ e, 3 ≤ call.fd e
  child_ne : q.child ≠ server
  child_lt : q.child < k.next
  child_origin : ∀ o, k.origin? q.child = some o → o = .run call.job c
  script : q.script <:+ childExec call.fd
  nodup : (q.closes ++ q.threads).Nodup
  closes : q.closes ⊆ PipeEnd.kept
  threads : q.threads ⊆ PipeEnd.threaded
  killed : q.killed = true → q.closes = []

/-- A process of the call may have the end open under this number: as a
standard stream, or, in the child before its `execvp`, because it has still
to close it. -/
structure MayHold (k : Processes) (c : Nat) (call : Call) (q : Collect) (p : Pid) (n : Fd)
    (e : PipeEnd) : Prop where
  origin : k.origin? p = some (.run call.job c)
  use : e ∈ PipeEnd.kept ∧ (n < 3 ∨ q.script = []) ∨
    p = q.child ∧ call.fd e = n ∧ .close n ∈ q.script

structure Tracked (E : PipeEnd → Bool) (s : Runner) : Prop where
  root : s.kernel.origin? server = some .server
  std : ∀ n < 3, s.kernel.fd server n = some (.inherited n)
  owns : ∀ n c e, s.kernel.fd server n = some (.pipe c e) ↔
    ∃ call, s.calls[c]? = some call ∧ call.Opens e ∧ call.fd e = n
  piping : ∀ (c : Nat) (call : Call) (left : List Stream), s.calls[c]? = some call →
    call.stage = .piping left → left.Nodup
  collects : ∀ (c : Nat) (call : Call) (q : Collect), s.calls[c]? = some call →
    call.stage = .collecting q → CollectOk s.kernel c call q
  held : ∀ p n c e, p ≠ server → E e = true → s.kernel.fd p n = some (.pipe c e) →
    ∃ call q, s.calls[c]? = some call ∧ call.stage = .collecting q ∧ MayHold s.kernel c call q p n e

/-- A descriptor for an end of another call's pipe, among the ends `E`. -/
def Handle.foreign (E : PipeEnd → Bool) (c : Option Nat) : Handle → Bool
  | .pipe c' e => c ≠ some c' && E e
  | _ => false

/-- The server has no such end open. -/
def Runner.alone (E : PipeEnd → Bool) (s : Runner) (c : Option Nat) : Bool :=
  (s.kernel.handles server).all fun h => !h.foreign E c

theorem Runner.eq_of_alone {E : PipeEnd → Bool} {s : Runner} {c : Option Nat}
    (h : s.alone E c = true) {n : Fd} {c' : Nat} {e : PipeEnd} (hE : E e = true)
    (hf : s.kernel.fd server n = some (.pipe c' e)) : c = some c' := by
  have hn := List.all_eq_true.mp h _ (Kernel.mem_handles.mpr ⟨n, hf⟩)
  rw [Handle.foreign, hE, Bool.and_true] at hn
  simpa using hn

/-- At the start the server is the only process. -/
theorem Runner.origin_start {p : Pid} {o : Origin}
    (h : Runner.start.kernel.origin? p = some o) : o = .server := by
  rw [Nat.lt_one_iff.mp (Kernel.lt_next_of_origin h)] at h
  exact (Option.some.inj h).symm

namespace Tracked

variable {E : PipeEnd → Bool} {s : Runner} {c : Nat} {call : Call} {q : Collect}

theorem start : Tracked E Runner.start where
  root := rfl
  std n hn := by
    match n, hn with
    | 0, _ | 1, _ | 2, _ => rfl
  owns n c e := by
    constructor
    · intro hf
      have hm := Kernel.mem_handles.mpr ⟨n, hf⟩
      rw [show Runner.start.kernel.handles server = [.inherited 2, .inherited 1, .inherited 0]
        from rfl] at hm
      simp at hm
    · rintro ⟨call, hc, -⟩
      cases hc
  piping c call left hc := by cases hc
  collects c call q hc := by cases hc
  held p n c e hp _ hf := absurd (Nat.lt_one_iff.mp (Kernel.lt_next_of_fd hf)) hp

/-- An end is open in the server under one number only. -/
theorem fd_inj (ht : Tracked E s) (hc : s.calls[c]? = some call) {c' : Nat} {call' : Call}
    (hc' : s.calls[c']? = some call') {e e' : PipeEnd} (he : call.Opens e) (he' : call'.Opens e')
    (h : call.fd e = call'.fd e') : c = c' ∧ e = e' := by
  have h₁ := (ht.owns _ c e).mpr ⟨call, hc, he, rfl⟩
  have h₂ := (ht.owns _ c' e').mpr ⟨call', hc', he', rfl⟩
  rw [h, h₂] at h₁
  cases h₁
  exact ⟨rfl, rfl⟩

/-- The ends of one call, apart from the others. -/
theorem owns_iff (ht : Tracked E s) (hc : s.calls[c]? = some call) {n : Fd} {c' : Nat}
    {e : PipeEnd} : s.kernel.fd server n = some (.pipe c' e) ↔
      c' = c ∧ call.Opens e ∧ call.fd e = n ∨ c' ≠ c ∧ s.kernel.fd server n = some (.pipe c' e) := by
  by_cases e' : c' = c
  · rw [ht.owns, e', hc]
    simp
  · simp [e']

theorem notStd (ht : Tracked E s) (hc : s.calls[c]? = some call) {e : PipeEnd}
    (he : call.Opens e) : 3 ≤ call.fd e := by
  by_contra hlt
  have h₁ := (ht.owns _ c e).mpr ⟨call, hc, he, rfl⟩
  rw [ht.std _ (Nat.lt_of_not_le hlt)] at h₁
  cases h₁

/-- What a process had open and may have, it may have among processes where
it has the same origin. -/
theorem held_of_origin (ht : Tracked E s) {p : Pid} {n : Fd} {e : PipeEnd} (hp : p ≠ server)
    (hE : E e = true) (hf : s.kernel.fd p n = some (.pipe c e)) {k : Processes}
    (ho : k.origin? p = s.kernel.origin? p) :
    ∃ call q, s.calls[c]? = some call ∧ call.stage = .collecting q ∧ MayHold k c call q p n e := by
  obtain ⟨call, q, hc, hq, hm⟩ := ht.held p n c e hp hE hf
  exact ⟨call, q, hc, hq, ho.trans hm.origin, hm.use⟩

/-! ## Steps of parts of the state -/

/-- The processes change, and the server's descriptors do not. -/
theorem kernel (ht : Tracked E s) {k : Processes}
    (hfd : ∀ n, k.fd server n = s.kernel.fd server n)
    (hroot : k.origin? server = some .server) (hnext : s.kernel.next ≤ k.next)
    (horigin : ∀ p o, p < s.kernel.next → k.origin? p = some o → s.kernel.origin? p = some o)
    (hheld : ∀ p n c e, p ≠ server → E e = true → k.fd p n = some (.pipe c e) →
      ∃ call q, s.calls[c]? = some call ∧ call.stage = .collecting q ∧ MayHold k c call q p n e) :
    Tracked E ⟨k, s.calls⟩ where
  root := hroot
  std n hn := (hfd n).trans (ht.std n hn)
  owns n c e := by rw [hfd, ht.owns]
  piping := ht.piping
  collects c call q hc hq :=
    have h := ht.collects c call q hc hq
    { h with
      child_lt := Nat.lt_of_lt_of_le h.child_lt hnext
      child_origin := fun o ho => h.child_origin o (horigin _ o h.child_lt ho) }
  held := hheld

/-- A call's record changes, and of the processes only what the server has
open of this call's pipes. -/
theorem setCall (ht : Tracked E s) (hc : s.calls[c]? = some call) {k : Processes} {call' : Call}
    (hfd : ∀ p n, p ≠ server → k.fd p n = s.kernel.fd p n)
    (horigin : ∀ p, k.origin? p = s.kernel.origin? p) (hnext : k.next = s.kernel.next)
    (hstd : ∀ n < 3, k.fd server n = s.kernel.fd server n)
    (howns : ∀ n c' e, k.fd server n = some (.pipe c' e) ↔
      c' = c ∧ call'.Opens e ∧ call'.fd e = n ∨ c' ≠ c ∧ s.kernel.fd server n = some (.pipe c' e))
    (hpiping : ∀ left, call'.stage = .piping left → left.Nodup)
    (hcollect : ∀ q', call'.stage = .collecting q' → CollectOk s.kernel c call' q')
    (hheld : ∀ q, call.stage = .collecting q → ∃ q', call'.stage = .collecting q' ∧
      ∀ p n e, s.kernel.fd p n = some (.pipe c e) →
        MayHold s.kernel c call q p n e → MayHold s.kernel c call' q' p n e) :
    Tracked E ⟨k, s.calls.set c call'⟩ where
  root := (horigin _).trans ht.root
  std n hn := (hstd n hn).trans (ht.std n hn)
  owns n c' e := by
    rw [howns, ht.owns, exists_get_set_iff hc]
  piping c' x left hx hl := by
    rcases (get_set_iff hc).mp hx with ⟨rfl, rfl⟩ | ⟨-, hx⟩
    · exact hpiping left hl
    · exact ht.piping c' x left hx hl
  collects c' x q hx hq := by
    have h : CollectOk s.kernel c' x q := by
      rcases (get_set_iff hc).mp hx with ⟨rfl, rfl⟩ | ⟨-, hx⟩
      · exact hcollect q hq
      · exact ht.collects c' x q hx hq
    exact { h with
      child_lt := hnext ▸ h.child_lt
      child_origin := fun o ho => h.child_origin o (horigin _ ▸ ho) }
  held p n c' e hp hE hf := by
    rw [hfd p n hp] at hf
    obtain ⟨x, q, hx, hq, hm⟩ := ht.held p n c' e hp hE hf
    by_cases e' : c' = c
    · subst e'
      rw [hc] at hx
      cases hx
      obtain ⟨q', hq', hm'⟩ := hheld q hq
      have h := hm' p n e hf hm
      exact ⟨call', q', (get_set_iff hc).mpr (.inl ⟨rfl, rfl⟩), hq',
        (horigin p).trans h.origin, h.use⟩
    · exact ⟨x, q, (get_set_iff hc).mpr (.inr ⟨e', hx⟩), hq, (horigin p).trans hm.origin, hm.use⟩

/-- A call's record changes, and it has the same ends open. -/
theorem setRecord (ht : Tracked E s) (hc : s.calls[c]? = some call) {call' : Call}
    (hfd : call'.fd = call.fd) (hopens : ∀ e, call'.Opens e ↔ call.Opens e)
    (hpiping : ∀ left, call'.stage = .piping left → left.Nodup)
    (hcollect : ∀ q', call'.stage = .collecting q' → CollectOk s.kernel c call' q')
    (hheld : ∀ q, call.stage = .collecting q → ∃ q', call'.stage = .collecting q' ∧
      ∀ p n e, s.kernel.fd p n = some (.pipe c e) →
        MayHold s.kernel c call q p n e → MayHold s.kernel c call' q' p n e) :
    Tracked E ⟨s.kernel, s.calls.set c call'⟩ := by
  refine ht.setCall hc (fun _ _ _ => rfl) (fun _ => rfl) rfl (fun _ _ => rfl) ?_ hpiping hcollect
    hheld
  intro n c' e
  rw [hfd, hopens]
  exact ht.owns_iff hc

/-! ## Steps of the calls -/

theorem begin (ht : Tracked E s) (job : Nat) : Tracked E (s.begin job) := by
  have hold {c : Nat} {x : Call} (hx : s.calls[c]? = some x) : (s.begin job).calls[c]? = some x :=
    get_concat_iff.mpr (.inl hx)
  refine ⟨ht.root, ht.std, fun n c e => ?_, fun c x left hx hl => ?_, fun c x q hx hq => ?_,
    fun p n c e hp hE hf => ?_⟩
  · rw [show (s.begin job).kernel = s.kernel from rfl, ht.owns]
    constructor
    · rintro ⟨x, hx, h⟩
      exact ⟨x, hold hx, h⟩
    · rintro ⟨x, hx, ho, hn⟩
      rcases get_concat_iff.mp hx with hx | ⟨-, rfl⟩
      · exact ⟨x, hx, ho, hn⟩
      · exact absurd (by cases e.stream <;> decide) ho
  · rcases get_concat_iff.mp hx with hx | ⟨-, rfl⟩
    · exact ht.piping c x left hx hl
    · cases hl
      decide
  · rcases get_concat_iff.mp hx with hx | ⟨-, rfl⟩
    · exact ht.collects c x q hx hq
    · cases hq
  · obtain ⟨x, q, hx, h⟩ := ht.held p n c e hp hE hf
    exact ⟨x, q, hold hx, h⟩

theorem makePipe (ht : Tracked E s) (hc : s.calls[c]? = some call) {stream : Stream}
    {left : List Stream} (hs : call.stage = .piping (stream :: left)) :
    Tracked E ⟨(call.makePipe s.kernel c stream left).1,
      s.calls.set c (call.makePipe s.kernel c stream left).2⟩ := by
  have hne : (Call.newPipe s.kernel c stream).2.1 ≠ (Call.newPipe s.kernel c stream).2.2 :=
    (Kernel.fd_pipe_free ht.root).2.2
  have hpipe (p : Pid) (n : Fd) : (Call.newPipe s.kernel c stream).1.fd p n =
      if p = server ∧ n = (Call.newPipe s.kernel c stream).2.1 then some (.pipe c ⟨stream, .read⟩)
      else if p = server ∧ n = (Call.newPipe s.kernel c stream).2.2 then
        some (.pipe c ⟨stream, .write⟩)
      else s.kernel.fd p n := Kernel.fd_pipe ht.root
  have hnodup := List.nodup_cons.mp (ht.piping c call _ hc hs)
  have hopens (e : PipeEnd) : call.Opens e ↔ e.stream ∉ stream :: left := by rw [Call.Opens, hs]
  refine ht.setCall hc (fun p n hp => ?_) (fun p => Kernel.origin_pipe) Kernel.next_pipe
    (fun n hn => ?_) (fun n c' e => ?_) (fun left' hl => ?_) (fun q hq => by cases hq)
    (fun q hq => by rw [hs] at hq; cases hq)
  · exact (hpipe p n).trans (by rw [if_neg (fun h => hp h.1), if_neg (fun h => hp h.1)])
  · rw [ht.std n hn]
    exact Kernel.fd_pipe_of_fd (ht.std n hn)
  · constructor
    · intro hf
      rw [show (call.makePipe s.kernel c stream left).1 = (Call.newPipe s.kernel c stream).1
        from rfl, hpipe] at hf
      split_ifs at hf with h₁ h₂
      · cases hf
        exact .inl ⟨rfl, hnodup.1, Call.fd_makePipe_read.trans h₁.2.symm⟩
      · cases hf
        exact .inl ⟨rfl, hnodup.1, Call.fd_makePipe_write.trans h₂.2.symm⟩
      · refine ((ht.owns_iff hc).mp hf).imp_left fun ⟨e', ho, hn⟩ => ?_
        have hst := List.ne_and_not_mem_of_not_mem_cons ((hopens e).mp ho)
        exact ⟨e', hst.2, (Call.fd_makePipe_of_ne hst.1).trans hn⟩
    · rintro (⟨rfl, ho, rfl⟩ | ⟨-, hf⟩)
      · obtain ⟨st, side⟩ := e
        by_cases hst : st = stream
        · subst hst
          cases side with
          | read => exact (hpipe _ _).trans (if_pos ⟨rfl, Call.fd_makePipe_read⟩)
          | write =>
            rw [Call.fd_makePipe_write]
            exact (hpipe _ _).trans ((if_neg fun h => hne h.2.symm).trans (if_pos ⟨rfl, rfl⟩))
        · rw [Call.fd_makePipe_of_ne hst]
          exact Kernel.fd_pipe_of_fd ((ht.owns _ _ _).mpr
            ⟨call, hc, (hopens _).mpr (List.not_mem_cons_of_ne_of_not_mem hst ho), rfl⟩)
      · exact Kernel.fd_pipe_of_fd hf
  · cases hl
    exact hnodup.2

theorem fails (ht : Tracked E s) (hc : s.calls[c]? = some call) {left : List Stream}
    (hs : call.stage = .piping left) :
    Tracked E ⟨s.kernel, s.calls.set c { call with stage := .failed left }⟩ := by
  refine ht.setRecord hc rfl (fun e => ?_) (fun _ h => by cases h) (fun _ h => by cases h)
    (fun q hq => by rw [hs] at hq; cases hq)
  rw [Call.Opens, Call.Opens, hs]

/-- A closed end is no longer open in the server, and the others are. -/
theorem closeServer (ht : Tracked E s) (hc : s.calls[c]? = some call)
    (hq : call.stage = .collecting q) {e : PipeEnd} (he : e ∈ q.closes ++ q.threads)
    {closes threads : List PipeEnd} (hleft : closes ++ threads = (q.closes ++ q.threads).erase e)
    (hcloses : closes ⊆ q.closes) (hthreads : threads ⊆ q.threads) :
    Tracked E ⟨s.kernel.close server (call.fd e), s.calls.set c
      { call with stage := .collecting { q with closes := closes, threads := threads } }⟩ := by
  have hok := ht.collects c call q hc hq
  have hopens (e' : PipeEnd) : call.Opens e' ↔ e' ∈ q.closes ++ q.threads := by rw [Call.Opens, hq]
  have hmem (e' : PipeEnd) : e' ∈ closes ++ threads ↔ e' ≠ e ∧ e' ∈ q.closes ++ q.threads := by
    rw [hleft, hok.nodup.mem_erase_iff]
  refine ht.setCall hc (fun p n hp => ?_) (fun p => Kernel.origin_close) Kernel.next_close
    (fun n hn => ?_) (fun n c' e' => ?_) (fun _ h => by cases h) (fun q' hq' => ?_) (fun q' hq' => ?_)
  · rw [Kernel.fd_close, if_neg fun h => hp h.1]
  · rw [Kernel.fd_close, if_neg]
    rintro ⟨-, rfl⟩
    exact Nat.not_lt_of_le (ht.notStd hc ((hopens e).mpr he)) hn
  · rw [Kernel.fd_close]
    constructor
    · intro hf
      split_ifs at hf with hn
      refine ((ht.owns_iff hc).mp hf).imp_left fun ⟨e'', ho, he'⟩ => ?_
      exact ⟨e'', (hmem e').mpr ⟨fun h => hn ⟨rfl, by rw [← he', h]⟩, (hopens e').mp ho⟩, he'⟩
    · rintro (⟨rfl, ho, rfl⟩ | ⟨hne, hf⟩)
      · obtain ⟨hne, hm⟩ := (hmem e').mp ho
        have hf := (ht.owns _ _ _).mpr ⟨call, hc, (hopens e').mpr hm, rfl⟩
        rw [if_neg fun h => hne (hok.injective h.2)]
        exact hf
      · obtain ⟨x, hx, ho, rfl⟩ := (ht.owns n c' e').mp hf
        rw [if_neg fun h => hne (ht.fd_inj hx hc ho ((hopens e).mpr he) h.2).1, hf]
  · cases hq'
    exact { hok with
      nodup := hleft ▸ hok.nodup.erase e
      closes := fun _ h => hok.closes (hcloses h)
      threads := fun _ h => hok.threads (hthreads h)
      killed := fun hk => List.eq_nil_of_subset_nil (hok.killed hk ▸ hcloses) }
  · rw [hq] at hq'
    cases hq'
    exact ⟨_, rfl, fun p n e' _ hm => ⟨hm.origin, hm.use⟩⟩

/-- A call that has made its pipes has all six ends open. -/
theorem opens_of_piped (hs : call.stage = .piping []) (e : PipeEnd) : call.Opens e := by
  rw [Call.Opens, hs]
  exact List.not_mem_nil

theorem mem_collect (e : PipeEnd) : e ∈ PipeEnd.kept ++ PipeEnd.threaded := by
  obtain ⟨_ | _ | _, _ | _⟩ := e <;> decide

/-- The child starts with numbers for its ends that are its own, and none of
them standard. -/
theorem collectOk_fork (ht : Tracked E s) (hc : s.calls[c]? = some call)
    (hs : call.stage = .piping []) :
    CollectOk (s.kernel.fork server (.run call.job c)) c
      { call with stage := .collecting (call.collect s.kernel.next) }
      (call.collect s.kernel.next) where
  injective e e' h := (ht.fd_inj hc hc (opens_of_piped hs e) (opens_of_piped hs e') h).2
  notStd e := ht.notStd hc (opens_of_piped hs e)
  child_ne := (Nat.ne_of_lt (Kernel.lt_next_of_origin ht.root)).symm
  child_lt := by
    rw [Kernel.next_fork]
    exact Nat.lt_succ_self _
  child_origin o ho := by
    rw [Kernel.origin_fork ht.root] at ho
    exact (Option.some.inj ((if_pos rfl).symm.trans ho)).symm
  script := List.suffix_rfl
  nodup := (by decide : (PipeEnd.kept ++ PipeEnd.threaded).Nodup)
  closes := List.Subset.refl _
  threads := List.Subset.refl _
  killed hk := by cases hk

theorem fork (ht : Tracked E s) (hc : s.calls[c]? = some call) (hs : call.stage = .piping [])
    (halone : s.alone E (some c) = true) :
    Tracked E ⟨s.kernel.fork server (.run call.job c),
      s.calls.set c { call with stage := .collecting (call.collect s.kernel.next) }⟩ := by
  have hne := Nat.ne_of_lt (Kernel.lt_next_of_origin ht.root)
  have hfd (n : Fd) : (s.kernel.fork server (.run call.job c)).fd server n =
      s.kernel.fd server n := Kernel.fd_fork.trans (if_neg hne)
  refine ⟨?_, fun n hn => (hfd n).trans (ht.std n hn), fun n c' e => ?_, fun c' x left hx hl => ?_,
    fun c' x q hx hq => ?_, fun p n c' e hp hE hf => ?_⟩
  · rw [Kernel.origin_fork ht.root, if_neg hne, ht.root]
  · rw [hfd, ht.owns_iff hc, exists_get_set_iff hc, ht.owns]
    exact or_congr_left (and_congr_right fun _ => and_congr_left fun _ =>
      iff_of_true (opens_of_piped hs e) (mem_collect e))
  · rcases (get_set_iff hc).mp hx with ⟨rfl, rfl⟩ | ⟨-, hx⟩
    · cases hl
    · exact ht.piping c' x left hx hl
  · rcases (get_set_iff hc).mp hx with ⟨rfl, rfl⟩ | ⟨-, hx⟩
    · cases hq
      exact ht.collectOk_fork hc hs
    · have h := ht.collects c' x q hx hq
      exact { h with
        child_lt := by rw [Kernel.next_fork]; exact Nat.lt_succ_of_lt h.child_lt
        child_origin := fun o ho => by
          rw [Kernel.origin_fork ht.root, if_neg (Nat.ne_of_lt h.child_lt)] at ho
          exact h.child_origin o ho }
  · rcases Kernel.of_fd_fork hf with h | ⟨rfl, h⟩
    · obtain ⟨x, q, hx, hq, hm⟩ := ht.held p n c' e hp hE h
      have hpn := Nat.ne_of_lt (Kernel.lt_next_of_fd h)
      have hcc : c' ≠ c := by
        rintro rfl
        rw [hc] at hx
        cases hx
        rw [hs] at hq
        cases hq
      exact ⟨x, q, (get_set_iff hc).mpr (.inr ⟨hcc, hx⟩), hq,
        (Kernel.origin_fork ht.root).trans ((if_neg hpn).trans hm.origin), hm.use⟩
    · -- What the child has of pipes is the call's own, and is still to be closed.
      obtain rfl := Option.some.inj (Runner.eq_of_alone halone hE h)
      obtain ⟨-, -, rfl⟩ := ((ht.owns_iff hc).mp h).resolve_right fun h => h.1 rfl
      exact ⟨_, _, (get_set_iff hc).mpr (.inl ⟨rfl, rfl⟩), rfl,
        (Kernel.origin_fork ht.root).trans (if_pos rfl),
        .inr ⟨rfl, rfl, close_mem_childExec call.fd e⟩⟩

/-- A process other than the server exits. -/
theorem exit (ht : Tracked E s) {p : Pid} (hp : p ≠ server) :
    Tracked E ⟨s.kernel.exit p, s.calls⟩ := by
  refine ht.kernel (fun n => ?_) ?_ (Nat.le_of_eq Kernel.next_exit.symm) (fun p' o _ ho => ?_)
    (fun p' n c e hp' hE hf => ?_)
  · rw [Kernel.fd_exit, if_neg (Ne.symm hp)]
  · rw [Kernel.origin_exit, if_neg (Ne.symm hp), ht.root]
  · rw [Kernel.origin_exit] at ho
    split_ifs at ho
    exact ho
  · obtain ⟨hf, hne⟩ := Kernel.of_fd_exit hf
    exact ht.held_of_origin hp' hE hf (Kernel.origin_exit.trans (if_neg hne))

theorem kill (ht : Tracked E s) (hc : s.calls[c]? = some call) (hq : call.stage = .collecting q)
    (hcl : q.closes = []) :
    Tracked E ⟨s.kernel.exit q.child,
      s.calls.set c { call with stage := .collecting { q with killed := true } }⟩ := by
  have h := ht.exit (ht.collects c call q hc hq).child_ne
  refine h.setRecord hc rfl (fun e => ?_) (fun _ hl => by cases hl) (fun q' hq' => ?_)
    (fun q' hq' => ?_)
  · rw [Call.Opens, Call.Opens, hq]
  · cases hq'
    exact { h.collects c call q hc hq with killed := fun _ => hcl }
  · rw [hq] at hq'
    cases hq'
    exact ⟨_, rfl, fun p n e _ hm => ⟨hm.origin, hm.use⟩⟩

/-- The child takes its next step. -/
theorem child (ht : Tracked E s) (hc : s.calls[c]? = some call) (hq : call.stage = .collecting q)
    {op : ChildStep} {script : List ChildStep} (hs : q.script = op :: script) :
    Tracked E ⟨op.run s.kernel q.child,
      s.calls.set c { call with stage := .collecting { q with script := script } }⟩ := by
  have hok := ht.collects c call q hc hq
  have hop : op ∈ childExec call.fd :=
    hok.script.subset (by rw [hs]; exact List.mem_cons_self)
  have h : Tracked E ⟨op.run s.kernel q.child, s.calls⟩ := by
    refine ht.kernel (fun n => ChildStep.fd_run op (Ne.symm hok.child_ne))
      ((ChildStep.origin_run op).trans ht.root) (Nat.le_of_eq (ChildStep.next_run op).symm)
      (fun p o _ ho => (ChildStep.origin_run op).symm.trans ho) (fun p n c' e hp hE hf => ?_)
    rcases ChildStep.of_fd_run hf with h | ⟨old, rfl, rfl, h⟩
    · exact ht.held_of_origin hp hE h (ChildStep.origin_run op)
    · -- What is duplicated is the call's own end, under its own number.
      obtain ⟨x, q', hx, hq', hm⟩ := ht.held q.child old c' e hp hE h
      obtain ⟨-, rfl⟩ := Origin.run.inj (hok.child_origin _ hm.origin)
      rw [hc] at hx
      cases hx
      rw [hq] at hq'
      cases hq'
      obtain ⟨e₀, he₀, new, hnew, he⟩ | ⟨m, he⟩ | he := childExec_cases hop
      · cases he
        refine ⟨call, q, hc, hq, (ChildStep.origin_run _).trans hm.origin, .inl ⟨?_, .inl hnew⟩⟩
        rcases hm.use with hu | ⟨-, hu, -⟩
        · exact hu.1
        · exact hok.injective hu ▸ he₀
      · cases he
      · cases he
  refine h.setRecord hc rfl (fun e => ?_) (fun _ hl => by cases hl) (fun q' hq' => ?_)
    (fun q' hq' => ?_)
  · rw [Call.Opens, Call.Opens, hq]
  · cases hq'
    exact { h.collects c call q hc hq with
      script := (List.suffix_cons op script).trans (hs ▸ hok.script) }
  · rw [hq] at hq'
    cases hq'
    refine ⟨_, rfl, fun p n e hf hm => ⟨hm.origin, ?_⟩⟩
    rcases hm.use with ⟨he, hn | hn⟩ | ⟨rfl, hn, hm'⟩
    · exact .inl ⟨he, .inl hn⟩
    · rw [hs] at hn
      cases hn
    · rw [hs] at hm'
      rcases List.mem_cons.mp hm' with rfl | hm'
      · exact absurd ⟨rfl, rfl⟩ (Kernel.of_fd_close hf).2
      · exact .inr ⟨rfl, hn, hm'⟩

/-- Every step of a call keeps what is tracked, if the server forks only
while it has none of the ends of another call. -/
theorem call_step (ht : Tracked E s) {a : CallAction} {t : Runner} (h : s.call c a = some t)
    (halone : a = .fork → s.alone E (some c) = true) : Tracked E t := by
  obtain ⟨call, k, call', hc, hstep, rfl⟩ := Runner.call_cases h
  cases hstep with
  | pipe hs => exact ht.makePipe hc hs
  | fails hs => exact ht.fails hc hs
  | fork hs => exact ht.fork hc hs (halone rfl)
  | child hq hs => exact ht.child hc hq hs
  | close hq hs =>
    refine ht.closeServer hc hq (by rw [hs]; exact List.mem_cons_self) ?_ ?_ (List.Subset.refl _)
    · rw [hs, List.cons_append, List.erase_cons_head]
    · rw [hs]
      exact List.subset_cons_self ..
  | threadClose hq hs he =>
    refine ht.closeServer hc hq (List.mem_append_right _ he) ?_ (List.Subset.refl _)
      List.erase_subset
    rw [hs, List.nil_append, List.nil_append]
  | kill hq hs => exact ht.kill hc hq hs

/-- Who can have an end open that the server has not: processes of the call,
as far as they may. -/
theorem of_held (ht : Tracked E s) (hc : s.calls[c]? = some call) (hq : call.stage = .collecting q)
    {e : PipeEnd} (hE : E e = true) (he : e ∉ q.closes ++ q.threads)
    (h : s.kernel.Held (.pipe c e)) : ∃ p n, MayHold s.kernel c call q p n e := by
  obtain ⟨p, n, hf⟩ := h
  by_cases hp : p = server
  · obtain ⟨x, hx, ho, -⟩ := (ht.owns n c e).mp (hp ▸ hf)
    rw [hc] at hx
    cases hx
    rw [Call.Opens, hq] at ho
    exact absurd ho he
  · obtain ⟨x, q', hx, hq', hm⟩ := ht.held p n c e hp hE hf
    rw [hc] at hx
    cases hx
    rw [hq] at hq'
    cases hq'
    exact ⟨p, n, hm⟩

/-- The same for an end that only the parent closes, once it has. -/
theorem of_held_closed (ht : Tracked E s) (hc : s.calls[c]? = some call)
    (hq : call.stage = .collecting q) (hcl : q.closes = []) {e : PipeEnd} (hE : E e = true)
    (he : e ∉ PipeEnd.threaded) (h : s.kernel.Held (.pipe c e)) :
    ∃ p n, MayHold s.kernel c call q p n e := by
  refine ht.of_held hc hq hE (fun hopen => ?_) h
  rw [hcl, List.nil_append] at hopen
  exact he ((ht.collects c call q hc hq).threads hopen)

end Tracked

end MikanJudge

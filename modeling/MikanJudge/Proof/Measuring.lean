import MikanJudge.Lib.Positions
import MikanJudge.Model.Measuring

/-!
# What is measured of a run

A group is made under a name that is free, and is entered by the child of the call
that made it and by what that forks: as long as no program writes to the control
groups, nothing of another call is ever in it, so the peak is that of the run's own
processes (`peak_of_own`). Leaving a call removes its group unless a process is in
it, which is then there for good (`group_left`).
-/

namespace MikanJudge

open MikanJudge.Lib

/-! ## The steps of a call -/

/-- Before `LinuxCgroup::new` has returned. -/
def MeasureStage.beforeGroup : MeasureStage → Bool
  | piped | numbered _ => true
  | _ => false

def MeasureStage.beforeFork : MeasureStage → Bool
  | piped | numbered _ | created => true
  | _ => false

/-- The call goes on, and nothing is undone. -/
structure MeasureStage.Next (st st' : MeasureStage) : Prop where
  here : st ≠ .left
  there : st' ≠ .left
  group : st'.beforeGroup = true → st.beforeGroup = true
  fork : st'.beforeFork = true → st.beforeFork = true

/-- Neither the fork nor what comes after the child has been moved. -/
def MeasureAction.prepares : MeasureAction → Bool
  | ensureDir _ | createDir _ | addProcess _ => true
  | _ => false

theorem MeasureAction.leaves_of_prepares {a : MeasureAction} (h : a.prepares = true) :
    a.leaves = false := by
  cases a with
  | forkFails | panics | drop => cases h
  | _ => rfl

/-- What a step of the `c`-th call does, case by case. -/
inductive MeasuredCall.Steps (k : RunGroups) (c : Nat) (x : MeasuredCall) :
    MeasureAction → RunGroups → MeasuredCall → Prop
  | goOn {a st} : x.stage.Next st → a.prepares = true → Steps k c x a k { x with stage := st }
  | create {g k'} : x.stage.beforeGroup = true → k.create g.dir = some k' →
    Steps k c x (.createDir true) k' { x with cgroup := some g, stage := .created }
  | fork : x.stage = .created →
    Steps k c x .fork (k.fork server (.run c))
      { x with child := some k.procs.next, stage := .forked }
  | add {g child} : x.stage = .forked → x.cgroup = some g → x.child = some child →
    Steps k c x (.addProcess true) (g.addProcess k child) { x with stage := .added }
  | measure {waited readable} : x.stage = .added →
    (waited = true → ∀ p, x.child = some p → k.origin? p = none) →
    Steps k c x (.measure waited readable) k { x with
      waited := waited
      memoryPeak := x.cgroup.bind fun g => g.memoryPeakBytes k readable
      stage := .measured }
  | leave {a} : x.stage ≠ .left → x.stage.beforeGroup = false → a.leaves = true →
    Steps k c x a (x.leave k) { x with stage := .left }

theorem MeasuredCall.steps_of_step {pid seq seq' : Nat} {k k' : RunGroups} {c : Nat}
    {x x' : MeasuredCall} {a : MeasureAction} (h : x.step pid seq k c a = some (seq', k', x')) :
    x.Steps k c a k' x' := by
  have hnumbered {n : Nat} (hs : x.stage = .numbered n) : x.stage.Next .created := by
    constructor <;> simp [hs, MeasureStage.beforeGroup, MeasureStage.beforeFork]
  have hforked (hs : x.stage = .forked) : x.stage.Next .added := by
    constructor <;> simp [hs, MeasureStage.beforeGroup, MeasureStage.beforeFork]
  have hpiped {st : MeasureStage} (hs : x.stage = .piped) (hst : st ≠ .left) : x.stage.Next st := by
    constructor <;> simp [hs, hst, MeasureStage.beforeGroup, MeasureStage.beforeFork]
  unfold MeasuredCall.step at h
  split at h
  · next hs =>
    cases h
    exact .goOn (hpiped hs (by rintro ⟨⟩)) rfl
  · next hs =>
    cases h
    exact .goOn (hpiped hs (by rintro ⟨⟩)) rfl
  · next n ok hs =>
    cases ok with
    | true =>
      simp only [if_true] at h
      split at h
      · next k'' hk =>
        cases h
        exact .create (g := ⟨LinuxCgroup.runDir pid n⟩) (by rw [hs]; rfl) hk
      · cases h
        exact .goOn (hnumbered hs) rfl
    | false =>
      cases h
      exact .goOn (hnumbered hs) rfl
  · next hs =>
    cases h
    exact .fork hs
  · next hs =>
    cases h
    exact .leave (by rw [hs]; decide) (by rw [hs]; rfl) rfl
  · next ok hs =>
    split at h
    · next g child hg hc =>
      cases h
      cases ok with
      | true => exact .add hs hg hc
      | false => exact .goOn (hforked hs) rfl
    · cases h
      exact .goOn (hforked hs) rfl
  · next hs =>
    cases h
    exact .leave (by rw [hs]; decide) (by rw [hs]; rfl) rfl
  · next waited readable hs =>
    obtain ⟨hw, h⟩ := Option.ite_none_left_eq_some.mp h
    cases h
    refine .measure hs fun hwaited p hp => ?_
    simpa [hwaited, hp] using hw
  · next hs =>
    cases h
    exact .leave (by rw [hs]; decide) (by rw [hs]; rfl) rfl
  · cases h

theorem MeasureStage.beforeFork_of_beforeGroup {st : MeasureStage} (h : st.beforeGroup = true) :
    st.beforeFork = true := by
  cases st with
  | piped | numbered => rfl
  | _ => cases h

namespace MeasuredCall.Steps

variable {k k' : RunGroups} {c : Nat} {x x' : MeasuredCall} {a : MeasureAction}

theorem mayFork (h : x.Steps k c a k' x') : x'.mayFork = x.mayFork := by
  cases h <;> rfl

/-- The child is kept, but by the fork. -/
theorem child (h : x.Steps k c a k' x') :
    (x'.child = x.child ∧ a ≠ .fork) ∨
      x.stage.beforeFork = true ∧ x'.child = some k.procs.next := by
  cases h with
  | goOn _ ha =>
    refine .inl ⟨rfl, ?_⟩
    rintro rfl
    cases ha
  | create | add | measure => exact .inl ⟨rfl, by rintro ⟨⟩⟩
  | fork hs => exact .inr ⟨by rw [hs]; rfl, rfl⟩
  | leave _ _ ha =>
    refine .inl ⟨rfl, ?_⟩
    rintro rfl
    cases ha

/-- A group a call has after a step it had before, or it has just been made. -/
theorem holds (h : x.Steps k c a k' x') {g : LinuxCgroup} (hg : x'.Holds g) :
    (x.Holds g ∧ a.leaves = false) ∨ (x.stage.beforeGroup = true ∧ k.create g.dir = some k') := by
  cases h with
  | goOn hn ha => exact .inl ⟨⟨hg.1, hn.here⟩, MeasureAction.leaves_of_prepares ha⟩
  | create hs hk =>
    obtain rfl := Option.some.inj hg.1
    exact .inr ⟨hs, hk⟩
  | fork hs => exact .inl ⟨⟨hg.1, by rw [hs]; decide⟩, rfl⟩
  | add hs => exact .inl ⟨⟨hg.1, by rw [hs]; decide⟩, rfl⟩
  | measure hs => exact .inl ⟨⟨hg.1, by rw [hs]; decide⟩, rfl⟩
  | leave => exact (hg.2 rfl).elim

end MeasuredCall.Steps

/-! ## The steps of all calls -/

/-- What a step makes of the groups, case by case, if no program writes to them. -/
inductive Measuring.GroupSteps (s : Measuring) : MeasuringAction → RunGroups → Prop
  | same {a} : GroupSteps s a s.groups
  | create {c b x d k'} : s.calls[c]? = some x → s.groups.create d = some k' →
    GroupSteps s (.call c b) k'
  | start {c x} : s.calls[c]? = some x →
    GroupSteps s (.call c .fork) (s.groups.fork server (.run c))
  | add {c b x g child} : s.calls[c]? = some x → x.Holds g → x.child = some child →
    GroupSteps s (.call c b) (s.groups.enter child g.dir)
  | drop {c b x g} : s.calls[c]? = some x → x.Holds g → b.leaves = true →
    GroupSteps s (.call c b) (s.groups.remove g.dir)
  | spawn : GroupSteps s .spawn (s.groups.fork server .other)
  | fork {p o} : s.groups.origin? p = some o → s.mayFork o = true →
    GroupSteps s (.fork p) (s.groups.fork p o)
  | exit {p} : p ≠ server → GroupSteps s (.exit p) (s.groups.exit p)
  | charge {p n} : GroupSteps s (.charge p n) (s.groups.charge p n)
  | free {d i} : GroupSteps s (.free d i) (s.groups.free d i)

section

variable {pid : Nat} {s t : Measuring} {a : MeasuringAction}

theorem Measuring.call_cases {c : Nat} {b : MeasureAction} (h : s.step pid (.call c b) = some t) :
    ∃ x x', s.calls[c]? = some x ∧ x.Steps s.groups c b t.groups x' ∧
      t.calls = s.calls.set c x' := by
  obtain ⟨x, hx, h⟩ := Option.bind_eq_some_iff.mp h
  obtain ⟨⟨seq', k', x'⟩, hr, rfl⟩ := Option.map_eq_some_iff.mp h
  exact ⟨x, x', hx, MeasuredCall.steps_of_step hr, rfl⟩

theorem Measuring.groupSteps_of_step (ha : a.leavesGroups = true) (h : s.step pid a = some t) :
    s.GroupSteps a t.groups := by
  cases a with
  | begin config =>
    cases h
    exact .same
  | call c b =>
    obtain ⟨x, x', hx, hst, -⟩ := Measuring.call_cases h
    generalize t.groups = k' at hst ⊢
    cases hst with
    | goOn | measure => exact .same
    | create _ hk => exact .create hx hk
    | fork => exact .start hx
    | add hs hg hc => exact .add hx ⟨hg, by rw [hs]; decide⟩ hc
    | leave hl _ hb =>
      rw [MeasuredCall.leave]
      split
      · next g hg => exact .drop hx ⟨hg, hl⟩ hb
      · exact .same
  | spawn =>
    cases h
    exact .spawn
  | fork p =>
    obtain ⟨o, ho, h⟩ := Option.bind_eq_some_iff.mp h
    obtain ⟨hmay, h⟩ := Option.ite_none_right_eq_some.mp h
    cases h
    exact .fork ho hmay
  | exit p =>
    obtain ⟨hp, h⟩ := Option.ite_none_left_eq_some.mp h
    cases h
    exact .exit hp
  | charge p n =>
    cases h
    exact .charge
  | free d i =>
    cases h
    exact .free
  | writeGroups groups member => cases ha

/-- What a step makes of the calls, case by case. -/
theorem Measuring.calls_cases (h : s.step pid a = some t) :
    (∃ config, a = .begin config ∧ t.calls = s.calls ++ [.start config]) ∨
      (∃ c b x x', a = .call c b ∧ s.calls[c]? = some x ∧ x.Steps s.groups c b t.groups x' ∧
        t.calls = s.calls.set c x') ∨
      (∀ c b, a ≠ .call c b) ∧ t.calls = s.calls := by
  cases a with
  | begin config =>
    cases h
    exact .inl ⟨config, rfl, rfl⟩
  | call c b =>
    obtain ⟨x, x', hx, hst, ht⟩ := Measuring.call_cases h
    exact .inr (.inl ⟨c, b, x, x', rfl, hx, hst, ht⟩)
  | fork p =>
    obtain ⟨o, -, h⟩ := Option.bind_eq_some_iff.mp h
    obtain ⟨-, h⟩ := Option.ite_none_right_eq_some.mp h
    cases h
    exact .inr (.inr ⟨fun _ _ => by rintro ⟨⟩, rfl⟩)
  | exit p =>
    obtain ⟨-, h⟩ := Option.ite_none_left_eq_some.mp h
    cases h
    exact .inr (.inr ⟨fun _ _ => by rintro ⟨⟩, rfl⟩)
  | spawn | charge p n | free d i | writeGroups groups member =>
    cases h
    exact .inr (.inr ⟨fun _ _ => by rintro ⟨⟩, rfl⟩)

/-- A call after a step is the call before it, has made the step or has just begun. -/
theorem Measuring.call_of_step (h : s.step pid a = some t) {c : Nat} {x' : MeasuredCall}
    (hx' : t.calls[c]? = some x') :
    (s.calls[c]? = some x' ∧ ∀ b, a ≠ .call c b) ∨
      (∃ b x, a = .call c b ∧ s.calls[c]? = some x ∧ x.Steps s.groups c b t.groups x') ∨
      ∃ config, a = .begin config ∧ s.calls[c]? = none ∧ x' = .start config := by
  rcases Measuring.calls_cases h with ⟨config, rfl, ht⟩ | ⟨c', b, x, x'', rfl, hx, hst, ht⟩ |
    ⟨hne, ht⟩
  · rw [ht] at hx'
    rcases get_concat_iff.mp hx' with hx | ⟨rfl, rfl⟩
    · exact .inl ⟨hx, fun _ => by rintro ⟨⟩⟩
    · exact .inr (.inr ⟨config, rfl, List.getElem?_eq_none (Nat.le_refl _), rfl⟩)
  · rw [ht] at hx'
    rcases (get_set_iff hx).mp hx' with ⟨rfl, rfl⟩ | ⟨hc, hx'⟩
    · exact .inr (.inl ⟨b, x, rfl, hx, hst⟩)
    · refine .inl ⟨hx', fun b' e => hc ?_⟩
      cases e
      rfl
  · rw [ht] at hx'
    exact .inl ⟨hx', hne c⟩

/-- A call goes on being there, as it was or after the step. -/
theorem Measuring.call_stays (h : s.step pid a = some t) {c : Nat} {x : MeasuredCall}
    (hx : s.calls[c]? = some x) : ∃ x', t.calls[c]? = some x' ∧
      (x' = x ∨ ∃ b, a = .call c b ∧ x.Steps s.groups c b t.groups x') := by
  rcases Measuring.calls_cases h with ⟨config, -, ht⟩ | ⟨c', b, y, y', rfl, hy, hst, ht⟩ | ⟨-, ht⟩
  · exact ⟨x, by rw [ht]; exact get_concat_iff.mpr (.inl hx), .inl rfl⟩
  · by_cases e : c = c'
    · subst e
      cases hy.symm.trans hx
      exact ⟨y', by rw [ht]; exact (get_set_iff hy).mpr (.inl ⟨rfl, rfl⟩), .inr ⟨b, rfl, hst⟩⟩
    · exact ⟨x, by rw [ht]; exact (get_set_iff hy).mpr (.inr ⟨e, hx⟩), .inl rfl⟩
  · exact ⟨x, by rw [ht]; exact hx, .inl rfl⟩

end

/-! ## What every step keeps -/

structure MeasureInv (s : Measuring) : Prop where
  sound : s.groups.Sound
  root : s.groups.origin? server = some .server
  outside : s.groups.member server = none
  /-- In the group of a call there is nothing but what comes from it. -/
  own : ∀ (c : Nat) (x : MeasuredCall) (g : LinuxCgroup), s.calls[c]? = some x → x.Holds g →
    s.groups.Private g.dir (.run c)
  apart : ∀ (c c' : Nat) (x x' : MeasuredCall) (g g' : LinuxCgroup), s.calls[c]? = some x →
    x.Holds g → s.calls[c']? = some x' → x'.Holds g' → g'.dir = g.dir → c' = c
  early : ∀ (c : Nat) (x : MeasuredCall), s.calls[c]? = some x →
    (x.stage.beforeGroup = true → x.cgroup = none) ∧
      (x.stage.beforeFork = true → x.child = none ∧ x.waited = false)
  child : ∀ (c : Nat) (x : MeasuredCall) (p : Pid), s.calls[c]? = some x → x.child = some p →
    p < s.groups.procs.next ∧ (∀ o, s.groups.origin? p = some o → o = .run c) ∧
      (x.waited = true → s.groups.origin? p = none)
  runs : ∀ (p : Pid) (c : Nat), s.groups.origin? p = some (.run c) →
    ∃ x : MeasuredCall, s.calls[c]? = some x ∧ (x.mayFork = true ∨ x.child = some p)

/-- No call but the `c`-th is to drop the group, and this step does not. -/
def Measuring.Spares (s : Measuring) (a : MeasuringAction) (d : String) (c : Nat) : Prop :=
  ∀ (c' : Nat) (x : MeasuredCall) (g : LinuxCgroup), s.calls[c']? = some x → x.Holds g →
    g.dir = d → c' = c ∧ ∀ b, a = .call c b → b.leaves = false

namespace MeasureInv

variable {pid : Nat} {s t : Measuring} {a : MeasuringAction} {c : Nat} {d : String}

theorem of_fresh (h : s.Fresh) : MeasureInv s where
  sound := h.sound
  root := h.root
  outside := h.outside
  own c x g hc := by rw [h.calls] at hc; cases hc
  apart c c' x x' g g' hc := by rw [h.calls] at hc; cases hc
  early c x hc := by rw [h.calls] at hc; cases hc
  child c x p hc := by rw [h.calls] at hc; cases hc
  runs p c hp := (h.others p c hp).elim

/-- A group with nothing in it but what comes from one call stays so, and its peak
grows as it must, if nobody drops it. -/
theorem keeps (hi : MeasureInv s) {k : RunGroups} (h : s.GroupSteps a k)
    (hp : s.groups.Private d (.run c)) (hd : s.Spares a d c) :
    s.groups.Keeps k d (.run c) := by
  have houtside {o : RunOrigin} : s.groups.Keeps (s.groups.fork server o) d (.run c) :=
    hp.fork hi.root fun hm => by rw [hi.outside] at hm; cases hm
  cases h with
  | same => exact hp.keeps_refl
  | create _ hk => exact hp.create hk
  | start | spawn => exact houtside
  | add hx hg hc =>
    refine hp.enter fun e o ho => ?_
    obtain ⟨rfl, -⟩ := hd _ _ _ hx hg e.symm
    exact (hi.child _ _ _ hx hc).2.1 o ho
  | drop hx hg hb =>
    refine hp.remove fun e => ?_
    obtain ⟨rfl, hspare⟩ := hd _ _ _ hx hg e.symm
    rw [hspare _ rfl] at hb
    cases hb
  | fork ho => exact hp.fork ho fun hm => Option.some.inj (ho.symm.trans (hp.members _ hm))
  | exit => exact hp.exit _
  | charge => exact hp.charge _ _
  | free => exact hp.free _ _

theorem sound_step (hi : MeasureInv s) {k : RunGroups} (h : s.GroupSteps a k) : k.Sound := by
  cases h with
  | same => exact hi.sound
  | create _ hk => exact hi.sound.create hk
  | start | spawn => exact hi.sound.fork hi.root _
  | add => exact hi.sound.enter _ _
  | drop => exact hi.sound.remove _
  | fork ho => exact hi.sound.fork ho _
  | exit => exact hi.sound.exit _
  | charge => exact hi.sound.charge _ _
  | free => exact hi.sound.free _ _

theorem next_le {k : RunGroups} (h : s.GroupSteps a k) : s.groups.procs.next ≤ k.procs.next := by
  have hfork {p : Pid} {o : RunOrigin} :
      s.groups.procs.next ≤ (s.groups.fork p o).procs.next := by
    rw [ControlGroups.fork, Kernel.next_fork]
    exact Nat.le_succ _
  cases h with
  | same => exact Nat.le_refl _
  | create _ hk => rw [(ControlGroups.SameProcs.create hk).procs]
  | start | spawn | fork => exact hfork
  | add => rw [ControlGroups.procs_enter]
  | drop => rw [(ControlGroups.SameProcs.remove _).procs]
  | exit => exact Nat.le_of_eq Kernel.next_exit.symm
  | charge => rw [(ControlGroups.SameProcs.charge _ _).procs]
  | free => exact Nat.le_refl _

/-- Where the processes after a step come from. -/
theorem origin_step (hi : MeasureInv s) {k : RunGroups} (h : s.GroupSteps a k) {p : Pid}
    {o : RunOrigin} (ho : k.origin? p = some o) : s.groups.origin? p = some o ∨
      p = s.groups.procs.next ∧ ∀ c, o = .run c → a = .call c .fork ∨ s.mayFork o = true := by
  have hsame {k : RunGroups} (hk : k.procs = s.groups.procs) (ho : k.origin? p = some o) :
      s.groups.origin? p = some o := by
    rwa [ControlGroups.origin?, hk] at ho
  have hfork {q : Pid} {o' : RunOrigin} (hq : ∃ o'', s.groups.origin? q = some o'')
      (hp : (s.groups.fork q o').origin? p = some o) :
      s.groups.origin? p = some o ∨ p = s.groups.procs.next ∧ o' = o := by
    obtain ⟨o'', hq⟩ := hq
    rw [ControlGroups.origin_fork hq] at hp
    split_ifs at hp with e
    · exact .inr ⟨e, Option.some.inj hp⟩
    · exact .inl hp
  cases h with
  | same => exact .inl ho
  | create _ hk => exact .inl (hsame (ControlGroups.SameProcs.create hk).procs ho)
  | start =>
    refine (hfork ⟨_, hi.root⟩ ho).imp_right fun ⟨hp, e⟩ => ⟨hp, fun c e' => .inl ?_⟩
    cases e.trans e'
    rfl
  | add => exact .inl (hsame ControlGroups.procs_enter ho)
  | drop => exact .inl (hsame (ControlGroups.SameProcs.remove _).procs ho)
  | spawn =>
    refine (hfork ⟨_, hi.root⟩ ho).imp_right fun ⟨hp, e⟩ => ⟨hp, fun c e' => ?_⟩
    cases e.trans e'
  | fork hq hmay =>
    exact (hfork ⟨_, hq⟩ ho).imp_right fun ⟨hp, e⟩ => ⟨hp, fun c _ => .inr (e ▸ hmay)⟩
  | exit =>
    rw [ControlGroups.origin_exit] at ho
    split_ifs at ho
    exact .inl ho
  | charge => exact .inl (hsame (ControlGroups.SameProcs.charge _ _).procs ho)
  | free => exact .inl ho

/-- The server stays as it is, and out of all groups. -/
theorem server_step (hi : MeasureInv s) {k : RunGroups} (h : s.GroupSteps a k) :
    k.origin? server = some .server ∧ k.member server = none := by
  have hne : server ≠ s.groups.procs.next := (Kernel.lt_next_of_origin hi.root).ne
  have hsame {k : RunGroups} (hk : s.groups.SameProcs k) :
      k.origin? server = some .server ∧ k.member server = none := by
    rw [ControlGroups.origin?, hk.procs, hk.member]
    exact ⟨hi.root, hi.outside⟩
  have hfork {q : Pid} {o : RunOrigin} (hq : ∃ o', s.groups.origin? q = some o') :
      (s.groups.fork q o).origin? server = some .server ∧
        (s.groups.fork q o).member server = none := by
    obtain ⟨o', hq⟩ := hq
    rw [ControlGroups.origin_fork hq, if_neg hne, ControlGroups.member_fork, if_neg hne]
    exact ⟨hi.root, hi.outside⟩
  cases h with
  | same => exact ⟨hi.root, hi.outside⟩
  | create _ hk => exact hsame (.create hk)
  | start | spawn => exact hfork ⟨_, hi.root⟩
  | @add c b x g child hx hg hc =>
    refine ⟨by rw [ControlGroups.origin?, ControlGroups.procs_enter]; exact hi.root, ?_⟩
    cases hm : (s.groups.enter child g.dir).member server with
    | none => rfl
    | some d =>
      rcases ControlGroups.of_member_enter hm with hm | ⟨rfl, -⟩
      · cases hi.outside.symm.trans hm
      · cases (hi.child _ _ _ hx hc).2.1 _ hi.root
  | drop => exact hsame (.remove _)
  | fork hq => exact hfork ⟨_, hq⟩
  | exit hp =>
    rw [ControlGroups.origin_exit, if_neg hp.symm, ControlGroups.member_exit, if_neg hp.symm]
    exact ⟨hi.root, hi.outside⟩
  | charge => exact hsame (.charge _ _)
  | free => exact hsame (.updateGroup _)

/-- A group a call has after a step it had before, and the step spares it; or it has
just been made. -/
theorem holds_step (h : s.step pid a = some t) {x' : MeasuredCall} {g : LinuxCgroup}
    (hx' : t.calls[c]? = some x') (hg : x'.Holds g) :
    (∃ x, s.calls[c]? = some x ∧ x.Holds g ∧ ∀ b, a = .call c b → b.leaves = false) ∨
      (∃ x b, s.calls[c]? = some x ∧ x.stage.beforeGroup = true ∧ a = .call c b) ∧
        s.groups.create g.dir = some t.groups := by
  rcases Measuring.call_of_step h hx' with ⟨hx, hne⟩ | ⟨b, x, rfl, hx, hst⟩ | ⟨config, -, -, rfl⟩
  · exact .inl ⟨x', hx, hg, fun b e => (hne b e).elim⟩
  · rcases hst.holds hg with ⟨hxg, hb⟩ | ⟨hs, hk⟩
    · refine .inl ⟨x, hx, hxg, fun b' e => ?_⟩
      cases e
      exact hb
    · exact .inr ⟨⟨x, b, hx, hs, rfl⟩, hk⟩
  · cases hg.1

theorem spares (hi : MeasureInv s) {x : MeasuredCall} {g : LinuxCgroup} (hx : s.calls[c]? = some x)
    (hg : x.Holds g) (hb : ∀ b, a = .call c b → b.leaves = false) : s.Spares a g.dir c :=
  fun _ _ _ hx' hg' e => ⟨hi.apart _ _ _ _ _ _ hx hg hx' hg' e, hb⟩

theorem own_step (hi : MeasureInv s) (ha : a.leavesGroups = true) (h : s.step pid a = some t) {x' : MeasuredCall}
    {g : LinuxCgroup} (hx' : t.calls[c]? = some x') (hg : x'.Holds g) :
    t.groups.Private g.dir (.run c) := by
  rcases holds_step h hx' hg with ⟨x, hx, hxg, hb⟩ | ⟨-, hk⟩
  · exact (hi.keeps (Measuring.groupSteps_of_step ha h) (hi.own c x g hx hxg) (hi.spares hx hxg hb)).1
  · exact (ControlGroups.Private.of_create hi.sound hk _).1

/-- A group with something of one call is not made again. -/
theorem ne_of_create {k : RunGroups} {d' : String} {o : RunOrigin} (hd : s.groups.Private d o)
    (hk : s.groups.create d' = some k) : d ≠ d' := by
  rintro rfl
  obtain ⟨m, hm, -⟩ := hd.group
  cases (ControlGroups.create_eq_some hk).1.symm.trans hm

theorem apart_step (hi : MeasureInv s) (h : s.step pid a = some t) {c' : Nat}
    {x x' : MeasuredCall} {g g' : LinuxCgroup} (hx : t.calls[c]? = some x) (hg : x.Holds g)
    (hx' : t.calls[c']? = some x') (hg' : x'.Holds g') (e : g'.dir = g.dir) : c' = c := by
  rcases holds_step h hx hg with ⟨y, hy, hyg, -⟩ | ⟨⟨_, _, -, -, rfl⟩, hk⟩
  · rcases holds_step h hx' hg' with ⟨y', hy', hyg', -⟩ | ⟨-, hk'⟩
    · exact hi.apart c c' y y' g g' hy hyg hy' hyg' e
    · exact (ne_of_create (hi.own c y g hy hyg) hk' e.symm).elim
  · rcases holds_step h hx' hg' with ⟨y', hy', hyg', -⟩ | ⟨⟨_, _, -, -, e'⟩, -⟩
    · exact (ne_of_create (hi.own c' y' g' hy' hyg') hk e).elim
    · cases e'
      rfl

theorem early_step (hi : MeasureInv s) (h : s.step pid a = some t) {x' : MeasuredCall}
    (hx' : t.calls[c]? = some x') : (x'.stage.beforeGroup = true → x'.cgroup = none) ∧
      (x'.stage.beforeFork = true → x'.child = none ∧ x'.waited = false) := by
  rcases Measuring.call_of_step h hx' with ⟨hx, -⟩ | ⟨b, x, -, hx, hst⟩ | ⟨config, -, -, rfl⟩
  · exact hi.early c x' hx
  · obtain ⟨hgroup, hfork⟩ := hi.early c x hx
    generalize t.groups = k at hst
    cases hst with
    | goOn hn => exact ⟨fun hs => hgroup (hn.group hs), fun hs => hfork (hn.fork hs)⟩
    | create hs =>
      refine ⟨fun hs' => (by cases hs'), fun _ => hfork ?_⟩
      exact MeasureStage.beforeFork_of_beforeGroup hs
    | fork | add | measure | leave => exact ⟨fun hs => (by cases hs), fun hs => (by cases hs)⟩
  · exact ⟨fun _ => rfl, fun _ => ⟨rfl, rfl⟩⟩

/-- A child that was there is alive only if it was, and comes from its call. -/
theorem child_kept (hi : MeasureInv s) (ha : a.leavesGroups = true) (h : s.step pid a = some t)
    {x : MeasuredCall} {p : Pid} (hx : s.calls[c]? = some x) (hp : x.child = some p) : p < t.groups.procs.next ∧
      (∀ o, t.groups.origin? p = some o → o = .run c) ∧
        (x.waited = true → t.groups.origin? p = none) := by
  have hgs := Measuring.groupSteps_of_step ha h
  obtain ⟨hlt, horigin, hwaited⟩ := hi.child c x p hx hp
  have hold {o : RunOrigin} (ho : t.groups.origin? p = some o) : s.groups.origin? p = some o := by
    rcases hi.origin_step hgs ho with ho | ⟨e, -⟩
    · exact ho
    · exact (hlt.ne e).elim
  refine ⟨Nat.lt_of_lt_of_le hlt (next_le hgs), fun o ho => horigin o (hold ho), fun hw => ?_⟩
  cases ho : t.groups.origin? p with
  | none => rfl
  | some o => cases (hwaited hw).symm.trans (hold ho)

theorem child_step (hi : MeasureInv s) (ha : a.leavesGroups = true) (h : s.step pid a = some t)
    {x' : MeasuredCall} {p : Pid} (hx' : t.calls[c]? = some x') (hp : x'.child = some p) : p < t.groups.procs.next ∧
      (∀ o, t.groups.origin? p = some o → o = .run c) ∧
        (x'.waited = true → t.groups.origin? p = none) := by
  rcases Measuring.call_of_step h hx' with ⟨hx, -⟩ | ⟨b, x, rfl, hx, hst⟩ | ⟨config, -, -, rfl⟩
  · exact hi.child_kept ha h hx hp
  · have hkept := fun hp' => hi.child_kept (p := p) ha h hx hp'
    generalize t.groups = k at hst hkept ⊢
    cases hst with
    | goOn | create | add | leave => exact hkept hp
    | fork hs =>
      cases hp
      refine ⟨?_, fun o ho => ?_, fun hw => ?_⟩
      · rw [ControlGroups.fork, Kernel.next_fork]
        exact Nat.lt_succ_self _
      · rw [ControlGroups.origin_fork hi.root, if_pos rfl] at ho
        exact (Option.some.inj ho).symm
      · rw [((hi.early c x hx).2 (by rw [hs]; rfl)).2] at hw
        cases hw
    | measure hs hw =>
      obtain ⟨hlt, ho, -⟩ := hkept hp
      exact ⟨hlt, ho, fun e => hw e p hp⟩
  · cases hp

theorem runs_step (hi : MeasureInv s) (ha : a.leavesGroups = true) (h : s.step pid a = some t)
    {p : Pid} (hp : t.groups.origin? p = some (.run c)) :
    ∃ x : MeasuredCall, t.calls[c]? = some x ∧ (x.mayFork = true ∨ x.child = some p) := by
  have hmay {x : MeasuredCall} (hx : s.calls[c]? = some x) (hm : x.mayFork = true) :
      ∃ x', t.calls[c]? = some x' ∧ (x'.mayFork = true ∨ x'.child = some p) := by
    obtain ⟨x', hx', rfl | ⟨b, -, hst⟩⟩ := Measuring.call_stays h hx
    · exact ⟨x', hx', .inl hm⟩
    · exact ⟨x', hx', .inl (hst.mayFork.trans hm)⟩
  rcases hi.origin_step (Measuring.groupSteps_of_step ha h) hp with hp | ⟨rfl, hnew⟩
  · obtain ⟨x, hx, hm | hc⟩ := hi.runs p c hp
    · exact hmay hx hm
    · obtain ⟨x', hx', rfl | ⟨b, -, hst⟩⟩ := Measuring.call_stays h hx
      · exact ⟨x', hx', .inr hc⟩
      · rcases hst.child with ⟨e, -⟩ | ⟨hs, -⟩
        · exact ⟨x', hx', .inr (e.trans hc)⟩
        · rw [((hi.early c x hx).2 hs).1] at hc
          cases hc
  · rcases hnew c rfl with rfl | hm
    · obtain ⟨x, x', hx, hst, ht⟩ := Measuring.call_cases h
      refine ⟨x', ht ▸ (get_set_iff hx).mpr (.inl ⟨rfl, rfl⟩), ?_⟩
      rcases hst.child with ⟨-, hne⟩ | ⟨-, e⟩
      · exact (hne rfl).elim
      · exact .inr e
    · obtain ⟨x, hx, hm⟩ := (Option.any_eq_true ..).mp hm
      exact hmay hx hm

theorem step (hi : MeasureInv s) (ha : a.leavesGroups = true) (h : s.step pid a = some t) :
    MeasureInv t where
  sound := hi.sound_step (Measuring.groupSteps_of_step ha h)
  root := (hi.server_step (Measuring.groupSteps_of_step ha h)).1
  outside := (hi.server_step (Measuring.groupSteps_of_step ha h)).2
  own _ _ _ hx hg := hi.own_step ha h hx hg
  apart _ _ _ _ _ _ hx hg hx' hg' e := hi.apart_step h hx hg hx' hg' e
  early _ _ hx := hi.early_step h hx
  child _ _ _ hx hp := hi.child_step ha h hx hp
  runs _ _ hp := hi.runs_step ha h hp

end MeasureInv

/-! ## The peak -/

theorem not_isWhitespace_of_isDigit {c : Char} (h : c.isDigit = true) : ¬isWhitespace c := by
  simp only [Char.isDigit, Bool.and_eq_true, decide_eq_true_eq, ge_iff_le,
    UInt32.le_iff_toNat_le] at h
  simp only [isWhitespace, Char.toNat, Bool.or_eq_true, Bool.and_eq_true, decide_eq_true_eq,
    beq_iff_eq]
  have h₁ : 48 ≤ c.val.toNat := h.1
  have h₂ : c.val.toNat ≤ 57 := h.2
  omega

theorem withoutPlus_of_notMem {cs : List Char} (h : '+' ∉ cs) : withoutPlus cs = cs := by
  unfold withoutPlus
  split
  · exact (h List.mem_cons_self).elim
  · rfl

/-- What the kernel writes of a number is read as this number. -/
theorem parseU64_toString (n : Nat) :
    parseU64 (trim (toString n ++ "\n")) = if n < 2 ^ 64 then some n else none := by
  have hdigit : ∀ c ∈ Nat.toDigits 10 n, c.isDigit = true :=
    fun c hc => Nat.isDigit_of_mem_toDigits (by decide) (by decide) hc
  have htext : (trim (toString n ++ "\n")).toList = Nat.toDigits 10 n := by
    have hlist : (toString n ++ "\n").toList = Nat.toDigits 10 n ++ ['\n'] := by
      rw [String.toList_append, Nat.toString_eq_ofList_toDigits, String.toList_ofList]
      rfl
    have hblank : Blank isWhitespace ['\n'] := fun c hc => by rw [List.mem_singleton.mp hc]; decide
    have hsolid : Solid isWhitespace (Nat.toDigits 10 n) :=
      fun c hc => not_isWhitespace_of_isDigit (hdigit c hc)
    rw [trim, String.toList_ofList, hlist, trimBy_append_blank hblank, hsolid.trimBy_eq]
  have hnil : Nat.toDigits 10 n ≠ [] := Nat.toDigits_ne_nil
  have hsign : withoutPlus (Nat.toDigits 10 n) = Nat.toDigits 10 n :=
    withoutPlus_of_notMem fun hc => absurd (hdigit '+' hc) (by decide)
  rw [parseU64, htext, hsign, Nat.ofDigitChars_ten_toDigits]
  simp [hnil, List.all_eq_true.mpr hdigit]

namespace Measuring

/-- The most that the processes of a call have had in its group at once. -/
def mostCharged (states : List Measuring) (c : Nat) : Nat :=
  (states.filterMap (·.charged c)).foldl max 0

theorem mostCharged_concat (states : List Measuring) (s : Measuring) (c : Nat) :
    mostCharged (states ++ [s]) c = max (mostCharged states c) ((s.charged c).getD 0) := by
  rw [mostCharged, filterMap_snoc, List.foldl_append, ← mostCharged]
  cases s.charged c with
  | none => exact (Nat.max_zero _).symm
  | some n => rfl

variable {s t : Measuring} {c : Nat}

theorem charged_eq {x : MeasuredCall} {g : LinuxCgroup} {m : MemGroup RunOrigin}
    (hx : s.calls[c]? = some x) (hg : x.cgroup = some g) (hm : s.groups.groups g.dir = some m) :
    s.charged c = some (m.totalOf (.run c)) := by
  rw [charged, hx, Option.bind_some, hg, Option.bind_some, hm, Option.map_some]

/-- A group that is made stays the call's. -/
theorem cgroup_none_of_step {pid : Nat} {a : MeasuringAction} (h : s.step pid a = some t)
    (hc : t.calls[c]?.bind (·.cgroup) = none) : s.calls[c]?.bind (·.cgroup) = none := by
  cases hx : s.calls[c]? with
  | none => rfl
  | some x =>
    obtain ⟨x', hx', hstep⟩ := call_stays h hx
    rw [hx', Option.bind_some] at hc
    rw [Option.bind_some]
    rcases hstep with rfl | ⟨b, -, hst⟩
    · exact hc
    · generalize t.groups = k at hst
      cases hst with
      | create => cases hc
      | _ => exact hc

end Measuring

/-- What a trace of states says of the groups of the calls. -/
structure PeakInv (states : List Measuring) (s : Measuring) : Prop extends MeasureInv s where
  unmade : ∀ c, s.calls[c]?.bind (·.cgroup) = none → Measuring.mostCharged states c = 0
  peak : ∀ (c : Nat) (x : MeasuredCall) (g : LinuxCgroup) (m : MemGroup RunOrigin),
    s.calls[c]? = some x → x.Holds g → s.groups.groups g.dir = some m →
    m.peak = Measuring.mostCharged states c

theorem PeakInv.step {pid : Nat} {states : List Measuring} {s t : Measuring} {a : MeasuringAction}
    (hi : PeakInv states s) (ha : a.leavesGroups = true) (h : s.step pid a = some t) :
    PeakInv (states ++ [t]) t where
  toMeasureInv := hi.toMeasureInv.step ha h
  unmade c hc := by
    have hcharged : t.charged c = none := by rw [Measuring.charged, hc, Option.bind_none]
    rw [Measuring.mostCharged_concat, hcharged, hi.unmade c (Measuring.cgroup_none_of_step h hc)]
    rfl
  peak c x' g m' hx' hg hm' := by
    have hnext := (hi.toMeasureInv.step ha h).own c x' g hx' hg
    obtain ⟨m, hm, -, hown⟩ := hnext.group
    cases hm.symm.trans hm'
    rw [Measuring.mostCharged_concat, Measuring.charged_eq hx' hg.1 hm, Option.getD_some,
      MemGroup.totalOf_eq_total hown]
    rcases MeasureInv.holds_step h hx' hg with ⟨x, hx, hxg, hb⟩ | ⟨⟨x, b, hx, hs, -⟩, hk⟩
    · obtain ⟨-, m₁, m₂, hm₁, hm₂, hgrows⟩ := hi.keeps (Measuring.groupSteps_of_step ha h)
        (hi.own c x g hx hxg) (hi.spares hx hxg hb)
      cases hm₂.symm.trans hm
      rw [← hi.peak c x g m₁ hx hxg hm₁]
      exact hgrows
    · cases (ControlGroups.Private.of_create hi.sound hk (RunOrigin.run c)).2.symm.trans hm
      rw [hi.unmade c (by rw [hx, Option.bind_some, (hi.early c x hx).1 hs])]
      rfl

theorem peakInv_of_run {pid : Nat} {s t : Measuring} {tr : List (Measuring × MeasuringAction)}
    (hs : (measuring pid).init s) (h : (measuring pid).Run s tr t)
    (htr : ∀ e ∈ tr, e.2.leavesGroups = true) : PeakInv (tr.map (·.1) ++ [t]) t := by
  have hmeets : System.Meets (fun _ _ a => a.leavesGroups = true) tr := by
    rintro pre e post rfl
    exact htr e (List.mem_append_right _ List.mem_cons_self)
  refine h.history_of_meets (I := fun tr t => PeakInv (tr.map (·.1) ++ [t]) t) ?_
    (fun tr t a u hi ha hst => ?_) hmeets
  · have hcalls : s.calls = [] := hs.calls
    refine ⟨.of_fresh hs, fun c hc => ?_, fun c x g m hx => ?_⟩
    · have hcharged : s.charged c = none := by rw [Measuring.charged, hc, Option.bind_none]
      rw [Measuring.mostCharged_concat, hcharged]
      rfl
    · rw [hcalls] at hx
      cases hx
  · rw [List.map_append, List.map_singleton]
    exact hi.step ha hst

/-- What is read at the end of a run, whatever the other calls did, where no program has
written to the control groups: if its group was made and the peak can be read, the most that the processes of the run have had in the group
at once, over all states so far. In the group of each call there is nothing but what
comes from that call. -/
theorem peak_of_own {pid : Nat} {s t u : Measuring} {tr : List (Measuring × MeasuringAction)}
    (hs : (measuring pid).init s) (h : (measuring pid).Run s tr t)
    (htr : ∀ e ∈ tr, e.2.leavesGroups = true) {c : Nat} {waited readable : Bool}
    (hstep : t.step pid (.call c (.measure waited readable)) = some u) :
    (u.calls[c]?.bind (·.memoryPeak) =
      if readable = true ∧ (t.charged c).isSome ∧
          Measuring.mostCharged (tr.map (·.1) ++ [t]) c < 2 ^ 64 then
        some (Measuring.mostCharged (tr.map (·.1) ++ [t]) c)
      else none) ∧
    ∀ (c' : Nat) (x : MeasuredCall) (g : LinuxCgroup), t.calls[c']? = some x → x.Holds g →
      t.groups.Private g.dir (.run c') := by
  have hi := peakInv_of_run hs h htr
  refine ⟨?_, hi.own⟩
  obtain ⟨x, x', hx, hst, hcalls⟩ := Measuring.call_cases hstep
  rw [hcalls, (get_set_iff hx).mpr (.inl ⟨rfl, rfl⟩), Option.bind_some]
  generalize u.groups = k at hst
  cases hst with
  | goOn _ ha => cases ha
  | leave _ _ ha => cases ha
  | measure hadded =>
    cases hg : x.cgroup with
    | none =>
      have hcharged : t.charged c = none := by
        rw [Measuring.charged, hx, Option.bind_some, hg, Option.bind_none]
      rw [hcharged, if_neg fun h => by cases h.2.1]
      rfl
    | some g =>
      have hholds : x.Holds g := ⟨hg, by rw [hadded]; decide⟩
      obtain ⟨m, hm, -, hown⟩ := (hi.own c x g hx hholds).group
      rw [Option.bind_some, LinuxCgroup.memoryPeakBytes, hm, Option.bind_some, parseU64_toString,
        Measuring.charged_eq hx hg hm, hi.peak c x g m hx hholds hm]
      cases readable <;> simp

/-- A server that has just started, after no other. -/
def firstServer : Measuring where
  seq := 0
  groups := ⟨⟨[some ⟨.server, ∅⟩]⟩, fun _ => none, fun _ => none⟩
  calls := []

theorem firstServer_fresh : firstServer.Fresh where
  seq := rfl
  calls := rfl
  sound := ⟨fun p d h => (by cases h), fun p d h => (by cases h)⟩
  root := rfl
  outside := rfl
  others p c h := by
    have hlt : p < 1 := Kernel.lt_next_of_origin h
    obtain rfl : p = 0 := Nat.lt_one_iff.mp hlt
    cases h

def measuredConfig (nprocLimit : Option Nat) (enableSeccomp : Bool) : SandboxConfig where
  timeLimit := Duration.fromMillis 1000
  maxOutputBytes := 65536
  vmLimitBytes := none
  nprocLimit := nprocLimit
  enableSeccomp := enableSeccomp

/-- A call up to where its child is in its group. -/
def groupedActions (c : Nat) : List MeasuringAction :=
  [.call c (.ensureDir true), .call c (.createDir true), .call c .fork, .call c (.addProcess true)]

/-- Two runs at once, of which the first has less than 100 bytes in the end. -/
def measuredActions : List MeasuringAction :=
  [.begin (measuredConfig (some 1) true), .begin (measuredConfig (some 1) true)] ++
    groupedActions 0 ++ groupedActions 1 ++
    [.charge 1 100, .charge 2 7000, .free "run-1-0" 0, .charge 1 60, .exit 1]

theorem peak_of_own_two : ∃ tr t u, (measuring 1).Run firstServer tr t ∧
    t.step 1 (.call 0 (.measure true true)) = some u ∧
    u.calls[0]?.bind (·.memoryPeak) = some 100 := by
  obtain ⟨tr, t, hrun, hend⟩ := System.run_of_execAll_any (by decide +kernel :
    (System.execAll (Measuring.step 1) firstServer measuredActions).any (fun r =>
      (r.2.step 1 (.call 0 (.measure true true))).isSome &&
        r.1.all (·.2.leavesGroups) && (r.2.charged 0).isSome &&
        Measuring.mostCharged (r.1.map (·.1) ++ [r.2]) 0 == 100) = true)
  simp only [Bool.and_eq_true, beq_iff_eq, List.all_eq_true] at hend
  obtain ⟨⟨⟨hstep, htr⟩, hcharged⟩, hmost⟩ := hend
  obtain ⟨u, hu⟩ := Option.isSome_iff_exists.mp hstep
  have hpeak := (peak_of_own firstServer_fresh hrun htr hu).1
  rw [hmost, if_pos ⟨rfl, hcharged, by decide⟩] at hpeak
  exact ⟨tr, t, u, hrun, hu, hpeak⟩

/-! ## Leaving a call -/

/-- A group that no call has is left with what comes from one. -/
structure LeftBehind (d : String) (c : Nat) (s : Measuring) : Prop extends MeasureInv s where
  group : s.groups.Private d (.run c)
  unheld : ∀ (c' : Nat) (x : MeasuredCall) (g : LinuxCgroup), s.calls[c']? = some x → x.Holds g →
    g.dir ≠ d

theorem LeftBehind.step {pid : Nat} {d : String} {c : Nat} {s t : Measuring} {a : MeasuringAction}
    (hi : LeftBehind d c s) (ha : a.leavesGroups = true) (h : s.step pid a = some t) :
    LeftBehind d c t where
  toMeasureInv := hi.toMeasureInv.step ha h
  group := (hi.keeps (Measuring.groupSteps_of_step ha h) hi.group
    fun c' x g hx hg e => (hi.unheld c' x g hx hg e).elim).1
  unheld c' x' g hx' hg e := by
    rcases MeasureInv.holds_step h hx' hg with ⟨x, hx, hxg, -⟩ | ⟨-, hk⟩
    · exact hi.unheld c' x g hx hxg e
    · exact MeasureInv.ne_of_create hi.group hk e.symm

/-- When a call is left whose group was made, and no program writes to the control
groups, the group is gone if no process is in it. If there is one, the group is there for as long as the server runs, and only for what
comes from that call; and then the program was allowed to fork, or its child has been
started and not waited for. -/
theorem group_left {pid : Nat} {s t u v : Measuring} {tr tr' : List (Measuring × MeasuringAction)}
    (hs : (measuring pid).init s) (h : (measuring pid).Run s tr t)
    (htr : ∀ e ∈ tr, e.2.leavesGroups = true) {c : Nat} {a : MeasureAction}
    {x : MeasuredCall} {g : LinuxCgroup} (hx : t.calls[c]? = some x) (hg : x.cgroup = some g)
    (ha : a.leaves = true) (hstep : t.step pid (.call c a) = some u)
    (h' : (measuring pid).Run u tr' v) (htr' : ∀ e ∈ tr', e.2.leavesGroups = true) :
    (t.groups.populated g.dir = false → u.groups.groups g.dir = none) ∧
    (t.groups.populated g.dir = true → v.groups.Private g.dir (.run c) ∧
      (x.mayFork = true ∨ x.child.isSome ∧ x.waited = false)) := by
  have hi := (peakInv_of_run hs h htr).toMeasureInv
  have hu := hi.step rfl hstep
  obtain ⟨y, x', hy, hst, hcalls⟩ := Measuring.call_cases hstep
  cases hy.symm.trans hx
  have hleave : u.groups = t.groups.remove g.dir ∧ x.stage ≠ .left := by
    generalize u.groups = k at hst
    cases hst with
    | goOn _ hp => rw [MeasureAction.leaves_of_prepares hp] at ha; cases ha
    | create | fork | add | measure => cases ha
    | leave hl => exact ⟨by rw [MeasuredCall.leave, hg]; rfl, hl⟩
  have hholds : x.Holds g := ⟨hg, hleave.2⟩
  have hown := hi.own c x g hx hholds
  constructor
  · intro hempty
    rw [hleave.1, ControlGroups.remove, hempty, if_neg (by decide),
      ControlGroups.groups_withGroup, if_pos rfl]
  · intro hpop
    have hgroups : u.groups = t.groups := by rw [hleave.1, ControlGroups.remove, if_pos hpop]
    have hleft : LeftBehind g.dir c u := by
      refine ⟨hu, hgroups ▸ hown, fun c' x' g' hx' hg' e => ?_⟩
      rcases MeasureInv.holds_step hstep hx' hg' with ⟨z, hz, hzg, hb⟩ | ⟨-, hk⟩
      · obtain rfl := hi.apart c c' x z g g' hx hholds hz hzg e
        rw [hb a rfl] at ha
        cases ha
      · exact MeasureInv.ne_of_create hown hk e.symm
    have hnext : ∀ s b t, LeftBehind g.dir c s → b.leavesGroups = true →
        (measuring pid).step s b t → LeftBehind g.dir c t := fun _ _ _ hI hb hst => hI.step hb hst
    have hlast : LeftBehind g.dir c v := h'.invariant_of_forall hnext htr' hleft
    refine ⟨hlast.group, ?_⟩
    obtain ⟨p, hp⟩ := (ControlGroups.populated_iff hi.sound).mp hpop
    obtain ⟨z, hz, hm | hc⟩ := hi.runs p c (hown.members p hp)
    · cases hz.symm.trans hx
      exact .inl hm
    · cases hz.symm.trans hx
      refine .inr ⟨Option.isSome_iff_exists.mpr ⟨p, hc⟩, ?_⟩
      cases hw : x.waited with
      | false => rfl
      | true => cases ((hi.child c x p hx hc).2.2 hw).symm.trans (hown.members p hp)

/-- A run that may fork does, and what it has forked is alive when the child has been
waited for. -/
def forkingActions : List MeasuringAction :=
  [.begin (measuredConfig none false)] ++ groupedActions 0 ++
    [.fork 1, .exit 1, .call 0 (.measure true true)]

theorem group_left_forked : ∃ tr t u x, (measuring 1).Run firstServer tr t ∧
    t.calls[0]? = some x ∧ t.step 1 (.call 0 .drop) = some u ∧
    u.groups.Private "run-1-0" (.run 0) ∧ x.mayFork = true := by
  obtain ⟨tr, t, hrun, hend⟩ := System.run_of_execAll_any (by decide +kernel :
    (System.execAll (Measuring.step 1) firstServer forkingActions).any (fun r =>
      (r.2.step 1 (.call 0 .drop)).isSome && r.1.all (·.2.leavesGroups) &&
        r.2.groups.populated "run-1-0" && r.2.calls[0]?.any fun x => x.cgroup == some ⟨"run-1-0"⟩ && x.waited) = true)
  simp only [Bool.and_eq_true, List.all_eq_true] at hend
  obtain ⟨⟨⟨hstep, htr⟩, hpop⟩, hcall⟩ := hend
  obtain ⟨u, hu⟩ := Option.isSome_iff_exists.mp hstep
  obtain ⟨x, hx, hc⟩ := (Option.any_eq_true ..).mp hcall
  rw [Bool.and_eq_true, beq_iff_eq] at hc
  obtain ⟨hprivate, hmay | ⟨-, hw⟩⟩ :=
    (group_left firstServer_fresh hrun htr hx hc.1 rfl hu (.nil u)
      fun _ h => (List.not_mem_nil h).elim).2 hpop
  · exact ⟨tr, t, u, x, hrun, hx, hu, hprivate, hmay⟩
  · cases hw.symm.trans hc.2

end MikanJudge

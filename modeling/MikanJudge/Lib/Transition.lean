import Mathlib.Data.List.Basic

/-!
# Transition systems and their runs

A system has initial states and steps labelled with actions. A run carries
its trace: the state before each step and the action taken there, so that
what a step did is a function of the trace's entries and a property of the
past is a property of the trace. `Run.invariant` and `Run.history` package
the induction over a run, `Run.history_of_meets` that over a run whose every
step meets a condition on what came before it (`Meets`); `Simulation.run` and
`Refines.run` transfer runs to a more abstract system, which takes at most one
step for each step, or any number.
-/

namespace MikanJudge.Lib

/-- What the entries of a trace show, when one more is added. -/
theorem filterMap_snoc {α β : Type*} (f : α → Option β) (l : List α) (x : α) :
    (l ++ [x]).filterMap f = l.filterMap f ++ (f x).toList := by
  rw [List.filterMap_append]
  cases h : f x with
  | none => rw [List.filterMap_cons_none h, List.filterMap_nil, Option.toList_none]
  | some y => rw [List.filterMap_cons_some h, List.filterMap_nil, Option.toList_some]

theorem filterMap_one {α β : Type*} (f : α → Option β) (x : α) :
    [x].filterMap f = (f x).toList := filterMap_snoc f [] x

/-- Where an element stands in a list with one more at its end. -/
theorem snoc_eq_append_cons_iff {α : Type*} {l pre post : List α} {x y : α} :
    l ++ [x] = pre ++ y :: post ↔
      (l = pre ∧ x = y ∧ post = []) ∨ ∃ post', l = pre ++ y :: post' ∧ post = post' ++ [x] := by
  rcases List.eq_nil_or_concat post with rfl | ⟨post, z, rfl⟩
  · simp
  · rw [List.concat_eq_append, ← List.cons_append, ← List.append_assoc, List.append_singleton_inj]
    constructor
    · rintro ⟨rfl, rfl⟩
      exact .inr ⟨post, rfl, rfl⟩
    · rintro (⟨-, -, h⟩ | ⟨post', rfl, h⟩)
      · exact absurd h (List.append_ne_nil_of_right_ne_nil _ (List.cons_ne_nil _ _))
      · obtain ⟨rfl, rfl⟩ := List.append_singleton_inj.mp h
        exact ⟨rfl, rfl⟩

/-- A labelled transition system. -/
structure System (σ α : Type*) where
  init : σ → Prop
  step : σ → α → σ → Prop

namespace System

variable {σ α τ β : Type*}

/-- The runs of a system: from a state, with a trace, to a state. -/
inductive Run (S : System σ α) : σ → List (σ × α) → σ → Prop
  | nil (s : σ) : Run S s [] s
  | snoc {s t u : σ} {tr : List (σ × α)} {a : α} :
    Run S s tr t → S.step t a u → Run S s (tr ++ [(t, a)]) u

/-- Every step of a trace meets a condition on the steps before it, the state
it is taken in and the action. -/
def Meets (ok : List (σ × α) → σ → α → Prop) (tr : List (σ × α)) : Prop :=
  ∀ pre e post, tr = pre ++ e :: post → ok pre e.1 e.2

theorem Meets.of_append {ok : List (σ × α) → σ → α → Prop} {tr tr' : List (σ × α)}
    (h : Meets ok (tr ++ tr')) : Meets ok tr :=
  fun pre e post he => h pre e (post ++ tr') (by rw [he, List.append_assoc, List.cons_append])

theorem Meets.last {ok : List (σ × α) → σ → α → Prop} {tr : List (σ × α)} {e : σ × α}
    (h : Meets ok (tr ++ [e])) : ok tr e.1 e.2 := h tr e [] rfl

theorem meets_iff {ok : List (σ × α) → σ → α → Prop} {tr : List (σ × α)} :
    Meets ok tr ↔ ∀ k : Fin tr.length, ok (tr.take k) tr[k].1 tr[k].2 := by
  constructor
  · intro h k
    refine h (tr.take k) tr[k] (tr.drop (k + 1)) ((List.take_append_drop k tr).symm.trans ?_)
    rw [List.drop_eq_getElem_cons k.isLt]
    rfl
  · rintro h pre e post rfl
    have hk := h ⟨pre.length, by simp⟩
    simpa using hk

instance {ok : List (σ × α) → σ → α → Prop} [∀ pre s a, Decidable (ok pre s a)]
    (tr : List (σ × α)) : Decidable (Meets ok tr) :=
  decidable_of_iff _ meets_iff.symm

variable {S : System σ α} {s t : σ} {tr : List (σ × α)}

/-- A property every step keeps holds after a run that starts with it. -/
theorem Run.invariant {I : σ → Prop} (hstep : ∀ s a t, I s → S.step s a t → I t)
    (h : S.Run s tr t) (hs : I s) : I t := by
  induction h with
  | nil => exact hs
  | snoc _ hst ih => exact hstep _ _ _ ih hst

/-- The same, of a run whose every step meets a condition on the state it is
taken in and the action; it then holds in every state on the way. -/
theorem Run.invariant_throughout {I : σ → Prop} {ok : σ → α → Prop}
    (hstep : ∀ s a t, I s → ok s a → S.step s a t → I t) (h : S.Run s tr t)
    (hok : ∀ e ∈ tr, ok e.1 e.2) (hs : I s) : (∀ e ∈ tr, I e.1) ∧ I t := by
  induction h with
  | nil => exact ⟨fun _ he => (List.not_mem_nil he).elim, hs⟩
  | snoc _ hst ih =>
    obtain ⟨hpre, ht⟩ := ih fun e he => hok e (List.mem_append_left _ he)
    refine ⟨fun e he => ?_, hstep _ _ _ ht (hok _ (List.mem_append_right _ List.mem_cons_self)) hst⟩
    rcases List.mem_append.mp he with he | he
    · exact hpre e he
    · exact List.mem_singleton.mp he ▸ ht

theorem Run.invariant_of_forall {I : σ → Prop} {ok : σ → α → Prop}
    (hstep : ∀ s a t, I s → ok s a → S.step s a t → I t) (h : S.Run s tr t)
    (hok : ∀ e ∈ tr, ok e.1 e.2) (hs : I s) : I t :=
  (h.invariant_throughout hstep hok hs).2

/-- A property of the trace and the state that every step keeps holds after
a run. -/
theorem Run.history {I : List (σ × α) → σ → Prop} (h0 : I [] s)
    (hstep : ∀ tr t a u, I tr t → S.step t a u → I (tr ++ [(t, a)]) u) (h : S.Run s tr t) :
    I tr t := by
  induction h with
  | nil => exact h0
  | snoc _ hst ih => exact hstep _ _ _ _ ih hst

/-- The same, of a run whose every step meets a condition. -/
theorem Run.history_of_meets {I : List (σ × α) → σ → Prop} {ok : List (σ × α) → σ → α → Prop}
    (h0 : I [] s) (hstep : ∀ tr t a u, I tr t → ok tr t a → S.step t a u → I (tr ++ [(t, a)]) u)
    (h : S.Run s tr t) (hm : Meets ok tr) : I tr t := by
  induction h with
  | nil => exact h0
  | snoc _ hst ih => exact hstep _ _ _ _ (ih hm.of_append) hm.last hst

theorem Run.one {a : α} (h : S.step s a t) : S.Run s [(s, a)] t := System.Run.snoc (.nil s) h

/-- A run of one step after another. -/
theorem Run.trans {u : σ} {tr' : List (σ × α)} (h : S.Run s tr t) (h' : S.Run t tr' u) :
    S.Run s (tr ++ tr') u := by
  induction h' with
  | nil => rwa [List.append_nil]
  | snoc _ hst ih =>
    rw [← List.append_assoc]
    exact ih.snoc hst

/-- A run up to one of its steps, and that step. -/
theorem Run.of_append_cons (h : S.Run s tr t) {pre post : List (σ × α)} {e : σ × α}
    (he : tr = pre ++ e :: post) : S.Run s pre e.1 ∧ ∃ u, S.step e.1 e.2 u := by
  induction h generalizing post with
  | nil => exact absurd he.symm (List.append_ne_nil_of_right_ne_nil _ (List.cons_ne_nil _ _))
  | snoc hr hst ih =>
    rcases snoc_eq_append_cons_iff.mp he with ⟨rfl, rfl, -⟩ | ⟨post', he', -⟩
    · exact ⟨hr, _, hst⟩
    · exact ih he'

/-- The steps of a system that meet a condition. -/
def restrict (S : System σ α) (ok : σ → α → Prop) : System σ α where
  init := S.init
  step s a t := ok s a ∧ S.step s a t

theorem Run.restrict {ok : σ → α → Prop} (h : S.Run s tr t) (hok : ∀ e ∈ tr, ok e.1 e.2) :
    (S.restrict ok).Run s tr t := by
  induction h with
  | nil => exact .nil _
  | snoc _ hst ih =>
    exact (ih fun e he => hok e (List.mem_append_left _ he)).snoc
      ⟨hok _ (List.mem_append_right _ List.mem_cons_self), hst⟩

theorem Run.of_restrict {ok : σ → α → Prop} (h : (S.restrict ok).Run s tr t) : S.Run s tr t := by
  induction h with
  | nil => exact .nil _
  | snoc _ hst ih => exact ih.snoc hst.2

/-! ## Steps given by a function -/

/-- The system whose steps a function computes. -/
def ofStep (init : σ → Prop) (step : σ → α → Option σ) : System σ α where
  init := init
  step s a t := step s a = some t

/-- The trace and the last state of the actions one after another. -/
def execAll (step : σ → α → Option σ) (s : σ) : List α → Option (List (σ × α) × σ)
  | [] => some ([], s)
  | a :: as => (step s a).bind fun t => (execAll step t as).map fun r => ((s, a) :: r.1, r.2)

theorem execAll_cons {step : σ → α → Option σ} {s u : σ} {a : α} {as : List α}
    (ha : step s a = some t) (h : execAll step t as = some (tr, u)) :
    execAll step s (a :: as) = some ((s, a) :: tr, u) := by
  rw [execAll, ha, Option.bind_some, h]
  rfl

/-- Actions that can be taken one after another make a run. -/
theorem run_of_execAll {init : σ → Prop} {step : σ → α → Option σ} {as : List α}
    (h : execAll step s as = some (tr, t)) : (ofStep init step).Run s tr t := by
  induction as generalizing s tr with
  | nil =>
    cases h
    exact .nil _
  | cons a as ih =>
    obtain ⟨u, hu, h⟩ := Option.bind_eq_some_iff.mp h
    obtain ⟨⟨tr', t'⟩, hr, e⟩ := Option.map_eq_some_iff.mp h
    cases e
    have hone : (ofStep init step).Run s [(s, a)] u := System.Run.snoc (.nil s) hu
    exact hone.trans (ih hr)

/-- A check of the trace and the last state that the actions pass holds of a
run. -/
theorem run_of_execAll_any {init : σ → Prop} {step : σ → α → Option σ} {as : List α}
    {check : List (σ × α) × σ → Bool} (h : (execAll step s as).any check = true) :
    ∃ tr t, (ofStep init step).Run s tr t ∧ check (tr, t) = true := by
  obtain ⟨⟨tr, t⟩, he, hc⟩ := (Option.any_eq_true ..).mp h
  exact ⟨tr, t, run_of_execAll he, hc⟩

/-! ## Simulation -/

/-- `R` relates the states of `C` to those of `A`, whose labels are `none` for
an internal step: every step of `C` is matched by one of `A` with the label
`obs` shows of it, or by none if it shows nothing. -/
structure Simulation (C : System σ α) (A : System τ (Option β)) (obs : σ × α → Option β)
    (R : σ → τ → Prop) : Prop where
  step {s s' : σ} {a : α} {t : τ} : R s t → C.step s a s' →
    ∃ t', R s' t' ∧ (A.step t (obs (s, a)) t' ∨ (t' = t ∧ obs (s, a) = none))

/-- What a run of `C` shows is what a run of `A` shows. -/
theorem Simulation.run {C : System σ α} {A : System τ (Option β)} {obs : σ × α → Option β}
    {R : σ → τ → Prop} (hR : Simulation C A obs R) {s s' : σ} {t : τ} {tr : List (σ × α)}
    (h : C.Run s tr s') (hs : R s t) :
    ∃ t' tr', A.Run t tr' t' ∧ R s' t' ∧ tr'.filterMap (·.2) = tr.filterMap obs := by
  induction h with
  | nil => exact ⟨t, [], .nil _, hs, rfl⟩
  | snoc _ hst ih =>
    obtain ⟨t₁, tr₁, hr, hR₁, e⟩ := ih
    obtain ⟨t₂, hR₂, ha | ⟨rfl, ha⟩⟩ := hR.step hR₁ hst
    · refine ⟨t₂, _, hr.snoc ha, hR₂, ?_⟩
      rw [filterMap_snoc, filterMap_snoc, e]
    · refine ⟨t₂, tr₁, hr, hR₂, ?_⟩
      rw [filterMap_snoc, e, ha, Option.toList_none, List.append_nil]

/-! ## Refinement -/

/-- `R` relates the states of `C` to those of `A`: every step of `C` is matched by
a run of `A` that shows what the step shows. -/
structure Refines {γ : Type*} (C : System σ α) (A : System τ β) (obsC : σ × α → Option γ)
    (obsA : τ × β → Option γ) (R : σ → τ → Prop) : Prop where
  init {s : σ} : C.init s → ∃ t, A.init t ∧ R s t
  step {s s' : σ} {a : α} {t : τ} : R s t → C.step s a s' →
    ∃ t' tr, A.Run t tr t' ∧ R s' t' ∧ tr.filterMap obsA = (obsC (s, a)).toList

/-- What a run of `C` shows is what a run of `A` shows. -/
theorem Refines.run {γ : Type*} {C : System σ α} {A : System τ β} {obsC : σ × α → Option γ}
    {obsA : τ × β → Option γ} {R : σ → τ → Prop} (hR : Refines C A obsC obsA R) {s s' : σ} {t : τ}
    {tr : List (σ × α)} (h : C.Run s tr s') (hs : R s t) :
    ∃ t' tr', A.Run t tr' t' ∧ R s' t' ∧ tr'.filterMap obsA = tr.filterMap obsC := by
  induction h with
  | nil => exact ⟨t, [], .nil _, hs, rfl⟩
  | snoc _ hst ih =>
    obtain ⟨t₁, tr₁, hr, hR₁, e⟩ := ih
    obtain ⟨t₂, tr₂, hr₂, hR₂, e₂⟩ := hR.step hR₁ hst
    refine ⟨t₂, tr₁ ++ tr₂, hr.trans hr₂, hR₂, ?_⟩
    rw [filterMap_snoc, List.filterMap_append, e, e₂]

end System

end MikanJudge.Lib

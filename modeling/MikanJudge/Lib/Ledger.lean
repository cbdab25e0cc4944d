import MikanJudge.Lib.Transition
import Mathlib.Data.List.Nodup
import Mathlib.Logic.Function.Basic

/-!
# A ledger

A ledger holds contents under keys, and for each key at most one outcome that
its content admits. Nothing is ever changed or taken out (`Ledger.record`), so
a run leaves exactly what its labels say (`Recorded`): each key is entered
once, settled once at most, and only with an outcome its content admits.
-/

namespace MikanJudge.Lib

@[ext] structure Ledger (κ γ ω : Type*) where
  content : κ → Option γ
  outcome : κ → Option ω

namespace Ledger

inductive Label (κ γ ω : Type*) where
  | enter (k : κ) (c : γ)
  | settle (k : κ) (o : ω)

variable {κ γ ω : Type*}

def empty : Ledger κ γ ω := ⟨fun _ => none, fun _ => none⟩

def Label.entered : Label κ γ ω → Option κ
  | enter k _ => some k
  | settle _ _ => none

def Label.settled : Label κ γ ω → Option κ
  | enter _ _ => none
  | settle k _ => some k

/-- The keys entered, in order. -/
def entered (ls : List (Label κ γ ω)) : List κ := ls.filterMap Label.entered

/-- The keys settled, in order. -/
def settled (ls : List (Label κ γ ω)) : List κ := ls.filterMap Label.settled

variable [DecidableEq κ]

def record (l : Ledger κ γ ω) : Label κ γ ω → Ledger κ γ ω
  | .enter k c => { l with content := Function.update l.content k (some c) }
  | .settle k o => { l with outcome := Function.update l.outcome k (some o) }

/-- A new key may be entered, and a key settled that has no outcome yet. -/
def Allows (admits : γ → ω → Prop) (l : Ledger κ γ ω) : Label κ γ ω → Prop
  | .enter k _ => l.content k = none
  | .settle k o => l.outcome k = none ∧ ∃ c, l.content k = some c ∧ admits c o

/-- The ledger as a transition system, from the empty one. -/
def system (admits : γ → ω → Prop) : System (Ledger κ γ ω) (Option (Label κ γ ω)) where
  init l := l = empty
  step l a l' := ∃ b, a = some b ∧ l.Allows admits b ∧ l' = l.record b

section

variable {l : Ledger κ γ ω} {k k' : κ} {c : γ} {o : ω}

@[simp] theorem content_settle : (l.record (.settle k o)).content = l.content := rfl

@[simp] theorem outcome_enter : (l.record (.enter k c)).outcome = l.outcome := rfl

@[simp] theorem content_enter_self : (l.record (.enter k c)).content k = some c :=
  Function.update_self ..

@[simp] theorem outcome_settle_self : (l.record (.settle k o)).outcome k = some o :=
  Function.update_self ..

theorem content_enter_of_ne (h : k' ≠ k) : (l.record (.enter k c)).content k' = l.content k' :=
  Function.update_of_ne h ..

theorem outcome_settle_of_ne (h : k' ≠ k) : (l.record (.settle k o)).outcome k' = l.outcome k' :=
  Function.update_of_ne h ..

/-- What is in the ledger stays there. -/
theorem content_record {admits : γ → ω → Prop} {b : Label κ γ ω} (hb : l.Allows admits b)
    (h : l.content k = some c) : (l.record b).content k = some c := by
  cases b with
  | settle j p => exact h
  | enter j d =>
    have hne : k ≠ j := fun e => by simp [← e, Allows, h] at hb
    rw [content_enter_of_ne hne, h]

end

/-! ## What the labels of a run leave -/

/-- The ledger holds what the labels say, and nothing else. -/
structure Recorded (admits : γ → ω → Prop) (ls : List (Label κ γ ω)) (l : Ledger κ γ ω) : Prop where
  content : ∀ k c, .enter k c ∈ ls ↔ l.content k = some c
  outcome : ∀ k o, .settle k o ∈ ls ↔ l.outcome k = some o
  admitted : ∀ k o, l.outcome k = some o → ∃ c, l.content k = some c ∧ admits c o
  enteredOnce : (entered ls).Nodup
  settledOnce : (settled ls).Nodup

variable {admits : γ → ω → Prop} {ls : List (Label κ γ ω)} {l l' : Ledger κ γ ω}

omit [DecidableEq κ] in
theorem Recorded.of_empty : Recorded admits [] (empty : Ledger κ γ ω) :=
  ⟨fun _ _ => by simp [empty], fun _ _ => by simp [empty], fun _ _ h => (nomatch h), List.nodup_nil,
    List.nodup_nil⟩

omit [DecidableEq κ] in
theorem mem_entered {k : κ} : k ∈ Ledger.entered ls ↔ ∃ c, .enter k c ∈ ls := by
  simp only [Ledger.entered, List.mem_filterMap]
  constructor
  · rintro ⟨b, hb, e⟩
    cases b with
    | enter j c =>
      cases e
      exact ⟨c, hb⟩
    | settle j o => cases e
  · exact fun ⟨c, hc⟩ => ⟨_, hc, rfl⟩

omit [DecidableEq κ] in
theorem mem_settled {k : κ} : k ∈ Ledger.settled ls ↔ ∃ o, .settle k o ∈ ls := by
  simp only [Ledger.settled, List.mem_filterMap]
  constructor
  · rintro ⟨b, hb, e⟩
    cases b with
    | settle j o =>
      cases e
      exact ⟨o, hb⟩
    | enter j c => cases e
  · exact fun ⟨o, ho⟩ => ⟨_, ho, rfl⟩

theorem Recorded.step (h : Recorded admits ls l) {b : Label κ γ ω} (hb : l.Allows admits b) :
    Recorded admits (ls ++ [b]) (l.record b) := by
  cases b with
  | enter j d =>
    have hnew : j ∉ Ledger.entered ls := fun hj => by
      obtain ⟨c, hc⟩ := mem_entered.mp hj
      exact absurd ((h.content j c).mp hc) (by rw [show l.content j = none from hb]; simp)
    refine ⟨fun k c => ?_, fun k o => ?_, fun k o ho => ?_, ?_, ?_⟩
    · rw [List.mem_append, List.mem_singleton, Label.enter.injEq, h.content]
      by_cases hk : k = j
      · subst hk
        rw [show l.content k = none from hb, content_enter_self, Option.some.injEq]
        simp only [reduceCtorEq, false_or, true_and, eq_comm]
      · simp only [content_enter_of_ne hk, hk, false_and, or_false]
    · simp only [List.mem_append, List.mem_singleton, reduceCtorEq, or_false, outcome_enter,
        h.outcome]
    · obtain ⟨c, hc, ha⟩ := h.admitted k o ho
      exact ⟨c, content_record hb hc, ha⟩
    · rw [Ledger.entered, filterMap_snoc]
      exact List.Nodup.append h.enteredOnce (List.nodup_singleton j)
        (List.disjoint_singleton.mpr hnew)
    · rw [Ledger.settled, filterMap_snoc, Label.settled, Option.toList_none, List.append_nil]
      exact h.settledOnce
  | settle j p =>
    obtain ⟨hj, hadm⟩ := hb
    have hnew : j ∉ Ledger.settled ls := fun hs => by
      obtain ⟨o, ho⟩ := mem_settled.mp hs
      exact absurd ((h.outcome j o).mp ho) (by rw [hj]; simp)
    refine ⟨fun k c => ?_, fun k o => ?_, fun k o ho => ?_, ?_, ?_⟩
    · simp only [List.mem_append, List.mem_singleton, reduceCtorEq, or_false, content_settle,
        h.content]
    · rw [List.mem_append, List.mem_singleton, Label.settle.injEq, h.outcome]
      by_cases hk : k = j
      · subst hk
        rw [hj, outcome_settle_self, Option.some.injEq]
        simp only [reduceCtorEq, false_or, true_and, eq_comm]
      · simp only [outcome_settle_of_ne hk, hk, false_and, or_false]
    · by_cases hk : k = j
      · subst hk
        rw [outcome_settle_self, Option.some.injEq] at ho
        exact ho ▸ hadm
      · rw [outcome_settle_of_ne hk] at ho
        exact h.admitted k o ho
    · rw [Ledger.entered, filterMap_snoc, Label.entered, Option.toList_none, List.append_nil]
      exact h.enteredOnce
    · rw [Ledger.settled, filterMap_snoc]
      exact List.Nodup.append h.settledOnce (List.nodup_singleton j)
        (List.disjoint_singleton.mpr hnew)

/-- A run leaves what its labels say. -/
theorem recorded_of_run {tr : List (Ledger κ γ ω × Option (Label κ γ ω))}
    (hl : (system admits).init l) (h : (system admits).Run l tr l') :
    Recorded admits (tr.filterMap (·.2)) l' := by
  refine h.history (I := fun tr l => Recorded admits (tr.filterMap (·.2)) l) ?_ ?_
  · rw [show l = empty from hl]
    exact .of_empty
  · rintro tr l a l' hI ⟨b, rfl, hb, rfl⟩
    rw [filterMap_snoc]
    exact hI.step hb

end Ledger

end MikanJudge.Lib

import MikanJudge.Lib.Transition
import Mathlib.Logic.Function.Basic
import Mathlib.Order.Lattice
import Mathlib.Data.List.Induction
import Mathlib.Tactic.SplitIfs

/-!
# Expiring maps

A map whose entries expire: `save` sets an entry with its expiry, `load` finds
one that has not expired and drops one that has, `delete` drops it. What the
map holds for a key after a history of calls is the entry of the last `save`,
unless it was dropped since (`Answers.lastSaved_iff`); the calls on other keys do
not matter (`run_filter`). `system` is the map as a transition system whose
labels show each call and a report of its answer.
-/

namespace MikanJudge.Lib

/-- A call on an expiring map. -/
inductive MapCall (κ ν τ : Type*) where
  | save (key : κ) (value : ν) (expiry : τ)
  | load (key : κ) (now : τ)
  | delete (key : κ)

def MapCall.key {κ ν τ : Type*} : MapCall κ ν τ → κ
  | save key _ _ => key
  | load key _ => key
  | delete key => key

/-- What a map holds: a value and its expiry. -/
abbrev ExpiringMap (κ ν τ : Type*) := κ → Option (ν × τ)

namespace ExpiringMap

variable {κ ν τ : Type*} [DecidableEq κ] [LinearOrder τ]

def empty : ExpiringMap κ ν τ := fun _ => none

/-- The entry a `load` finds. -/
def lookup (m : ExpiringMap κ ν τ) (key : κ) (now : τ) : Option (ν × τ) :=
  (m key).filter fun entry => now ≤ entry.2

def step (m : ExpiringMap κ ν τ) : MapCall κ ν τ → ExpiringMap κ ν τ
  | .save key value expiry => Function.update m key (some (value, expiry))
  | .load key now => Function.update m key (m.lookup key now)
  | .delete key => Function.update m key none

/-- What a history of calls leaves. -/
def run (calls : List (MapCall κ ν τ)) : ExpiringMap κ ν τ := calls.foldl step empty

variable {m : ExpiringMap κ ν τ} {calls : List (MapCall κ ν τ)} {c : MapCall κ ν τ} {key : κ}
  {now : τ} {entry : ν × τ}

@[simp] theorem run_nil : run ([] : List (MapCall κ ν τ)) = empty := rfl

@[simp] theorem run_snoc : run (calls ++ [c]) = (run calls).step c := by
  rw [run, List.foldl_append]
  rfl

omit [DecidableEq κ] in
theorem lookup_eq_some_iff : m.lookup key now = some entry ↔ m key = some entry ∧ now ≤ entry.2 := by
  rw [lookup, Option.filter_eq_some_iff, decide_eq_true_eq]

/-- A call changes the entry of its own key only. -/
theorem step_of_ne (h : c.key ≠ key) : m.step c key = m key := by
  cases c <;> exact Function.update_of_ne h.symm _ _

/-- What a call leaves of the entry of its key does not depend on other keys. -/
theorem step_congr {m' : ExpiringMap κ ν τ} (h : m key = m' key) : m.step c key = m'.step c key := by
  by_cases hk : c.key = key
  · subst hk
    cases c <;> simp_all [step, lookup, MapCall.key]
  · rw [step_of_ne hk, step_of_ne hk, h]

/-- The calls on other keys do not matter. -/
theorem run_filter (calls : List (MapCall κ ν τ)) (key : κ) :
    run (calls.filter (·.key = key)) key = run calls key := by
  induction calls using List.reverseRecOn with
  | nil => rfl
  | append_singleton calls c ih =>
    rw [List.filter_append, run_snoc]
    by_cases hk : c.key = key
    · rw [List.filter_cons_of_pos (by simpa using hk), List.filter_nil, run_snoc]
      exact step_congr ih
    · rw [List.filter_cons_of_neg (by simpa using hk), List.filter_nil, List.append_nil, ih,
        step_of_ne hk]

/-- The entry a call leaves: the one it saves, or the one there was, which it
has not deleted and, if it loads the key, not found expired. -/
theorem step_eq_some_iff :
    m.step c key = some entry ↔
      c = .save key entry.1 entry.2 ∨
      m key = some entry ∧ (c.key = key → ∃ now, c = .load key now ∧ now ≤ entry.2) := by
  by_cases hk : c.key = key
  · subst hk
    cases c with
    | save key value expiry => simp [step, MapCall.key, Prod.ext_iff]
    | load key now => simp [step, MapCall.key, lookup_eq_some_iff]
    | delete key => simp [step, MapCall.key]
  · rw [step_of_ne hk]
    have hsave : c ≠ .save key entry.1 entry.2 := fun e => hk (e ▸ rfl)
    simp [hsave, hk]

/-! ## As a transition system -/

/-- What a call answers. -/
def answer (m : ExpiringMap κ ν τ) : MapCall κ ν τ → Option (ν × τ)
  | .load key now => m.lookup key now
  | _ => none

/-- A map from the start, its labels showing each call with a report of its
answer. -/
def system {ρ : Type*} (report : Option (ν × τ) → ρ) :
    System (ExpiringMap κ ν τ) (Option (MapCall κ ν τ × ρ)) where
  init m := m = empty
  step m l m' := ∃ c, l = some (c, report (m.answer c)) ∧ m' = m.step c

variable {ρ : Type*} {report : Option (ν × τ) → ρ} {H : List (MapCall κ ν τ × ρ)} {r : ρ}

/-- Each call of a history reports what the map left by the calls before it
answers. -/
def Answers (report : Option (ν × τ) → ρ) (H : List (MapCall κ ν τ × ρ)) : Prop :=
  ∀ pre c r post, H = pre ++ (c, r) :: post → r = report ((run (pre.map (·.1))).answer c)

theorem answers_snoc_iff : Answers report (H ++ [(c, r)]) ↔
    Answers report H ∧ r = report ((run (H.map (·.1))).answer c) := by
  constructor
  · intro h
    refine ⟨fun pre c' r' post e => h pre c' r' (post ++ [(c, r)]) ?_, h H c r [] rfl⟩
    rw [e, List.append_assoc, List.cons_append]
  · rintro ⟨h, hr⟩ pre c' r' post e
    rcases snoc_eq_append_cons_iff.mp e with ⟨rfl, hlast, -⟩ | ⟨post, rfl, -⟩
    · cases hlast
      exact hr
    · exact h pre c' r' post rfl

/-- What a run shows are the answers of the map. -/
theorem answers_of_run {tr : List (ExpiringMap κ ν τ × Option (MapCall κ ν τ × ρ))}
    (h : (system report).Run empty tr m) :
    m = run ((tr.filterMap (·.2)).map (·.1)) ∧ Answers report (tr.filterMap (·.2)) := by
  refine h.history (I := fun tr m => m = run ((tr.filterMap (·.2)).map (·.1)) ∧
    Answers report (tr.filterMap (·.2))) ⟨rfl, fun pre c r post e => ?_⟩ ?_
  · exact absurd e.symm (List.append_ne_nil_of_right_ne_nil _ (List.cons_ne_nil _ _))
  · rintro tr m _ _ ⟨rfl, ih⟩ ⟨c, rfl, rfl⟩
    rw [filterMap_snoc, Option.toList_some]
    exact ⟨by rw [List.map_append, List.map_singleton, run_snoc], answers_snoc_iff.mpr ⟨ih, rfl⟩⟩

/-- The last `save` of a key in a history is that of the entry, and every call on
the key since then is a `load` that found it. -/
def LastSaved (report : Option (ν × τ) → ρ) (H : List (MapCall κ ν τ × ρ)) (key : κ)
    (entry : ν × τ) : Prop :=
  ∃ before after, H = before ++ (.save key entry.1 entry.2, report none) :: after ∧
    ∀ e ∈ after, e.1.key = key → ∃ now found, e = (.load key now, report (some found))

theorem Answers.lastSaved_iff (h : Answers report H)
    (hreport : ∀ entry, report (some entry) ≠ report none) :
    LastSaved report H key entry ↔ run (H.map (·.1)) key = some entry := by
  induction H using List.reverseRecOn with
  | nil => simp [LastSaved, empty]
  | append_singleton H e ih =>
    obtain ⟨c, r⟩ := e
    obtain ⟨hH, hr⟩ := answers_snoc_iff.mp h
    rw [List.map_append, List.map_singleton, run_snoc, step_eq_some_iff, ← ih hH]
    constructor
    · rintro ⟨before, after, e, hafter⟩
      rcases snoc_eq_append_cons_iff.mp e with ⟨rfl, hlast, rfl⟩ | ⟨after, rfl, rfl⟩
      · cases hlast
        exact .inl rfl
      · have hsaved : LastSaved report (before ++ (.save key entry.1 entry.2, report none) :: after)
            key entry := ⟨before, after, rfl, fun e he => hafter e (List.mem_append_left _ he)⟩
        refine .inr ⟨hsaved, fun hkey => ?_⟩
        obtain ⟨now, found, hlast⟩ := hafter (c, r) (by simp) hkey
        cases hlast
        refine ⟨now, rfl, ?_⟩
        -- the report tells that the entry was found
        cases hfound : (run _).lookup key now with
        | none =>
          rw [answer, hfound] at hr
          exact absurd hr (hreport found)
        | some entry' =>
          obtain ⟨he, hle⟩ := lookup_eq_some_iff.mp hfound
          obtain rfl : entry' = entry := Option.some.inj (he.symm.trans ((ih hH).mp hsaved))
          exact hle
    · rintro (rfl | ⟨hsaved, hc⟩)
      · exact ⟨H, [], by rw [hr]; rfl, fun _ h => absurd h List.not_mem_nil⟩
      · have hentry := (ih hH).mp hsaved
        obtain ⟨before, after, rfl, hafter⟩ := hsaved
        refine ⟨before, after ++ [(c, r)], by rw [List.append_assoc, List.cons_append], ?_⟩
        intro e he hkey
        rcases List.mem_append.mp he with he | he
        · exact hafter e he hkey
        · obtain rfl := List.mem_singleton.mp he
          obtain ⟨now, rfl, hle⟩ := hc hkey
          refine ⟨now, entry, ?_⟩
          rw [hr, answer, lookup_eq_some_iff.mpr ⟨hentry, hle⟩]

end ExpiringMap

end MikanJudge.Lib

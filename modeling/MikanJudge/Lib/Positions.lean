import Mathlib.Data.List.Perm.Basic
import Mathlib.Algebra.Order.Group.Multiset

/-!
# Positions of a list

Processes are kept in a list and named by their positions. Replacing or
removing the process at a position changes the multiset of what the processes
hold (`bag`) by what that one process holds (`held`). `get_set_iff` and
`get_concat_iff` say which process is where after one is replaced or added.
-/

namespace MikanJudge.Lib

variable {α β : Type*} {f : α → Option β}

/-- What a single process holds. -/
def held (f : α → Option β) (a : α) : Multiset β := (f a).toList

/-- What the processes of a list hold. -/
def bag (f : α → Option β) (l : List α) : Multiset β := l.filterMap f

@[simp] theorem bag_nil : bag f [] = 0 := rfl

theorem held_none {a : α} (h : f a = none) : held f a = 0 := by rw [held, h]; rfl

theorem held_some {a : α} {b : β} (h : f a = some b) : held f a = {b} := by rw [held, h]; rfl

@[simp] theorem bag_cons (a : α) (l : List α) : bag f (a :: l) = held f a + bag f l := by
  cases h : f a with
  | none => rw [bag, List.filterMap_cons_none h, held_none h, zero_add, bag]
  | some b =>
    rw [bag, List.filterMap_cons_some h, held_some h, bag, Multiset.singleton_add,
      Multiset.cons_coe]

theorem bag_append (l l' : List α) : bag f (l ++ l') = bag f l + bag f l' := by
  rw [bag, List.filterMap_append, ← Multiset.coe_add, bag, bag]

theorem bag_perm {l l' : List α} (h : l.Perm l') : bag f l = bag f l' :=
  Multiset.coe_eq_coe.mpr (h.filterMap f)

theorem bag_le_of_sublist {l l' : List α} (h : l.Sublist l') : bag f l ≤ bag f l' :=
  Multiset.coe_le.mpr (h.filterMap f).subperm

section

variable {l : List α} {i : Nat} {a : α} (h : l[i]? = some a)

include h

/-- The process at a position, apart from the others. -/
theorem bag_eq_held_add : bag f l = held f a + bag f (l.eraseIdx i) := by
  obtain ⟨hi, rfl⟩ := List.getElem?_eq_some_iff.mp h
  rw [← bag_cons, bag_perm (List.getElem_cons_eraseIdx_perm hi).symm]

/-- Another process at a position. -/
theorem bag_set (b : α) : bag f (l.set i b) = held f b + bag f (l.eraseIdx i) := by
  obtain ⟨hi, -⟩ := List.getElem?_eq_some_iff.mp h
  rw [← bag_cons, bag_perm (List.set_perm_cons_eraseIdx hi b)]

/-- A process that holds what the one before it held changes nothing. -/
theorem bag_set_of_eq {b : α} (hb : f b = f a) : bag f (l.set i b) = bag f l := by
  rw [bag_set h, bag_eq_held_add h, held, held, hb]

end

theorem get_set_iff {l : List α} {i j : Nat} {a b c : α} (h : l[i]? = some a) :
    (l.set i b)[j]? = some c ↔ j = i ∧ c = b ∨ j ≠ i ∧ l[j]? = some c := by
  by_cases e : j = i
  · rw [e, List.getElem?_set_self (List.getElem?_eq_some_iff.mp h).1]
    simp [eq_comm]
  · rw [List.getElem?_set_ne (Ne.symm e)]
    simp [e]

theorem exists_get_set_iff {l : List α} {i j : Nat} {a b : α} (h : l[i]? = some a)
    {P : α → Prop} :
    (∃ c, (l.set i b)[j]? = some c ∧ P c) ↔ j = i ∧ P b ∨ j ≠ i ∧ ∃ c, l[j]? = some c ∧ P c := by
  constructor
  · rintro ⟨c, hc, hP⟩
    rcases (get_set_iff h).mp hc with ⟨e, rfl⟩ | ⟨e, hc⟩
    · exact .inl ⟨e, hP⟩
    · exact .inr ⟨e, c, hc, hP⟩
  · rintro (⟨e, hP⟩ | ⟨e, c, hc, hP⟩)
    · exact ⟨b, (get_set_iff h).mpr (.inl ⟨e, rfl⟩), hP⟩
    · exact ⟨c, (get_set_iff h).mpr (.inr ⟨e, hc⟩), hP⟩

theorem get_concat_iff {l : List α} {i : Nat} {a b : α} :
    (l ++ [a])[i]? = some b ↔ l[i]? = some b ∨ i = l.length ∧ b = a := by
  rcases Nat.lt_trichotomy i l.length with hlt | rfl | hgt
  · rw [List.getElem?_append_left hlt]
    simp [Nat.ne_of_lt hlt]
  · rw [List.getElem?_concat_length, List.getElem?_eq_none (Nat.le_refl _)]
    simp [eq_comm]
  · rw [List.getElem?_eq_none (by rw [List.length_append]; exact hgt),
      List.getElem?_eq_none (Nat.le_of_lt hgt)]
    simp [Nat.ne_of_gt hgt]

end MikanJudge.Lib

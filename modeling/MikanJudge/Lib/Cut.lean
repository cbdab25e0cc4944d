import Mathlib.Algebra.Order.BigOperators.Group.List

/-!
# The weight of a cut

A graph is the list of its edges: two ends and a weight each. A colouring cuts
the edges whose ends have different colours. What is cut weighs at most what
all edges do (`cutWeight_le_totalWeight`), and only the partition counts, not
the names of the colours (`cutWeight_comp`).
-/

namespace MikanJudge.Lib

section

variable {V C D W : Type*} [DecidableEq C] [DecidableEq D]

def totalWeight [AddMonoid W] (edges : List (V × V × W)) : W := (edges.map (·.2.2)).sum

def cutWeight [AddMonoid W] (color : V → C) (edges : List (V × V × W)) : W :=
  totalWeight (edges.filter fun e => color e.1 ≠ color e.2.1)

theorem cutWeight_cons [AddMonoid W] (color : V → C) (e : V × V × W) (edges : List (V × V × W)) :
    cutWeight color (e :: edges) =
      (if color e.1 ≠ color e.2.1 then e.2.2 else 0) + cutWeight color edges := by
  rw [cutWeight, cutWeight, totalWeight, totalWeight]
  split_ifs with h
  · rw [List.filter_cons_of_pos (by simpa using h), List.map_cons, List.sum_cons]
  · rw [List.filter_cons_of_neg (by simpa using h), zero_add]

/-- Only whether the ends have the same colour counts. -/
theorem cutWeight_congr [AddMonoid W] {color : V → C} {color' : V → D} {edges : List (V × V × W)}
    (h : ∀ e ∈ edges, color e.1 = color e.2.1 ↔ color' e.1 = color' e.2.1) :
    cutWeight color edges = cutWeight color' edges := by
  rw [cutWeight, cutWeight]
  congr 1
  exact List.filter_congr fun e he => by simp only [ne_eq, h e he]

/-- Other names for the colours. -/
theorem cutWeight_comp [AddMonoid W] {f : C → D} (hf : f.Injective) (color : V → C)
    (edges : List (V × V × W)) : cutWeight (f ∘ color) edges = cutWeight color edges :=
  cutWeight_congr fun _ _ => hf.eq_iff

variable [AddCommMonoid W] [PartialOrder W] [IsOrderedAddMonoid W] {edges : List (V × V × W)}

theorem cutWeight_nonneg (h : ∀ e ∈ edges, 0 ≤ e.2.2) (color : V → C) :
    0 ≤ cutWeight color edges := by
  refine List.sum_nonneg fun w hw => ?_
  obtain ⟨e, he, rfl⟩ := List.mem_map.mp hw
  exact h e (List.mem_of_mem_filter he)

theorem cutWeight_le_totalWeight (h : ∀ e ∈ edges, 0 ≤ e.2.2) (color : V → C) :
    cutWeight color edges ≤ totalWeight edges := by
  refine (List.filter_sublist.map _).sum_le_sum fun w hw => ?_
  obtain ⟨e, he, rfl⟩ := List.mem_map.mp hw
  exact h e he

/-- Edges that weigh at least so much each. -/
theorem nsmul_le_totalWeight {w : W} (h : ∀ e ∈ edges, w ≤ e.2.2) :
    edges.length • w ≤ totalWeight edges := by
  rw [totalWeight, ← List.length_map (·.2.2)]
  refine List.card_nsmul_le_sum _ _ fun x hx => ?_
  obtain ⟨e, he, rfl⟩ := List.mem_map.mp hx
  exact h e he

end

end MikanJudge.Lib

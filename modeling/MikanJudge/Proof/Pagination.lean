import MikanJudge.Lib.Gaps
import MikanJudge.Model.Standings

/-!
# The links to the pages

`build_pagination` lists the pages near the current one with the first and the
last (`shownPages`), and marks with a 0 where it leaves pages out
(`buildPagination_eq`). What is true of the links follows from what is true of
any list with its gaps marked.
-/

namespace MikanJudge

open MikanJudge.Lib

/-! ## Consecutive pages -/

theorem mem_pagesFrom {first last n : Int} : n ∈ pagesFrom first last ↔ first ≤ n ∧ n ≤ last := by
  simp only [pagesFrom, List.mem_map, List.mem_range]
  constructor
  · rintro ⟨k, hk, rfl⟩
    omega
  · rintro ⟨h₁, h₂⟩
    exact ⟨(n - first).toNat, by omega, by omega⟩

theorem length_pagesFrom (first last : Int) :
    (pagesFrom first last).length = (last - first + 1).toNat := by
  rw [pagesFrom, List.length_map, List.length_range]

theorem pagesFrom_eq_nil {first last : Int} (h : last < first) : pagesFrom first last = [] := by
  rw [← List.length_eq_zero_iff, length_pagesFrom]
  omega

theorem pagesFrom_cons {first last : Int} (h : first ≤ last) :
    pagesFrom first last = first :: pagesFrom (first + 1) last := by
  have hlen : (last - first + 1).toNat = (last - (first + 1) + 1).toNat + 1 := by omega
  rw [pagesFrom, pagesFrom, hlen, List.range_succ_eq_map, List.map_cons, List.map_map]
  congr 1
  · omega
  · refine List.map_congr_left fun k _ => ?_
    simp only [Function.comp]
    omega

theorem pagesFrom_concat {first last : Int} (h : first ≤ last) :
    pagesFrom first last = pagesFrom first (last - 1) ++ [last] := by
  have hlen : (last - first + 1).toNat = (last - 1 - first + 1).toNat + 1 := by omega
  rw [pagesFrom, pagesFrom, hlen, List.range_succ, List.map_append, List.map_singleton]
  congr 2
  omega

theorem isChain_pagesFrom (first last : Int) :
    (pagesFrom first last).IsChain fun a b => b = a + 1 := by
  induction hn : (last - first + 1).toNat generalizing first with
  | zero =>
    rw [pagesFrom_eq_nil (by omega)]
    exact .nil
  | succ n ih =>
    have htail := ih (first + 1) (by omega)
    rw [pagesFrom_cons (by omega)]
    by_cases h : first + 1 ≤ last
    · rw [pagesFrom_cons h] at htail ⊢
      exact .cons_cons rfl htail
    · rw [pagesFrom_eq_nil (not_le.mp h)]
      exact .singleton _

theorem pairwise_pagesFrom (first last : Int) : (pagesFrom first last).Pairwise (· < ·) := by
  have hchain : (pagesFrom first last).IsChain (· < ·) :=
    (isChain_pagesFrom first last).imp fun a b h => by omega
  exact hchain.pairwise

/-! ## The pages shown -/

/-- Pages between two neighbours are left out. -/
def pagesSkipped (a b : Int) : Bool := a + 1 < b

theorem not_pagesSkipped {a b : Int} (h : b = a + 1) : ¬ pagesSkipped a b := by
  simp [pagesSkipped, h]

/-- The pages that are linked to. -/
def shownPages (current total : Int) : List Int :=
  if total ≤ 7 then pagesFrom 1 total
  else 1 :: (pagesFrom (max (current - 2) 2) (min (current + 2) (total - 1)) ++ [total])

section

variable {current total : Int}

theorem mem_shownPages (h₁ : 1 ≤ current) (h₂ : current ≤ total) (n : Int) :
    n ∈ shownPages current total ↔ 1 ≤ n ∧ n ≤ total ∧
      (n = 1 ∨ n = total ∨ total ≤ 7 ∨ (current - 2 ≤ n ∧ n ≤ current + 2)) := by
  rw [shownPages]
  split_ifs with h
  · rw [mem_pagesFrom]
    omega
  · rw [List.mem_cons, List.mem_append, List.mem_singleton, mem_pagesFrom]
    omega

theorem pairwise_shownPages (current total : Int) :
    (shownPages current total).Pairwise (· < ·) := by
  rw [shownPages]
  split_ifs with h
  · exact pairwise_pagesFrom 1 total
  · refine List.pairwise_cons.mpr ⟨fun n hn => ?_, List.pairwise_append.mpr
      ⟨pairwise_pagesFrom _ _, List.pairwise_singleton _ _, fun a ha b hb => ?_⟩⟩
    · rw [List.mem_append, List.mem_singleton, mem_pagesFrom] at hn
      omega
    · rw [mem_pagesFrom] at ha
      rw [List.mem_singleton] at hb
      omega

/-- The links are the pages shown, with a 0 where pages are left out. -/
theorem buildPagination_eq (h₁ : 1 ≤ current) (h₂ : current ≤ total) :
    buildPagination current total = withGaps 0 pagesSkipped (shownPages current total) := by
  rw [buildPagination, shownPages]
  split_ifs with h
  · exact (withGaps_eq_self ((isChain_pagesFrom 1 total).imp fun _ _ => not_pagesSkipped)).symm
  · set left := max (current - 2) 2 with hleft
    set right := min (current + 2) (total - 1) with hright
    have hle : left ≤ right := by omega
    have hwindow : withGaps 0 pagesSkipped (pagesFrom left right ++ [total]) =
        pagesFrom left right ++ (if right < total - 1 then [0] else []) ++ [total] := by
      have hchain : (pagesFrom left (right - 1) ++ [right]).IsChain fun a b => ¬ pagesSkipped a b := by
        rw [← pagesFrom_concat hle]
        exact (isChain_pagesFrom left right).imp fun _ _ => not_pagesSkipped
      rw [pagesFrom_concat hle, List.append_assoc, List.singleton_append,
        withGaps_append [total] hchain, withGaps_cons_cons]
      by_cases hlast : right < total - 1
      · have hskip : pagesSkipped right total = true := decide_eq_true (by omega)
        simp [hskip, hlast]
      · have hskip : ¬ pagesSkipped right total = true := fun h => by
          have := of_decide_eq_true h
          omega
        simp [hskip, hlast]
    have hcons : pagesFrom left right ++ [total] =
        left :: (pagesFrom (left + 1) right ++ [total]) := by
      rw [pagesFrom_cons hle, List.cons_append]
    rw [hcons, withGaps_cons_cons, ← hcons, hwindow]
    by_cases hfirst : left > 2
    · have hskip : pagesSkipped 1 left = true := decide_eq_true (by omega)
      simp [hskip, hfirst]
    · have hskip : ¬ pagesSkipped 1 left = true := fun h => by
        have := of_decide_eq_true h
        omega
      simp [hskip, hfirst]

theorem length_buildPagination (h₁ : 1 ≤ current) (h₂ : current ≤ total) :
    (buildPagination current total).length ≤ 9 := by
  have hgap : ∀ (c : Prop) [Decidable c], (if c then [(0 : Int)] else []).length ≤ 1 := by
    intro c _
    split_ifs <;> decide
  rw [buildPagination]
  by_cases h : total ≤ 7
  · rw [if_pos h, length_pagesFrom]
    omega
  · have hleft := hgap (max (current - 2) 2 > 2)
    have hright := hgap (min (current + 2) (total - 1) < total - 1)
    rw [if_neg h]
    simp only [List.length_append, List.length_cons, List.length_nil, length_pagesFrom]
    omega

theorem head?_buildPagination (h₁ : 1 ≤ current) (h₂ : current ≤ total) :
    (buildPagination current total).head? = some 1 := by
  rw [buildPagination_eq h₁ h₂, head?_withGaps, shownPages]
  split_ifs
  · rw [pagesFrom_cons (by omega), List.head?_cons]
  · rfl

theorem getLast?_buildPagination (h₁ : 1 ≤ current) (h₂ : current ≤ total) :
    (buildPagination current total).getLast? = some total := by
  rw [buildPagination_eq h₁ h₂, getLast?_withGaps, shownPages]
  split_ifs
  · rw [pagesFrom_concat (by omega), List.getLast?_concat]
  · rw [← List.cons_append, List.getLast?_concat]

/-- The links begin with the first page and end with the last; the pages
linked to are in order, with the current one and those near it; a 0 stands
where pages are left out, and nowhere else. -/
theorem buildPagination_faithful (current total : Int) (h₁ : 1 ≤ current) (h₂ : current ≤ total) :
    (buildPagination current total).head? = some 1 ∧
    (buildPagination current total).getLast? = some total ∧
    let items := buildPagination current total
    let pages := items.filter (· ≠ 0)
    pages.Pairwise (· < ·) ∧ (∀ n ∈ pages, 1 ≤ n ∧ n ≤ total) ∧
    (∀ n, 1 ≤ n → n ≤ total → |n - current| ≤ 2 → n ∈ pages) ∧ current ∈ pages ∧
    (total ≤ 7 → ∀ n, 1 ≤ n → n ≤ total → n ∈ pages) ∧
    (∀ a b, [a, b] <:+: pages → ([a, 0, b] <:+: items ↔ b > a + 1)) ∧
    items.head? ≠ some 0 ∧ items.getLast? ≠ some 0 ∧ ¬ [0, 0] <:+: items ∧ items.length ≤ 9 := by
  have hhead := head?_buildPagination h₁ h₂
  have hlast := getLast?_buildPagination h₁ h₂
  have hmem := mem_shownPages h₁ h₂
  have hgap : 0 ∉ shownPages current total := fun h => by
    have := (hmem 0).mp h
    omega
  refine ⟨hhead, hlast, ?_⟩
  intro items pages
  have hitems : items = withGaps 0 pagesSkipped (shownPages current total) := buildPagination_eq h₁ h₂
  have hpages : pages = shownPages current total := by
    change items.filter (· ≠ 0) = _
    rw [hitems]
    exact filter_withGaps hgap
  rw [hpages]
  refine ⟨pairwise_shownPages current total, fun n hn => ?_, fun n hn₁ hn₂ hnear => ?_, ?_,
    fun hfew n hn₁ hn₂ => ?_, fun a b hab => ?_, ?_, ?_, ?_, length_buildPagination h₁ h₂⟩
  · have := (hmem n).mp hn
    omega
  · rw [abs_le] at hnear
    exact (hmem n).mpr (by omega)
  · exact (hmem current).mpr (by omega)
  · exact (hmem n).mpr (by omega)
  · have ha : a ≠ 0 := fun e => hgap (hab.subset (e ▸ List.mem_cons_self))
    rw [hitems, infix_withGaps_iff hgap ha, and_iff_right hab, pagesSkipped, decide_eq_true_eq, gt_iff_lt]
  · rw [show items.head? = some 1 from hhead]
    decide
  · rw [show items.getLast? = some total from hlast, Ne, Option.some.injEq]
    omega
  · rw [hitems]
    exact not_infix_gap_gap hgap

end

/-- Page 10 of 20. -/
theorem buildPagination_faithful_middle :
    (buildPagination 10 20).head? = some 1 ∧ (buildPagination 10 20).getLast? = some 20 := by
  obtain ⟨hhead, hlast, -⟩ := buildPagination_faithful 10 20 (by decide) (by decide)
  exact ⟨hhead, hlast⟩

example : buildPagination 10 20 = [1, 0, 8, 9, 10, 11, 12, 0, 20] := by decide

end MikanJudge

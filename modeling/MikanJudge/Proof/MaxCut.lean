import MikanJudge.Lib.Cut
import MikanJudge.Model.MaxCut
import Mathlib.Algebra.Order.BigOperators.Group.List

/-!
# The scores of Generated Max Cut

The skip over `a` makes `b` another vertex, whatever the generator gives
(`addEdge_ok`); so the loop builds a graph without self-loops (`addEdges_ok`)
whose edges weigh at least 1 each. The score of a colouring is then a share of
a total that is positive (`score_of_colors`).
-/

namespace MikanJudge.MaxCut

open MikanJudge.Lib

/-! ## The graph -/

/-- An edge between two of `n` vertices. -/
structure Edge.Valid (n : Int) (e : Edge) : Prop where
  a_nonneg : 0 ≤ e.1
  a_lt : e.1 < n
  b_nonneg : 0 ≤ e.2.1
  b_lt : e.2.1 < n
  ne : e.1 ≠ e.2.1
  one_le : 1 ≤ e.2.2
  le : e.2.2 ≤ 1000

/-- What the loop has made after some rounds. -/
structure GraphOf (n : Int) (k : Nat) (edges : List Edge) (total : Int) : Prop where
  length : edges.length = k
  valid : ∀ e ∈ edges, Edge.Valid n e
  total : total = totalWeight edges

/-- The other end is one of the other vertices. -/
theorem valid_skip {n a b w : Int} (ha₀ : 0 ≤ a) (ha : a < n) (hb₀ : 0 ≤ b) (hb : b < n - 1)
    (hw₀ : 0 ≤ w) (hw : w < 1000) :
    Edge.Valid n (a, if b ≥ a then b + 1 else b, 1 + w) := by
  constructor <;> dsimp only <;> omega

theorem addEdge_ok {n : Int} (hn : 2 ≤ n) (s : GraphState) :
    ∃ e x, Edge.Valid n e ∧
      s.addEdge n = .ok { x := x, total := s.total + e.2.2, edges := s.edges ++ [e] } := by
  have hmod : ∀ (x : Nat) {k : Int}, 0 < k → 0 ≤ (x : Int) % k ∧ (x : Int) % k < k := fun x k hk =>
    ⟨Int.emod_nonneg _ hk.ne', Int.emod_lt_of_pos _ hk⟩
  have ha := hmod (xorshift32 s.x) (k := n) (by omega)
  have hb := hmod (xorshift32 (xorshift32 s.x)) (k := n - 1) (by omega)
  have hw := hmod (xorshift32 (xorshift32 (xorshift32 s.x))) (k := 1000) (by decide)
  refine ⟨_, xorshift32 (xorshift32 (xorshift32 s.x)),
    valid_skip ha.1 ha.2 hb.1 hb.2 hw.1 hw.2, ?_⟩
  simp only [GraphState.addEdge, Py.mod_of_pos (show 0 < n by omega),
    Py.mod_of_pos (show 0 < n - 1 by omega), Py.mod_of_pos (show (0 : Int) < 1000 by decide)]
  rfl

theorem addEdges_ok {n : Int} (hn : 2 ≤ n) (k : Nat) {j : Nat} {s : GraphState}
    (h : GraphOf n j s.edges s.total) :
    ∃ s', GraphState.addEdges n k s = .ok s' ∧ GraphOf n (j + k) s'.edges s'.total := by
  induction k generalizing j s with
  | zero => exact ⟨s, rfl, h⟩
  | succ k ih =>
    obtain ⟨e, x, he, hs⟩ := addEdge_ok hn s
    have hnext : GraphOf n (j + 1) (s.edges ++ [e]) (s.total + e.2.2) := by
      refine ⟨by rw [List.length_append, h.length, List.length_singleton], ?_, ?_⟩
      · intro e' he'
        rcases List.mem_append.mp he' with he' | he'
        · exact h.valid e' he'
        · exact List.mem_singleton.mp he' ▸ he
      · rw [h.total, totalWeight, totalWeight, List.map_append, List.sum_append]
        simp
    obtain ⟨s', hs', hgraph⟩ := ih (s := { x := x, total := _, edges := _ }) hnext
    refine ⟨s', ?_, by rwa [Nat.add_right_comm] at hgraph⟩
    rw [GraphState.addEdges, hs]
    exact hs'

theorem generateGraph_ok {n : Int} (hn : 2 ≤ n) (m seed : Int) :
    ∃ edges total, generateGraph n m seed = .ok (edges, total) ∧
      GraphOf n m.toNat edges total := by
  obtain ⟨s, hs, hgraph⟩ := addEdges_ok hn m.toNat (j := 0)
    (s := { x := (seed.land mask).toNat, total := 0, edges := [] })
    ⟨rfl, fun _ h => absurd h List.not_mem_nil, rfl⟩
  rw [Nat.zero_add] at hgraph
  refine ⟨s.edges, s.total, ?_, hgraph⟩
  rw [generateGraph, hs]
  rfl

/-- Every edge weighs at least 1. -/
theorem GraphOf.le_total {n : Int} {k : Nat} {edges : List Edge} {total : Int}
    (h : GraphOf n k edges total) : (k : Int) ≤ total := by
  have hsum := nsmul_le_totalWeight (w := 1) fun e he => (h.valid e he).one_le
  rw [h.total, ← h.length]
  simpa using hsum

/-! ## The score -/

/-- The colour of a vertex. -/
def colorOf (colors : List Int) (i : Int) : Int := colors.getD i.toNat 0

theorem addCut_eq {colors : List Int} {edges : List Edge}
    (h : ∀ e ∈ edges, Edge.Valid colors.length e) (cut : Int) :
    addCut colors cut edges = .ok (cut + cutWeight (colorOf colors) edges) := by
  induction edges generalizing cut with
  | nil => simp [addCut, cutWeight, totalWeight]
  | cons e edges ih =>
    obtain ⟨a, b, w⟩ := e
    have he := h (a, b, w) List.mem_cons_self
    have ha := Py.getItem_of_lt he.a_nonneg he.a_lt 0
    have hb := Py.getItem_of_lt he.b_nonneg he.b_lt 0
    simp only [addCut, ha, hb]
    change addCut colors (if colorOf colors a ≠ colorOf colors b then cut + w else cut) edges = _
    rw [ih (fun e' he' => h e' (List.mem_cons_of_mem _ he')), cutWeight_cons]
    dsimp only
    split_ifs
    · rw [Int.add_assoc]
    · rw [Int.zero_add]

section

variable {v : Py.Version} {input output : Option (List UInt8)} {n m seed : Int} {colors : List Int}

/-- The output gives each vertex one of the two groups. -/
def IsColoring (n : Int) (colors : List Int) : Prop :=
  colors.length = n ∧ ∀ c ∈ colors, c = 0 ∨ c = 1

instance (n : Int) (colors : List Int) : Decidable (IsColoring n colors) := by
  unfold IsColoring; infer_instance

theorem isColoring_complement : IsColoring n (colors.map (1 - ·)) ↔ IsColoring n colors := by
  rw [IsColoring, IsColoring, List.length_map, List.forall_mem_map]
  refine and_congr_right fun _ => forall₂_congr fun c _ => ?_
  omega

/-- What the scorer does with integers it has read. -/
theorem score_eq (hinput : v.readInts input = .ok [n, m, seed])
    (houtput : v.readInts output = .ok colors) :
    score v input output =
      if IsColoring n colors then (do
        let (edges, total) ← generateGraph n m seed
        let cut ← addCut colors 0 edges
        (Py.trueDiv (1000000 * cut) total).bind Py.round)
      else .ok 0 := by
  have hany : (colors.any fun c => !(c == 0 || c == 1)) = true ↔ ¬ ∀ c ∈ colors, c = 0 ∨ c = 1 := by
    simp
  rw [score, hinput]
  simp only [houtput]
  change (if (colors.length : Int) ≠ n then _ else if _ then _ else _) = _
  by_cases hlen : (colors.length : Int) = n
  · rw [if_neg (not_not.mpr hlen)]
    by_cases hall : ∀ c ∈ colors, c = 0 ∨ c = 1
    · rw [if_neg (mt hany.mp (not_not.mpr hall)), if_pos ⟨hlen, hall⟩]
    · rw [if_pos (hany.mpr hall), if_neg fun h => hall h.2]
      rfl
  · rw [if_pos hlen, if_neg fun h => hlen h.1]
    rfl

/-- Any other output scores nothing. -/
theorem score_of_not_coloring (hinput : v.readInts input = .ok [n, m, seed])
    (h : ¬ ∃ colors, v.readInts output = .ok colors ∧ IsColoring n colors) :
    score v input output = .ok 0 := by
  cases houtput : v.readInts output with
  | error e =>
    rw [score, hinput]
    simp only [houtput]
    rfl
  | ok colors => rw [score_eq hinput houtput, if_neg fun hc => h ⟨colors, houtput, hc⟩]

theorem score_of_coloring (hinput : v.readInts input = .ok [n, m, seed])
    (houtput : v.readInts output = .ok colors) (hcolors : IsColoring n colors)
    {edges : List Edge} {total : Int} (hgraph : generateGraph n m seed = .ok (edges, total))
    (hvalid : ∀ e ∈ edges, Edge.Valid n e) :
    score v input output =
      (Py.trueDiv (1000000 * cutWeight (colorOf colors) edges) total).bind Py.round := by
  rw [← hcolors.1] at hvalid
  rw [score_eq hinput houtput, if_pos hcolors, hgraph]
  change (addCut colors 0 edges).bind _ = _
  rw [addCut_eq hvalid, Int.zero_add]
  rfl

/-- The other groups cut the same edges. -/
theorem cutWeight_complement {edges : List Edge}
    (hvalid : ∀ e ∈ edges, Edge.Valid colors.length e) :
    cutWeight (colorOf (colors.map (1 - ·))) edges = cutWeight (colorOf colors) edges := by
  have hcolor : ∀ i : Int, 0 ≤ i → i < colors.length →
      colorOf (colors.map (1 - ·)) i = 1 - colorOf colors i := by
    intro i h₀ h
    have hi : i.toNat < colors.length := by omega
    rw [colorOf, colorOf, List.getD_eq_getElem?_getD, List.getD_eq_getElem?_getD,
      List.getElem?_map, List.getElem?_eq_getElem hi]
    rfl
  calc cutWeight (colorOf (colors.map (1 - ·))) edges
      = cutWeight ((1 - ·) ∘ colorOf colors) edges := cutWeight_congr fun e he => by
        have he := hvalid e he
        rw [hcolor _ he.a_nonneg he.a_lt, hcolor _ he.b_nonneg he.b_lt]
        rfl
    _ = cutWeight (colorOf colors) edges := cutWeight_comp sub_right_injective _ _

end

/-- For all sizes the generator gives a graph without self-loops, with weights from
1 to 1000 and at least `m` in total; for all outputs the scorer gives a score from 0
to 1000000 without an exception, 0 unless the output is a colouring, and the same
for the complement. -/
theorem score_bounded {n m : Int} (seed : Int) (hn : 2 ≤ n) (hm : 1 ≤ m) :
    ∃ edges total, generateGraph n m seed = .ok (edges, total) ∧
      edges.length = m ∧ (∀ e ∈ edges, Edge.Valid n e) ∧
      total = (edges.map (·.2.2)).sum ∧ m ≤ total ∧
      ∀ (v : Py.Version) (input : Option (List UInt8)),
        v.readInts input = .ok [n, m, seed] →
        ∀ output, ∃ z, score v input output = .ok z ∧ 0 ≤ z ∧ z ≤ 1000000 ∧
          (z ≠ 0 → ∃ colors, v.readInts output = .ok colors ∧ IsColoring n colors) ∧
          ∀ output' colors, v.readInts output = .ok colors →
            v.readInts output' = .ok (colors.map (1 - ·)) → score v input output' = .ok z := by
  obtain ⟨edges, total, hgraph, hof⟩ := generateGraph_ok hn m seed
  have hm' : (m.toNat : Int) = m := Int.toNat_of_nonneg (by omega)
  have hle : m ≤ total := hm' ▸ hof.le_total
  refine ⟨edges, total, hgraph, by rw [hof.length, hm'], hof.valid, hof.total, hle, ?_⟩
  intro v input hinput output
  have hweights : ∀ e ∈ edges, 0 ≤ e.2.2 := fun e he => Int.le_trans (by decide) (hof.valid e he).one_le
  by_cases h : ∃ colors, v.readInts output = .ok colors ∧ IsColoring n colors
  · obtain ⟨colors, houtput, hcolors⟩ := h
    have hvalid : ∀ e ∈ edges, Edge.Valid colors.length e := hcolors.1 ▸ hof.valid
    have hcut₀ := cutWeight_nonneg hweights (colorOf colors)
    have hcut : cutWeight (colorOf colors) edges ≤ total :=
      hof.total ▸ cutWeight_le_totalWeight hweights (colorOf colors)
    obtain ⟨z, hz, hz₀, hzk⟩ := Py.round_trueDiv_mem (a := 1000000 * cutWeight (colorOf colors) edges)
      (b := total) (k := 1000000) (by omega) (by omega) (by push_cast; omega) (by decide)
    refine ⟨z, (score_of_coloring hinput houtput hcolors hgraph hof.valid).trans hz, hz₀, hzk,
      fun _ => ⟨colors, houtput, hcolors⟩, fun output' colors' hread houtput' => ?_⟩
    obtain rfl : colors = colors' := Except.ok.inj (houtput.symm.trans hread)
    rw [score_of_coloring hinput houtput' (isColoring_complement.mpr hcolors) hgraph hof.valid,
      cutWeight_complement hvalid, hz]
  · refine ⟨0, score_of_not_coloring hinput h, le_rfl, by decide, fun h0 => absurd rfl h0,
      fun output' colors hread houtput' => score_of_not_coloring hinput ?_⟩
    rintro ⟨colors', hread', hcolors'⟩
    obtain rfl : colors.map (1 - ·) = colors' := Except.ok.inj (houtput'.symm.trans hread')
    exact h ⟨colors, hread, isColoring_complement.mp hcolors'⟩

/-- A `Version` that knows ASCII digits only. -/
def ascii : Py.Version := ⟨fun _ => none, some 4300⟩

/-- Three vertices, two edges and a colouring. -/
theorem score_bounded_small :
    ∃ z, score ascii (some [51, 32, 50, 32, 49]) (some [48, 32, 49, 32, 48]) = .ok z ∧
      0 ≤ z ∧ z ≤ 1000000 := by
  obtain ⟨-, -, -, -, -, -, -, hscore⟩ := score_bounded (n := 3) (m := 2) 1 (by decide) (by decide)
  obtain ⟨z, hz, hz₀, hz', -⟩ := hscore ascii (some [51, 32, 50, 32, 49]) (by decide +kernel)
    (some [48, 32, 49, 32, 48])
  exact ⟨z, hz, hz₀, hz'⟩

end MikanJudge.MaxCut

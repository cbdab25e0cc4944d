import Mathlib.Data.List.Sort
import Mathlib.Data.Prod.Lex

/-!
# Sorting by a comparison, and places

`PreorderOn cmp l` says that a comparison is a total preorder on the members
of a list: sorting is then what it should be. `ranks` goes through a sorted
list and gives each member the place of the first with its key
(`ranks_eq_countP`).
-/

namespace MikanJudge.Lib

section

variable {α κ : Type*} {cmp : α → α → Ordering} {l l' : List α}

/-- A comparison is a total preorder on the members of a list. -/
structure PreorderOn (cmp : α → α → Ordering) (l : List α) : Prop where
  refl : ∀ a ∈ l, cmp a a = .eq
  swap : ∀ a ∈ l, ∀ b ∈ l, cmp b a = (cmp a b).swap
  trans : ∀ a ∈ l, ∀ b ∈ l, ∀ c ∈ l, cmp a b ≠ .gt → cmp b c ≠ .gt → cmp a c ≠ .gt

/-- The members in order; those that compare equal stay as they are. -/
def sortBy (cmp : α → α → Ordering) (l : List α) : List α := l.insertionSort fun a b => cmp a b ≠ .gt

theorem PreorderOn.subset (h : PreorderOn cmp l) (hs : l' ⊆ l) : PreorderOn cmp l' where
  refl a ha := h.refl a (hs ha)
  swap a ha b hb := h.swap a (hs ha) b (hs hb)
  trans a ha b hb c hc := h.trans a (hs ha) b (hs hb) c (hs hc)

/-- Comparing keys is a total preorder. -/
theorem PreorderOn.of_key [LinearOrder κ] (key : α → κ)
    (h : ∀ a ∈ l, ∀ b ∈ l, cmp a b = compare (key a) (key b)) : PreorderOn cmp l where
  refl a ha := by rw [h a ha a ha, compare_eq_iff_eq]
  swap a ha b hb := by
    rw [h a ha b hb, h b hb a ha]
    rcases lt_trichotomy (key a) (key b) with hlt | heq | hgt
    · rw [compare_lt_iff_lt.mpr hlt, compare_gt_iff_gt.mpr hlt, Ordering.swap_lt]
    · rw [heq, compare_eq_iff_eq.mpr rfl, Ordering.swap_eq]
    · rw [compare_gt_iff_gt.mpr hgt, compare_lt_iff_lt.mpr hgt, Ordering.swap_gt]
  trans a ha b hb c hc hab hbc := by
    rw [h a ha b hb, compare_le_iff_le] at hab
    rw [h b hb c hc, compare_le_iff_le] at hbc
    rw [h a ha c hc, compare_le_iff_le]
    exact hab.trans hbc

theorem sortBy_perm (cmp : α → α → Ordering) (l : List α) : (sortBy cmp l).Perm l :=
  List.perm_insertionSort _ l

theorem PreorderOn.pairwise_sortBy (h : PreorderOn cmp l) :
    (sortBy cmp l).Pairwise fun a b => cmp a b ≠ .gt := by
  let r : {a // a ∈ l} → {a // a ∈ l} → Prop := fun a b => cmp a.1 b.1 ≠ .gt
  have htotal : Std.Total r := by
    refine ⟨fun a b => ?_⟩
    simp only [r]
    rw [h.swap a.1 a.2 b.1 b.2]
    cases cmp a.1 b.1 <;> decide
  have htrans : IsTrans {a // a ∈ l} r := ⟨fun a b c => h.trans a.1 a.2 b.1 b.2 c.1 c.2⟩
  have hmap : (l.attach.insertionSort r).map Subtype.val = sortBy cmp l := by
    rw [List.map_insertionSort r (fun a b => cmp a b ≠ .gt) _ _ fun _ _ _ _ => Iff.rfl,
      List.attach_map_subtype_val, sortBy]
  rw [← hmap, List.pairwise_map]
  exact List.pairwise_insertionSort r l.attach

/-- Of two members that may stay as they are, the first stays first. -/
theorem pair_sublist_sortBy {a b : α} (h : cmp a b ≠ .gt) (hs : [a, b].Sublist l) :
    [a, b].Sublist (sortBy cmp l) :=
  List.pair_sublist_insertionSort (r := fun a b => cmp a b ≠ .gt) h hs

/-- In a list without repetitions, of two members only one is first. -/
theorem not_sublist_of_nodup {a b : α} (hn : l.Nodup) (h : [a, b].Sublist l) :
    ¬ [b, a].Sublist l := by
  induction l with
  | nil => cases h
  | cons x l ih =>
    obtain ⟨hx, hn⟩ := List.nodup_cons.mp hn
    intro h'
    cases h with
    | cons _ h =>
      cases h' with
      | cons _ h' => exact ih hn h h'
      | cons_cons _ h' => exact hx (h.subset (List.mem_cons_of_mem _ List.mem_cons_self))
    | cons_cons _ h =>
      cases h' with
      | cons _ h' => exact hx (h'.subset (List.mem_cons_of_mem _ List.mem_cons_self))
      | cons_cons _ h' => exact hx (h.subset List.mem_cons_self)

/-- Where only equal members compare equal, the order before the sort does not matter. -/
theorem PreorderOn.sortBy_eq_of_perm (h : PreorderOn cmp l) (hp : l'.Perm l)
    (hanti : ∀ a ∈ l, ∀ b ∈ l, cmp a b = .eq → a = b) : sortBy cmp l' = sortBy cmp l := by
  have hperm : (sortBy cmp l').Perm (sortBy cmp l) :=
    (sortBy_perm cmp l').trans (hp.trans (sortBy_perm cmp l).symm)
  refine hperm.eq_of_pairwise (fun a b ha hb hab hba => ?_) (h.subset hp.subset).pairwise_sortBy
    h.pairwise_sortBy
  have ha := hp.subset ((sortBy_perm cmp l').subset ha)
  have hb := (sortBy_perm cmp l).subset hb
  refine hanti a ha b hb ?_
  rw [h.swap a ha b hb] at hba
  revert hab hba
  cases cmp a b <;> decide

end

/-! ## Places -/

section

variable {κ : Type*} [LinearOrder κ]

/-- The places of the members of a list from position `i` on, by their keys.
The last change was to the key `prev`, at the place `current`. -/
def ranks : Nat → Option κ → Nat → List κ → List Nat
  | _, _, _, [] => []
  | i, prev, current, k :: ks =>
    if prev = some k then current :: ranks (i + 1) prev current ks
    else (i + 1) :: ranks (i + 1) (some k) (i + 1) ks

/-- The members before one that differs from the last of them are less. -/
theorem lt_of_getLast?_ne {done : List κ} {k : κ} (hs : (done ++ [k]).Pairwise (· ≤ ·))
    (hk : done.getLast? ≠ some k) : ∀ j ∈ done, j < k := by
  intro j hj
  obtain rfl | ⟨init, last, rfl⟩ := List.eq_nil_or_concat done
  · cases hj
  · rw [List.concat_eq_append] at hs hk hj
    rw [List.getLast?_concat] at hk
    have hpair := List.pairwise_append.mp hs
    have hlast : last < k :=
      lt_of_le_of_ne (hpair.2.2 last (List.mem_append_right _ List.mem_cons_self) k List.mem_cons_self)
        fun e => hk (congrArg some e)
    rcases List.mem_append.mp hj with hj | hj
    · exact ((List.pairwise_append.mp hpair.1).2.2 j hj last List.mem_cons_self).trans_lt hlast
    · rwa [List.mem_singleton.mp hj]

/-- In a sorted list, a member's place is one more than the number of members before it
with another key. -/
theorem ranks_eq_countP {ks : List κ} (hs : ks.Pairwise (· ≤ ·)) :
    ranks 0 none 0 ks = ks.map fun k => 1 + ks.countP fun j => decide (j < k) := by
  have hloop : ∀ rest done : List κ, ∀ current, ks = done ++ rest →
      (∀ k, done.getLast? = some k → current = 1 + ks.countP fun j => decide (j < k)) →
      ranks done.length done.getLast? current rest =
        rest.map fun k => 1 + ks.countP fun j => decide (j < k) := by
    intro rest
    induction rest with
    | nil => intro _ _ _ _; rfl
    | cons k rest ih =>
      intro done current e hc
      have e' : ks = (done ++ [k]) ++ rest := by rw [List.append_assoc]; exact e
      have hnext := ih (done ++ [k])
      rw [List.getLast?_concat, List.length_append, List.length_singleton] at hnext
      rw [ranks, List.map_cons]
      split_ifs with hk
      · have hcur := hc k hk
        rw [hk, hnext current e' fun k' hk' => Option.some.inj hk' ▸ hcur, hcur]
      · -- the members before `k` are those already seen
        have hpair := List.pairwise_append.mp (e ▸ hs)
        have hlt := lt_of_getLast?_ne (List.pairwise_append.mp (e' ▸ hs)).1 hk
        have hge : ∀ j ∈ k :: rest, ¬ j < k := by
          intro j hj
          rcases List.mem_cons.mp hj with rfl | hj
          · exact lt_irrefl j
          · exact not_lt.mpr ((List.pairwise_cons.mp hpair.2.1).1 j hj)
        have hcur : done.length + 1 = 1 + ks.countP fun j => decide (j < k) := by
          rw [e, List.countP_append, List.countP_eq_length.mpr fun j hj => decide_eq_true (hlt j hj),
            List.countP_eq_zero.mpr fun j hj => by simpa using hge j hj]
          omega
        rw [hnext _ e' fun k' hk' => Option.some.inj hk' ▸ hcur, hcur]
  exact hloop ks [] 0 rfl fun k hk => by cases hk

end

end MikanJudge.Lib

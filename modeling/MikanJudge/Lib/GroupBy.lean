import Mathlib.Data.List.Dedup
import Mathlib.Data.List.MinMax
import Mathlib.Data.List.Sort

/-!
# Grouping and aggregates

`groupBy` lists, for each key of some pairs, in the order of the keys, what an
aggregate makes of the values with that key. An aggregate that is `none` of no
values determines the list key by key (`groupBy_eq_iff`); the least and the
greatest value are the same over fewer pairs exactly if these cover the others
(`groupBy_min?_eq_iff`, `groupBy_max?_eq_iff`).
-/

namespace MikanJudge.Lib

section

variable {κ α β : Type*} [LinearOrder κ] {agg : List α → Option β} {k : κ}

/-- The values with a key. -/
def valuesAt (k : κ) (rows : List (κ × α)) : List α :=
  (rows.filter fun row => decide (row.1 = k)).map (·.2)

def groupBy (agg : List α → Option β) (rows : List (κ × α)) : List (κ × β) :=
  ((rows.map (·.1)).dedup.insertionSort (· ≤ ·)).filterMap fun k =>
    (agg (valuesAt k rows)).map fun b => (k, b)

theorem mem_valuesAt {a : α} {rows : List (κ × α)} : a ∈ valuesAt k rows ↔ (k, a) ∈ rows := by
  simp only [valuesAt, List.mem_map, List.mem_filter, decide_eq_true_eq]
  constructor
  · rintro ⟨⟨k', a'⟩, ⟨h, rfl⟩, rfl⟩
    exact h
  · exact fun h => ⟨(k, a), ⟨h, rfl⟩, rfl⟩

theorem valuesAt_subset {rows rows' : List (κ × α)} (h : rows' ⊆ rows) (k : κ) :
    valuesAt k rows' ⊆ valuesAt k rows :=
  fun _ ha => mem_valuesAt.mpr (h (mem_valuesAt.mp ha))

theorem valuesAt_eq_nil {rows : List (κ × α)} (h : k ∉ rows.map (·.1)) : valuesAt k rows = [] :=
  List.eq_nil_iff_forall_not_mem.mpr fun a ha => h (List.mem_map.mpr ⟨(k, a), mem_valuesAt.mp ha, rfl⟩)

theorem mem_groupBy (hnil : agg [] = none) {rows : List (κ × α)} {b : β} :
    (k, b) ∈ groupBy agg rows ↔ agg (valuesAt k rows) = some b := by
  simp only [groupBy, List.mem_filterMap, List.mem_insertionSort, List.mem_dedup,
    Option.map_eq_some_iff, Prod.mk.injEq]
  constructor
  · rintro ⟨k', -, b', h, rfl, rfl⟩
    exact h
  · intro h
    refine ⟨k, ?_, b, h, rfl, rfl⟩
    by_contra hk
    rw [valuesAt_eq_nil hk, hnil] at h
    cases h

theorem groupBy_eq_nil_iff (hnil : agg [] = none) (hagg : ∀ vs, vs ≠ [] → (agg vs).isSome = true)
    {rows : List (κ × α)} : groupBy agg rows = [] ↔ rows = [] := by
  constructor
  · intro h
    rw [List.eq_nil_iff_forall_not_mem]
    rintro ⟨k, a⟩ hka
    obtain ⟨b, hb⟩ := Option.isSome_iff_exists.mp
      (hagg (valuesAt k rows) (List.ne_nil_of_mem (mem_valuesAt.mpr hka)))
    exact List.not_mem_nil (h ▸ (mem_groupBy hnil).mpr hb)
  · rintro rfl
    rfl

/-- The groups come in the order of their keys, each key once. -/
theorem pairwise_groupBy (rows : List (κ × α)) :
    (groupBy agg rows).Pairwise fun p q => p.1 < q.1 := by
  have hsorted : ((rows.map (·.1)).dedup.insertionSort (· ≤ ·)).Pairwise (· < ·) := by
    have hle := List.pairwise_insertionSort (· ≤ ·) (rows.map (·.1)).dedup
    have hne : ((rows.map (·.1)).dedup.insertionSort (· ≤ ·)).Nodup :=
      (List.perm_insertionSort (· ≤ ·) _).nodup_iff.mpr (List.nodup_dedup _)
    exact (hle.and hne).imp fun h => lt_of_le_of_ne h.1 h.2
  refine List.Pairwise.filterMap _ (fun k k' h p hp q hq => ?_) hsorted
  obtain ⟨b, -, rfl⟩ := Option.map_eq_some_iff.mp hp
  obtain ⟨b', -, rfl⟩ := Option.map_eq_some_iff.mp hq
  exact h

/-- Two groupings agree exactly if they do on every key. -/
theorem groupBy_eq_iff (hnil : agg [] = none) {rows rows' : List (κ × α)} :
    groupBy agg rows = groupBy agg rows' ↔
      ∀ k, agg (valuesAt k rows) = agg (valuesAt k rows') := by
  constructor
  · intro h k
    refine Option.ext fun b => ?_
    rw [← mem_groupBy hnil, ← mem_groupBy hnil, h]
  · intro h
    have hmem : ∀ p, p ∈ groupBy agg rows ↔ p ∈ groupBy agg rows' := fun p => by
      rw [← Prod.eta p, mem_groupBy hnil, mem_groupBy hnil, h]
    have hnodup : ∀ rows : List (κ × α), (groupBy agg rows).Nodup := fun rows =>
      (pairwise_groupBy rows).imp fun h e => (e ▸ h).false
    exact ((List.perm_ext_iff_of_nodup (hnodup _) (hnodup _)).mpr hmem).eq_of_pairwise
      (fun p q _ _ h h' => (lt_asymm h h').elim) (pairwise_groupBy _) (pairwise_groupBy _)

end

/-! ## The least and the greatest value -/

section

variable {α : Type*} [LinearOrder α] {as as' : List α}

theorem min?_eq_of_subset_iff (h : as' ⊆ as) :
    as'.min? = as.min? ↔ ∀ a ∈ as, ∃ a' ∈ as', a' ≤ a := by
  constructor
  · intro e a ha
    obtain ⟨m, hm⟩ := Option.isSome_iff_exists.mp (List.isSome_min?_of_mem ha)
    exact ⟨m, List.min?_mem (e.trans hm), (List.min?_eq_some_iff.mp hm).2 a ha⟩
  · intro hc
    cases hm : as'.min? with
    | none =>
      rw [List.min?_eq_none_iff] at hm
      subst hm
      refine (List.min?_eq_none_iff.mpr (List.eq_nil_iff_forall_not_mem.mpr fun a ha => ?_)).symm
      obtain ⟨a', ha', -⟩ := hc a ha
      cases ha'
    | some m =>
      obtain ⟨hmem, hle⟩ := List.min?_eq_some_iff.mp hm
      refine (List.min?_eq_some_iff.mpr ⟨h hmem, fun a ha => ?_⟩).symm
      obtain ⟨a', ha', hle'⟩ := hc a ha
      exact (hle a' ha').trans hle'

variable {κ : Type*} [LinearOrder κ] {rows rows' : List (κ × α)}

/-- The least values are those of fewer pairs exactly if each pair has one
among these with its key and no greater value. -/
theorem groupBy_min?_eq_iff (h : rows' ⊆ rows) :
    groupBy List.min? rows' = groupBy List.min? rows ↔
      ∀ k a, (k, a) ∈ rows → ∃ a', (k, a') ∈ rows' ∧ a' ≤ a := by
  rw [groupBy_eq_iff rfl]
  refine forall_congr' fun k => ?_
  rw [min?_eq_of_subset_iff (valuesAt_subset h k)]
  simp only [mem_valuesAt]

theorem groupBy_max?_eq_iff (h : rows' ⊆ rows) :
    groupBy List.max? rows' = groupBy List.max? rows ↔
      ∀ k a, (k, a) ∈ rows → ∃ a', (k, a') ∈ rows' ∧ a ≤ a' :=
  groupBy_min?_eq_iff (α := αᵒᵈ) h

end

end MikanJudge.Lib

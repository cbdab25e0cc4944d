import Mathlib.Data.List.Sort
import Mathlib.Data.List.Perm.Basic

/-!
# Windows of a list, and ties

A list is shown in windows of a fixed size (`window`), one after another
(`flatMap_window`). When a sorted list is sorted again for each window, the
members that are tied may come in another order each time. The windows still
make up the list, whatever these orders, exactly if no window ends between two
members that are tied (`forall_windows_perm_iff`).
-/

namespace MikanJudge.Lib

section

variable {α : Type*} {s : Nat} {l : List α}

/-- The window at a position, of windows of size `s`. -/
def window (s : Nat) (l : List α) (p : Nat) : List α := (l.drop (p * s)).take s

theorem flatMap_window (s : Nat) (l : List α) (n : Nat) :
    (List.range n).flatMap (window s l) = l.take (n * s) := by
  induction n with
  | zero => rw [List.range_zero, List.flatMap_nil, Nat.zero_mul, List.take_zero]
  | succ n ih =>
    rw [List.range_succ, List.flatMap_append, ih, Nat.succ_mul, List.take_add]
    simp only [List.flatMap_cons, List.flatMap_nil, List.append_nil, window]

/-- As many windows as it takes show the whole list. -/
theorem flatMap_window_of_le {n : Nat} (h : l.length ≤ n * s) :
    (List.range n).flatMap (window s l) = l := by
  rw [flatMap_window, List.take_of_length_le h]

theorem mem_window {p : Nat} {x : α} (hs : 0 < s) :
    x ∈ window s l p ↔ ∃ i, i / s = p ∧ l[i]? = some x := by
  rw [window, List.mem_iff_getElem?]
  constructor
  · rintro ⟨i, hi⟩
    rw [List.getElem?_take, List.getElem?_drop] at hi
    split_ifs at hi with hlt
    refine ⟨p * s + i, ?_, hi⟩
    rw [Nat.mul_comm, Nat.mul_add_div hs, Nat.div_eq_of_lt hlt, Nat.add_zero]
  · rintro ⟨i, rfl, hi⟩
    refine ⟨i % s, ?_⟩
    rw [List.getElem?_take, if_pos (Nat.mod_lt i hs), List.getElem?_drop, Nat.mul_comm,
      Nat.div_add_mod]
    exact hi

theorem length_window (s : Nat) (l : List α) (p : Nat) :
    (window s l p).length = min s (l.length - p * s) := by
  rw [window, List.length_take, List.length_drop]

/-- A window is what a predicate selects that holds of its positions alone. -/
theorem filter_eq_window {p : Nat} {f : α → Bool} (hs : 0 < s)
    (h : ∀ i x, l[i]? = some x → f x = decide (i / s = p)) : l.filter f = window s l p := by
  have hsplit : l = l.take (p * s) ++ (window s l p ++ l.drop (p * s + s)) := by
    rw [window, ← List.drop_drop, List.take_append_drop, List.take_append_drop]
  have hbefore : (l.take (p * s)).filter f = [] := by
    rw [List.filter_eq_nil_iff]
    intro x hx
    obtain ⟨i, hi⟩ := List.mem_iff_getElem?.mp hx
    rw [List.getElem?_take] at hi
    split_ifs at hi with hlt
    have hne : i / s ≠ p := Nat.ne_of_lt ((Nat.div_lt_iff_lt_mul hs).mpr hlt)
    rw [h i x hi, decide_eq_true_eq]
    exact hne
  have hafter : (l.drop (p * s + s)).filter f = [] := by
    rw [List.filter_eq_nil_iff]
    intro x hx
    obtain ⟨i, hi⟩ := List.mem_iff_getElem?.mp hx
    rw [List.getElem?_drop] at hi
    have hlt : p + 1 ≤ (p * s + s + i) / s := by
      rw [Nat.le_div_iff_mul_le hs, Nat.succ_mul]
      omega
    rw [h _ x hi, decide_eq_true_eq]
    omega
  have hwindow : (window s l p).filter f = window s l p := by
    rw [List.filter_eq_self]
    intro x hx
    obtain ⟨i, hi, hx⟩ := (mem_window hs).mp hx
    rw [h i x hx, decide_eq_true hi]
  conv_lhs => rw [hsplit]
  rw [List.filter_append, List.filter_append, hbefore, hafter, hwindow, List.nil_append,
    List.append_nil]

/-- What falls to the positions below a number falls to one of them. -/
theorem flatMap_filter_eq_perm (g : α → Nat) (l : List α) (n : Nat) :
    ((List.range n).flatMap fun p => l.filter fun x => g x = p).Perm
      (l.filter fun x => g x < n) := by
  induction n with
  | zero => simp
  | succ n ih =>
    have hlow : (l.filter fun x => g x < n + 1).filter (fun x => g x < n) =
        l.filter fun x => g x < n := by
      rw [List.filter_filter]
      exact List.filter_congr fun x _ => by
        rw [← Bool.decide_and]
        exact decide_eq_decide.mpr ⟨And.left, fun h => ⟨h, by omega⟩⟩
    have hhigh : (l.filter fun x => g x < n + 1).filter (fun x => !decide (g x < n)) =
        l.filter fun x => g x = n := by
      rw [List.filter_filter]
      exact List.filter_congr fun x _ => by
        rw [← decide_not, ← Bool.decide_and]
        exact decide_eq_decide.mpr ⟨fun h => by omega, fun h => by omega⟩
    have hsplit := List.filter_append_perm (fun x => g x < n) (l.filter fun x => g x < n + 1)
    rw [hlow, hhigh] at hsplit
    rw [List.range_succ, List.flatMap_append, List.flatMap_singleton]
    exact (ih.append_right _).trans hsplit

end

/-! ## Ties -/

section

variable {α κ : Type*} [LinearOrder κ] {key : α → κ} {s : Nat} {rows l : List α}

/-- How many members come before those with a key. -/
def below (key : α → κ) (rows : List α) (k : κ) : Nat := rows.countP fun x => key x < k

/-- How many members come before those with a greater key. -/
def upTo (key : α → κ) (rows : List α) (k : κ) : Nat := rows.countP fun x => key x ≤ k

/-- No window ends between two members with the same key: the first and the
last place they take lie in one window. -/
def Unsplit (s : Nat) (key : α → κ) (rows : List α) : Prop :=
  ∀ x ∈ rows, below key rows (key x) / s = (upTo key rows (key x) - 1) / s

instance (s : Nat) (key : α → κ) (rows : List α) : Decidable (Unsplit s key rows) :=
  inferInstanceAs (Decidable (∀ x ∈ rows, _ = _))

/-- An order of the rows in which a query may give them. -/
structure SortedBy (key : α → κ) (rows l : List α) : Prop where
  perm : l.Perm rows
  sorted : l.Pairwise fun a b => key a ≤ key b

/-- Where a predicate holds of the beginning of a list, it holds at the places
below its count. -/
theorem getElem?_iff_lt_countP {p : α → Bool} (hp : l.Pairwise fun a b => p b → p a) {i : Nat}
    {x : α} (hx : l[i]? = some x) : p x ↔ i < l.countP p := by
  induction l generalizing i with
  | nil => cases hx
  | cons a l ih =>
    obtain ⟨ha, hp⟩ := List.pairwise_cons.mp hp
    have hnone : ¬ p a → l.countP p = 0 := fun hna =>
      List.countP_eq_zero.mpr fun b hb hpb => hna (ha b hb hpb)
    cases i with
    | zero =>
      obtain rfl : a = x := Option.some.inj hx
      by_cases hpa : p a
      · simp [hpa]
      · simp [hpa, hnone hpa]
    | succ i =>
      have hx : l[i]? = some x := hx
      have hmem : x ∈ l := List.mem_iff_getElem?.mpr ⟨i, hx⟩
      by_cases hpa : p a
      · rw [ih hp hx, List.countP_cons_of_pos hpa]
        omega
      · have hpx : ¬ p x := fun h => hpa (ha x hmem h)
        simp [hpa, hnone hpa, hpx]

theorem SortedBy.lt_iff (h : SortedBy key rows l) {i : Nat} {x : α} (hx : l[i]? = some x) (k : κ) :
    key x < k ↔ i < below key rows k := by
  have hp : l.Pairwise fun a b => decide (key b < k) → decide (key a < k) :=
    h.sorted.imp fun hab hb => decide_eq_true (hab.trans_lt (of_decide_eq_true hb))
  have := getElem?_iff_lt_countP hp hx
  rw [h.perm.countP_eq, decide_eq_true_eq] at this
  exact this

theorem SortedBy.le_iff (h : SortedBy key rows l) {i : Nat} {x : α} (hx : l[i]? = some x) (k : κ) :
    key x ≤ k ↔ i < upTo key rows k := by
  have hp : l.Pairwise fun a b => decide (key b ≤ k) → decide (key a ≤ k) :=
    h.sorted.imp fun hab hb => decide_eq_true (hab.trans (of_decide_eq_true hb))
  have := getElem?_iff_lt_countP hp hx
  rw [h.perm.countP_eq, decide_eq_true_eq] at this
  exact this

/-- If no window splits a tie, a window holds the same members in any order. -/
theorem SortedBy.window_perm (h : SortedBy key rows l) (hs : 0 < s) (hu : Unsplit s key rows)
    (p : Nat) :
    (window s l p).Perm (rows.filter fun x => below key rows (key x) / s = p) := by
  refine (List.Perm.of_eq (filter_eq_window hs fun i x hx => ?_).symm).trans (h.perm.filter _)
  have hmem : x ∈ rows := h.perm.subset (List.mem_iff_getElem?.mpr ⟨i, hx⟩)
  have hlow : below key rows (key x) ≤ i := not_lt.mp fun hlt =>
    lt_irrefl _ ((h.lt_iff hx (key x)).mpr hlt)
  have hhigh : i < upTo key rows (key x) := (h.le_iff hx (key x)).mp le_rfl
  have hplace : below key rows (key x) / s = i / s := by
    refine Nat.le_antisymm (Nat.div_le_div_right hlow) ?_
    rw [hu x hmem]
    exact Nat.div_le_div_right (by omega)
  rw [hplace]

/-- If no window splits a tie, the windows make up the list, each in an order
of its own. -/
theorem flatMap_window_perm (hs : 0 < s) (hu : Unsplit s key rows) {n : Nat}
    (hn : rows.length ≤ n * s) {order : Nat → List α} (h : ∀ p, SortedBy key rows (order p)) :
    ((List.range n).flatMap fun p => window s (order p) p).Perm rows := by
  have hwindows : ((List.range n).flatMap fun p => window s (order p) p).Perm
      ((List.range n).flatMap fun p => rows.filter fun x => below key rows (key x) / s = p) :=
    List.Perm.flatMap_left _ fun p _ => (h p).window_perm hs hu p
  have hall : (rows.filter fun x => below key rows (key x) / s < n) = rows := by
    refine List.filter_eq_self.mpr fun x hx => decide_eq_true ?_
    have hlt : below key rows (key x) < rows.length := by
      refine lt_of_le_of_ne List.countP_le_length fun heq => ?_
      exact lt_irrefl _ (of_decide_eq_true (List.countP_eq_length.mp heq x hx))
    exact (Nat.div_lt_iff_lt_mul hs).mpr (hlt.trans_le hn)
  exact hwindows.trans ((flatMap_filter_eq_perm _ rows n).trans (List.Perm.of_eq hall))

/-- Two neighbours with the same key may come the other way round. -/
theorem SortedBy.swap {xs ys : List α} {x y : α} (h : SortedBy key rows (xs ++ x :: y :: ys))
    (hxy : key x = key y) : SortedBy key rows (xs ++ y :: x :: ys) where
  perm := ((List.Perm.swap x y ys).append_left xs).trans h.perm
  sorted := by
    have hmap : (xs ++ y :: x :: ys).map key = (xs ++ x :: y :: ys).map key := by
      simp only [List.map_append, List.map_cons, hxy]
    have hs := h.sorted
    rw [← List.pairwise_map (R := (· ≤ ·))] at hs ⊢
    rwa [hmap]

/-- A list that can be sorted without splitting a tie has its tied members at
the two sides of the end of a window. -/
theorem SortedBy.exists_split (h : SortedBy key rows l) (hs : 0 < s) (hu : ¬ Unsplit s key rows) :
    ∃ p xs x y ys, l = xs ++ x :: y :: ys ∧ key x = key y ∧ xs.length + 1 = (p + 1) * s := by
  obtain ⟨z, hz, hne⟩ := not_forall₂.mp hu
  have hle : upTo key rows (key z) ≤ l.length := by
    rw [h.perm.length_eq]
    exact List.countP_le_length
  have hpos : 0 < upTo key rows (key z) :=
    List.countP_pos_iff.mpr ⟨z, hz, decide_eq_true le_rfl⟩
  have hmono : below key rows (key z) ≤ upTo key rows (key z) :=
    List.countP_mono_left fun x _ hx => decide_eq_true (of_decide_eq_true hx).le
  have hlt : below key rows (key z) < upTo key rows (key z) := by
    refine lt_of_le_of_ne hmono fun heq => ?_
    obtain ⟨i, hi⟩ := List.mem_iff_getElem?.mp (h.perm.symm.subset hz)
    have hlt := (h.le_iff hi (key z)).mp le_rfl
    rw [← heq] at hlt
    exact lt_irrefl _ ((h.lt_iff hi (key z)).mpr hlt)
  -- the first place of a later window among those of the tie
  obtain ⟨p, hp⟩ : ∃ p, p = below key rows (key z) / s := ⟨_, rfl⟩
  have hfirst : below key rows (key z) < (p + 1) * s := by
    rw [hp, ← Nat.div_lt_iff_lt_mul hs]
    exact Nat.lt_succ_self _
  have hlast : (p + 1) * s ≤ upTo key rows (key z) - 1 := by
    rw [← Nat.le_div_iff_mul_le hs]
    refine Nat.lt_of_le_of_ne ?_ (hp ▸ hne)
    rw [hp]
    exact Nat.div_le_div_right (by omega)
  obtain ⟨q, hq⟩ : ∃ q, (p + 1) * s = q + 1 := Nat.exists_eq_succ_of_ne_zero (by omega)
  have hkey : ∀ i (hi : i < l.length), below key rows (key z) ≤ i → i < upTo key rows (key z) →
      key l[i] = key z := by
    intro i hi hlow hhigh
    have hx := List.getElem?_eq_getElem hi
    exact le_antisymm ((h.le_iff hx _).mpr hhigh)
      (not_lt.mp fun hlt => absurd ((h.lt_iff hx _).mp hlt) (not_lt.mpr hlow))
  have hlen : q + 1 < l.length := by omega
  refine ⟨p, l.take q, l[q], l[q + 1], l.drop (q + 2), ?_, ?_, ?_⟩
  · rw [← List.drop_eq_getElem_cons hlen, ← List.drop_eq_getElem_cons, List.take_append_drop]
  · rw [hkey q (by omega) (by omega) (by omega), hkey (q + 1) hlen (by omega) (by omega)]
  · rw [List.length_take, hq]
    omega

/-- The windows make up the list whatever the order of each, exactly if none
splits a tie. -/
theorem forall_windows_perm_iff (hs : 0 < s) (hnodup : rows.Nodup) {n : Nat}
    (hn : rows.length ≤ n * s) (hsorted : ∃ l, SortedBy key rows l) :
    (∀ order : Nat → List α, (∀ p, SortedBy key rows (order p)) →
      ((List.range n).flatMap fun p => window s (order p) p).Perm rows) ↔ Unsplit s key rows := by
  refine ⟨fun hall => ?_, fun hu order h => flatMap_window_perm hs hu hn h⟩
  by_contra hu
  obtain ⟨l, hl⟩ := hsorted
  obtain ⟨p, xs, x, y, ys, rfl, hxy, hlen⟩ := hl.exists_split hs hu
  -- in the next window alone the two come the other way round
  let order : Nat → List α := fun k => if k = p + 1 then xs ++ y :: x :: ys else xs ++ x :: y :: ys
  have horder : ∀ k, SortedBy key rows (order k) := by
    intro k
    by_cases hk : k = p + 1
    · simpa only [order, if_pos hk] using hl.swap hxy
    · simpa only [order, if_neg hk] using hl
  have hperm := hall order horder
  have hp : order p = xs ++ x :: y :: ys := if_neg (by omega)
  have hp' : order (p + 1) = xs ++ y :: x :: ys := if_pos rfl
  have hfirst : x ∈ window s (order p) p := by
    refine (mem_window hs).mpr ⟨xs.length, ?_, ?_⟩
    · rw [Nat.div_eq_iff hs]
      rw [Nat.succ_mul] at hlen
      omega
    · rw [hp, List.getElem?_append_right le_rfl, Nat.sub_self, List.getElem?_cons_zero]
  have hsecond : x ∈ window s (order (p + 1)) (p + 1) := by
    refine (mem_window hs).mpr ⟨xs.length + 1, ?_, ?_⟩
    · rw [hlen, Nat.mul_div_cancel _ hs]
    · rw [hp', List.getElem?_append_right (by omega), Nat.add_sub_cancel_left]
      rfl
  have hplace : p + 1 < n := by
    have hcount := hl.perm.length_eq
    rw [List.length_append, List.length_cons, List.length_cons] at hcount
    by_contra hge
    have := Nat.mul_le_mul_right s (not_lt.mp hge)
    omega
  have hdisjoint := (List.nodup_flatMap.mp (hperm.nodup_iff.mpr hnodup)).2
  have hpair := List.pairwise_iff_getElem.mp hdisjoint p (p + 1)
    (by rw [List.length_range]; omega) (by rw [List.length_range]; omega) (by omega)
  rw [List.getElem_range, List.getElem_range] at hpair
  exact hpair hfirst hsecond

end

end MikanJudge.Lib

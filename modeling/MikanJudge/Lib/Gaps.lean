import Mathlib.Data.List.Chain

/-!
# A list with its gaps marked

`withGaps gap skip l` puts `gap` between two neighbours of `l` where `skip`
says that something is left out. The members of `l` are found again as those
that are no gap (`filter_withGaps`), and a gap stands between two neighbours
exactly where one belongs (`infix_withGaps_iff`); no two gaps meet.
-/

namespace MikanJudge.Lib

variable {α : Type*} {gap : α} {skip : α → α → Bool}

/-- The list, with `gap` between neighbours where something is left out. -/
def withGaps (gap : α) (skip : α → α → Bool) : List α → List α
  | a :: b :: l =>
    if skip a b then a :: gap :: withGaps gap skip (b :: l) else a :: withGaps gap skip (b :: l)
  | l => l

@[simp] theorem withGaps_nil : withGaps gap skip [] = [] := rfl

@[simp] theorem withGaps_singleton (a : α) : withGaps gap skip [a] = [a] := rfl

theorem withGaps_cons_cons (a b : α) (l : List α) :
    withGaps gap skip (a :: b :: l) =
      if skip a b then a :: gap :: withGaps gap skip (b :: l)
      else a :: withGaps gap skip (b :: l) := rfl

/-- The first member stays first. -/
theorem exists_withGaps_cons (gap : α) (skip : α → α → Bool) (a : α) (l : List α) :
    ∃ l', withGaps gap skip (a :: l) = a :: l' := by
  cases l with
  | nil => exact ⟨[], rfl⟩
  | cons b l =>
    rw [withGaps_cons_cons]
    split_ifs <;> exact ⟨_, rfl⟩

theorem head?_withGaps (l : List α) : (withGaps gap skip l).head? = l.head? := by
  cases l with
  | nil => rfl
  | cons a l =>
    obtain ⟨l', hl'⟩ := exists_withGaps_cons gap skip a l
    rw [hl']
    rfl

theorem getLast?_withGaps (l : List α) : (withGaps gap skip l).getLast? = l.getLast? := by
  induction l with
  | nil => rfl
  | cons a l ih =>
    cases l with
    | nil => rfl
    | cons b l =>
      obtain ⟨l', hl'⟩ := exists_withGaps_cons gap skip b l
      rw [withGaps_cons_cons, List.getLast?_cons_cons, ← ih, hl']
      split_ifs <;> simp only [List.getLast?_cons_cons]

/-- Where nothing is left out, the list stays as it is up to there. -/
theorem withGaps_append {l : List α} {a : α} (l' : List α)
    (h : (l ++ [a]).IsChain fun x y => ¬ skip x y) :
    withGaps gap skip (l ++ a :: l') = l ++ withGaps gap skip (a :: l') := by
  induction l with
  | nil => rfl
  | cons x l ih =>
    cases l with
    | nil =>
      have hskip : ¬ skip x a := by simpa using h
      rw [List.cons_append, List.nil_append, withGaps_cons_cons, if_neg hskip]
      rfl
    | cons y l =>
      have hskip : ¬ skip x y := (List.isChain_cons_cons.mp h).1
      rw [List.cons_append, List.cons_append, withGaps_cons_cons, if_neg hskip]
      exact congrArg (x :: ·) (ih (List.isChain_cons_cons.mp h).2)

theorem withGaps_eq_self {l : List α} (h : l.IsChain fun x y => ¬ skip x y) :
    withGaps gap skip l = l := by
  obtain rfl | ⟨init, a, rfl⟩ := List.eq_nil_or_concat l
  · rfl
  · rw [List.concat_eq_append] at h ⊢
    rw [withGaps_append [] h, withGaps_singleton]

/-- The members are those that are no gap. -/
theorem filter_withGaps [DecidableEq α] {l : List α} (h : gap ∉ l) :
    (withGaps gap skip l).filter (· ≠ gap) = l := by
  induction l with
  | nil => rfl
  | cons a l ih =>
    have ha : a ≠ gap := fun e => h (e ▸ List.mem_cons_self)
    have hl : gap ∉ l := fun e => h (List.mem_cons_of_mem _ e)
    have hkeep : ∀ l', (a :: l').filter (· ≠ gap) = a :: l'.filter (· ≠ gap) := fun l' =>
      List.filter_cons_of_pos (decide_eq_true ha)
    have hdrop : ∀ l', (gap :: l').filter (· ≠ gap) = l'.filter (· ≠ gap) := fun l' =>
      List.filter_cons_of_neg (by simp)
    cases l with
    | nil => exact hkeep []
    | cons b l =>
      rw [withGaps_cons_cons]
      split_ifs
      · rw [hkeep, hdrop, ih hl]
      · rw [hkeep, ih hl]

/-- A gap stands between two neighbours where something is left out, and
nowhere else. -/
theorem infix_withGaps_iff {l : List α} (h : gap ∉ l) {a b : α} (ha : a ≠ gap) :
    [a, gap, b] <:+: withGaps gap skip l ↔ [a, b] <:+: l ∧ skip a b := by
  induction l with
  | nil => simp
  | cons x l ih =>
    have hl : gap ∉ l := fun e => h (List.mem_cons_of_mem _ e)
    cases l with
    | nil => simp [List.infix_cons_iff]
    | cons y l =>
      have hy : y ≠ gap := fun e => hl (e ▸ List.mem_cons_self)
      obtain ⟨l', hl'⟩ := exists_withGaps_cons gap skip y l
      have hpair : [a, b] <:+: x :: y :: l ↔ (a = x ∧ b = y) ∨ [a, b] <:+: y :: l := by
        rw [List.infix_cons_iff]
        simp
      rw [withGaps_cons_cons, hpair]
      split_ifs with hskip
      · have hfirst : [a, gap, b] <+: x :: gap :: y :: l' ↔ a = x ∧ b = y := by simp
        have hsecond : ¬ [a, gap, b] <+: gap :: y :: l' := by simp [ha]
        have hstep : [a, gap, b] <:+: x :: gap :: withGaps gap skip (y :: l) ↔
            (a = x ∧ b = y) ∨ ([a, b] <:+: y :: l ∧ skip a b) := by
          rw [← ih hl, List.infix_cons_iff, List.infix_cons_iff, hl', hfirst, or_iff_right hsecond]
        rw [hstep]
        constructor
        · rintro (⟨rfl, rfl⟩ | ⟨hin, hab⟩)
          · exact ⟨.inl ⟨rfl, rfl⟩, hskip⟩
          · exact ⟨.inr hin, hab⟩
        · rintro ⟨hfirst | hin, hab⟩
          · exact .inl hfirst
          · exact .inr ⟨hin, hab⟩
      · have hnone : ¬ [a, gap, b] <+: x :: y :: l' := by simp [hy.symm]
        have hstep : [a, gap, b] <:+: x :: withGaps gap skip (y :: l) ↔
            [a, b] <:+: y :: l ∧ skip a b := by
          rw [← ih hl, List.infix_cons_iff, hl', or_iff_right hnone]
        rw [hstep]
        constructor
        · rintro ⟨hin, hab⟩
          exact ⟨.inr hin, hab⟩
        · rintro ⟨⟨rfl, rfl⟩ | hin, hab⟩
          · exact absurd hab hskip
          · exact ⟨hin, hab⟩

/-- No two gaps meet. -/
theorem not_infix_gap_gap {l : List α} (h : gap ∉ l) : ¬ [gap, gap] <:+: withGaps gap skip l := by
  induction l with
  | nil => simp
  | cons x l ih =>
    have hx : x ≠ gap := fun e => h (e ▸ List.mem_cons_self)
    have hl : gap ∉ l := fun e => h (List.mem_cons_of_mem _ e)
    cases l with
    | nil => simp [List.infix_cons_iff]
    | cons y l =>
      have hy : y ≠ gap := fun e => hl (e ▸ List.mem_cons_self)
      obtain ⟨l', hl'⟩ := exists_withGaps_cons gap skip y l
      have hnot : ∀ l'', ¬ [gap, gap] <+: x :: l'' := fun l'' => by simp [hx.symm]
      have hgap : ¬ [gap, gap] <+: gap :: y :: l' := by simp [hy.symm]
      rw [withGaps_cons_cons]
      split_ifs
      · rw [List.infix_cons_iff, List.infix_cons_iff, or_iff_right (hnot _), hl', or_iff_right hgap,
          ← hl']
        exact ih hl
      · rw [List.infix_cons_iff, or_iff_right (hnot _)]
        exact ih hl

end MikanJudge.Lib

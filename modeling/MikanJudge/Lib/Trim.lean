import Mathlib.Data.List.DropRight

/-!
# Trimming a list at both ends

`trimBy p l` drops the elements satisfying `p` from both ends of `l`, as
trimming white space does to the characters of a string. What a longer list
and a shorter one have to share for their trimmed forms to agree is
`trimBy_append_eq_iff`: after a common part, the longer one may only add
elements that trimming drops.
-/

namespace MikanJudge.Lib

variable {α : Type*} {p : α → Bool}

/-- `l` without the elements satisfying `p` at its two ends. -/
def trimBy (p : α → Bool) (l : List α) : List α := (l.dropWhile p).rdropWhile p

/-- Every element satisfies `p`: trimming leaves nothing. -/
def Blank (p : α → Bool) (l : List α) : Prop := ∀ x ∈ l, p x

/-- No element satisfies `p`: trimming keeps everything. -/
def Solid (p : α → Bool) (l : List α) : Prop := ∀ x ∈ l, ¬ p x

theorem rdropWhile_append_blank {w : List α} (hw : Blank p w) (l : List α) :
    (l ++ w).rdropWhile p = l.rdropWhile p := by
  rw [List.rdropWhile, List.reverse_append,
    List.dropWhile_append_of_pos fun x hx => hw x (List.mem_reverse.mp hx), List.rdropWhile]

theorem trimBy_append_blank {w : List α} (hw : Blank p w) (l : List α) :
    trimBy p (l ++ w) = trimBy p l := by
  rw [trimBy, List.dropWhile_append]
  split
  · rename_i h
    rw [List.dropWhile_eq_nil_iff.mpr hw, trimBy, List.isEmpty_iff.mp h]
  · exact rdropWhile_append_blank hw _

theorem trimBy_blank_append {w : List α} (hw : Blank p w) (l : List α) :
    trimBy p (w ++ l) = trimBy p l := by
  rw [trimBy, List.dropWhile_append_of_pos hw, trimBy]

/-- A list is its trimmed form between two blank ends. -/
theorem exists_trimBy (p : α → Bool) (l : List α) :
    ∃ a b, Blank p a ∧ Blank p b ∧ l = a ++ trimBy p l ++ b := by
  refine ⟨l.takeWhile p, (l.dropWhile p).rtakeWhile p, fun x hx => List.mem_takeWhile_imp hx,
    fun x hx => List.mem_rtakeWhile_imp hx, ?_⟩
  rw [trimBy, List.append_assoc, List.rdropWhile_append_rtakeWhile, List.takeWhile_append_dropWhile]

/-- A list that starts with an element trimming keeps is only trimmed at its end. -/
theorem trimBy_cons_neg {x : α} (hx : ¬ p x) (l : List α) :
    trimBy p (x :: l) = (x :: l).rdropWhile p := by
  rw [trimBy, List.dropWhile_cons_of_neg hx]

theorem trimBy_trimBy (p : α → Bool) (l : List α) : trimBy p (trimBy p l) = trimBy p l := by
  cases h : trimBy p l with
  | nil => rfl
  | cons x xs =>
    -- what is left starts like the list after its blank beginning
    obtain ⟨ys, hys⟩ : trimBy p l <+: l.dropWhile p := List.rdropWhile_prefix p _
    have hx : ¬ p x := by
      have hhead := List.head?_dropWhile_not p l
      rw [← hys, h, List.cons_append, List.head?_cons] at hhead
      simpa using hhead
    rw [trimBy_cons_neg hx, ← h, trimBy, List.rdropWhile_idempotent]

/-- Nothing is trimmed behind an element that trimming keeps. -/
theorem rdropWhile_eq_of_getLast? {l : List α}
    (h : ∀ x, l.getLast? = some x → ¬ p x) : l.rdropWhile p = l :=
  (List.rdropWhile_eq_self_iff ..).mpr fun hl => h _ (List.getLast?_eq_some_getLast hl)

theorem rdropWhile_solid {l f : List α} (hf : Solid p f) (hne : f ≠ []) :
    (l ++ f).rdropWhile p = l ++ f := by
  refine rdropWhile_eq_of_getLast? fun x hx => ?_
  rw [List.getLast?_append_of_ne_nil _ hne] at hx
  exact hf x (List.mem_of_getLast? hx)

theorem Solid.trimBy_eq {f : List α} (hf : Solid p f) : trimBy p f = f := by
  cases f with
  | nil => rfl
  | cons x xs =>
    rw [trimBy_cons_neg (hf x List.mem_cons_self)]
    exact rdropWhile_solid (l := []) hf (List.cons_ne_nil _ _)

/-- After a list `a`, `x` trims at its end like a solid `f` exactly if it is
`f` and then a blank. -/
theorem rdropWhile_append_eq_iff {a x f : List α} (hf : Solid p f) :
    (a ++ x).rdropWhile p = (a ++ f).rdropWhile p ↔ ∃ w, Blank p w ∧ x = f ++ w := by
  constructor
  · intro h
    have hx := List.rdropWhile_append_rtakeWhile (p := p) (l := a ++ x)
    have hw : Blank p ((a ++ x).rtakeWhile p) := fun y hy => List.mem_rtakeWhile_imp hy
    rw [h] at hx
    generalize (a ++ x).rtakeWhile p = w at hx hw
    rcases eq_or_ne f [] with rfl | hne
    · -- with nothing kept after `a`, what `a` itself loses at its end is blank too
      have hv := List.rdropWhile_append_rtakeWhile (p := p) (l := a)
      rw [List.append_nil] at hx
      generalize hv' : a.rtakeWhile p = v at hv
      have e : a.rdropWhile p ++ w = a.rdropWhile p ++ (v ++ x) := by
        rw [hx, ← List.append_assoc, hv]
      refine ⟨x, fun y hy => hw y ?_, rfl⟩
      rw [List.append_cancel_left e]
      exact List.mem_append_right _ hy
    · rw [rdropWhile_solid hf hne, List.append_assoc] at hx
      exact ⟨w, hw, (List.append_cancel_left hx).symm⟩
  · rintro ⟨w, hw, rfl⟩
    rw [← List.append_assoc, rdropWhile_append_blank hw]

/-- Two lists with the common part `a`, the second ending in a solid `f`, have
the same trimmed form exactly if the first continues `a` with `f` and then a
blank; when `a` is blank, a blank may also stand before `f`. -/
theorem trimBy_append_eq_iff {a x f : List α} (hf : Solid p f) :
    trimBy p (a ++ x) = trimBy p (a ++ f) ↔
      (∃ w, Blank p w ∧ x = f ++ w) ∨
        (Blank p a ∧ ∃ u w, Blank p u ∧ Blank p w ∧ x = u ++ f ++ w) := by
  by_cases ha : Blank p a
  · rw [trimBy_blank_append ha, trimBy_blank_append ha, hf.trimBy_eq]
    constructor
    · intro h
      obtain ⟨u, w, hu, hw, e⟩ := exists_trimBy p x
      exact .inr ⟨ha, u, w, hu, hw, by rwa [h] at e⟩
    · rintro (⟨w, hw, rfl⟩ | ⟨-, u, w, hu, hw, rfl⟩)
      · rw [trimBy_append_blank hw, hf.trimBy_eq]
      · rw [trimBy_append_blank hw, trimBy_blank_append hu, hf.trimBy_eq]
  · have hd : ∀ y : List α, trimBy p (a ++ y) = (a.dropWhile p ++ y).rdropWhile p := fun y => by
      rw [trimBy, List.dropWhile_append, if_neg]
      simpa [Blank] using ha
    rw [hd, hd, rdropWhile_append_eq_iff hf]
    exact ⟨.inl, fun h => h.resolve_right fun h' => ha h'.1⟩

end MikanJudge.Lib

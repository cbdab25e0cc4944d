import MikanJudge.Proof.Statement
import Mathlib.Data.String.Basic

/-!
# The list of problems and a problem's page

`load_all` reads the directory of the problems and `load_one` the path of one. For
each name they come to the same (`loadAll_agrees`): a problem is listed exactly if
its page loads it, and with the same contents. An id that is no name is never
listed, though a page may load it.
-/

namespace MikanJudge

open MikanJudge.Lib

section

variable {ext : Externals} {fs : FileTree} {problemsDir id : String}

/-- A list made of what each key has, looked up by the key. -/
theorem find?_filterMap_key {α : Type} {key : α → String} {f : String → Option α}
    (hf : ∀ k x, f k = some x → key x = k) (keys : List String) (k : String) :
    (keys.filterMap f).find? (key · == k) = if k ∈ keys then f k else none := by
  induction keys with
  | nil => rfl
  | cons k' keys ih =>
    rw [List.filterMap_cons]
    cases hx : f k' with
    | none =>
      rw [ih]
      by_cases e : k = k'
      · subst e
        simp [hx]
      · simp [e]
    | some x =>
      by_cases e : k = k'
      · subst e
        simp [hf _ _ hx, hx]
      · have hne : (key x == k) = false := by simpa [hf _ _ hx] using Ne.symm e
        simp only [List.find?_cons, hne, ih, List.mem_cons, e, false_or]

/-- The keys of such a list are some of the keys, in their order. -/
theorem map_key_filterMap_sublist {α : Type} {key : α → String} {f : String → Option α}
    (hf : ∀ k x, f k = some x → key x = k) (keys : List String) :
    ((keys.filterMap f).map key).Sublist keys := by
  induction keys with
  | nil => exact .slnil
  | cons k keys ih =>
    rw [List.filterMap_cons]
    cases hx : f k with
    | none => exact ih.cons k
    | some x =>
      rw [← hf k x hx]
      exact ih.cons_cons (key x)

theorem toOption_eq_some {α : Type} {x : Except String α} {a : α} :
    x.toOption = some a ↔ x = .ok a := by
  cases x <;> simp [Except.toOption]

/-- What loads under a name is a directory with that name. -/
theorem mem_dirs_of_loadOne {prob : Problem} (hdir : problemsDir ≠ "") (hid : plainName id = true)
    (h : (loadOne ext fs problemsDir id).result = .ok prob) :
    (∃ names, fs.readDir problemsDir = some names ∧ id ∈ names.map (·.val)) ∧
      ∃ sub, fs.resolve (Path.join problemsDir id) = some sub ∧ fs.dirAt sub = true := by
  cases hread : fs.read (Path.join (Path.join problemsDir id) "meta.toml") with
  | none =>
    rw [loadOne_of_unreadable hread] at h
    cases h
  | some bytes =>
    rw [FileTree.read, Option.bind_eq_some_iff] at hread
    obtain ⟨loc, hloc, -⟩ := hread
    exact FileTree.mem_readDir_of_resolve hdir hid (by decide) hloc

end

/-- The list of the problems is in the strict order of their ids, and what it has
under an id is what loading that problem alone comes to, for a name, and nothing
for any other text. -/
theorem loadAll_agrees (ext : Externals) (fs : FileTree) (problemsDir : String)
    (hdir : problemsDir ≠ "") (hdistinct : fs.root.Distinct) :
    ((loadAll ext fs problemsDir).map (·.id)).Pairwise (· < ·) ∧
    ∀ id, (loadAll ext fs problemsDir).find? (·.id == id) =
      if plainName id then (loadOne ext fs problemsDir id).result.toOption else none := by
  have hkey : ∀ id prob, (loadOne ext fs problemsDir id).result.toOption = some prob →
      prob.id = id := fun id prob h => id_of_loadOne (toOption_eq_some.mp h)
  unfold loadAll
  cases hnames : fs.readDir problemsDir with
  | none =>
    refine ⟨List.Pairwise.nil, fun id => ?_⟩
    split_ifs with hid
    · cases hload : (loadOne ext fs problemsDir id).result.toOption with
      | none => rfl
      | some prob =>
        obtain ⟨⟨names, hn, -⟩, -⟩ := mem_dirs_of_loadOne hdir hid (toOption_eq_some.mp hload)
        cases hnames.symm.trans hn
    · rfl
  | some names =>
    dsimp only
    constructor
    · have hnodup : (names.map (·.val)).Nodup := by
        rw [FileTree.readDir] at hnames
        split at hnames
        · rename_i entries hentries
          cases hnames
          obtain ⟨loc, -, hloc⟩ := Option.bind_eq_some_iff.mp hentries
          exact (hdistinct loc entries hloc).map Subtype.val_injective
        · cases hnames
      refine List.Pairwise.sublist (map_key_filterMap_sublist hkey _) ?_
      have hsorted := List.pairwise_insertionSort (fun x y : String => x ≤ y)
      refine ((hsorted _).and ?_).imp fun h => lt_of_le_of_ne h.1 h.2
      exact (List.perm_insertionSort _ _).nodup_iff.mpr (hnodup.filter _)
    · intro id
      rw [find?_filterMap_key hkey]
      by_cases hid : plainName id = true
      · rw [if_pos hid]
        refine ite_eq_left_iff.mpr fun hnot => ?_
        cases hload : (loadOne ext fs problemsDir id).result.toOption with
        | none => rfl
        | some prob =>
          obtain ⟨⟨names', hn, hmem⟩, sub, hsub, hsubdir⟩ :=
            mem_dirs_of_loadOne hdir hid (toOption_eq_some.mp hload)
          cases hnames.symm.trans hn
          refine absurd ((List.mem_insertionSort _).mpr (List.mem_filter.mpr ⟨hmem, ?_⟩)) hnot
          simp only [hsub, hsubdir]
      · rw [if_neg hid, if_neg fun h => hid ?_]
        obtain ⟨name, -, rfl⟩ := List.mem_map.mp (List.mem_of_mem_filter ((List.mem_insertionSort _).mp h))
        exact name.property

/-- The problems `queue` and `heap`, and a directory that is none. -/
def twoProblems : FileTree :=
  smallTree [(⟨"queue", by decide⟩, smallProblem [] []), (⟨"notes", by decide⟩, .dir []),
    (⟨"heap", by decide⟩, smallProblem [] [])] []

theorem twoProblems_distinct : twoProblems.root.Distinct := by
  have hproblem : (smallProblem [] []).Distinct := by
    refine Node.distinct_dir (by decide) ?_
    simp only [List.mem_append, List.mem_cons, List.not_mem_nil, or_false]
    rintro e (rfl | rfl | rfl)
    · exact Node.distinct_file _
    · exact Node.distinct_file _
    · exact Node.distinct_dir (by decide) fun e he => List.mem_singleton.mp he ▸ Node.distinct_file _
  have hempty : (Node.dir []).Distinct :=
    Node.distinct_dir (by decide) fun e he => (List.not_mem_nil he).elim
  refine Node.distinct_dir (by decide) fun e he => List.mem_singleton.mp he ▸ ?_
  exact Node.distinct_dir (by decide) (List.forall_mem_cons.mpr ⟨hproblem,
    List.forall_mem_cons.mpr ⟨hempty, List.forall_mem_singleton.mpr hproblem⟩⟩)

theorem loadAll_agrees_two :
    (loadAll .titled twoProblems "problems").find? (·.id == "heap") =
      (loadOne .titled twoProblems "problems" "heap").result.toOption :=
  (loadAll_agrees .titled twoProblems "problems" (by decide) twoProblems_distinct).2 "heap"

end MikanJudge

import MikanJudge.Model.Problem

/-!
# Where a problem is loaded from

The id of a problem is joined to the problems directory as it is. If it is a
name, all that `loadOne` reads, and the scorer it returns, lies in the entry of
that name. Any other id leads out of it: loading is confined for such an id
only because there happens to be no `meta.toml` where it leads
(`confined_iff`).
-/

namespace MikanJudge

open MikanJudge.Lib

/-- A path leads into the entry of `problemsDir` with the given name. -/
def Inside (fs : FileTree) (problemsDir id p : String) : Prop :=
  ∃ base loc, fs.locate problemsDir = some base ∧ fs.resolve p = some loc ∧ base ++ [id] <+: loc

/-- Loading a problem is confined to its directory: every file read and the
scorer lie inside, and an id that names no entry is refused. -/
structure Confined (ext : Externals) (fs : FileTree) (problemsDir id : String) : Prop where
  reads : ∀ p ∈ (loadOne ext fs problemsDir id).reads, fs.read p ≠ none → Inside fs problemsDir id p
  scorer : ∀ prob scorer, (loadOne ext fs problemsDir id).result = .ok prob →
    prob.scorerPath = some scorer → Inside fs problemsDir id scorer
  refused : plainName id = false → ∃ e, (loadOne ext fs problemsDir id).result = .error e

section

variable {ext : Externals} {fs : FileTree} {problemsDir id : String}

theorem plainName_of_inside {p : String} (h : Inside fs problemsDir id p) : plainName id = true := by
  obtain ⟨base, loc, -, hp, hpre⟩ := h
  refine FileTree.locate_names (FileTree.locate_of_resolve hp) id (hpre.subset ?_)
  exact List.mem_append_right _ List.mem_cons_self

/-- What a name leads to from the problem's directory is inside. -/
theorem inside_join {name : String} {loc : List String} (hid : plainName id = true)
    (hname : plainName name = true)
    (h : fs.resolve (Path.join (Path.join problemsDir id) name) = some loc) :
    Inside fs problemsDir id (Path.join (Path.join problemsDir id) name) := by
  obtain ⟨dir, hdir, rfl⟩ := FileTree.locate_join_plain hname (FileTree.locate_of_resolve h)
  obtain ⟨base, hbase, rfl⟩ := FileTree.locate_join_plain hid hdir
  exact ⟨base, _, hbase, h, List.prefix_append _ _⟩

/-- What a name leads to from a directory in the problem's is inside. -/
theorem inside_join_join {sub name : String} {loc : List String} (hid : plainName id = true)
    (hsub : plainName sub = true) (hname : plainName name = true)
    (h : fs.resolve (Path.join (Path.join (Path.join problemsDir id) sub) name) = some loc) :
    Inside fs problemsDir id (Path.join (Path.join (Path.join problemsDir id) sub) name) := by
  obtain ⟨dir', hdir', rfl⟩ := FileTree.locate_join_plain hname (FileTree.locate_of_resolve h)
  obtain ⟨dir, hdir, rfl⟩ := FileTree.locate_join_plain hsub hdir'
  obtain ⟨base, hbase, rfl⟩ := FileTree.locate_join_plain hid hdir
  refine ⟨base, _, hbase, h, ?_⟩
  rw [List.append_assoc, List.append_assoc]
  exact (List.prefix_append_right_inj base).mpr (List.prefix_append _ _)

theorem resolve_of_read {p : String} (h : fs.read p ≠ none) : ∃ loc, fs.resolve p = some loc := by
  cases hp : fs.resolve p with
  | none => exact absurd (by rw [FileTree.read, hp]; rfl) h
  | some loc => exact ⟨loc, rfl⟩

/-- A problem whose id is a name is loaded from the entry of that name. -/
theorem confined_of_plainName (hid : plainName id = true) : Confined ext fs problemsDir id where
  reads p hp hread := by
    obtain ⟨loc, hloc⟩ := resolve_of_read hread
    rcases mem_reads_loadOne hp with rfl | rfl | ⟨name, -, rfl | rfl⟩
    · exact inside_join hid (by decide) hloc
    · exact inside_join hid (by decide) hloc
    · exact inside_join_join hid (by decide) name.property hloc
    · exact inside_join_join hid (by decide)
        (Path.plainName_withExtension name.property (by decide) (by decide)) hloc
  scorer prob scorer h hs := by
    obtain ⟨rfl, he⟩ := scorerPath_of_loadOne h hs
    obtain ⟨n, hn⟩ := Option.isSome_iff_exists.mp he
    obtain ⟨loc, hloc, -⟩ := Option.bind_eq_some_iff.mp hn
    exact inside_join hid (by decide) hloc
  refused h := by rw [hid] at h; cases h

/-- Without a `meta.toml` to read, no file is read at all. -/
theorem confined_of_unreadable
    (h : fs.read (Path.join (Path.join problemsDir id) "meta.toml") = none) :
    Confined ext fs problemsDir id where
  reads p hp hread := by
    rw [loadOne_of_unreadable h] at hp
    rw [List.mem_singleton.mp hp] at hread
    exact absurd h hread
  scorer prob scorer hprob _ := by
    rw [loadOne_of_unreadable h] at hprob
    cases hprob
  refused _ := ⟨_, by rw [loadOne_of_unreadable h]⟩

/-- Loading a problem is confined to its directory exactly if the id is a
name, or leads to no `meta.toml`. -/
theorem confined_iff (ext : Externals) (fs : FileTree) (problemsDir id : String) :
    Confined ext fs problemsDir id ↔
      plainName id = true ∨ fs.read (Path.join (Path.join problemsDir id) "meta.toml") = none := by
  constructor
  · intro h
    by_cases hread : fs.read (Path.join (Path.join problemsDir id) "meta.toml") = none
    · exact .inr hread
    · exact .inl (plainName_of_inside (h.reads _ metaPath_mem_reads_loadOne hread))
  · rintro (h | h)
    · exact confined_of_plainName h
    · exact confined_of_unreadable h

end

/-! ### A directory elsewhere -/

/-- An empty problems directory, beside a directory that looks like a problem. -/
def uploadTree : FileTree :=
  smallTree [] [(⟨"upload", by decide⟩, smallProblem [] [(⟨"scorer.py", by decide⟩, .file [])])]

/-- The id `../upload` loads a problem from beside the problems directory, with
the scorer there. -/
theorem confined_fails :
    (loadOne .titled uploadTree "problems" "../upload").result = .ok {
      id := "../upload", title := "A", timeLimitMs := 2000, memoryLimitKb := 262144, score := 100
      htmlContent := "", testcases := [⟨"", none⟩]
      scorerPath := some "problems/../upload/scorer.py" } ∧
    ¬ Confined .titled uploadTree "problems" "../upload" := by
  have h : (loadOne .titled uploadTree "problems" "../upload").result = .ok {
      id := "../upload", title := "A", timeLimitMs := 2000, memoryLimitKb := 262144, score := 100
      htmlContent := "", testcases := [⟨"", none⟩]
      scorerPath := some "problems/../upload/scorer.py" } := by rfl
  refine ⟨h, fun hc => ?_⟩
  exact absurd (plainName_of_inside (hc.scorer _ _ h rfl)) (by decide)

end MikanJudge

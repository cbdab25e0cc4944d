import MikanJudge.Model.ProblemFaults
import MikanJudge.Proof.Aggregate
import Mathlib.Data.String.Basic

/-!
# No test case is dropped

The test cases of a problem belong to the `.in` files of its `testcases`
directory (`inFiles`). A problem that loads has all of them, as their files
have them, and one with a file that cannot be read does not load (`LoadsAll`),
exactly if no such file is among those of a problem that loads
(`loadsAll_iff`): `load_testcases` leaves out a case it cannot read.
-/

namespace MikanJudge

open MikanJudge.Lib

/-! ## The files of a problem -/

def testcasesDir (problemsDir id : String) : String :=
  Path.join (Path.join problemsDir id) "testcases"

/-- The `.in` files of a directory, in the order of their names. -/
def inFiles (fs : FileTree) (dir : String) : List String :=
  ((((fs.readDir dir).getD []).map (·.val)).filter (Path.extension · == some "in")).insertionSort
    (· ≤ ·)

/-- The `.out` file beside an input file. -/
def outPath (dir inName : String) : String := Path.join dir (Path.withExtension inName "out")

/-- A test case is what its files hold. -/
structure CaseOf (fs : FileTree) (dir inName : String) (tc : Testcase) : Prop where
  input : fs.readToString (Path.join dir inName) = some tc.input
  output : fs.exists? (outPath dir inName) = true →
    tc.expected ≠ none ∧ fs.readToString (outPath dir inName) = tc.expected
  no_output : fs.exists? (outPath dir inName) = false → tc.expected = none

namespace FaultyTree

variable (t : FaultyTree)

/-- One of the files of a test case cannot be read. -/
def Unreadable (dir inName : String) : Prop :=
  t.readToString (Path.join dir inName) = none ∨
    t.toFileTree.exists? (outPath dir inName) = true ∧ t.readToString (outPath dir inName) = none

/-- A problem that loads has all test cases, and one with a file that cannot
be read does not load. -/
structure LoadsAll (ext : Externals) (problemsDir id : String) : Prop where
  complete {prob : Problem} : t.loadOne ext problemsDir id = .ok prob →
    List.Forall₂ (CaseOf t.toFileTree (testcasesDir problemsDir id))
      (inFiles t.toFileTree (testcasesDir problemsDir id)) prob.testcases
  fails : (∃ inName ∈ inFiles t.toFileTree (testcasesDir problemsDir id),
      t.Unreadable (testcasesDir problemsDir id) inName) →
    ∃ e, t.loadOne ext problemsDir id = .error e

/-- What `load_one` reads besides the test cases is fine. -/
def TextsLoad (ext : Externals) (problemsDir id : String) : Prop :=
  let dir := Path.join problemsDir id
  (∃ text problemMeta, t.readToString (Path.join dir "meta.toml") = some text ∧
    parseMeta ext text = .ok problemMeta) ∧
  ∃ md, t.readToString (Path.join dir "statement.md") = some md

/-- Reading the directory delivers an input file. -/
def Listed (dir inName : String) : Prop :=
  t.readDirFails dir = false ∧ t.entryFails dir inName = false

/-- An input file is delivered, it can be read, and so can the `.out` file
beside it, if there is one. -/
structure CaseReadable (dir inName : String) : Prop where
  listed : t.Listed dir inName
  input : t.readToString (Path.join dir inName) ≠ none
  output : t.toFileTree.exists? (outPath dir inName) = true →
    t.metadataFails (outPath dir inName) = false ∧ t.readToString (outPath dir inName) ≠ none

/-! ## What is loaded -/

theorem filter_insertionSort {α : Type*} [LinearOrder α] (p : α → Bool) (l : List α) :
    (l.filter p).insertionSort (· ≤ ·) = (l.insertionSort (· ≤ ·)).filter p := by
  have hperm : ((l.filter p).insertionSort (· ≤ ·)).Perm ((l.insertionSort (· ≤ ·)).filter p) :=
    (List.perm_insertionSort _ _).trans ((List.perm_insertionSort _ l).symm.filter p)
  exact hperm.eq_of_pairwise' (List.pairwise_insertionSort _ _)
    ((List.pairwise_insertionSort _ l).filter p)

/-- What a filtered map leaves is related to the list it comes from exactly if
it left out nothing and all are. -/
theorem forall₂_filterMap_iff {α β : Type*} {R : α → β → Prop} {f : α → Option β} {l : List α} :
    List.Forall₂ R l (l.filterMap f) ↔ ∀ a ∈ l, ∃ b, f a = some b ∧ R a b := by
  constructor
  · intro h
    have hall := List.filterMap_length_eq_length.mp h.length_eq.symm
    induction l with
    | nil => exact fun a ha => absurd ha List.not_mem_nil
    | cons a l ih =>
      obtain ⟨b, hb⟩ := Option.isSome_iff_exists.mp (hall a List.mem_cons_self)
      rw [List.filterMap_cons_some hb, List.forall₂_cons] at h
      rw [List.forall_mem_cons]
      exact ⟨⟨b, hb, h.1⟩, ih h.2 fun a ha => hall a (List.mem_cons_of_mem _ ha)⟩
  · intro h
    induction l with
    | nil => exact .nil
    | cons a l ih =>
      rw [List.forall_mem_cons] at h
      obtain ⟨⟨b, hb, hR⟩, h⟩ := h
      rw [List.filterMap_cons_some hb]
      exact .cons hR (ih h)

section

variable {t} {dir inName : String} {tc : Testcase}

instance (dir inName : String) : Decidable (t.Listed dir inName) :=
  inferInstanceAs (Decidable (_ ∧ _))

/-- The test case of an input file, if there is one. -/
def loaded (t : FaultyTree) (dir inName : String) : Option Testcase :=
  if t.Listed dir inName then t.loadTestcase dir inName else none

theorem readToString_eq_some {p s : String} (h : t.readToString p = some s) :
    t.toFileTree.readToString p = some s := by
  rw [readToString] at h
  split_ifs at h
  exact h

theorem exists?_iff {p : String} :
    t.exists? p = true ↔ t.metadataFails p = false ∧ t.toFileTree.exists? p = true := by
  rw [exists?, Bool.and_eq_true, Bool.not_eq_true']

theorem loadTestcase_eq_some_iff :
    t.loadTestcase dir inName = some tc ↔
      t.readToString (Path.join dir inName) = some tc.input ∧
        tc.expected = if t.exists? (outPath dir inName) then t.readToString (outPath dir inName)
          else none := by
  rw [loadTestcase, Option.map_eq_some_iff]
  constructor
  · rintro ⟨input, h, rfl⟩
    exact ⟨h, rfl⟩
  · rintro ⟨h, he⟩
    exact ⟨tc.input, h, by rw [← outPath, ← he]⟩

theorem loaded_eq_some_iff :
    t.loaded dir inName = some tc ↔
      t.Listed dir inName ∧ t.loadTestcase dir inName = some tc := by
  rw [loaded]
  split_ifs with h
  · rw [and_iff_right h]
  · exact iff_of_false (fun e => nomatch e) fun e => h e.1

/-- What reading a directory delivers of its entries. -/
theorem filterMap_id_readDir (names : List Name) :
    (names.map fun name => if t.entryFails dir name.val then none else some name.val).filterMap id =
      (names.map (·.val)).filter (!t.entryFails dir ·) := by
  induction names with
  | nil => rfl
  | cons name names ih =>
    rw [List.map_cons, List.map_cons]
    cases h : t.entryFails dir name.val with
    | true => rw [List.filter_cons_of_neg (by simp [h]), ← ih]; rfl
    | false => rw [List.filter_cons_of_pos (by simp [h]), ← ih]; rfl

/-- The test cases loaded are those of the input files that have one. -/
theorem loadTestcases_eq :
    t.loadTestcases dir = .ok ((inFiles t.toFileTree dir).filterMap (t.loaded dir)) := by
  rw [loadTestcases, readDir]
  by_cases hdir : t.readDirFails dir = true
  · have hnone : t.loaded dir = fun _ => none := funext fun name =>
      if_neg fun hl => by rw [hl.1] at hdir; cases hdir
    rw [if_pos hdir, hnone, List.filterMap_none]
  · rw [if_neg hdir, inFiles]
    rw [Bool.not_eq_true] at hdir
    cases t.toFileTree.readDir dir with
    | none => rfl
    | some names =>
      have hload : t.loaded dir =
          fun name => if !t.entryFails dir name then t.loadTestcase dir name else none := by
        funext name
        simp only [loaded, Listed, hdir, true_and, Bool.not_eq_true']
      dsimp only [Option.map_some, Option.getD_some]
      rw [filterMap_id_readDir, List.filter_comm, filter_insertionSort, List.filterMap_filter, hload]

variable {ext : Externals} {problemsDir id : String} {prob : Problem}

theorem loadOne_eq_ok (h : t.loadOne ext problemsDir id = .ok prob) :
    t.TextsLoad ext problemsDir id ∧ prob.testcases ≠ [] ∧
      prob.testcases =
        (inFiles t.toFileTree (testcasesDir problemsDir id)).filterMap
          (t.loaded (testcasesDir problemsDir id)) := by
  simp only [loadOne, loadTestcases_eq] at h
  split at h
  · cases h
  · rename_i text htext
    split at h
    · cases h
    · rename_i problemMeta hmeta
      split at h
      · cases h
      · rename_i md hmd
        split at h
        · cases h
        · cases h
        · rename_i tc tcs htcs
          cases h
          exact ⟨⟨⟨text, problemMeta, htext, hmeta⟩, md, hmd⟩, List.cons_ne_nil _ _,
            (Except.ok.inj htcs).symm⟩

theorem isSome_loaded_iff :
    (t.loaded dir inName).isSome = true ↔
      t.Listed dir inName ∧ t.readToString (Path.join dir inName) ≠ none := by
  rw [loaded]
  split_ifs with h
  · rw [loadTestcase, Option.isSome_map, Option.isSome_iff_ne_none, and_iff_right h]
  · exact iff_of_false Bool.false_ne_true fun e => h e.1

/-- A problem loads exactly if its texts do and an input file can be read. -/
theorem exists_loadOne_iff :
    (∃ prob, t.loadOne ext problemsDir id = .ok prob) ↔
      t.TextsLoad ext problemsDir id ∧
        ∃ inName ∈ inFiles t.toFileTree (testcasesDir problemsDir id),
          t.Listed (testcasesDir problemsDir id) inName ∧
            t.readToString (Path.join (testcasesDir problemsDir id) inName) ≠ none := by
  simp only [← isSome_loaded_iff]
  constructor
  · rintro ⟨prob, h⟩
    obtain ⟨htexts, hne, e⟩ := loadOne_eq_ok h
    obtain ⟨tc, htc⟩ := List.exists_mem_of_ne_nil _ hne
    rw [e] at htc
    obtain ⟨inName, hmem, hloaded⟩ := List.mem_filterMap.mp htc
    exact ⟨htexts, inName, hmem, Option.isSome_iff_exists.mpr ⟨tc, hloaded⟩⟩
  · rintro ⟨⟨⟨text, problemMeta, htext, hmeta⟩, md, hmd⟩, inName, hmem, hsome⟩
    obtain ⟨tc, hloaded⟩ := Option.isSome_iff_exists.mp hsome
    obtain ⟨tc, tcs, e⟩ := List.exists_cons_of_ne_nil
      (List.ne_nil_of_mem (List.mem_filterMap.mpr ⟨inName, hmem, hloaded⟩))
    simp only [testcasesDir] at e
    simp only [loadOne, loadTestcases_eq, htext, hmeta, hmd, e]
    exact ⟨_, rfl⟩

/-- A case that can be read is loaded as its files have it, and conversely. -/
theorem caseReadable_iff :
    t.CaseReadable dir inName ↔
      (∃ tc, t.loaded dir inName = some tc ∧ CaseOf t.toFileTree dir inName tc) ∧
        ¬ t.Unreadable dir inName := by
  constructor
  · rintro ⟨hlisted, hin, hout⟩
    obtain ⟨input, hin⟩ := Option.ne_none_iff_exists'.mp hin
    let tc : Testcase :=
      { input := input
        expected := if t.exists? (outPath dir inName) then t.readToString (outPath dir inName)
          else none }
    have hloaded : t.loaded dir inName = some tc :=
      loaded_eq_some_iff.mpr ⟨hlisted, loadTestcase_eq_some_iff.mpr ⟨hin, rfl⟩⟩
    have hexpected : t.toFileTree.exists? (outPath dir inName) = true →
        tc.expected = t.readToString (outPath dir inName) := fun h =>
      if_pos (exists?_iff.mpr ⟨(hout h).1, h⟩)
    refine ⟨⟨tc, hloaded, readToString_eq_some hin, fun h => ?_, fun h => if_neg fun he => ?_⟩, ?_⟩
    · obtain ⟨s, hs⟩ := Option.ne_none_iff_exists'.mp (hout h).2
      rw [hexpected h, hs]
      exact ⟨Option.some_ne_none s, readToString_eq_some hs⟩
    · rw [(exists?_iff.mp he).2] at h
      cases h
    · rintro (h | ⟨h, hnone⟩)
      · rw [hin] at h
        cases h
      · exact (hout h).2 hnone
  · rintro ⟨⟨tc, htc, hcase⟩, hread⟩
    obtain ⟨hlisted, htc⟩ := loaded_eq_some_iff.mp htc
    obtain ⟨hin, hexpected⟩ := loadTestcase_eq_some_iff.mp htc
    refine ⟨hlisted, by rw [hin]; exact Option.some_ne_none _, fun h => ?_⟩
    have hne := (hcase.output h).1
    rw [hexpected] at hne
    split_ifs at hne with he
    · exact ⟨(exists?_iff.mp he).1, hne⟩
    · exact absurd rfl hne

end

/-! ## Which problems load all their cases -/

/-- A problem loads all its test cases exactly if it does not load, or no file
of a test case is among what cannot be read. -/
theorem loadsAll_iff_readable (t : FaultyTree) (ext : Externals) (problemsDir id : String) :
    t.LoadsAll ext problemsDir id ↔
      (t.TextsLoad ext problemsDir id →
        (∃ inName ∈ inFiles t.toFileTree (testcasesDir problemsDir id),
          t.Listed (testcasesDir problemsDir id) inName ∧
            t.readToString (Path.join (testcasesDir problemsDir id) inName) ≠ none) →
        ∀ inName ∈ inFiles t.toFileTree (testcasesDir problemsDir id),
          t.CaseReadable (testcasesDir problemsDir id) inName) := by
  rw [← and_imp, ← exists_loadOne_iff]
  constructor
  · rintro h ⟨prob, hprob⟩ inName hmem
    have hall := h.complete hprob
    rw [(loadOne_eq_ok hprob).2.2, forall₂_filterMap_iff] at hall
    refine caseReadable_iff.mpr ⟨hall inName hmem, fun hread => ?_⟩
    obtain ⟨e, he⟩ := h.fails ⟨inName, hmem, hread⟩
    cases hprob.symm.trans he
  · refine fun h => ⟨fun {prob} hprob => ?_, fun ⟨inName, hmem, hread⟩ => ?_⟩
    · rw [(loadOne_eq_ok hprob).2.2, forall₂_filterMap_iff]
      exact fun inName hmem => (caseReadable_iff.mp (h ⟨prob, hprob⟩ inName hmem)).1
    · cases hprob : t.loadOne ext problemsDir id with
      | error e => exact ⟨e, rfl⟩
      | ok prob => exact absurd hread (caseReadable_iff.mp (h ⟨prob, hprob⟩ inName hmem)).2

/-- An `Accepted` of a job with the test cases of a problem comes with an
entry that passes for every input file. -/
def Covers (t : FaultyTree) (ext : Externals) (problemsDir id : String) : Prop :=
  ∀ {prob : Problem} {job : JudgeJob} {env : JudgeEnv} {time memory : Option Nat}
    {stdout stderr : Option String} {entries : List TestcaseVerdict} {score : Option F64},
    t.loadOne ext problemsDir id = .ok prob →
    job.testcases = prob.testcases.map (fun tc => (tc.input, tc.expected)) →
    (judgeFinal ext job env).val =
      .result .accepted time memory stdout stderr (some entries) score →
    entries.length = (inFiles t.toFileTree (testcasesDir problemsDir id)).length ∧
      ∀ v ∈ entries, v.Passed

theorem LoadsAll.covers {t : FaultyTree} {ext : Externals} {problemsDir id : String}
    (h : t.LoadsAll ext problemsDir id) : t.Covers ext problemsDir id := by
  intro prob job env time memory stdout stderr entries score hprob htestcases hfinal
  obtain ⟨compiled, results, hjudged⟩ := judgedWith_of_results hfinal
  have hagg := hjudged.aggregates hfinal
  refine ⟨?_, (hjudged.passed_iff hfinal).mp rfl⟩
  rw [hagg.entries, List.length_map, length_outcomes, htestcases, List.length_map,
    (h.complete hprob).length_eq]

/-- A problem loads all its test cases, and an `Accepted` then covers them,
exactly if it does not load or no file of a test case is unreadable. -/
theorem loadsAll_iff (t : FaultyTree) (ext : Externals) (problemsDir id : String) :
    (t.LoadsAll ext problemsDir id ∧ t.Covers ext problemsDir id) ↔
      (t.TextsLoad ext problemsDir id →
        (∃ inName ∈ inFiles t.toFileTree (testcasesDir problemsDir id),
          t.Listed (testcasesDir problemsDir id) inName ∧
            t.readToString (Path.join (testcasesDir problemsDir id) inName) ≠ none) →
        ∀ inName ∈ inFiles t.toFileTree (testcasesDir problemsDir id),
          t.CaseReadable (testcasesDir problemsDir id) inName) := by
  rw [← loadsAll_iff_readable]
  exact and_iff_left_of_imp LoadsAll.covers

/-! ### A file that is not UTF-8 -/

theorem plainName_a : plainName "a" = true := by decide

/-- The tree with the problem `a`, and what is beside its input file. -/
def caseTree (beside : List (Name × Node)) : FileTree :=
  smallTree [(⟨"a", plainName_a⟩, smallProblem beside [])] []

/-- A problem with two inputs, of which the second is the byte `0xFF`. -/
def latinTree : FileTree := caseTree [(⟨"2.in", by decide⟩, .file [255])]

/-- It loads with its first test case only. -/
theorem loadsAll_iff_fails : ¬ (faultless latinTree).LoadsAll .titled "problems" "a" := by
  intro h
  have hload : ∃ prob, (faultless latinTree).loadOne .titled "problems" "a" = .ok prob :=
    exists_loadOne_iff.mpr ⟨⟨⟨"title = \"A\"", ⟨"A", 2000, 262144, 100⟩, by decide, by decide⟩,
      "", by decide⟩, "1.in", by decide, by decide, by decide⟩
  obtain ⟨prob, hprob⟩ := hload
  obtain ⟨e, he⟩ := h.fails ⟨"2.in", by decide, .inl (by decide)⟩
  cases hprob.symm.trans he

end FaultyTree

end MikanJudge

import MikanJudge.Lib.FileTree
import MikanJudge.Model.Externals
import Mathlib.Data.List.Sort

/-!
# Loading problems (`problem.rs`)

A problem is a directory with a `meta.toml`, a `statement.md`, test cases and,
for heuristic judging, a `scorer.py`. `loadOne` also tells which files it asked
for (`Loaded.reads`). File names are valid Unicode.
-/

namespace MikanJudge

open MikanJudge.Lib

structure ProblemMeta where
  title : String
  timeLimitMs : Nat
  memoryLimitKb : Nat
  score : Nat
  deriving DecidableEq

def defaultTimeLimit : Nat := 2000

def defaultMemoryLimit : Nat := 262144

def defaultScore : Nat := 100

structure Testcase where
  input : String
  expected : Option String
  deriving DecidableEq

structure Problem where
  id : String
  title : String
  timeLimitMs : Nat
  memoryLimitKb : Nat
  score : Nat
  htmlContent : String
  testcases : List Testcase
  /-- The `scorer.py` of the problem's directory. -/
  scorerPath : Option String
  deriving DecidableEq

/-- What an attempt to load something comes to, and the files it asked for. -/
structure Loaded (α : Type) where
  reads : List String
  result : Except String α

/-- `toml::from_str` of a `meta.toml`: what it leaves out has a default. -/
def parseMeta (ext : Externals) (s : String) : Except String ProblemMeta :=
  match ext.parseToml s with
  | none => .error "TOML parse error"
  | some t => .ok {
      title := t.title
      timeLimitMs := t.timeLimitMs.getD defaultTimeLimit
      memoryLimitKb := t.memoryLimitKb.getD defaultMemoryLimit
      score := t.score.getD defaultScore }

/-- The test case of an input file, unless that cannot be read. -/
def loadTestcase (fs : FileTree) (dir inName : String) : Loaded Testcase :=
  let inPath := Path.join dir inName
  let outPath := Path.join dir (Path.withExtension inName "out")
  match fs.readToString inPath with
  | none => { reads := [inPath], result := .error "read error" }
  | some input =>
    if fs.exists? outPath then
      { reads := [inPath, outPath], result := .ok ⟨input, fs.readToString outPath⟩ }
    else { reads := [inPath], result := .ok ⟨input, none⟩ }

def loadTestcases (fs : FileTree) (dir : String) : Loaded (List Testcase) :=
  match fs.readDir dir with
  | none => { reads := [], result := .ok [] }
  | some entries =>
    let inFiles := ((entries.map (·.val)).filter (Path.extension · == some "in")).insertionSort (· ≤ ·)
    let loaded := inFiles.map (loadTestcase fs dir)
    { reads := loaded.flatMap (·.reads), result := .ok (loaded.filterMap (·.result.toOption)) }

def loadOne (ext : Externals) (fs : FileTree) (problemsDir id : String) : Loaded Problem :=
  let dir := Path.join problemsDir id
  let metaPath := Path.join dir "meta.toml"
  match fs.readToString metaPath with
  | none => { reads := [metaPath], result := .error "read error" }
  | some text =>
    match parseMeta ext text with
    | .error e => { reads := [metaPath], result := .error e }
    | .ok problemMeta =>
      let statementPath := Path.join dir "statement.md"
      match fs.readToString statementPath with
      | none => { reads := [metaPath, statementPath], result := .error "read error" }
      | some md =>
        let testcases := loadTestcases fs (Path.join dir "testcases")
        let reads := metaPath :: statementPath :: testcases.reads
        match testcases.result with
        | .error e => { reads := reads, result := .error e }
        | .ok [] => { reads := reads, result := .error ("problem '" ++ id ++ "' has no test cases") }
        | .ok (tc :: tcs) =>
          let scorer := Path.join dir "scorer.py"
          { reads := reads
            result := .ok {
              id := id
              title := problemMeta.title
              timeLimitMs := problemMeta.timeLimitMs
              memoryLimitKb := problemMeta.memoryLimitKb
              score := problemMeta.score
              htmlContent := ext.markdownToHtml md
              testcases := tc :: tcs
              scorerPath := if fs.exists? scorer then some scorer else none } }

/-- The problems in a directory, in the order of their names; those that do
not load are left out. -/
def loadAll (ext : Externals) (fs : FileTree) (problemsDir : String) : List Problem :=
  match fs.readDir problemsDir with
  | none => []
  | some entries =>
    let dirs := (entries.map (·.val)).filter fun name =>
      match fs.resolve (Path.join problemsDir name) with
      | some loc => fs.dirAt loc
      | none => false
    (dirs.insertionSort (· ≤ ·)).filterMap fun id =>
      (loadOne ext fs problemsDir id).result.toOption

/-! ## What is loaded -/

section

variable {ext : Externals} {fs : FileTree} {problemsDir id : String}

/-- The only scorer is the one in the problem's directory. -/
theorem scorerPath_of_loadOne {prob : Problem} {scorer : String}
    (h : (loadOne ext fs problemsDir id).result = .ok prob) (hs : prob.scorerPath = some scorer) :
    scorer = Path.join (Path.join problemsDir id) "scorer.py" ∧ fs.exists? scorer = true := by
  unfold loadOne at h
  dsimp only at h
  split at h
  · cases h
  · split at h
    · cases h
    · split at h
      · cases h
      · split at h <;> cases h
        dsimp only at hs
        split_ifs at hs with he
        cases hs
        exact ⟨rfl, he⟩

theorem mem_reads_loadTestcase {dir inName p : String}
    (h : p ∈ (loadTestcase fs dir inName).reads) :
    p = Path.join dir inName ∨ p = Path.join dir (Path.withExtension inName "out") := by
  unfold loadTestcase at h
  dsimp only at h
  split at h
  · exact .inl (List.mem_singleton.mp h)
  · split_ifs at h
    · simpa using h
    · exact .inl (List.mem_singleton.mp h)

/-- The files asked for are the problem's two texts and its test cases. -/
theorem mem_reads_loadOne {p : String} (h : p ∈ (loadOne ext fs problemsDir id).reads) :
    p = Path.join (Path.join problemsDir id) "meta.toml" ∨
    p = Path.join (Path.join problemsDir id) "statement.md" ∨
    ∃ name : Lib.Name, Path.extension name.val = some "in" ∧
      (p = Path.join (Path.join (Path.join problemsDir id) "testcases") name.val ∨
        p = Path.join (Path.join (Path.join problemsDir id) "testcases")
          (Path.withExtension name.val "out")) := by
  have htc : ∀ {dir : String}, p ∈ (loadTestcases fs dir).reads →
      ∃ name : Lib.Name, Path.extension name.val = some "in" ∧
        (p = Path.join dir name.val ∨ p = Path.join dir (Path.withExtension name.val "out")) := by
    intro dir hp
    unfold loadTestcases at hp
    split at hp
    · cases hp
    · simp only [List.mem_flatMap, List.mem_map, List.mem_insertionSort, List.mem_filter,
        beq_iff_eq] at hp
      obtain ⟨-, ⟨n, ⟨⟨name, -, rfl⟩, hext⟩, rfl⟩, hp⟩ := hp
      exact ⟨name, hext, mem_reads_loadTestcase hp⟩
  unfold loadOne at h
  dsimp only at h
  split at h
  · exact .inl (List.mem_singleton.mp h)
  · split at h
    · exact .inl (List.mem_singleton.mp h)
    · split at h
      · simp only [List.mem_cons, List.not_mem_nil, or_false] at h
        exact h.imp_right .inl
      · have h' : p ∈ Path.join (Path.join problemsDir id) "meta.toml" ::
            Path.join (Path.join problemsDir id) "statement.md" ::
            (loadTestcases fs (Path.join (Path.join problemsDir id) "testcases")).reads := by
          split at h <;> exact h
        rcases List.mem_cons.mp h' with rfl | h'
        · exact .inl rfl
        · rcases List.mem_cons.mp h' with rfl | h'
          · exact .inr (.inl rfl)
          · exact .inr (.inr (htc h'))

/-- The first file asked for is `meta.toml`; without it there is nothing more. -/
theorem metaPath_mem_reads_loadOne :
    Path.join (Path.join problemsDir id) "meta.toml" ∈ (loadOne ext fs problemsDir id).reads := by
  unfold loadOne
  dsimp only
  split
  · exact List.mem_cons_self
  · split
    · exact List.mem_cons_self
    · split
      · exact List.mem_cons_self
      · split <;> exact List.mem_cons_self

theorem loadOne_of_unreadable
    (h : fs.read (Path.join (Path.join problemsDir id) "meta.toml") = none) :
    loadOne ext fs problemsDir id =
      { reads := [Path.join (Path.join problemsDir id) "meta.toml"], result := .error "read error" } := by
  have : fs.readToString (Path.join (Path.join problemsDir id) "meta.toml") = none := by
    rw [FileTree.readToString, h]; rfl
  unfold loadOne
  simp only [this]

end

/-! ### A small problem -/

/-- The directory of a problem titled `A`, with the input `1.in` and what else
there is among the test cases and beside them. -/
def smallProblem (testcases files : List (Name × Node)) : Node :=
  .dir ([
    (⟨"meta.toml", by decide⟩, .file [116, 105, 116, 108, 101, 32, 61, 32, 34, 65, 34]),
    (⟨"statement.md", by decide⟩, .file []),
    (⟨"testcases", by decide⟩, .dir ((⟨"1.in", by decide⟩, .file []) :: testcases))] ++ files)

/-- A tree with a problems directory, and what is beside it. -/
def smallTree (problems beside : List (Name × Node)) : FileTree where
  root := .dir ((⟨"problems", by decide⟩, .dir problems) :: beside)
  cwd := []

end MikanJudge

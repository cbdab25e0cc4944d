import MikanJudge.Model.Problem

/-!
# Loading problems when calls fail

`problem.rs` on a file tree some of whose calls fail (`FaultyTree`): a call
may fail whatever the tree holds, for want of a permission or by an I/O error.
Without such failures it loads what `Model/Problem.lean` does
(`loadOne_faultless`).
-/

namespace MikanJudge

open MikanJudge.Lib

structure FaultyTree extends FileTree where
  readDirFails : String → Bool
  /-- An entry of a directory that reading the directory does not deliver. -/
  entryFails (dir name : String) : Bool
  readFails : String → Bool
  metadataFails : String → Bool

namespace FaultyTree

variable (t : FaultyTree)

/-- `std::fs::read_dir`, with an error in place of an entry that fails. -/
def readDir (p : String) : Option (List (Option String)) :=
  if t.readDirFails p then none
  else (t.toFileTree.readDir p).map fun names =>
    names.map fun name => if t.entryFails p name.val then none else some name.val

def readToString (p : String) : Option String :=
  if t.readFails p then none else t.toFileTree.readToString p

/-- `Path::exists`: `false` when the metadata cannot be had. -/
def exists? (p : String) : Bool := !t.metadataFails p && t.toFileTree.exists? p

/-- The test case of an input file, unless that cannot be read. -/
def loadTestcase (dir inName : String) : Option Testcase :=
  let outPath := Path.join dir (Path.withExtension inName "out")
  (t.readToString (Path.join dir inName)).map fun input =>
    { input := input
      expected := if t.exists? outPath then t.readToString outPath else none }

def loadTestcases (dir : String) : Except String (List Testcase) :=
  match t.readDir dir with
  | none => .ok []
  | some entries =>
    let inFiles :=
      ((entries.filterMap id).filter (Path.extension · == some "in")).insertionSort (· ≤ ·)
    .ok (inFiles.filterMap (t.loadTestcase dir))

def loadOne (ext : Externals) (problemsDir id : String) : Except String Problem :=
  let dir := Path.join problemsDir id
  match t.readToString (Path.join dir "meta.toml") with
  | none => .error "read error"
  | some text =>
    match parseMeta ext text with
    | .error e => .error e
    | .ok problemMeta =>
      match t.readToString (Path.join dir "statement.md") with
      | none => .error "read error"
      | some md =>
        match t.loadTestcases (Path.join dir "testcases") with
        | .error e => .error e
        | .ok [] => .error ("problem '" ++ id ++ "' has no test cases")
        | .ok (tc :: tcs) =>
          let scorer := Path.join dir "scorer.py"
          .ok {
            id := id
            title := problemMeta.title
            timeLimitMs := problemMeta.timeLimitMs
            memoryLimitKb := problemMeta.memoryLimitKb
            score := problemMeta.score
            htmlContent := ext.markdownToHtml md
            testcases := tc :: tcs
            scorerPath := if t.exists? scorer then some scorer else none }

/-! ## Without failures -/

/-- The tree none of whose calls fails for another reason than what it holds. -/
def faultless (fs : FileTree) : FaultyTree where
  toFileTree := fs
  readDirFails _ := false
  entryFails _ _ := false
  readFails _ := false
  metadataFails _ := false

section

variable (fs : FileTree)

@[simp] theorem readToString_faultless (p : String) :
    (faultless fs).readToString p = fs.readToString p := rfl

@[simp] theorem exists?_faultless (p : String) : (faultless fs).exists? p = fs.exists? p :=
  Bool.true_and _

theorem loadTestcase_faultless (dir inName : String) :
    (faultless fs).loadTestcase dir inName =
      (MikanJudge.loadTestcase fs dir inName).result.toOption := by
  unfold loadTestcase MikanJudge.loadTestcase
  simp only [readToString_faultless, exists?_faultless]
  cases fs.readToString (Path.join dir inName) with
  | none => rfl
  | some input =>
    rw [Option.map_some]
    dsimp only
    split_ifs <;> rfl

theorem loadTestcases_faultless (dir : String) :
    (faultless fs).loadTestcases dir = (MikanJudge.loadTestcases fs dir).result := by
  have hdir : (faultless fs).readDir dir =
      (fs.readDir dir).map fun names => names.map fun name => some name.val := rfl
  have hload : (faultless fs).loadTestcase dir =
      (·.result.toOption) ∘ MikanJudge.loadTestcase fs dir :=
    funext fun name => loadTestcase_faultless fs dir name
  rw [loadTestcases, MikanJudge.loadTestcases, hdir]
  cases fs.readDir dir with
  | none => rfl
  | some names =>
    simp only [Option.map_some, List.filterMap_map, hload]
    rw [show (fun name : Name => some name.val) = some ∘ (·.val) from rfl, ← Function.comp_assoc,
      Function.id_comp, List.filterMap_eq_map]

/-- Without failures, the same problems load. -/
theorem loadOne_faultless (ext : Externals) (problemsDir id : String) :
    (faultless fs).loadOne ext problemsDir id =
      (MikanJudge.loadOne ext fs problemsDir id).result := by
  unfold loadOne MikanJudge.loadOne
  simp only [readToString_faultless, exists?_faultless, loadTestcases_faultless]
  cases fs.readToString (Path.join (Path.join problemsDir id) "meta.toml") with
  | none => rfl
  | some text =>
    dsimp only
    cases parseMeta ext text with
    | error e => rfl
    | ok problemMeta =>
      dsimp only
      cases fs.readToString (Path.join (Path.join problemsDir id) "statement.md") with
      | none => rfl
      | some md =>
        dsimp only
        cases (MikanJudge.loadTestcases fs (Path.join (Path.join problemsDir id) "testcases")).result with
        | error e => rfl
        | ok tcs => cases tcs <;> rfl

end

end FaultyTree

end MikanJudge

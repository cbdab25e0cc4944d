import MikanJudge.Lib.FileTree

/-!
# Other contents for a file

`FileTree.write` replaces the contents of the file at a location and leaves
everything else: the same paths lead to the same locations, the directories
have the same names, and only the paths that lead to this file read something
else.
-/

namespace MikanJudge.Lib

/-- The tree with other contents in the file at a location, if there is one. -/
def Node.write (bytes : List UInt8) : List String → Node → Node
  | [], .file _ => .file bytes
  | [], .dir entries => .dir entries
  | _ :: _, .file old => .file old
  | c :: cs, .dir entries =>
    .dir (entries.map fun e => if e.1.val = c then (e.1, write bytes cs e.2) else e)

def FileTree.write (fs : FileTree) (loc : List String) (bytes : List UInt8) : FileTree :=
  { fs with root := fs.root.write bytes loc }

namespace Node

variable {bytes : List UInt8}

theorem child_write (n : Node) (c d : String) (cs : List String) :
    (n.write bytes (c :: cs)).child d =
      (n.child d).map fun m => if d = c then m.write bytes cs else m := by
  cases n with
  | file old => rfl
  | dir entries =>
    simp only [write, child, List.find?_map, Option.map_map]
    have hname : ((fun e : Name × Node => e.1.val == d) ∘
        fun e => if e.1.val = c then (e.1, write bytes cs e.2) else e) =
        fun e => e.1.val == d := by
      funext e
      simp only [Function.comp]
      split_ifs <;> rfl
    rw [hname]
    cases he : entries.find? fun e => e.1.val == d with
    | none => rfl
    | some e =>
      have hd := List.find?_some he
      rw [beq_iff_eq] at hd
      simp only [Option.map_some, Function.comp, hd]
      split_ifs <;> rfl

/-- What a location leads to, in the tree with other contents. -/
theorem descend_write (n : Node) (loc loc' : List String) :
    (n.write bytes loc).descend loc' = (n.descend loc').map fun m =>
      if loc' <+: loc then m.write bytes (loc.drop loc'.length) else m := by
  induction loc' generalizing n loc with
  | nil => simp [descend]
  | cons d ds ih =>
    cases loc with
    | nil => cases n <;> simp [write, descend, child]
    | cons c cs =>
      rw [descend, descend, child_write, Option.bind_map, Option.map_bind]
      congr 1
      funext m
      by_cases hd : d = c
      · simp [hd, ih, List.cons_prefix_cons]
      · simp [hd, List.cons_prefix_cons]

theorem isSome_write (n : Node) (loc loc' : List String) :
    ((n.write bytes loc).descend loc').isSome = (n.descend loc').isSome := by
  rw [descend_write, Option.isSome_map]

end Node

namespace FileTree

variable {fs : FileTree} {loc : List String} {bytes : List UInt8}

theorem dirAt_write (loc' : List String) : (fs.write loc bytes).dirAt loc' = fs.dirAt loc' := by
  rw [dirAt, dirAt, write, Node.descend_write]
  cases h : fs.root.descend loc' with
  | none => rfl
  | some n =>
    rw [Option.map_some]
    split_ifs
    · cases n <;> cases loc.drop loc'.length <;> rfl
    · rfl

theorem walk_write (start cs : List String) :
    (fs.write loc bytes).walk start cs = fs.walk start cs := by
  induction cs generalizing start with
  | nil => rfl
  | cons c cs ih =>
    have hs : (((fs.write loc bytes).root.descend (start ++ [c])).isSome) =
        (fs.root.descend (start ++ [c])).isSome := Node.isSome_write _ _ _
    simp only [walk, dirAt_write, hs, ih]

@[simp] theorem resolve_write (p : String) : (fs.write loc bytes).resolve p = fs.resolve p := by
  rw [resolve, resolve, locate, locate, walk_write]
  rfl

@[simp] theorem exists?_write (p : String) : (fs.write loc bytes).exists? p = fs.exists? p := by
  rw [exists?, exists?, resolve_write]
  cases fs.resolve p with
  | none => rfl
  | some loc' => exact Node.isSome_write _ _ _

@[simp] theorem readDir_write (p : String) : (fs.write loc bytes).readDir p = fs.readDir p := by
  rw [readDir, readDir, resolve_write]
  cases fs.resolve p with
  | none => rfl
  | some loc' =>
    rw [Option.bind_some, Option.bind_some, write, Node.descend_write]
    cases h : fs.root.descend loc' with
    | none => rfl
    | some n =>
      rw [Option.map_some]
      split_ifs
      · cases n with
        | file old => cases loc.drop loc'.length <;> rfl
        | dir entries =>
          cases loc.drop loc'.length with
          | nil => rfl
          | cons c cs =>
            simp only [Node.write, List.map_map]
            congr 2
            funext e
            simp only [Function.comp]
            split_ifs <;> rfl
      · rfl

theorem fileAt_write_self (h : (fs.fileAt loc).isSome = true) :
    (fs.write loc bytes).fileAt loc = some bytes := by
  rw [fileAt] at h ⊢
  rw [write, Node.descend_write]
  cases hn : fs.root.descend loc with
  | none => rw [hn] at h; cases h
  | some n =>
    cases n with
    | dir entries => rw [hn] at h; cases h
    | file old => simp [Node.write]

theorem fileAt_write_of_ne {loc' : List String} (h : loc' ≠ loc) :
    (fs.write loc bytes).fileAt loc' = fs.fileAt loc' := by
  rw [fileAt, fileAt, write, Node.descend_write]
  cases hn : fs.root.descend loc' with
  | none => rfl
  | some n =>
    rw [Option.map_some]
    split_ifs with hp
    · cases hd : loc.drop loc'.length with
      | nil =>
        -- a prefix as long as the location itself
        have hlen := List.drop_eq_nil_iff.mp hd
        exact absurd (hp.eq_of_length_le hlen) h
      | cons c cs => cases n <;> rfl
    · rfl

/-- Only the paths that lead to the file read something else. -/
theorem readToString_write_of_ne {p : String} (h : fs.resolve p ≠ some loc) :
    (fs.write loc bytes).readToString p = fs.readToString p := by
  rw [readToString, readToString, read, read, resolve_write]
  cases hp : fs.resolve p with
  | none => rfl
  | some loc' =>
    rw [Option.bind_some, Option.bind_some, fileAt_write_of_ne fun e => h (hp.trans (congrArg _ e))]

theorem readToString_write_self {p : String} (h : fs.resolve p = some loc)
    (hf : (fs.fileAt loc).isSome = true) :
    (fs.write loc bytes).readToString p = (Utf8.decodeStrict bytes).map String.ofList := by
  rw [readToString, read, resolve_write, h, Option.bind_some, fileAt_write_self hf, Option.bind_some]

end FileTree

end MikanJudge.Lib

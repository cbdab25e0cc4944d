import MikanJudge.Lib.Utf8
import Mathlib.Data.List.Basic

/-!
# File trees and paths

A file tree is a tree of named files and directories (`Node`) with a current
directory. A path is a string, as the operating system takes it: `locate`
walks its components, where `..` leads to the parent and a leading `/` to the
root. `join` is what appending to a path does in the standard library: an
absolute second part replaces the first.

Symbolic links are left out: a component leads to the child it names.
-/

namespace MikanJudge.Lib

/-- What a directory entry may be called. -/
def plainName (s : String) : Bool :=
  s != "" && s != "." && s != ".." && !s.toList.contains '/' && !s.toList.contains '\x00'

abbrev Name := { s : String // plainName s = true }

inductive Node where
  | file (bytes : List UInt8)
  | dir (entries : List (Name × Node))

namespace Node

def child : Node → String → Option Node
  | .file _, _ => none
  | .dir entries, c => (entries.find? fun e => e.1.val == c).map (·.2)

def descend : Node → List String → Option Node
  | n, [] => some n
  | n, c :: cs => (n.child c).bind (·.descend cs)

end Node

structure FileTree where
  root : Node
  /-- The current directory, from the root. -/
  cwd : List Name

namespace Path

def isAbsolute (p : String) : Bool := p.toList.head? == some '/'

/-- `a.join(b)`. -/
def join (a b : String) : String :=
  if isAbsolute b then b
  else if a = "" ∨ a.toList.getLast? = some '/' then a ++ b
  else a ++ "/" ++ b

/-- The parts of a path between its slashes. -/
def components (p : String) : List String := (p.toList.splitOn '/').map String.ofList

/-- The extension of a file name: what follows its last dot, unless that is
its first character. -/
def extension (name : String) : Option String :=
  match name.toList.reverse.span (· != '.') with
  | (ext, _ :: stem) => if stem = [] then none else some (String.ofList ext.reverse)
  | (_, []) => none

/-- A file name with its extension replaced. -/
def withExtension (name ext : String) : String :=
  match extension name with
  | some e => String.ofList (name.toList.take (name.toList.length - e.toList.length)) ++ ext
  | none => name ++ "." ++ ext

theorem components_ne_nil (p : String) : components p ≠ [] := by
  simp [components]

/-- A path without a slash is its own single component. -/
theorem components_of_plain {p : String} (h : plainName p = true) : components p = [p] := by
  simp only [plainName, Bool.and_eq_true, Bool.not_eq_true', List.contains_eq_mem,
    decide_eq_false_iff_not] at h
  rw [components, List.splitOn_eq_splitOnP, List.splitOnP_eq_singleton]
  · simp
  · intro x hx
    exact beq_eq_false_iff_ne.mpr fun e => h.1.2 (e ▸ hx)

theorem isAbsolute_of_plain {p : String} (h : plainName p = true) : isAbsolute p = false := by
  simp only [plainName, Bool.and_eq_true, Bool.not_eq_true', List.contains_eq_mem,
    decide_eq_false_iff_not] at h
  rw [isAbsolute, beq_eq_false_iff_ne]
  exact fun e => h.1.2 (List.mem_of_mem_head? (Option.mem_def.mpr e))

/-- Another extension of its own makes a name of a name. -/
theorem plainName_withExtension {name ext : String} (h : plainName name = true)
    (hext : plainName ext = true) (hdot : '.' ∉ ext.toList) :
    plainName (withExtension name ext) = true := by
  -- the name is cut off somewhere and the extension follows
  obtain ⟨x, hx, e⟩ : ∃ x : String, (∀ c ∈ x.toList, c ∈ name.toList ∨ c = '.') ∧
      withExtension name ext = x ++ ext := by
    rw [withExtension]
    split
    · refine ⟨_, fun c hc => ?_, rfl⟩
      rw [String.toList_ofList] at hc
      exact .inl (List.mem_of_mem_take hc)
    · refine ⟨name ++ ".", fun c hc => ?_, rfl⟩
      rw [String.toList_append, List.mem_append] at hc
      exact hc.imp_right List.mem_singleton.mp
  simp only [plainName, Bool.and_eq_true, Bool.not_eq_true', List.contains_eq_mem,
    decide_eq_false_iff_not, bne_iff_ne, ne_eq] at h hext ⊢
  obtain ⟨d, hd⟩ : ∃ d, d ∈ ext.toList := List.exists_mem_of_ne_nil _ fun hn =>
    hext.1.1.1.1 (String.toList_inj.mp hn)
  have hmem : ∀ {s : String}, d ∉ s.toList → ¬ x ++ ext = s := by
    rintro s hs rfl
    exact hs (by rw [String.toList_append]; exact List.mem_append_right _ hd)
  have hne : d ≠ '.' := fun e => hdot (e ▸ hd)
  rw [e, String.toList_append, List.mem_append, List.mem_append, not_or, not_or]
  refine ⟨⟨⟨⟨hmem ?_, hmem ?_⟩, hmem ?_⟩, fun hc => ?_, hext.1.2⟩, fun hc => ?_, hext.2⟩
  · exact List.not_mem_nil
  · exact fun h => hne (List.mem_singleton.mp h)
  · exact fun h => by
      rcases List.mem_cons.mp h with h | h
      · exact hne h
      · exact hne (List.mem_singleton.mp h)
  · exact (hx _ hc).elim h.1.2 (by decide)
  · exact (hx _ hc).elim h.2 (by decide)

theorem isAbsolute_append {a : String} (h : a ≠ "") (b : String) :
    isAbsolute (a ++ b) = isAbsolute a := by
  have : a.toList ≠ [] := fun e => h (String.toList_inj.mp e)
  simp only [isAbsolute, String.toList_append, List.head?_append_of_ne_nil _ this]

/-- A path that ends in a slash, with the slash taken off. -/
theorem eq_append_slash {a : String} (h : a.toList.getLast? = some '/') : ∃ a', a = a' ++ "/" := by
  refine ⟨String.ofList a.toList.dropLast, String.toList_inj.mp ?_⟩
  rw [String.toList_append, String.toList_ofList]
  exact (List.dropLast_append_getLast? _ h).symm

theorem components_append_slash (a b : String) :
    components (a ++ "/" ++ b) = components a ++ components b := by
  simp only [components, String.toList_append, List.append_assoc, List.splitOn_eq_splitOnP]
  rw [show "/".toList ++ b.toList = '/' :: b.toList from rfl,
    List.splitOnP_append_cons _ _ (by decide), List.map_append]

end Path

namespace FileTree

variable (fs : FileTree)

/-- Whether there is a directory at a location. -/
def dirAt (loc : List String) : Bool :=
  match fs.root.descend loc with
  | some (.dir _) => true
  | _ => false

/-- The contents of the file at a location. -/
def fileAt (loc : List String) : Option (List UInt8) :=
  match fs.root.descend loc with
  | some (.file bytes) => some bytes
  | _ => none

/-- Where the components of a path lead from a location. -/
def walk : List String → List String → Option (List String)
  | loc, [] => some loc
  | loc, c :: cs =>
    if !fs.dirAt loc then none
    else if c == "" || c == "." then walk loc cs
    else if c == ".." then walk loc.dropLast cs
    else if (fs.root.descend (loc ++ [c])).isSome then walk (loc ++ [c]) cs
    else none

/-- Where a path leads. -/
def locate (p : String) : Option (List String) :=
  fs.walk (if Path.isAbsolute p then [] else fs.cwd.map (·.val)) (Path.components p)

/-- The location a system call finds for a path: an empty path and one with a
zero byte are refused. -/
def resolve (p : String) : Option (List String) :=
  if p = "" ∨ p.toList.contains '\x00' then none else fs.locate p

/-- The bytes of the file a path leads to. -/
def read (p : String) : Option (List UInt8) := (fs.resolve p).bind fs.fileAt

/-- `std::fs::read_to_string`: also fails on a file that is not UTF-8. -/
def readToString (p : String) : Option String :=
  ((fs.read p).bind Utf8.decodeStrict).map String.ofList

/-- `Path::exists`. -/
def exists? (p : String) : Bool := ((fs.resolve p).bind fs.root.descend).isSome

/-- `std::fs::read_dir`: the names in the directory a path leads to. -/
def readDir (p : String) : Option (List Name) :=
  match (fs.resolve p).bind fs.root.descend with
  | some (.dir entries) => some (entries.map (·.1))
  | _ => none

/-! ## Walking -/

variable {fs}

theorem walk_append (loc xs ys : List String) :
    fs.walk loc (xs ++ ys) = (fs.walk loc xs).bind (fs.walk · ys) := by
  induction xs generalizing loc with
  | nil => rfl
  | cons c cs ih =>
    simp only [List.cons_append, walk, ih]
    split_ifs <;> rfl

/-- Components that are names only lead down. -/
theorem walk_plain {loc cs loc' : List String} (hc : ∀ c ∈ cs, plainName c = true)
    (h : fs.walk loc cs = some loc') : loc' = loc ++ cs := by
  induction cs generalizing loc with
  | nil =>
    rw [walk, Option.some.injEq] at h
    rw [← h, List.append_nil]
  | cons c cs ih =>
    have hp := hc c List.mem_cons_self
    simp only [plainName, Bool.and_eq_true, bne_iff_ne, ne_eq] at hp
    simp only [walk, beq_iff_eq, hp.1.1.1.1, hp.1.1.1.2, hp.1.1.2, Bool.or_eq_true, or_self,
      if_false] at h
    split_ifs at h
    rw [ih (fun c hc' => hc c (List.mem_cons_of_mem _ hc')) h, List.append_assoc,
      List.singleton_append]

theorem Node.plainName_of_child {n n' : Node} {c : String} (h : n.child c = some n') :
    plainName c = true := by
  cases n with
  | file bytes => cases h
  | dir entries =>
    rw [Node.child, Option.map_eq_some_iff] at h
    obtain ⟨e, he, -⟩ := h
    have hc := List.find?_some he
    rw [beq_iff_eq] at hc
    exact hc ▸ e.1.property

theorem descend_append (n : Node) (xs ys : List String) :
    n.descend (xs ++ ys) = (n.descend xs).bind (·.descend ys) := by
  induction xs generalizing n with
  | nil => rfl
  | cons c cs ih =>
    simp only [List.cons_append, Node.descend, Option.bind_assoc]
    exact congrArg _ (funext fun m => ih m)

/-- A location consists of names. -/
theorem walk_names {loc cs loc' : List String} (hloc : ∀ c ∈ loc, plainName c = true)
    (h : fs.walk loc cs = some loc') : ∀ c ∈ loc', plainName c = true := by
  induction cs generalizing loc with
  | nil =>
    rw [walk, Option.some.injEq] at h
    rwa [← h]
  | cons c cs ih =>
    rw [walk] at h
    split_ifs at h with _ _ _ hc
    · exact ih hloc h
    · exact ih (fun c hc => hloc c (List.dropLast_subset loc hc)) h
    · refine ih (fun c' hc' => ?_) h
      rcases List.mem_append.mp hc' with hc' | hc'
      · exact hloc c' hc'
      · rw [List.mem_singleton.mp hc']
        obtain ⟨n, hn⟩ := Option.isSome_iff_exists.mp hc
        rw [descend_append, Option.bind_eq_some_iff] at hn
        obtain ⟨m, -, hm⟩ := hn
        rw [Node.descend, Option.bind_eq_some_iff] at hm
        obtain ⟨m', hm', -⟩ := hm
        exact Node.plainName_of_child hm'

theorem locate_names {p : String} {loc : List String} (h : fs.locate p = some loc) :
    ∀ c ∈ loc, plainName c = true := by
  refine walk_names (fun c hc => ?_) h
  split_ifs at hc with hp
  · cases hc
  · obtain ⟨n, -, rfl⟩ := List.mem_map.mp hc
    exact n.property

/-- A path joined from a directory and a relative path leads where the second
part leads from the first. -/
theorem locate_join (a : String) {b : String} (hb : Path.isAbsolute b = false) :
    fs.locate (Path.join a b) = (fs.locate a).bind (fs.walk · (Path.components b)) := by
  have hcb := Path.components_ne_nil b
  -- a last empty component only asks for a directory, as the first of `b` does
  have hlast : ∀ loc, (fs.walk loc [""]).bind (fs.walk · (Path.components b)) =
      fs.walk loc (Path.components b) := fun loc => by
    cases hd : fs.dirAt loc with
    | true => simp [walk, hd]
    | false =>
      obtain ⟨c, cs, e⟩ := List.exists_cons_of_ne_nil hcb
      simp [walk, hd, e]
  rw [Path.join, if_neg (by rw [hb]; decide)]
  split_ifs with ha
  · rcases ha with rfl | ha
    · rw [String.empty_append, locate, locate, hb,
        show Path.components "" = [""] from rfl, show Path.isAbsolute "" = false from rfl]
      exact (hlast _).symm
    · obtain ⟨a', rfl⟩ := Path.eq_append_slash ha
      have hne : a' ++ "/" ≠ "" := fun e => by
        rw [e] at ha; exact absurd ha (by decide)
      have hc : Path.components (a' ++ "/") = Path.components a' ++ [""] := by
        rw [← String.append_empty (s := a' ++ "/"), Path.components_append_slash]; rfl
      rw [locate, locate, Path.isAbsolute_append hne, Path.components_append_slash, hc,
        walk_append, walk_append, Option.bind_assoc]
      exact congrArg _ (funext fun loc => (hlast loc).symm)
  · rw [not_or] at ha
    rw [locate, locate, String.append_assoc, Path.isAbsolute_append ha.1, ← String.append_assoc,
      Path.components_append_slash, walk_append]

/-- A name joined to a path leads to that entry of the directory. -/
theorem locate_join_plain {a b : String} {loc : List String} (hb : plainName b = true)
    (h : fs.locate (Path.join a b) = some loc) :
    ∃ base, fs.locate a = some base ∧ loc = base ++ [b] := by
  rw [locate_join a (Path.isAbsolute_of_plain hb), Option.bind_eq_some_iff] at h
  obtain ⟨base, hbase, h⟩ := h
  rw [Path.components_of_plain hb] at h
  exact ⟨base, hbase, walk_plain (fun c hc => by rwa [List.mem_singleton.mp hc]) h⟩

theorem locate_of_resolve {p : String} {loc : List String} (h : fs.resolve p = some loc) :
    fs.locate p = some loc := by
  rw [resolve] at h
  split_ifs at h
  exact h

/-- An entry of a directory, however the path of the directory is spelled. -/
theorem resolve_join_congr {dir dir' name : String} {loc : List String}
    (hn : plainName name = true) (h : fs.resolve dir = some loc) (h' : fs.resolve dir' = some loc) :
    fs.resolve (Path.join dir name) = fs.resolve (Path.join dir' name) := by
  have hnul : name.toList.contains '\x00' = false := by
    simp only [plainName, Bool.and_eq_true, Bool.not_eq_true'] at hn
    exact hn.2
  have hjoin : ∀ {d : String}, fs.resolve d = some loc →
      fs.resolve (Path.join d name) = fs.walk loc (Path.components name) := by
    intro d hd
    have hloc := locate_of_resolve hd
    rw [resolve] at hd
    split_ifs at hd with hbad
    simp only [not_or, Bool.not_eq_true] at hbad
    have hne : Path.join d name ≠ "" ∧ (Path.join d name).toList.contains '\x00' = false := by
      rw [Path.join, if_neg (by rw [Path.isAbsolute_of_plain hn]; decide)]
      simp only [List.contains_eq_mem, decide_eq_false_iff_not] at hbad hnul ⊢
      split_ifs
      · exact ⟨by simp [hbad.1], by simp [hbad.2, hnul]⟩
      · exact ⟨by simp [hbad.1], by simp [hbad.2, hnul]⟩
    rw [resolve, if_neg (by rw [hne.2]; simp [hne.1]),
      locate_join _ (Path.isAbsolute_of_plain hn), hloc, Option.bind_some]
  rw [hjoin h, hjoin h']

/-! ## Entries -/

section

variable {a b c : String} {loc : List String}

/-- The path to an entry of a directory. -/
theorem resolve_join_plain (ha : a ≠ "") (hb : plainName b = true) :
    fs.resolve (Path.join a b) = (fs.resolve a).bind (fs.walk · [b]) := by
  have habs := Path.isAbsolute_of_plain hb
  have hne : Path.join a b ≠ "" := by
    rw [Path.join, if_neg (by rw [habs]; decide)]
    split_ifs <;> simp [ha]
  have hnul : (Path.join a b).toList.contains '\x00' = a.toList.contains '\x00' := by
    have hb' : b.toList.contains '\x00' = false := by
      simp only [plainName, Bool.and_eq_true, Bool.not_eq_true'] at hb
      exact hb.2
    simp only [List.contains_eq_mem, decide_eq_false_iff_not] at hb' ⊢
    rw [Path.join, if_neg (by rw [habs]; decide)]
    split_ifs <;> simp [hb']
  unfold resolve
  rw [hnul, locate_join a habs, Path.components_of_plain hb]
  split_ifs with h₁ h₂ h₂
  · rfl
  · exact absurd (h₁.resolve_left hne) (not_or.mp h₂).2
  · exact absurd (h₂.resolve_left ha) (not_or.mp h₁).2
  · rfl

/-- What a step to an entry asks of the directory. -/
theorem walk_entry (hb : plainName b = true) (h : fs.walk loc [b] = some (loc ++ [b])) :
    ∃ entries, fs.root.descend loc = some (.dir entries) ∧ ∃ e ∈ entries, e.1.val = b := by
  have hp := hb
  simp only [plainName, Bool.and_eq_true, bne_iff_ne, ne_eq] at hp
  simp only [walk, beq_iff_eq, hp.1.1.1.1, hp.1.1.1.2, hp.1.1.2, Bool.or_eq_true, or_self,
    if_false] at h
  split_ifs at h with hdir hsome
  rw [Bool.not_eq_true, Bool.not_eq_false', dirAt] at hdir
  split at hdir
  · rename_i entries hentries
    obtain ⟨n, hn⟩ := Option.isSome_iff_exists.mp hsome
    rw [descend_append, hentries, Option.bind_some, Node.descend, Option.bind_eq_some_iff] at hn
    obtain ⟨m, hm, -⟩ := hn
    rw [Node.child, Option.map_eq_some_iff] at hm
    obtain ⟨e, he, -⟩ := hm
    exact ⟨entries, hentries, e, List.mem_of_find?_eq_some he, by simpa using List.find?_some he⟩
  · cases hdir

/-- Where a file of a directory's subdirectory is found, the directory lists the
subdirectory. -/
theorem mem_readDir_of_resolve (ha : a ≠ "") (hb : plainName b = true) (hc : plainName c = true)
    (h : fs.resolve (Path.join (Path.join a b) c) = some loc) :
    (∃ names, fs.readDir a = some names ∧ b ∈ names.map (·.val)) ∧
      ∃ sub, fs.resolve (Path.join a b) = some sub ∧ fs.dirAt sub = true := by
  have hne : Path.join a b ≠ "" := by
    rw [Path.join, if_neg (by rw [Path.isAbsolute_of_plain hb]; decide)]
    split_ifs <;> simp [ha]
  rw [resolve_join_plain hne hc, Option.bind_eq_some_iff] at h
  obtain ⟨sub, hsub, hstep⟩ := h
  have hdir : fs.dirAt sub = true := by
    obtain rfl := walk_plain (fun x hx => by rwa [List.mem_singleton.mp hx]) hstep
    obtain ⟨entries, he, -⟩ := walk_entry hc hstep
    rw [dirAt, he]
  refine ⟨?_, sub, hsub, hdir⟩
  rw [resolve_join_plain ha hb, Option.bind_eq_some_iff] at hsub
  obtain ⟨base, hbase, hwalk⟩ := hsub
  obtain rfl := walk_plain (fun x hx => by rwa [List.mem_singleton.mp hx]) hwalk
  obtain ⟨entries, he, e, hmem, hname⟩ := walk_entry hb hwalk
  refine ⟨entries.map (·.1), by rw [readDir, hbase, Option.bind_some, he], ?_⟩
  exact List.mem_map.mpr ⟨e.1, List.mem_map.mpr ⟨e, hmem, rfl⟩, hname⟩

end

end FileTree

/-- No directory has two entries of one name. -/
def Node.Distinct (n : Node) : Prop :=
  ∀ loc entries, n.descend loc = some (.dir entries) → (entries.map (·.1)).Nodup

theorem Node.distinct_file (bytes : List UInt8) : (Node.file bytes).Distinct := by
  intro loc entries h
  cases loc <;> cases h

theorem Node.distinct_dir {entries : List (Name × Node)} (hnodup : (entries.map (·.1)).Nodup)
    (h : ∀ e ∈ entries, e.2.Distinct) : (Node.dir entries).Distinct := by
  intro loc entries' hloc
  cases loc with
  | nil =>
    cases hloc
    exact hnodup
  | cons c loc =>
    rw [Node.descend, Option.bind_eq_some_iff] at hloc
    obtain ⟨n, hchild, hn⟩ := hloc
    rw [Node.child, Option.map_eq_some_iff] at hchild
    obtain ⟨e, he, rfl⟩ := hchild
    exact h e (List.mem_of_find?_eq_some he) loc entries' hn

end MikanJudge.Lib

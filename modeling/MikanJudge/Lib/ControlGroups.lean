import MikanJudge.Lib.Processes

/-!
# Control groups

The part of a kernel that accounts memory to groups of processes: which processes
there are, which groups, under names of any type `N`, and which group each process
is in. A process is charged in the group it is in when it asks for memory, and the
charge stays there until it is freed, wherever the process goes. A group keeps the
most that was ever charged to it at once, its peak (`MemGroup.Grows`).

A group that only processes of one origin may enter stays theirs: the others have
no part in what is charged to it (`ControlGroups.Private`).
-/

namespace MikanJudge.Lib

/-- Pieces of memory, each with where the process that asked for it comes from,
and the peak. -/
structure MemGroup (ι : Type*) where
  charges : List (ι × Nat)
  peak : Nat

namespace MemGroup

variable {ι : Type*} {m m' : MemGroup ι}

def empty : MemGroup ι := ⟨[], 0⟩

def sizes (charges : List (ι × Nat)) : Nat := charges.foldr (fun x n => x.2 + n) 0

/-- `memory.current`. -/
def total (m : MemGroup ι) : Nat := sizes m.charges

/-- The part of it that was asked for from `o`. -/
def totalOf [DecidableEq ι] (m : MemGroup ι) (o : ι) : Nat :=
  sizes (m.charges.filter fun x => x.1 = o)

def charge (m : MemGroup ι) (o : ι) (n : Nat) : MemGroup ι where
  charges := (o, n) :: m.charges
  peak := max m.peak (n + m.total)

/-- The piece at position `i` is freed. -/
def free (m : MemGroup ι) (i : Nat) : MemGroup ι := { m with charges := m.charges.eraseIdx i }

/-- The peak is not below what is charged. -/
def Bounded (m : MemGroup ι) : Prop := m.total ≤ m.peak

/-- What becomes of a group: its peak grows just as far as it must. -/
def Grows (m m' : MemGroup ι) : Prop := m'.peak = max m.peak m'.total

theorem sizes_le_of_sublist {l l' : List (ι × Nat)} (h : l.Sublist l') : sizes l ≤ sizes l' := by
  induction h with
  | slnil => exact Nat.le_refl _
  | cons x _ ih => exact Nat.le_trans ih (Nat.le_add_left _ _)
  | cons_cons x _ ih => exact Nat.add_le_add_left ih _

theorem total_free_le (m : MemGroup ι) (i : Nat) : (m.free i).total ≤ m.total :=
  sizes_le_of_sublist (List.eraseIdx_sublist ..)

theorem totalOf_eq_total [DecidableEq ι] {o : ι} (h : ∀ x ∈ m.charges, x.1 = o) :
    m.totalOf o = m.total := by
  rw [totalOf, total, List.filter_eq_self.mpr fun x hx => decide_eq_true (h x hx)]

theorem bounded_empty : (empty : MemGroup ι).Bounded := Nat.le_refl 0

theorem Grows.bounded (h : m.Grows m') : m'.Bounded := by
  rw [Bounded, h]
  exact le_max_right ..

theorem Bounded.grows_refl (h : m.Bounded) : m.Grows m := (max_eq_left h).symm

theorem grows_charge (m : MemGroup ι) (o : ι) (n : Nat) : m.Grows (m.charge o n) := rfl

theorem Bounded.grows_free (h : m.Bounded) (i : Nat) : m.Grows (m.free i) :=
  (max_eq_left (Nat.le_trans (total_free_le m i) h)).symm

end MemGroup

/-- Processes, of origins of a type `ι`, in groups. -/
structure ControlGroups (N ι : Type*) where
  procs : Kernel Empty ι
  groups : N → Option (MemGroup ι)
  /-- The group of a process, if it is in one. -/
  member : Pid → Option N

namespace ControlGroups

variable {N ι : Type*} {k : ControlGroups N ι} {p q : Pid} {d d' : N} {o o' o'' : ι}

def origin? (k : ControlGroups N ι) (p : Pid) : Option ι := k.procs.origin? p

def withMember (k : ControlGroups N ι) (p : Pid) (g : Option N) : ControlGroups N ι :=
  { k with member := Function.update k.member p g }

/-- A process is moved to a group; it fails if there is not such a process or group. -/
def enter (k : ControlGroups N ι) (p : Pid) (d : N) : ControlGroups N ι :=
  if (k.origin? p).isSome ∧ (k.groups d).isSome then k.withMember p (some d) else k

/-- `fork(2)`: a process starts in the group of its parent. -/
def fork (k : ControlGroups N ι) (p : Pid) (o : ι) : ControlGroups N ι where
  procs := k.procs.fork p o
  groups := k.groups
  member := Function.update k.member k.procs.next (k.member p)

def exit (k : ControlGroups N ι) (p : Pid) : ControlGroups N ι where
  procs := k.procs.exit p
  groups := k.groups
  member := Function.update k.member p none

theorem member_withMember {g : Option N} :
    (k.withMember p g).member q = if q = p then g else k.member q := Function.update_apply ..

theorem member_fork : (k.fork p o).member q = if q = k.procs.next then k.member p else k.member q :=
  Function.update_apply ..

theorem member_exit : (k.exit p).member q = if q = p then none else k.member q :=
  Function.update_apply ..

theorem origin_fork (hp : k.origin? p = some o') :
    (k.fork p o).origin? q = if q = k.procs.next then some o else k.origin? q :=
  Kernel.origin_fork hp

@[simp] theorem procs_enter : (k.enter p d).procs = k.procs := by
  rw [enter]
  split <;> rfl

theorem of_member_enter (h : (k.enter p d).member q = some d') :
    k.member q = some d' ∨ q = p ∧ (k.origin? p).isSome := by
  rw [enter] at h
  split_ifs at h with he
  · rw [member_withMember] at h
    split_ifs at h with e
    · exact .inr ⟨e, he.1⟩
    · exact .inl h
  · exact .inl h

theorem origin_exit : (k.exit p).origin? q = if q = p then none else k.origin? q :=
  Kernel.origin_exit

/-! ## Who is where -/

/-- What is in a group is alive, and the group is there. -/
structure Sound (k : ControlGroups N ι) : Prop where
  alive : ∀ p d, k.member p = some d → (k.origin? p).isSome
  there : ∀ p d, k.member p = some d → (k.groups d).isSome

/-- A group with nothing in it but what comes from `o`. -/
structure Private (k : ControlGroups N ι) (d : N) (o : ι) : Prop where
  group : ∃ m, k.groups d = some m ∧ m.Bounded ∧ ∀ x ∈ m.charges, x.1 = o
  members : ∀ p, k.member p = some d → k.origin? p = some o

/-- A step leaves a group to what comes from `o`, and its peak grows as it must. -/
def Keeps (k k' : ControlGroups N ι) (d : N) (o : ι) : Prop :=
  k'.Private d o ∧ ∃ m m', k.groups d = some m ∧ k'.groups d = some m' ∧ m.Grows m'

namespace Sound

theorem fork (hk : k.Sound) (hp : k.origin? p = some o') (o : ι) : (k.fork p o).Sound := by
  refine ⟨fun q d hq => ?_, fun q d hq => ?_⟩
  · rw [origin_fork hp]
    rw [member_fork] at hq
    split_ifs at hq ⊢
    · rfl
    · exact hk.alive q d hq
  · rw [member_fork] at hq
    split_ifs at hq
    · exact hk.there p d hq
    · exact hk.there q d hq

theorem exit (hk : k.Sound) (p : Pid) : (k.exit p).Sound := by
  refine ⟨fun q d hq => ?_, fun q d hq => ?_⟩
  · rw [member_exit] at hq
    split_ifs at hq with e
    rw [origin_exit, if_neg e]
    exact hk.alive q d hq
  · rw [member_exit] at hq
    split_ifs at hq
    exact hk.there q d hq

theorem enter (hk : k.Sound) (p : Pid) (d : N) : (k.enter p d).Sound := by
  rw [ControlGroups.enter]
  split_ifs with h
  · refine ⟨fun q d' hq => ?_, fun q d' hq => ?_⟩
    · rw [member_withMember] at hq
      split_ifs at hq with e
      · exact e ▸ h.1
      · exact hk.alive q d' hq
    · rw [member_withMember] at hq
      split_ifs at hq with e
      · cases hq
        exact h.2
      · exact hk.there q d' hq
  · exact hk

end Sound

namespace Private

/-- The group is as it was, and so are those who may be in it. -/
theorem keeps_of_same {k' : ControlGroups N ι} (h : k.Private d o) (hd : k'.groups d = k.groups d)
    (hm : ∀ p, k'.member p = some d → k'.origin? p = some o) : k.Keeps k' d o := by
  obtain ⟨m, hg, hb, hx⟩ := h.group
  exact ⟨⟨⟨m, hd.trans hg, hb, hx⟩, hm⟩, m, m, hg, hd.trans hg, hb.grows_refl⟩

theorem keeps_refl (h : k.Private d o) : k.Keeps k d o := h.keeps_of_same rfl h.members

/-- Only what comes from `o` is moved to it. -/
theorem enter (h : k.Private d o) (hp : d = d' → ∀ o', k.origin? p = some o' → o' = o) :
    k.Keeps (k.enter p d') d o := by
  rw [ControlGroups.enter]
  split_ifs with he
  · refine h.keeps_of_same rfl fun q hq => ?_
    rw [member_withMember] at hq
    split_ifs at hq with e
    · obtain ⟨o', ho⟩ := Option.isSome_iff_exists.mp he.1
      rw [e]
      exact hp (Option.some.inj hq).symm o' ho ▸ ho
    · exact h.members q hq
  · exact h.keeps_refl

/-- Its processes fork ones of their own origin. -/
theorem fork (h : k.Private d o) (hp : k.origin? p = some o')
    (hsame : k.member p = some d → o'' = o) : k.Keeps (k.fork p o'') d o := by
  refine h.keeps_of_same rfl fun q hq => ?_
  rw [origin_fork hp]
  rw [member_fork] at hq
  split_ifs at hq ⊢
  · rw [hsame hq]
  · exact h.members q hq

theorem exit (h : k.Private d o) (p : Pid) : k.Keeps (k.exit p) d o := by
  refine h.keeps_of_same rfl fun q hq => ?_
  rw [member_exit] at hq
  split_ifs at hq with e
  rw [origin_exit, if_neg e]
  exact h.members q hq

end Private

/-! ## Groups -/

section

variable [DecidableEq N]

def withGroup (k : ControlGroups N ι) (d : N) (g : Option (MemGroup ι)) : ControlGroups N ι :=
  { k with groups := Function.update k.groups d g }

def updateGroup (k : ControlGroups N ι) (d : N) (f : MemGroup ι → MemGroup ι) :
    ControlGroups N ι := k.withGroup d ((k.groups d).map f)

/-- Some process is in the group. -/
def populated (k : ControlGroups N ι) (d : N) : Bool :=
  (List.range k.procs.next).any fun p => k.member p == some d

/-- `mkdir(2)`: it fails if there is one of the name. -/
def create (k : ControlGroups N ι) (d : N) : Option (ControlGroups N ι) :=
  match k.groups d with
  | none => some (k.withGroup d (some .empty))
  | some _ => none

/-- `rmdir(2)`: it fails for a group with a process. -/
def remove (k : ControlGroups N ι) (d : N) : ControlGroups N ι :=
  if k.populated d then k else k.withGroup d none

/-- A process asks for memory. -/
def charge (k : ControlGroups N ι) (p : Pid) (n : Nat) : ControlGroups N ι :=
  match k.member p, k.origin? p with
  | some d, some o => k.updateGroup d (·.charge o n)
  | _, _ => k

def free (k : ControlGroups N ι) (d : N) (i : Nat) : ControlGroups N ι :=
  k.updateGroup d (·.free i)

theorem populated_iff (hk : k.Sound) : k.populated d = true ↔ ∃ p, k.member p = some d := by
  rw [populated, List.any_eq_true]
  constructor
  · rintro ⟨p, -, hp⟩
    exact ⟨p, beq_iff_eq.mp hp⟩
  · rintro ⟨p, hp⟩
    obtain ⟨o, ho⟩ := Option.isSome_iff_exists.mp (hk.alive p d hp)
    exact ⟨p, List.mem_range.mpr (Kernel.lt_next_of_origin ho), beq_iff_eq.mpr hp⟩

section

variable {f : MemGroup ι → MemGroup ι}

theorem groups_updateGroup : (k.updateGroup d f).groups d' =
    if d' = d then (k.groups d).map f else k.groups d' := Function.update_apply ..

theorem isSome_updateGroup : ((k.updateGroup d f).groups d').isSome = (k.groups d').isSome := by
  rw [groups_updateGroup]
  split_ifs with e
  · rw [e, Option.isSome_map]
  · rfl

end

theorem charge_cases (k : ControlGroups N ι) (p : Pid) (n : Nat) :
    (∃ d o, k.member p = some d ∧ k.origin? p = some o ∧
      k.charge p n = k.updateGroup d (·.charge o n)) ∨ k.charge p n = k := by
  rw [charge]
  split
  · next d o hd ho => exact .inl ⟨d, o, hd, ho, rfl⟩
  · exact .inr rfl

theorem create_eq_some {k' : ControlGroups N ι} (h : k.create d = some k') :
    k.groups d = none ∧ k' = k.withGroup d (some .empty) := by
  rw [create] at h
  split at h
  · next hd =>
    cases h
    exact ⟨hd, rfl⟩
  · cases h

theorem groups_withGroup {g : Option (MemGroup ι)} :
    (k.withGroup d g).groups d' = if d' = d then g else k.groups d' := Function.update_apply ..

/-- Nothing but groups changes. -/
structure SameProcs (k k' : ControlGroups N ι) : Prop where
  procs : k'.procs = k.procs
  member : k'.member = k.member

theorem SameProcs.updateGroup (f : MemGroup ι → MemGroup ι) : k.SameProcs (k.updateGroup d f) :=
  ⟨rfl, rfl⟩

theorem SameProcs.charge (p : Pid) (n : Nat) : k.SameProcs (k.charge p n) := by
  rcases charge_cases k p n with ⟨d, o, -, -, e⟩ | e
  · rw [e]
    exact .updateGroup _
  · rw [e]
    exact ⟨rfl, rfl⟩

theorem SameProcs.create {k' : ControlGroups N ι} (h : k.create d = some k') : k.SameProcs k' := by
  obtain ⟨-, rfl⟩ := create_eq_some h
  exact ⟨rfl, rfl⟩

theorem SameProcs.remove (d : N) : k.SameProcs (k.remove d) := by
  rw [ControlGroups.remove]
  split <;> exact ⟨rfl, rfl⟩

namespace Sound

theorem updateGroup (hk : k.Sound) (f : MemGroup ι → MemGroup ι) : (k.updateGroup d f).Sound where
  alive := hk.alive
  there p d' hp := isSome_updateGroup.trans (hk.there p d' hp)

theorem charge (hk : k.Sound) (p : Pid) (n : Nat) : (k.charge p n).Sound := by
  rcases charge_cases k p n with ⟨d, o, -, -, e⟩ | e
  · rw [e]
    exact hk.updateGroup _
  · rwa [e]

theorem free (hk : k.Sound) (d : N) (i : Nat) : (k.free d i).Sound := hk.updateGroup _

theorem create {k' : ControlGroups N ι} (hk : k.Sound) (h : k.create d = some k') : k'.Sound := by
  obtain ⟨-, rfl⟩ := create_eq_some h
  refine ⟨hk.alive, fun p d' hp => ?_⟩
  rw [groups_withGroup]
  split_ifs
  · rfl
  · exact hk.there p d' hp

theorem remove (hk : k.Sound) (d : N) : (k.remove d).Sound := by
  rw [ControlGroups.remove]
  split_ifs with hd
  · exact hk
  · refine ⟨hk.alive, fun p d' hp => ?_⟩
    have hne : d' ≠ d := fun e => hd ((populated_iff hk).mpr ⟨p, e ▸ hp⟩)
    rw [groups_withGroup, if_neg hne]
    exact hk.there p d' hp

end Sound

namespace Private

/-- A new group. -/
theorem of_create {k' : ControlGroups N ι} (hk : k.Sound) (h : k.create d = some k') (o : ι) :
    k'.Private d o ∧ k'.groups d = some .empty := by
  obtain ⟨hd, rfl⟩ := create_eq_some h
  have hnew : (k.withGroup d (some .empty)).groups d = some .empty :=
    groups_withGroup.trans (if_pos rfl)
  refine ⟨⟨⟨.empty, hnew, MemGroup.bounded_empty, fun x hx => (List.not_mem_nil hx).elim⟩,
    fun p hp => ?_⟩, hnew⟩
  have := hk.there p d hp
  rw [hd] at this
  cases this

theorem updateGroup (h : k.Private d o) {f : MemGroup ι → MemGroup ι}
    (hf : ∀ m, m.Bounded → (∀ x ∈ m.charges, x.1 = o) →
      m.Grows (f m) ∧ ∀ x ∈ (f m).charges, x.1 = o) : k.Keeps (k.updateGroup d f) d o := by
  obtain ⟨m, hg, hb, hx⟩ := h.group
  obtain ⟨hgrows, hx'⟩ := hf m hb hx
  have hnew : (k.updateGroup d f).groups d = some (f m) := by
    rw [groups_updateGroup, if_pos rfl, hg, Option.map_some]
  exact ⟨⟨⟨f m, hnew, hgrows.bounded, hx'⟩, h.members⟩, m, f m, hg, hnew, hgrows⟩

theorem updateGroup_of_ne (h : k.Private d o) {f : MemGroup ι → MemGroup ι} (hne : d ≠ d') :
    k.Keeps (k.updateGroup d' f) d o :=
  h.keeps_of_same (groups_updateGroup.trans (if_neg hne)) h.members

theorem charge (h : k.Private d o) (p : Pid) (n : Nat) : k.Keeps (k.charge p n) d o := by
  rcases charge_cases k p n with ⟨d', o', hd, ho, e⟩ | e
  · rw [e]
    by_cases hne : d = d'
    · subst hne
      -- who is charged in the group is in it
      obtain rfl : o' = o := Option.some.inj (ho.symm.trans (h.members p hd))
      refine h.updateGroup fun m _ hx => ⟨m.grows_charge _ n, fun x hx' => ?_⟩
      rcases List.mem_cons.mp hx' with rfl | hx'
      · rfl
      · exact hx x hx'
    · exact h.updateGroup_of_ne hne
  · rw [e]
    exact h.keeps_refl

theorem free (h : k.Private d o) (d' : N) (i : Nat) : k.Keeps (k.free d' i) d o := by
  by_cases hne : d = d'
  · subst hne
    exact h.updateGroup fun m hb hx =>
      ⟨hb.grows_free i, fun x hx' => hx x ((List.eraseIdx_sublist ..).subset hx')⟩
  · exact h.updateGroup_of_ne hne

theorem create {k' : ControlGroups N ι} (h : k.Private d o) (hc : k.create d' = some k') :
    k.Keeps k' d o := by
  obtain ⟨hd, rfl⟩ := create_eq_some hc
  obtain ⟨m, hg, -⟩ := h.group
  refine h.keeps_of_same (groups_withGroup.trans (if_neg ?_)) h.members
  rintro rfl
  cases hg.symm.trans hd

theorem remove (h : k.Private d o) (hne : d ≠ d') : k.Keeps (k.remove d') d o := by
  rw [ControlGroups.remove]
  split_ifs
  · exact h.keeps_refl
  · exact h.keeps_of_same (groups_withGroup.trans (if_neg hne)) h.members

end Private

end

end ControlGroups

end MikanJudge.Lib

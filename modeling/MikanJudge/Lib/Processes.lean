import Mathlib.Data.List.AList
import Mathlib.Data.List.Perm.Subperm

/-!
# Processes and their descriptors

The part of a kernel that decides who can still write to a pipe: which
processes are alive, what each of their descriptors stands for (a handle, of
any type `H`), and where each of them comes from (an origin, of any type
`ι`). A forked process starts with a copy of the descriptors of the one that
forks it; an exit closes those of the one process that exits. A process's
number is its place in the order of the forks, so numbers are not used again.

Each operation has a lemma for what it makes of the descriptors (`fd_close`,
`fd_fork`, …) and one for what it makes of the origins. A reader of a pipe
sees its end once no process has its write end open (`Kernel.Held`).
-/

namespace MikanJudge.Lib

abbrev Pid := Nat

/-- The number of a descriptor. -/
abbrev Fd := Nat

/-- The least number that is not in use. -/
def leastFree (used : List Fd) : Fd :=
  ((List.range (used.length + 1)).find? (· ∉ used)).getD 0

theorem leastFree_notMem (used : List Fd) : leastFree used ∉ used := by
  obtain ⟨n, hn⟩ : ∃ n, (List.range (used.length + 1)).find? (· ∉ used) = some n := by
    rw [← Option.isSome_iff_exists, List.find?_isSome]
    by_contra hall
    push Not at hall
    have hsub : List.range (used.length + 1) ⊆ used := fun n hn => by
      simpa using hall n hn
    have hle := (List.nodup_range.subperm hsub).length_le
    rw [List.length_range] at hle
    omega
  rw [leastFree, hn, Option.getD_some]
  simpa using List.find?_some hn

structure Process (H ι : Type*) where
  origin : ι
  fds : AList fun _ : Fd => H

structure Kernel (H ι : Type*) where
  /-- Every process ever started; `none` for one that has exited. -/
  procs : List (Option (Process H ι))

namespace Kernel

variable {H ι : Type*} {k : Kernel H ι} {p q : Pid} {n m i : Fd} {h : H} {o o' : ι}

def proc? (k : Kernel H ι) (p : Pid) : Option (Process H ι) := k.procs[p]?.join

/-- What a live process comes from. -/
def origin? (k : Kernel H ι) (p : Pid) : Option ι := (k.proc? p).map (·.origin)

/-- What a descriptor of a process stands for. -/
def fd (k : Kernel H ι) (p : Pid) (n : Fd) : Option H := (k.proc? p).bind (·.fds.lookup n)

/-- Some process has a descriptor for the handle. -/
def Held (k : Kernel H ι) (h : H) : Prop := ∃ p n, k.fd p n = some h

/-- A live process comes from here. -/
def HasOrigin (k : Kernel H ι) (o : ι) : Prop := ∃ p, k.origin? p = some o

/-! ## Operations -/

def change (k : Kernel H ι) (p : Pid) (f : Process H ι → Option (Process H ι)) : Kernel H ι where
  procs := k.procs.modify p (·.bind f)

/-- `close(2)`. -/
def close (k : Kernel H ι) (p : Pid) (n : Fd) : Kernel H ι :=
  k.change p fun q => some { q with fds := q.fds.erase n }

def install (k : Kernel H ι) (p : Pid) (n : Fd) (h : H) : Kernel H ι :=
  k.change p fun q => some { q with fds := q.fds.insert n h }

/-- `dup2(2)`: it fails if the old number is not open. -/
def dup2 (k : Kernel H ι) (p : Pid) (old new : Fd) : Kernel H ι :=
  match k.fd p old with
  | some h => k.install p new h
  | none => k

/-- The number a new descriptor of a process gets. -/
def freeFd (k : Kernel H ι) (p : Pid) : Fd :=
  match k.proc? p with
  | some q => leastFree q.fds.keys
  | none => 0

/-- `pipe(2)`, with the handles of its ends: the numbers of the read and the
write end. -/
def pipe (k : Kernel H ι) (p : Pid) (r w : H) : Kernel H ι × Fd × Fd :=
  let a := k.freeFd p
  let b := (k.install p a r).freeFd p
  ((k.install p a r).install p b w, a, b)

/-- The number the next process gets. -/
def next (k : Kernel H ι) : Pid := k.procs.length

/-- `fork(2)`. -/
def fork (k : Kernel H ι) (p : Pid) (o : ι) : Kernel H ι where
  procs := k.procs ++ [(k.proc? p).map fun q => { q with origin := o }]

/-- The process exits or is killed. -/
def exit (k : Kernel H ι) (p : Pid) : Kernel H ι := k.change p fun _ => none

/-! ## What an operation changes -/

theorem proc?_change {f : Process H ι → Option (Process H ι)} :
    (k.change p f).proc? q = if q = p then (k.proc? p).bind f else k.proc? q := by
  rw [proc?, change]
  split_ifs with e
  · rw [e, List.getElem?_modify_eq, proc?]
    cases k.procs[p]? <;> rfl
  · rw [List.getElem?_modify_ne _ _ (Ne.symm e), proc?]

theorem proc?_fork :
    (k.fork p o).proc? q =
      if q = k.next then (k.proc? p).map fun r => { r with origin := o } else k.proc? q := by
  rw [proc?, fork, next]
  split_ifs with e
  · rw [e, List.getElem?_concat_length, Option.join_some]
  · rcases Nat.lt_or_gt_of_ne e with hlt | hgt
    · rw [List.getElem?_append_left hlt, proc?]
    · rw [List.getElem?_eq_none (by rw [List.length_append]; exact hgt), proc?,
        List.getElem?_eq_none (Nat.le_of_lt hgt)]

theorem fd_of_proc? (hp : k.proc? p = none) : k.fd p n = none := by rw [fd, hp, Option.bind_none]

theorem origin_of_fd (hf : k.fd p n = some h) : ∃ o, k.origin? p = some o := by
  cases hp : k.proc? p with
  | none => rw [fd_of_proc? hp] at hf; cases hf
  | some q => exact ⟨q.origin, by rw [origin?, hp, Option.map_some]⟩

theorem lt_next_of_origin (hp : k.origin? p = some o) : p < k.next := by
  by_contra hlt
  rw [origin?, proc?, List.getElem?_eq_none (Nat.le_of_not_lt hlt)] at hp
  cases hp

theorem lt_next_of_fd (hf : k.fd p n = some h) : p < k.next := by
  obtain ⟨o, ho⟩ := origin_of_fd hf
  exact lt_next_of_origin ho

theorem fd_close :
    (k.close p n).fd q m = if q = p ∧ m = n then none else k.fd q m := by
  rw [fd, close, proc?_change]
  by_cases hq : q = p
  · subst hq
    rw [if_pos rfl, fd]
    cases k.proc? q with
    | none => exact (ite_self _).symm
    | some r =>
      rw [Option.bind_some, Option.bind_some, Option.bind_some]
      split_ifs with hm
      · rw [hm.2, AList.lookup_erase]
      · exact AList.lookup_erase_ne fun e => hm ⟨rfl, e⟩
  · rw [if_neg hq, if_neg (fun e => hq e.1), fd]

theorem fd_install (hp : k.origin? p = some o) :
    (k.install p n h).fd q m = if q = p ∧ m = n then some h else k.fd q m := by
  obtain ⟨r, hr, -⟩ := Option.map_eq_some_iff.mp hp
  rw [fd, install, proc?_change]
  by_cases hq : q = p
  · subst hq
    rw [if_pos rfl, hr, Option.bind_some, Option.bind_some, fd, hr, Option.bind_some]
    split_ifs with hm
    · rw [hm.2, AList.lookup_insert]
    · exact AList.lookup_insert_ne fun e => hm ⟨rfl, e⟩
  · rw [if_neg hq, if_neg (fun e => hq e.1), fd]

theorem fd_fork :
    (k.fork p o).fd q m = if q = k.next then k.fd p m else k.fd q m := by
  rw [fd, proc?_fork]
  split_ifs
  · rw [fd]
    cases k.proc? p <;> rfl
  · rfl

theorem fd_exit : (k.exit p).fd q m = if q = p then none else k.fd q m := by
  rw [fd, exit, proc?_change]
  split_ifs
  · rw [Option.bind_fun_none, Option.bind_none]
  · rfl

@[simp] theorem origin_close : (k.close p n).origin? q = k.origin? q := by
  rw [origin?, close, proc?_change]
  split_ifs with e
  · rw [e, origin?]
    cases k.proc? p <;> rfl
  · rfl

@[simp] theorem origin_install : (k.install p n h).origin? q = k.origin? q := by
  rw [origin?, install, proc?_change]
  split_ifs with e
  · rw [e, origin?]
    cases k.proc? p <;> rfl
  · rfl

@[simp] theorem origin_dup2 : (k.dup2 p n m).origin? q = k.origin? q := by
  rw [dup2]
  split
  · exact origin_install
  · rfl

theorem origin_fork (hp : k.origin? p = some o') :
    (k.fork p o).origin? q = if q = k.next then some o else k.origin? q := by
  obtain ⟨r, hr, -⟩ := Option.map_eq_some_iff.mp hp
  rw [origin?, proc?_fork, hr]
  split_ifs <;> rfl

theorem origin_exit : (k.exit p).origin? q = if q = p then none else k.origin? q := by
  rw [origin?, exit, proc?_change]
  split_ifs
  · rw [Option.bind_fun_none, Option.map_none]
  · rfl

theorem fd_dup2 :
    (k.dup2 p n m).fd q i = if q = p ∧ i = m then (k.fd p n).or (k.fd q i) else k.fd q i := by
  rw [dup2]
  cases hf : k.fd p n with
  | none => rw [Option.none_or, ite_self]
  | some h =>
    obtain ⟨o, ho⟩ := origin_of_fd hf
    rw [fd_install ho, Option.some_or]

/-- What a process has after `dup2` it had before, under this number or under
the one duplicated. -/
theorem of_fd_dup2 (hf : (k.dup2 p n m).fd q i = some h) :
    k.fd q i = some h ∨ q = p ∧ i = m ∧ k.fd p n = some h := by
  rw [fd_dup2] at hf
  split_ifs at hf with e
  · exact (Option.or_eq_some_iff.mp hf).elim (fun hn => .inr ⟨e.1, e.2, hn⟩) fun hn => .inl hn.2
  · exact .inl hf

theorem of_fd_close (hf : (k.close p n).fd q i = some h) :
    k.fd q i = some h ∧ ¬(q = p ∧ i = n) := by
  rw [fd_close] at hf
  split_ifs at hf with e
  exact ⟨hf, e⟩

theorem of_fd_exit (hf : (k.exit p).fd q i = some h) : k.fd q i = some h ∧ q ≠ p := by
  rw [fd_exit] at hf
  split_ifs at hf with e
  exact ⟨hf, e⟩

theorem of_fd_fork (hf : (k.fork p o).fd q i = some h) :
    k.fd q i = some h ∨ q = k.next ∧ k.fd p i = some h := by
  rw [fd_fork] at hf
  split_ifs at hf with e
  · exact .inr ⟨e, hf⟩
  · exact .inl hf

@[simp] theorem next_change {f : Process H ι → Option (Process H ι)} :
    (k.change p f).next = k.next := List.length_modify ..

@[simp] theorem next_install : (k.install p n h).next = k.next := next_change

@[simp] theorem next_close : (k.close p n).next = k.next := next_change

@[simp] theorem next_exit : (k.exit p).next = k.next := next_change

@[simp] theorem next_dup2 : (k.dup2 p n m).next = k.next := by
  rw [dup2]
  split
  · exact next_install
  · rfl

@[simp] theorem next_fork : (k.fork p o).next = k.next + 1 := by
  rw [next, fork, List.length_append, List.length_singleton, next]

/-! ## New pipes -/

theorem fd_freeFd : k.fd p (k.freeFd p) = none := by
  rw [fd, freeFd]
  cases hp : k.proc? p with
  | none => rfl
  | some r => exact AList.lookup_eq_none.mpr (leastFree_notMem r.fds.keys)

@[simp] theorem origin_pipe {r w : H} : (k.pipe p r w).1.origin? q = k.origin? q := by
  rw [pipe, origin_install, origin_install]

@[simp] theorem next_pipe {r w : H} : (k.pipe p r w).1.next = k.next := by
  rw [pipe, next_install, next_install]

/-- The two numbers of a new pipe were free. -/
theorem fd_pipe_free {r w : H} (hp : k.origin? p = some o) :
    k.fd p (k.pipe p r w).2.1 = none ∧ k.fd p (k.pipe p r w).2.2 = none ∧
      (k.pipe p r w).2.1 ≠ (k.pipe p r w).2.2 := by
  have hb : (k.install p (k.freeFd p) r).fd p (k.pipe p r w).2.2 = none := fd_freeFd
  rw [fd_install hp] at hb
  split_ifs at hb with e
  exact ⟨fd_freeFd, hb, fun he => e ⟨rfl, he.symm⟩⟩

theorem fd_pipe {r w : H} (hp : k.origin? p = some o) :
    (k.pipe p r w).1.fd q i =
      if q = p ∧ i = (k.pipe p r w).2.1 then some r
      else if q = p ∧ i = (k.pipe p r w).2.2 then some w else k.fd q i := by
  obtain ⟨-, -, hne⟩ := fd_pipe_free (r := r) (w := w) hp
  rw [pipe] at hne ⊢
  rw [fd_install (o := o) (by rw [origin_install, hp]), fd_install hp]
  split_ifs with h₁ h₂ h₂
  · exact absurd (h₂.2.symm.trans h₁.2) hne
  · rfl
  · rfl
  · rfl

/-- What was open still is: the new numbers were free. -/
theorem fd_pipe_of_fd {r w : H} (hf : k.fd p n = some h) : (k.pipe p r w).1.fd p n = some h := by
  obtain ⟨o, hp⟩ := origin_of_fd hf
  obtain ⟨hr, hw, -⟩ := fd_pipe_free (r := r) (w := w) hp
  rw [fd_pipe hp, if_neg, if_neg, hf]
  · rintro ⟨-, e⟩
    rw [← e, hf] at hw
    cases hw
  · rintro ⟨-, e⟩
    rw [← e, hf] at hr
    cases hr

/-! ## Deciding -/

/-- What the descriptors of a process stand for. -/
def handles (k : Kernel H ι) (p : Pid) : List H :=
  match k.proc? p with
  | some q => q.fds.entries.map (·.2)
  | none => []

theorem mem_handles : h ∈ k.handles p ↔ ∃ n, k.fd p n = some h := by
  rw [handles]
  cases hp : k.proc? p with
  | none => simp [fd_of_proc? hp]
  | some q =>
    simp only [List.mem_map, fd, hp, Option.bind_some]
    constructor
    · rintro ⟨e, he, rfl⟩
      exact ⟨e.1, AList.mem_lookup_iff.mpr he⟩
    · rintro ⟨n, hn⟩
      exact ⟨⟨n, h⟩, AList.mem_lookup_iff.mp hn, rfl⟩

instance [DecidableEq H] : Decidable (k.Held h) :=
  decidable_of_iff (∃ p ∈ List.range k.next, h ∈ k.handles p) <| by
    constructor
    · rintro ⟨p, -, hp⟩
      exact ⟨p, mem_handles.mp hp⟩
    · rintro ⟨p, n, hn⟩
      exact ⟨p, List.mem_range.mpr (lt_next_of_fd hn), mem_handles.mpr ⟨n, hn⟩⟩

instance [DecidableEq ι] : Decidable (k.HasOrigin o) :=
  decidable_of_iff (∃ p ∈ List.range k.next, k.origin? p = some o) <| by
    constructor
    · rintro ⟨p, -, hp⟩
      exact ⟨p, hp⟩
    · rintro ⟨p, hp⟩
      exact ⟨p, List.mem_range.mpr (lt_next_of_origin hp), hp⟩

end Kernel

end MikanJudge.Lib

import MikanJudge.Lib.Transition
import Mathlib.Algebra.Order.Group.Multiset
import Mathlib.Data.Multiset.UnionInter
import Mathlib.Tactic.Abel

/-!
# A work queue

Items are created, wait, are taken by a worker, started and finished; at any
time some may be dropped. Whatever the interleaving, an item that is created
once is taken at most once (`taken_nodup`), what is seen of it happens in this
order (`life_of_run`), and it is never in two places. Starting and finishing
may leave no mark (`ok = false`, no result).
-/

namespace MikanJudge.Lib

/-- The items known, those that wait, and those worked on, with whether they
have been started. -/
@[ext] structure WorkQueue (ι : Type*) where
  known : Set ι
  waiting : Multiset ι
  working : Multiset (ι × Bool)

namespace WorkQueue

open scoped List

variable {ι β : Type*}

inductive Label (ι β : Type*) where
  | create (i : ι)
  | take (i : ι)
  | start (i : ι) (ok : Bool)
  | finish (i : ι) (result : Option β)
  | drop (items : List ι)

/-- The items that leave the queue without a result. -/
def Label.lost : Label ι β → List ι
  | drop items => items
  | finish i none => [i]
  | _ => []

/-- Where the items are. -/
def places (q : WorkQueue ι) : Multiset ι := q.waiting + q.working.map (·.1)

inductive Step : WorkQueue ι → Label ι β → WorkQueue ι → Prop
  | create {q q' : WorkQueue ι} {i : ι} : i ∉ q.known → q'.known = insert i q.known →
    q'.waiting = i ::ₘ q.waiting → q'.working = q.working → Step q (.create i) q'
  | take {q q' : WorkQueue ι} {i : ι} : q'.known = q.known → q.waiting = i ::ₘ q'.waiting →
    q'.working = (i, false) ::ₘ q.working → Step q (.take i) q'
  | start {q q' : WorkQueue ι} {i : ι} {ok : Bool} {rest : Multiset (ι × Bool)} :
    q'.known = q.known → q'.waiting = q.waiting → q.working = (i, false) ::ₘ rest →
    q'.working = (i, true) ::ₘ rest → Step q (.start i ok) q'
  | finish {q q' : WorkQueue ι} {i : ι} {result : Option β} :
    q'.known = q.known → q'.waiting = q.waiting → q.working = (i, true) ::ₘ q'.working →
    Step q (.finish i result) q'
  | drop {q q' : WorkQueue ι} {items : List ι} : q'.known = q.known → q'.waiting ≤ q.waiting →
    q'.working ≤ q.working → q.places = q'.places + items → Step q (.drop items) q'

/-- What is known stays known. -/
theorem Step.known_subset {q q' : WorkQueue ι} {l : Label ι β} (h : Step q l q') :
    q.known ⊆ q'.known := by
  cases h with
  | create _ hk => exact hk ▸ Set.subset_insert _ _
  | take hk | start hk | finish hk | drop hk => exact hk.ge

/-- The queue as a transition system, from a state in which nothing waits or
is worked on. -/
def system (ι β : Type*) : System (WorkQueue ι) (Option (Label ι β)) where
  init q := q.waiting = 0 ∧ q.working = 0
  step q l q' := ∃ l', l = some l' ∧ Step q l' q'

/-! ## No item is in two places -/

structure Inv (q : WorkQueue ι) : Prop where
  nodup : q.places.Nodup
  known : ∀ i ∈ q.places, i ∈ q.known

theorem mem_places {q : WorkQueue ι} {i : ι} :
    i ∈ q.places ↔ i ∈ q.waiting ∨ ∃ b, (i, b) ∈ q.working := by
  rw [places, Multiset.mem_add, Multiset.mem_map]
  refine or_congr_right ⟨?_, fun ⟨b, hb⟩ => ⟨(i, b), hb, rfl⟩⟩
  rintro ⟨⟨j, b⟩, hb, rfl⟩
  exact ⟨b, hb⟩

/-- What comes into the queue. -/
def Label.entering : Label ι β → Multiset ι
  | create i => {i}
  | take _ | start _ _ | finish _ _ | drop _ => 0

/-- What goes out of it. -/
def Label.leaving : Label ι β → Multiset ι
  | finish i _ => {i}
  | drop items => items
  | create _ | take _ | start _ _ => 0

/-- Apart from what enters and what leaves, the items in the queue stay. -/
theorem Step.places_add {q q' : WorkQueue ι} {l : Label ι β} (h : Step q l q') :
    q'.places + l.leaving = q.places + l.entering := by
  cases h with
  | create _ _ hw hv =>
    rw [Label.leaving, Label.entering, places, hw, hv, places, ← Multiset.singleton_add]
    abel
  | take _ hw hv =>
    rw [Label.leaving, Label.entering, places, places, hw, hv, Multiset.map_cons,
      Multiset.cons_add, Multiset.add_cons]
  | start _ hw hv hv' =>
    rw [Label.leaving, Label.entering, places, places, hw, hv, hv', Multiset.map_cons,
      Multiset.map_cons]
  | finish _ hw hv =>
    rw [Label.leaving, Label.entering, places, places, hw, hv, Multiset.map_cons,
      ← Multiset.singleton_add]
    abel
  | drop _ _ _ hp => rw [Label.leaving, Label.entering, hp, add_zero]

/-- What is in the queue after a step was there before or has just entered. -/
theorem Step.places_le {q q' : WorkQueue ι} {l : Label ι β} (h : Step q l q') :
    q'.places ≤ q.places + l.entering := h.places_add ▸ Multiset.le_add_right _ _

theorem Step.inv {q q' : WorkQueue ι} {l : Label ι β} (h : Step q l q') (hq : q.Inv) : q'.Inv := by
  have hle := h.places_le
  have keep : q'.known = q.known → q'.places ≤ q.places → q'.Inv := fun hk hp =>
    ⟨Multiset.nodup_of_le hp hq.nodup, fun j hj => hk ▸ hq.known j (Multiset.mem_of_le hp hj)⟩
  cases h with
  | create hi hk hw hv =>
    rw [Label.entering, add_comm, Multiset.singleton_add] at hle
    refine ⟨Multiset.nodup_of_le hle ?_, fun j hj => ?_⟩
    · exact Multiset.nodup_cons.mpr ⟨fun hm => hi (hq.known _ hm), hq.nodup⟩
    · rw [hk]
      exact (Multiset.mem_cons.mp (Multiset.mem_of_le hle hj)).elim
        (fun e => e ▸ Set.mem_insert _ _) fun hj => Set.mem_insert_of_mem _ (hq.known j hj)
  | take hk _ _ => exact keep hk (add_zero q.places ▸ hle)
  | start hk _ _ _ => exact keep hk (add_zero q.places ▸ hle)
  | finish hk _ _ => exact keep hk (add_zero q.places ▸ hle)
  | drop hk _ _ _ => exact keep hk (add_zero q.places ▸ hle)

theorem inv_of_init {q : WorkQueue ι} (h : q.waiting = 0 ∧ q.working = 0) : q.Inv := by
  have : q.places = 0 := by rw [places, h.1, h.2]; rfl
  exact ⟨this ▸ Multiset.nodup_zero, fun i hi => by rw [this] at hi; exact absurd hi (Multiset.notMem_zero i)⟩

/-! ## An item is taken at most once -/

def Label.taken : Label ι β → Option ι
  | take i => some i
  | _ => none

/-- The items taken, in order. -/
def taken (ls : List (Label ι β)) : List ι := ls.filterMap Label.taken

/-- What waits, with what was taken. -/
structure TakenInv (q : WorkQueue ι) (ids : List ι) : Prop where
  nodup : (q.waiting + ids).Nodup
  known : ∀ i ∈ q.waiting + ids, i ∈ q.known

theorem Step.takenInv {q q' : WorkQueue ι} {l : Label ι β} (h : Step q l q') {ids : List ι}
    (hq : TakenInv q ids) : TakenInv q' (ids ++ l.taken.toList) := by
  have keep : q'.known = q.known → q'.waiting ≤ q.waiting → TakenInv q' (ids ++ []) := fun hk hw => by
    rw [List.append_nil]
    have hle : q'.waiting + ids ≤ q.waiting + ids := by gcongr
    exact ⟨Multiset.nodup_of_le hle hq.nodup, fun j hj => hk ▸ hq.known j (Multiset.mem_of_le hle hj)⟩
  cases h with
  | create hi hk hw _ =>
    rw [show (Label.create _ : Label ι β).taken = none from rfl, Option.toList_none, List.append_nil]
    refine ⟨?_, fun j hj => ?_⟩
    · rw [hw, Multiset.cons_add, Multiset.nodup_cons]
      exact ⟨fun hm => hi (hq.known _ hm), hq.nodup⟩
    · rw [hw, Multiset.cons_add, Multiset.mem_cons] at hj
      rw [hk]
      exact hj.elim (fun e => e ▸ Set.mem_insert _ _) fun hj =>
        Set.mem_insert_of_mem _ (hq.known j hj)
  | take hk hw hv =>
    rename_i i
    have e : q'.waiting + ((ids ++ [i] : List ι) : Multiset ι) = q.waiting + ids := by
      rw [hw, ← Multiset.coe_add, Multiset.coe_singleton, add_comm (ids : Multiset ι), ← add_assoc,
        add_comm q'.waiting, Multiset.singleton_add]
    exact ⟨e ▸ hq.nodup, fun j hj => hk ▸ hq.known j (e ▸ hj)⟩
  | start hk hw _ _ => exact keep hk (le_of_eq hw)
  | finish hk hw _ => exact keep hk (le_of_eq hw)
  | drop hk hw _ _ => exact keep hk hw

/-- In every run, the items taken are pairwise distinct. -/
theorem taken_nodup {q q' : WorkQueue ι} {tr : List (WorkQueue ι × Option (Label ι β))}
    (hq : (system ι β).init q) (h : (system ι β).Run q tr q') :
    (taken (tr.filterMap (·.2))).Nodup := by
  have hinv := h.history (I := fun tr q => TakenInv q (taken (tr.filterMap (·.2)))) ?_ ?_
  · exact (Multiset.nodup_add.mp hinv.nodup).2.1
  · refine ⟨?_, fun i hi => ?_⟩
    · rw [hq.1]; exact Multiset.nodup_zero
    · rw [hq.1] at hi; exact absurd hi (Multiset.notMem_zero i)
  · rintro tr q l q' hq ⟨l', rfl, hst⟩
    rw [filterMap_snoc, Option.toList_some, taken, filterMap_snoc]
    exact hst.takenInv hq

/-! ## What is seen of an item -/

/-- A mark an item leaves. -/
inductive Mark (β : Type*) where
  | created
  | started
  | finished (result : β)

section

variable [DecidableEq ι] {i : ι}

def Label.mark (i : ι) : Label ι β → Option (Mark β)
  | create j => if j = i then some .created else none
  | start j ok => if j = i ∧ ok = true then some .started else none
  | finish j result => if j = i then result.map .finished else none
  | take _ | drop _ => none

/-- The marks of an item, in order. -/
def life (i : ι) (ls : List (Label ι β)) : List (Mark β) := ls.filterMap (Label.mark i)

/-- Where an item is tells what may have been seen of it. -/
structure LifeInv (q : WorkQueue ι) (i : ι) (m : List (Mark β)) : Prop where
  unknown : i ∉ q.known → m = []
  waiting : i ∈ q.waiting → m <+ [.created]
  taken : (i, false) ∈ q.working → m <+ [.created]
  started : (i, true) ∈ q.working → m <+ [.created, .started]
  always : m <+ [.created, .started] ∨ ∃ result, m <+ [.created, .started, .finished result]

omit [DecidableEq ι] in
/-- An item nothing is done to, unless it is dropped. -/
theorem LifeInv.mono {q q' : WorkQueue ι} {m : List (Mark β)} (h : LifeInv q i m)
    (hk : i ∉ q'.known → i ∉ q.known) (hw : i ∈ q'.waiting → i ∈ q.waiting)
    (hv : ∀ b, (i, b) ∈ q'.working → (i, b) ∈ q.working) : LifeInv q' i m :=
  ⟨fun hi => h.unknown (hk hi), fun hi => h.waiting (hw hi), fun hi => h.taken (hv _ hi),
    fun hi => h.started (hv _ hi), h.always⟩

omit [DecidableEq ι] in
/-- An item worked on is nowhere else. -/
theorem Inv.alone {q : WorkQueue ι} (hq : q.Inv) {b : Bool} {rest : Multiset (ι × Bool)}
    (hv : q.working = (i, b) ::ₘ rest) : i ∉ q.waiting ∧ ∀ b', (i, b') ∉ rest := by
  have hn := hq.nodup
  rw [places, hv, Multiset.map_cons, Multiset.add_cons, Multiset.nodup_cons, Multiset.mem_add,
    not_or] at hn
  exact ⟨hn.1.1, fun b' hb => hn.1.2 (Multiset.mem_map.mpr ⟨_, hb, rfl⟩)⟩

theorem Step.lifeInv {q q' : WorkQueue ι} {l : Label ι β} (h : Step q l q') (hq : q.Inv)
    {m : List (Mark β)} (hm : LifeInv q i m) : LifeInv q' i (m ++ (l.mark i).toList) := by
  cases h with
  | create hj hk hw hv =>
    rename_i j
    by_cases hji : j = i
    · subst hji
      rw [Label.mark, if_pos rfl, hm.unknown hj, List.nil_append, Option.toList_some]
      have hs : [Mark.created] <+ ([.created, .started] : List (Mark β)) := by simp
      exact ⟨fun hi => absurd (hk ▸ Set.mem_insert _ _) hi, fun _ => .refl _, fun _ => .refl _,
        fun _ => hs, .inl hs⟩
    · rw [Label.mark, if_neg hji, Option.toList_none, List.append_nil]
      refine hm.mono (fun hi hi' => hi (hk ▸ Set.mem_insert_of_mem _ hi')) (fun hi => ?_)
        fun b hb => hv ▸ hb
      rw [hw, Multiset.mem_cons] at hi
      exact hi.resolve_left fun e => hji e.symm
  | take hk hw hv =>
    rename_i j
    rw [Label.mark, Option.toList_none, List.append_nil]
    refine ⟨fun hi => hm.unknown (hk ▸ hi), fun hi => ?_, fun hi => ?_, fun hi => ?_, hm.always⟩
    · exact hm.waiting (hw ▸ Multiset.mem_cons_of_mem hi)
    · rw [hv, Multiset.mem_cons, Prod.mk.injEq] at hi
      rcases hi with ⟨rfl, -⟩ | hi
      · exact hm.waiting (hw ▸ Multiset.mem_cons_self _ _)
      · exact hm.taken hi
    · rw [hv, Multiset.mem_cons, Prod.mk.injEq] at hi
      exact hm.started (hi.resolve_left fun e => Bool.noConfusion e.2)
  | start hk hw hv hv' =>
    rename_i j ok rest
    by_cases hji : j = i
    · subst hji
      obtain ⟨hnw, hnv⟩ := hq.alone hv
      have hknown : j ∈ q.known :=
        hq.known j (mem_places.mpr (.inr ⟨false, hv ▸ Multiset.mem_cons_self _ _⟩))
      have hs : m ++ ((Label.start j ok : Label ι β).mark j).toList <+ [.created, .started] := by
        have h₁ := hm.taken (hv ▸ Multiset.mem_cons_self _ _)
        cases ok with
        | true => simpa [Label.mark] using h₁.append_right [Mark.started]
        | false => simpa [Label.mark] using h₁.trans (by simp)
      refine ⟨fun hi => absurd (hk ▸ hknown) hi, fun hi => absurd (hw ▸ hi) hnw, fun hi => ?_,
        fun _ => hs, .inl hs⟩
      rw [hv', Multiset.mem_cons, Prod.mk.injEq] at hi
      exact absurd (hi.resolve_left fun e => Bool.noConfusion e.2) (hnv _)
    · rw [Label.mark, if_neg fun e => hji e.1, Option.toList_none, List.append_nil]
      refine hm.mono (fun hi => hk ▸ hi) (fun hi => hw ▸ hi) fun b hb => ?_
      rw [hv', Multiset.mem_cons, Prod.mk.injEq] at hb
      rw [hv]
      exact Multiset.mem_cons_of_mem (hb.resolve_left fun e => hji e.1.symm)
  | finish hk hw hv =>
    rename_i j result
    by_cases hji : j = i
    · subst hji
      obtain ⟨hnw, hnv⟩ := hq.alone hv
      have hknown : j ∈ q.known :=
        hq.known j (mem_places.mpr (.inr ⟨true, hv ▸ Multiset.mem_cons_self _ _⟩))
      have h₁ := hm.started (hv ▸ Multiset.mem_cons_self _ _)
      refine ⟨fun hi => absurd (hk ▸ hknown) hi, fun hi => absurd (hw ▸ hi) hnw,
        fun hi => absurd hi (hnv _), fun hi => absurd hi (hnv _), ?_⟩
      cases result with
      | some r => exact .inr ⟨r, by simpa [Label.mark] using h₁.append_right [Mark.finished r]⟩
      | none => exact .inl (by simpa [Label.mark] using h₁)
    · rw [Label.mark, if_neg hji, Option.toList_none, List.append_nil]
      refine hm.mono (fun hi => hk ▸ hi) (fun hi => hw ▸ hi) fun b hb => ?_
      rw [hv]
      exact Multiset.mem_cons_of_mem hb
  | drop hk hw hv _ =>
    rw [Label.mark, Option.toList_none, List.append_nil]
    exact hm.mono (fun hi => hk ▸ hi) (fun hi => Multiset.mem_of_le hw hi)
      fun b hb => Multiset.mem_of_le hv hb

/-- In every run, what is seen of an item is that it is created, started and
finished, in this order and each at most once. -/
theorem life_of_run {q q' : WorkQueue ι} {tr : List (WorkQueue ι × Option (Label ι β))}
    (hq : (system ι β).init q) (h : (system ι β).Run q tr q') (i : ι) :
    life i (tr.filterMap (·.2)) <+ [.created, .started] ∨
      ∃ result, life i (tr.filterMap (·.2)) <+ [.created, .started, .finished result] := by
  have hinv := h.history (I := fun tr q => q.Inv ∧ LifeInv q i (life i (tr.filterMap (·.2)))) ?_ ?_
  · exact hinv.2.always
  · refine ⟨inv_of_init hq, fun _ => rfl, fun _ => List.nil_sublist _, fun _ => List.nil_sublist _,
      fun _ => List.nil_sublist _, .inl (List.nil_sublist _)⟩
  · rintro tr q l q' ⟨hq, hm⟩ ⟨l', rfl, hst⟩
    rw [filterMap_snoc, Option.toList_some, life, filterMap_snoc]
    exact ⟨hst.inv hq, hst.lifeInv hq hm⟩

end

end WorkQueue

end MikanJudge.Lib

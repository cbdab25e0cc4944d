import MikanJudge.Proof.Paging
import Mathlib.Data.List.Perm.Subperm

/-!
# Paging through the submissions

The lists of a contest's submissions are fetched page by page, each page by a
query of its own. `ORDER BY s.created_at DESC` leaves open how submissions
inserted at the same time are ordered (`RowOrder`), for each query anew. So the
pages hold every submission once exactly if no page ends between two that were
inserted at the same time (`pagesComplete_iff`).
-/

namespace MikanJudge

open MikanJudge.Lib

namespace Db

variable (db : Db) (contestId : String)

/-- A page of `list_for_contest`, or of `list_for_contest_by_user`. -/
def listPage (order : RowOrder SubmissionRow) (page : Int) :
    Option Uuid → List SubmissionListRow
  | none => db.listForContest order contestId page perPage
  | some userId => db.listForContestByUser order contestId userId page perPage

/-- `count_for_contest`, or `count_for_contest_by_user`. -/
def countRows : Option Uuid → Int
  | none => db.countForContest contestId
  | some userId => db.countForContestByUser contestId userId

/-- Fetching all pages gives every submission once, in whatever order each
query gives the submissions it may order as it likes. -/
def PagesComplete (userId : Option Uuid) : Prop :=
  ∀ orders : Nat → RowOrder SubmissionRow,
    ((List.range (totalPages (db.countRows contestId userId)).toNat).flatMap fun (i : Nat) =>
      (db.listPage contestId (orders i) (i + 1) userId).map (·.id)).Perm
      ((db.contestRows contestId userId).map (·.id))

end Db

/-- The submissions come by this, the latest first. -/
def latestKey (r : SubmissionRow) : Timeᵒᵈ := OrderDual.toDual r.createdAt

section

variable {db : Db} {contestId : String} {userId : Option Uuid}

/-- The rows in the order of a query. -/
def sortedRows (rows : List SubmissionRow) (order : RowOrder SubmissionRow) : List SubmissionRow :=
  (order.arrange rows).insertionSort fun a b => b.createdAt ≤ a.createdAt

theorem sortedBy_sortedRows (rows : List SubmissionRow) (order : RowOrder SubmissionRow) :
    SortedBy latestKey rows (sortedRows rows order) where
  perm := (List.perm_insertionSort _ _).trans (order.perm rows)
  sorted := by
    let r : SubmissionRow → SubmissionRow → Prop := fun a b => b.createdAt ≤ a.createdAt
    have htotal : Std.Total r := ⟨fun a b => le_total b.createdAt a.createdAt⟩
    have htrans : IsTrans SubmissionRow r := ⟨fun _ _ _ hab hbc => le_trans hbc hab⟩
    exact List.pairwise_insertionSort r (order.arrange rows)

/-- Any list of the rows by time is the order of some query. -/
theorem exists_sortedRows_eq {rows l : List SubmissionRow} (h : SortedBy latestKey rows l) :
    ∃ order, sortedRows rows order = l := by
  refine ⟨⟨fun rows' => if rows' = rows then l else rows', fun rows' => ?_⟩, ?_⟩
  · split_ifs with heq
    · rw [heq]
      exact h.perm
    · exact .refl _
  · rw [sortedRows]
    simp only [if_pos]
    exact List.Pairwise.insertionSort_eq h.sorted

theorem countRows_eq : db.countRows contestId userId = (db.contestRows contestId userId).length := by
  cases userId <;> rfl

theorem map_id_listRow (db : Db) (rows : List SubmissionRow) :
    (rows.map db.listRow).map (·.id) = rows.map (·.id) := by
  rw [List.map_map]
  rfl

/-- A page holds the ids of a window of the rows. -/
theorem map_id_listPage (order : RowOrder SubmissionRow) (i : Nat) :
    (db.listPage contestId order (i + 1) userId).map (·.id) =
      (window 20 (sortedRows (db.contestRows contestId userId) order) i).map (·.id) := by
  have hoffset : (((i : Int) + 1 - 1) * perPage).toNat = i * 20 := by
    rw [perPage]
    omega
  have hpage : db.listPage contestId order (i + 1) userId =
      db.latestRows order (db.contestRows contestId userId) (i + 1) perPage := by
    cases userId <;> rfl
  rw [hpage, Db.latestRows, map_id_listRow, hoffset]
  rfl

theorem map_flatMap_window (orders : Nat → RowOrder SubmissionRow) (n : Nat) :
    ((List.range n).flatMap fun (i : Nat) =>
      (db.listPage contestId (orders i) (i + 1) userId).map (·.id)) =
    ((List.range n).flatMap fun i =>
      window 20 (sortedRows (db.contestRows contestId userId) (orders i)) i).map (·.id) := by
  simp only [map_id_listPage, List.map_flatMap]

/-- The rows are told apart by their ids. -/
theorem perm_of_map_id_perm {rows l : List SubmissionRow} (hids : (rows.map (·.id)).Nodup)
    (hmem : ∀ r ∈ l, r ∈ rows) (h : (l.map (·.id)).Perm (rows.map (·.id))) : l.Perm rows := by
  have hnodup : l.Nodup := (h.nodup_iff.mpr hids).of_map
  have hsub : l.Subperm rows := hnodup.subperm hmem
  refine hsub.perm_of_length_le ?_
  have hlen := h.length_eq
  rw [List.length_map, List.length_map] at hlen
  exact hlen.ge

end

/-- The pages of a contest's submissions, or of those of a user, hold each of
them once exactly if those inserted at the same time all fall to one page. -/
theorem pagesComplete_iff (db : Db) (contestId : String) (userId : Option Uuid)
    (hids : (db.submissions.map (·.id)).Nodup) :
    db.PagesComplete contestId userId ↔
      Unsplit 20 latestKey (db.contestRows contestId userId) := by
  have hrows : ((db.contestRows contestId userId).map (·.id)).Nodup :=
    hids.sublist (List.filter_sublist.map _)
  have hlen : (db.contestRows contestId userId).length ≤
      (totalPages (db.countRows contestId userId)).toNat * 20 := by
    rw [countRows_eq]
    exact length_le_totalPages _
  have hsorted : ∃ l, SortedBy latestKey (db.contestRows contestId userId) l :=
    ⟨_, sortedBy_sortedRows _ (.table _)⟩
  rw [← forall_windows_perm_iff (by decide) hrows.of_map hlen hsorted, Db.PagesComplete]
  constructor
  · intro h order horder
    choose orders horders using fun p => exists_sortedRows_eq (horder p)
    have hperm := h orders
    rw [map_flatMap_window] at hperm
    simp only [horders] at hperm
    refine perm_of_map_id_perm hrows (fun r hr => ?_) hperm
    obtain ⟨p, -, hr⟩ := List.mem_flatMap.mp hr
    obtain ⟨i, -, hi⟩ := (mem_window (by decide)).mp hr
    exact (horder p).perm.subset (List.mem_iff_getElem?.mpr ⟨i, hi⟩)
  · intro h orders
    rw [map_flatMap_window]
    exact (h _ fun p => sortedBy_sortedRows _ (orders p)).map _

/-- A submission with an id, inserted at a time. -/
def submittedAt (id : Fin 21) (createdAt : Time) : SubmissionRow where
  id := ⟨id, by omega⟩
  problemId := "a"
  userId := none
  contestId := some "c"
  language := "cpp"
  sourceCode := ""
  status := "pending"
  timeUsedMs := none
  memoryUsedKb := none
  stdout := none
  stderr := none
  testcaseResults := none
  score := none
  createdAt := createdAt

/-- Tables with 21 submissions, each with the time it was inserted. -/
def submittedDb (createdAt : Fin 21 → Time) : Db where
  users := []
  contests := [⟨"c", "C", "", 0, 1, "exact"⟩]
  contestProblems := []
  submissions := (List.finRange 21).map fun id => submittedAt id (createdAt id)

/-- Submissions inserted at 21 times. -/
theorem pagesComplete_spaced :
    (submittedDb fun id => id.val).PagesComplete "c" none ↔
      Unsplit 20 latestKey ((submittedDb fun id => id.val).contestRows "c" none) :=
  pagesComplete_iff _ _ _ (by decide)

example : Unsplit 20 latestKey ((submittedDb fun id => id.val).contestRows "c" none) := by decide

/-- Of 21 submissions the two that were inserted first came at the same time:
the query for the second page may give the one that was on the first page. -/
theorem pagesComplete_fails :
    let db := submittedDb fun id => max id.val 1
    (db.submissions.map (·.id)).Nodup ∧ ¬ db.PagesComplete "c" none := by
  refine ⟨by decide, fun h => ?_⟩
  have hperm := h fun i => if i = 0 then .table _ else ⟨List.reverse, List.reverse_perm⟩
  have hcount := hperm.count_eq 0
  revert hcount
  decide +kernel

end MikanJudge

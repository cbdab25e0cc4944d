import MikanJudge.Proof.Hidden
import MikanJudge.Proof.Paging
import MikanJudge.Proof.UserRows

/-!
# The columns of the standings

The cells of a row are those of all problems of the contest
(`labels_of_mem_standingRows`), the headers those of the problems that load: one that
does not load loses its header, and the cells after it stand one column to the
right. So the columns line up exactly if all problems load, or no user has a
row (`linesUp_contestStandings_iff`).
-/

namespace MikanJudge

open MikanJudge.Lib

/-- The entries of a list. -/
def entries : Option Json → List Json
  | some (.arr items) => items
  | _ => []

/-- Each row of the table has a cell for each header, with the header's label. -/
def Response.LinesUp (r : Response) : Prop :=
  ∀ row ∈ entries (r.field "standings"),
    List.Forall₂ (fun cell header => Json.get? "label" cell = Json.get? "label" header)
      (entries (row.get? "problems")) (entries (r.field "problem_headers"))

section

variable {ext : Externals} {app : AppState} {db : Db} {order : HashOrder} {contest : Contest}
  {contestId : String}

/-! ## Cells and headers -/

/-- The cells of a row, by the problems of the contest. -/
theorem labels_of_mem_standingRows {row : StandingRow}
    (h : row ∈ standingRows ext app db order contest contestId) :
    row.problems.map (·.label) = (db.problemsForContest contestId).map (·.label) := by
  obtain ⟨r, hr, hrow⟩ := mem_standingRows_raw h
  have hlabels : r.row.problems.map (·.label) =
      (db.problemsForContest contestId).map (·.label) := by
    rw [rawRows] at hr
    split_ifs at hr
    all_goals
      obtain ⟨ud, -, rfl⟩ := List.mem_map.mp hr
      exact List.map_map
  rw [hrow]
  exact hlabels

theorem labels_problemHeaders (cpList : List ContestProblem) :
    (problemHeaders ext app cpList).map (Json.get? "label") =
      (cpList.filter fun cp => app.loads ext cp.problemId).map fun cp => some (.str cp.label) := by
  rw [problemHeaders, List.map_filterMap, ← List.filterMap_eq_map, List.filterMap_filter]
  refine List.filterMap_congr fun cp _ => ?_
  rw [AppState.loads]
  cases (loadOne ext app.fs app.problemsDir cp.problemId).result <;> rfl

theorem forall₂_iff_map_eq {α β γ : Type} {f : α → γ} {g : β → γ} {l : List α} {m : List β} :
    List.Forall₂ (fun a b => f a = g b) l m ↔ l.map f = m.map g := by
  rw [← List.forall₂_eq_eq_eq, List.forall₂_map_left_iff, List.forall₂_map_right_iff]

/-- The labels of the cells are those of the headers exactly if all problems load. -/
theorem labels_eq_iff {cpList : List ContestProblem} {cells : List ProblemCell}
    (h : cells.map (·.label) = cpList.map (·.label)) :
    List.Forall₂ (fun cell header => Json.get? "label" cell = Json.get? "label" header)
        (cells.map ProblemCell.toJson) (problemHeaders ext app cpList) ↔
      ∀ cp ∈ cpList, app.loads ext cp.problemId = true := by
  have hcells : (cells.map ProblemCell.toJson).map (Json.get? "label") =
      cpList.map fun cp => some (.str cp.label) := by
    have hstr := congrArg (List.map fun label => some (Json.str label)) h
    rw [List.map_map, List.map_map] at hstr
    rw [List.map_map]
    exact hstr
  rw [forall₂_iff_map_eq, hcells, labels_problemHeaders]
  constructor
  · intro heq
    have hlen := congrArg List.length heq
    rw [List.length_map, List.length_map, eq_comm, List.length_filter_eq_length_iff] at hlen
    exact hlen
  · intro hall
    rw [List.filter_eq_self.mpr hall]

/-! ## Empty standings -/

theorem countedRows_eq_nil_iff {V : Type} {status : String} {value : SubmissionRow → Option V} :
    db.countedRows contestId status value = [] ↔ db.participants contestId status value = [] := by
  rw [List.eq_nil_iff_forall_not_mem, List.eq_nil_iff_forall_not_mem]
  constructor
  · intro h us hus
    obtain ⟨hus, hany⟩ := List.mem_filter.mp hus
    obtain ⟨r, hr, hP⟩ := List.any_eq_true.mp hany
    simp only [Bool.and_eq_true, beq_iff_eq] at hP
    obtain ⟨⟨⟨hc, hst⟩, hu⟩, hv⟩ := hP
    obtain ⟨v, hv⟩ := Option.isSome_iff_exists.mp hv
    obtain ⟨k, hk⟩ := isSome_groupKey ⟨us, hus, hu⟩
    exact h (k, v) (mem_countedRows.mpr ⟨r, ⟨hr, hc, hst, us, hus, hu⟩, hk, hv⟩)
  · rintro h ⟨k, v⟩ hkv
    obtain ⟨r, ⟨hr, hc, hst, us, hus, hu⟩, -, hv⟩ := mem_countedRows.mp hkv
    refine h us (List.mem_filter.mpr ⟨hus, List.any_eq_true.mpr ⟨r, hr, ?_⟩⟩)
    simp only [hc, hst, hu, hv, BEq.rfl, Bool.and_self, Option.isSome_some]

/-- The map lists a user exactly if there is a result. -/
theorem values_userMap_eq_nil_iff {V : Type} {rows : List (ResultRow V)} :
    order.values (userMap rows) = [] ↔ rows = [] := by
  have hmap := mapOf_userMap rows
  constructor
  · intro h
    rw [List.eq_nil_iff_forall_not_mem]
    intro row hrow
    have hkey : row.userId ∈ order.iterate ((userMap rows).map (·.1)) :=
      (order.perm _).mem_iff.mpr ((hmap.keys _).mpr ⟨row, hrow, rfl⟩)
    rw [HashOrder.values, List.filterMap_eq_nil_iff] at h
    exact hmap.not_mem (h _ hkey) row hrow rfl
  · rintro rfl
    have hnil : order.iterate ([] : List Uuid) = [] := (order.perm []).eq_nil
    rw [HashOrder.values, userMap, List.foldl_nil, List.map_nil, hnil]
    rfl

/-- No user has a row exactly if no submission counts. -/
theorem standingRows_eq_nil_iff :
    standingRows ext app db order contest contestId = [] ↔
      db.standingUsers contest contestId = [] := by
  have hraw : standingRows ext app db order contest contestId = [] ↔
      rawRows ext app db order contest contestId = [] := by
    rw [← List.length_eq_zero_iff, ← List.length_eq_zero_iff,
      ← List.length_map (fun row : StandingRow => row.username), map_standingRows fun _ => rfl,
      List.length_map, sortRows, List.length_insertionSort]
  rw [hraw, rawRows, Db.standingUsers]
  split_ifs
  · rw [List.map_eq_nil_iff, values_userMap_eq_nil_iff, Db.bestScoresForContest,
      List.map_eq_nil_iff, groupBy_eq_nil_iff rfl fun vs hvs => ?_, countedRows_eq_nil_iff]
    rwa [← List.isSome_max?_iff] at hvs
  · rw [List.map_eq_nil_iff, values_userMap_eq_nil_iff, Db.firstAcsForContest,
      List.map_eq_nil_iff, groupBy_eq_nil_iff rfl fun vs hvs => ?_, countedRows_eq_nil_iff]
    rwa [← List.isSome_min?_iff] at hvs

/-! ## The page -/

theorem linesUp_of_field_eq_none {r : Response} (h : r.field "standings" = none) : r.LinesUp := by
  intro row hrow
  rw [h] at hrow
  exact absurd hrow List.not_mem_nil

theorem mem_of_mem_pageRows {α : Type} {rows : List α} {page : Int} {row : α}
    (h : row ∈ pageRows rows page) : row ∈ rows :=
  List.mem_of_mem_drop (List.mem_of_mem_take h)

theorem linesUp_standings_iff (session : SessionRecord) (now : Time) (page : Option Int)
    (hc : db.getContest contestId = .ok (some contest)) (hnow : contest.status now ≠ .upcoming) :
    (contestStandings ext app db order session now contestId page).LinesUp ↔
      ∀ row ∈ pageRows (standingRows ext app db order contest contestId)
        (clampPage page (totalPages (standingRows ext app db order contest contestId).length)),
        List.Forall₂ (fun cell header => Json.get? "label" cell = Json.get? "label" header)
          (row.problems.map ProblemCell.toJson)
          (problemHeaders ext app (db.problemsForContest contestId)) := by
  unfold contestStandings
  rw [hc]
  dsimp only
  rw [if_neg hnow]
  exact List.forall_mem_map

end

/-- In the page of a contest that has started, every row has a cell for each header,
with the same label, exactly if all problems of the contest load or no user has a row. -/
theorem linesUp_contestStandings_iff (ext : Externals) (app : AppState) (db : Db) (order : HashOrder)
    (session : SessionRecord) (now : Time) (contestId : String) (page : Option Int) :
    (contestStandings ext app db order session now contestId page).LinesUp ↔
      ∀ contest, db.getContest contestId = .ok (some contest) → contest.status now ≠ .upcoming →
        (∀ cp ∈ db.problemsForContest contestId, app.loads ext cp.problemId = true) ∨
          db.standingUsers contest contestId = [] := by
  constructor
  · intro h contest hc hnow
    rw [linesUp_standings_iff session now page hc hnow] at h
    by_cases hrows : standingRows ext app db order contest contestId = []
    · exact .inr (standingRows_eq_nil_iff.mp hrows)
    · -- some page is shown, and none is empty: a row of it is enough
      have hpage := mt (pageRows_eq_nil_iff (one_le_clampPage page _) (clampPage_le page _)).mp hrows
      obtain ⟨row, hrow⟩ := List.exists_mem_of_ne_nil _ hpage
      have hlabels := labels_of_mem_standingRows (mem_of_mem_pageRows hrow)
      exact .inl ((labels_eq_iff hlabels).mp (h row hrow))
  · intro h
    cases hc : db.getContest contestId with
    | error e => exact linesUp_of_field_eq_none (by rw [contestStandings, hc]; rfl)
    | ok found =>
      cases found with
      | none => exact linesUp_of_field_eq_none (by rw [contestStandings, hc]; rfl)
      | some contest =>
        by_cases hnow : contest.status now = .upcoming
        · refine linesUp_of_field_eq_none ?_
          rw [contestStandings, hc]
          dsimp only
          rw [if_pos hnow]
          rfl
        · rw [linesUp_standings_iff session now page hc hnow]
          intro row hrow
          have hmem := mem_of_mem_pageRows hrow
          rcases h contest hc hnow with hall | hnil
          · exact (labels_eq_iff (labels_of_mem_standingRows hmem)).mpr hall
          · rw [standingRows_eq_nil_iff.mpr hnil] at hmem
            exact absurd hmem List.not_mem_nil

/-! ### A problem that does not load -/

/-- The first problem of the contest has no directory. -/
def brokenDb : Db :=
  { contestDb "a" with
    contestProblems := [
      { contestId := "c", problemId := "b", displayOrder := 1, label := "A" },
      { contestId := "c", problemId := "a", displayOrder := 2, label := "B" }]
    submissions := [acceptedRow 1 50] }

/-- The row has cells for both, below the only header, that of the second. -/
theorem linesUp_contestStandings_fails :
    let r := contestStandings .titled contestConfig.app brokenDb .inserted .empty 60 "c" none
    (entries (r.field "problem_headers")).length = 1 ∧
      (entries (r.field "standings")).map (fun row => (entries (row.get? "problems")).length) = [2] ∧
      ¬ r.LinesUp := by
  intro r
  have hheaders : (entries (r.field "problem_headers")).length = 1 := by decide +kernel
  have hcells : (entries (r.field "standings")).map
      (fun row => (entries (row.get? "problems")).length) = [2] := by decide +kernel
  refine ⟨hheaders, hcells, fun h => ?_⟩
  have hlen : ∀ n ∈ (entries (r.field "standings")).map
      (fun row => (entries (row.get? "problems")).length), n = 1 := by
    intro n hn
    obtain ⟨row, hrow, rfl⟩ := List.mem_map.mp hn
    exact (h row hrow).length_eq.trans hheaders
  rw [hcells] at hlen
  exact absurd (hlen 2 List.mem_cons_self) (by decide)

end MikanJudge

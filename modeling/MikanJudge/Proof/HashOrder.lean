import MikanJudge.Proof.Paging
import MikanJudge.Proof.Ranks

/-!
# The standings and the order of the hash map

The order in which the map lists the users is another one for each request.
The sort makes up for it where it separates any two rows. With a time of the
last AC it does not look at the name, so two users with the same total and
the same time stay in the order of the map.
-/

namespace MikanJudge

open MikanJudge.Lib

/-- An order that lists a user before all others. -/
def HashOrder.first (u : Uuid) : HashOrder where
  iterate ids := ids.filter (· == u) ++ ids.filter fun v => !(v == u)
  perm ids := List.filter_append_perm _ ids

theorem pair_sublist_first {u v : Uuid} {keys : List Uuid} (hu : u ∈ keys) (hv : v ∈ keys)
    (hne : u ≠ v) : [u, v].Sublist ((HashOrder.first u).iterate keys) := by
  have hu' : [u].Sublist (keys.filter (· == u)) :=
    List.singleton_sublist.mpr (List.mem_filter.mpr ⟨hu, by simp⟩)
  have hv' : [v].Sublist (keys.filter fun v => !(v == u)) :=
    List.singleton_sublist.mpr (List.mem_filter.mpr ⟨hv, by simpa using hne.symm⟩)
  exact hu'.append hv'

section

variable {ext : Externals} {app : AppState} {db : Db} {contest : Contest} {contestId : String}

theorem length_standingRows (hids : (db.users.map (·.id)).Nodup) (order : HashOrder) :
    (standingRows ext app db order contest contestId).length =
      (db.standingUsers contest contestId).length := by
  have h := (map_standingRows_perm ext app contest contestId hids order (f := (·.username)) fun _ => rfl).length_eq
  rwa [List.length_map, List.length_map] at h

/-- The scores in the table are finite. -/
def Db.FiniteScores (db : Db) : Prop := ∀ r ∈ db.submissions, ∀ s, r.score = some s → ∃ q, s = .fin q

/-- Two users with the same total, who solved their last problem at the same time. -/
def TiedWithTime (ext : Externals) (app : AppState) (db : Db) (contestId : String)
    (u v : UserRow) : Prop :=
  F64.round ((exactTotal ext app db contestId u % 2 ^ 64 : ℕ) : ℚ) =
      F64.round ((exactTotal ext app db contestId v % 2 ^ 64 : ℕ) : ℚ) ∧
    lastAc db contestId u = lastAc db contestId v ∧ lastAc db contestId u ≠ none

instance (ext : Externals) (app : AppState) (db : Db) (contestId : String) (u v : UserRow) :
    Decidable (TiedWithTime ext app db contestId u v) := by unfold TiedWithTime; infer_instance

theorem totalScoreRaw_ne_nan (hfin : db.FiniteScores) (us : UserRow) :
    (userRow ext app db contest contestId us).totalScoreRaw ≠ .nan := by
  rw [userRow]
  split_ifs with hj
  · refine F64.foldl_add_ne_nan F64.round_ne_nan (fun x hx => ?_) F64.noConfusion
    obtain ⟨cp, -, hmax⟩ := List.mem_filterMap.mp hx
    obtain ⟨r, hr, hs⟩ := List.mem_filterMap.mp (List.max?_mem hmax)
    exact hfin r (List.mem_of_mem_filter hr) x hs
  · exact F64.round_ne_nan _

/-- Rows that compare equal are of one user, unless the times are the same. -/
theorem eq_of_compareRows_eq (hnames : (db.users.map (·.username)).Nodup) (hfin : db.FiniteScores)
    (hties : ¬ ∃ u ∈ db.standingUsers contest contestId, ∃ v ∈ db.standingUsers contest contestId,
      u ≠ v ∧ contest.judgeType = .exact ∧ TiedWithTime ext app db contestId u v) {u v : UserRow}
    (hu : u ∈ db.standingUsers contest contestId) (hv : v ∈ db.standingUsers contest contestId)
    (h : compareRows (userRow ext app db contest contestId u)
      (userRow ext app db contest contestId v) = .eq) : u = v := by
  rw [compareRows_eq_compare (totalScoreRaw_ne_nan hfin u) (totalScoreRaw_ne_nan hfin v),
    compare_eq_iff_eq] at h
  have htotal := congrArg (fun k => OrderDual.ofDual (ofLex k).1) h
  have htime := time_inj (congrArg (fun k => (ofLex (ofLex k).2).1) h)
  have hname := congrArg (fun k => (ofLex (ofLex k).2).2) h
  have hsub : ∀ us ∈ db.standingUsers contest contestId, us ∈ db.users := by
    intro us hus
    rw [Db.standingUsers] at hus
    split_ifs at hus <;> exact List.mem_of_mem_filter hus
  by_contra hne
  cases hl : (userRow ext app db contest contestId u).lastAcRaw with
  | none =>
    simp only [RowWithRaw.sortKey, ← htime, hl, ofLex_toLex, Option.isSome_none, Bool.false_eq_true,
      if_false, username_userRow] at hname
    exact hne (List.inj_on_of_nodup_map hnames (hsub u hu) (hsub v hv) hname)
  | some t =>
    have hj : contest.judgeType ≠ .heuristic := fun hj => by
      rw [lastAcRaw_userRow, if_pos hj] at hl
      cases hl
    rw [lastAcRaw_userRow, lastAcRaw_userRow, if_neg hj, if_neg hj] at htime
    rw [lastAcRaw_userRow, if_neg hj] at hl
    refine hties ⟨u, hu, v, hv, hne, ?_, ?_, htime, by rw [hl]; exact fun h => by cases h⟩
    · cases hc : contest.judgeType with
      | exact => rfl
      | heuristic => exact absurd hc hj
    · simp only [userRow, if_neg hj] at htotal
      exact htotal

/-- Without such ties, the order of the map does not matter. -/
theorem standingRows_eq_of_no_ties (ext : Externals) (app : AppState) (contest : Contest)
    (contestId : String) (hids : (db.users.map (·.id)).Nodup)
    (hnames : (db.users.map (·.username)).Nodup) (hfin : db.FiniteScores)
    (hties : ¬ ∃ u ∈ db.standingUsers contest contestId, ∃ v ∈ db.standingUsers contest contestId,
      u ≠ v ∧ contest.judgeType = .exact ∧ TiedWithTime ext app db contestId u v)
    (order order' : HashOrder) :
    standingRows ext app db order contest contestId =
      standingRows ext app db order' contest contestId := by
  have hrows : ∀ a ∈ (db.standingUsers contest contestId).map (userRow ext app db contest contestId),
      ∃ us ∈ db.standingUsers contest contestId, userRow ext app db contest contestId us = a :=
    fun a ha => List.mem_map.mp ha
  have hpre : PreorderOn compareRows
      ((db.standingUsers contest contestId).map (userRow ext app db contest contestId)) := by
    refine PreorderOn.of_key RowWithRaw.sortKey fun a ha b hb => ?_
    obtain ⟨u, -, rfl⟩ := hrows a ha
    obtain ⟨v, -, rfl⟩ := hrows b hb
    exact compareRows_eq_compare (totalScoreRaw_ne_nan hfin u) (totalScoreRaw_ne_nan hfin v)
  have hsort : ∀ order : HashOrder, sortRows (rawRows ext app db order contest contestId) =
      sortBy compareRows
        ((db.standingUsers contest contestId).map (userRow ext app db contest contestId)) := by
    refine fun order => hpre.sortBy_eq_of_perm (rawRows_perm ext app contest contestId hids order) fun a ha b hb hab => ?_
    obtain ⟨u, hu, rfl⟩ := hrows a ha
    obtain ⟨v, hv, rfl⟩ := hrows b hb
    rw [eq_of_compareRows_eq hnames hfin hties hu hv hab]
  rw [standingRows, standingRows, hsort, hsort]

/-- A user whom the map lists before another with the same total and time stays before. -/
theorem pair_sublist_standingRows (hids : (db.users.map (·.id)).Nodup)
    (hj : contest.judgeType = .exact) {u v : UserRow} (hu : u ∈ db.standingUsers contest contestId)
    (hv : v ∈ db.standingUsers contest contestId) (hne : u.id ≠ v.id)
    (h : TiedWithTime ext app db contestId u v) :
    [u.username, v.username].Sublist
      ((standingRows ext app db (.first u.id) contest contestId).map (·.username)) := by
  obtain ⟨keys, row, hkeys, hrow, hraw⟩ := exists_rawRows_eq ext app contest contestId hids
  have hj' : contest.judgeType ≠ .heuristic := by rw [hj]; decide
  have hkey : ∀ us ∈ db.standingUsers contest contestId, us.id ∈ keys := fun us hus =>
    hkeys.mem_iff.mpr (List.mem_map.mpr ⟨us, hus, rfl⟩)
  have hpair := (pair_sublist_first (hkey u hu) (hkey v hv) hne).filterMap row
  rw [List.filterMap_cons_some (hrow u hu), List.filterMap_cons_some (hrow v hv), List.filterMap_nil,
    ← hraw] at hpair
  have htie : compareRows (userRow ext app db contest contestId u)
      (userRow ext app db contest contestId v) ≠ .gt := by
    obtain ⟨t, ht⟩ := Option.ne_none_iff_exists'.mp h.2.2
    have hnan : ∀ us : UserRow, (userRow ext app db contest contestId us).totalScoreRaw ≠ .nan :=
      fun us => by
        rw [userRow, if_neg hj']
        exact F64.round_ne_nan _
    rw [compareRows_eq_compare (hnan u) (hnan v), compare_le_iff_le, RowWithRaw.sortKey,
      RowWithRaw.sortKey, RowWithRaw.time, RowWithRaw.time, lastAcRaw_userRow, lastAcRaw_userRow,
      if_neg hj', if_neg hj', ← h.2.1, ht, userRow, userRow, if_neg hj', if_neg hj', exactUserRow,
      exactUserRow]
    dsimp only
    rw [h.1]
    exact le_rfl
  have hsorted := (pair_sublist_sortBy htie hpair).map fun r => r.row.username
  rw [map_standingRows fun _ => rfl, sortRows_eq_sortBy]
  simpa only [List.map_cons, List.map_nil, username_userRow] using hsorted

/-- With finite scores, the standings are the same for all orders of the map, and
the pages shown to requests with any orders have each user once, exactly if no two
users of an exact contest have the same total and the same time of the last AC. -/
theorem standingRows_order_iff (ext : Externals) (app : AppState) (db : Db) (contest : Contest)
    (contestId : String) (hids : (db.users.map (·.id)).Nodup)
    (hnames : (db.users.map (·.username)).Nodup) (hfin : db.FiniteScores) :
    ((∀ order order' : HashOrder, standingRows ext app db order contest contestId =
        standingRows ext app db order' contest contestId) ∧
      ∀ orders : Nat → HashOrder,
        ((List.range (totalPages (db.standingUsers contest contestId).length).toNat).flatMap
          fun (i : Nat) => (pageRows (standingRows ext app db (orders i) contest contestId)
            (i + 1)).map (·.username)).Perm
          ((db.standingUsers contest contestId).map (·.username))) ↔
    ¬ ∃ u ∈ db.standingUsers contest contestId, ∃ v ∈ db.standingUsers contest contestId,
      u ≠ v ∧ contest.judgeType = .exact ∧ TiedWithTime ext app db contestId u v := by
  constructor
  · rintro ⟨heq, -⟩ ⟨u, hu, v, hv, hne, hj, htie⟩
    have hsub : (db.standingUsers contest contestId).Sublist db.users := by
      rw [Db.standingUsers]
      split_ifs <;> exact List.filter_sublist
    have hid : u.id ≠ v.id := fun e =>
      hne (List.inj_on_of_nodup_map hids (hsub.subset hu) (hsub.subset hv) e)
    have huv := pair_sublist_standingRows hids hj hu hv hid htie
    have hvu := pair_sublist_standingRows hids hj hv hu hid.symm
      ⟨htie.1.symm, htie.2.1.symm, htie.2.1 ▸ htie.2.2⟩
    rw [heq (.first v.id) (.first u.id)] at hvu
    have hnodup : ((standingRows ext app db (.first u.id) contest contestId).map
        (·.username)).Nodup := by
      refine (map_standingRows_perm ext app contest contestId hids _ fun _ => rfl).nodup_iff.mpr ?_
      simp only [username_userRow]
      exact (hsub.map _).nodup hnames
    exact not_sublist_of_nodup hnodup huv hvu
  · intro hties
    have heq := standingRows_eq_of_no_ties ext app contest contestId hids hnames hfin hties
    refine ⟨heq, fun orders => ?_⟩
    have hpages := congrArg (List.map (·.username))
      (flatMap_pageRows (standingRows ext app db .inserted contest contestId))
    rw [List.map_flatMap, length_standingRows hids] at hpages
    simp only [fun i => heq (orders i) .inserted]
    rw [hpages]
    have hperm := map_standingRows_perm ext app contest contestId hids .inserted (f := (·.username)) fun _ => rfl
    simpa only [username_userRow] using hperm

end

/-! ### Two users -/

/-- Two users have solved the problem of the contest, at these times. -/
def twoSolvedDb (time₁ time₂ : Time) : Db :=
  { contestDb "a" with
    users := [
      { id := 1, username := "alice", passwordHash := "", defaultLanguage := none },
      { id := 2, username := "bob", passwordHash := "", defaultLanguage := none }]
    submissions := [acceptedRow 1 time₁, { acceptedRow 2 time₂ with userId := some 2 }] }

theorem standingRows_order_twoSolvedDb :
    standingRows .titled contestConfig.app (twoSolvedDb 50 60) (.first 1) smallContest "c" =
      standingRows .titled contestConfig.app (twoSolvedDb 50 60) (.first 2) smallContest "c" := by
  have hfin : (twoSolvedDb 50 60).FiniteScores := by
    intro r hr s hs
    rcases List.mem_cons.mp hr with rfl | hr
    · cases hs
    · obtain rfl := List.mem_singleton.mp hr
      cases hs
  exact ((standingRows_order_iff .titled contestConfig.app (twoSolvedDb 50 60) smallContest "c"
    (by decide) (by decide) hfin).mpr (by decide +kernel)).1 _ _

/-- At the same time, the user the map lists first is shown first. -/
theorem standingRows_order_fails :
    standingRows .titled contestConfig.app (twoSolvedDb 50 50) (.first 1) smallContest "c" ≠
      standingRows .titled contestConfig.app (twoSolvedDb 50 50) (.first 2) smallContest "c" := by
  decide +kernel

end MikanJudge

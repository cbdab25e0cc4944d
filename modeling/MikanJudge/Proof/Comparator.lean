import MikanJudge.Proof.Ranks

/-!
# The comparison of rows with a NaN among the totals

A scorer may print `nan`, which parses; a total that is NaN compares with no
other, and such rows are compared by name instead. That is a total preorder
unless the name of such a user lies between those of two others of whom the
one with more points has the later name.
-/

namespace MikanJudge

open MikanJudge.Lib

section

variable {rows : List RowWithRaw} {a b : RowWithRaw}

/-- A row with NaN comes, by its name, between two that are in the other order
by their totals. -/
def NanBetween (rows : List RowWithRaw) : Prop :=
  ∃ x ∈ rows, ∃ y ∈ rows, ∃ z ∈ rows, y.totalScoreRaw = .nan ∧
    x.totalScoreRaw ≠ .nan ∧ z.totalScoreRaw ≠ .nan ∧ z.totalScoreRaw < x.totalScoreRaw ∧
    z.row.username ≤ y.row.username ∧ y.row.username ≤ x.row.username

theorem compareRows_of_nan (ha : a.lastAcRaw = none) (hb : b.lastAcRaw = none)
    (h : a.totalScoreRaw = .nan ∨ b.totalScoreRaw = .nan) :
    compareRows a b = compare a.row.username b.row.username := by
  have hnone : b.totalScoreRaw.partialCmp a.totalScoreRaw = none := by
    rcases h with h | h
    · rw [h, F64.partialCmp_nan_right]
    · rw [h, F64.partialCmp_nan_left]
  rw [compareRows, hnone, ha, hb]
  rfl

/-- Beside NaN, rows without times are in order by name. -/
theorem compareRows_ne_gt_of_nan (ha : a.lastAcRaw = none) (hb : b.lastAcRaw = none)
    (h : a.totalScoreRaw = .nan ∨ b.totalScoreRaw = .nan) :
    compareRows a b ≠ .gt ↔ a.row.username ≤ b.row.username := by
  rw [compareRows_of_nan ha hb h, compare_le_iff_le]

/-- Rows without times are in order by total, and with one total by name. -/
theorem compareRows_ne_gt_iff (ha : a.lastAcRaw = none) (hb : b.lastAcRaw = none)
    (hna : a.totalScoreRaw ≠ .nan) (hnb : b.totalScoreRaw ≠ .nan) :
    compareRows a b ≠ .gt ↔ b.totalScoreRaw < a.totalScoreRaw ∨
      b.totalScoreRaw = a.totalScoreRaw ∧ a.row.username ≤ b.row.username := by
  have hkey : ∀ r : RowWithRaw, r.lastAcRaw = none →
      r.sortKey = toLex (OrderDual.toDual r.totalScoreRaw, toLex (⊤, r.row.username)) := by
    intro r hr
    rw [RowWithRaw.sortKey, RowWithRaw.time, hr]
    rfl
  rw [compareRows_eq_compare hna hnb, compare_le_iff_le, hkey a ha, hkey b hb,
    Prod.Lex.toLex_le_toLex, OrderDual.toDual_lt_toDual, OrderDual.toDual_inj]
  have hname : toLex ((⊤ : WithTop Time), a.row.username) ≤ toLex (⊤, b.row.username) ↔
      a.row.username ≤ b.row.username := by
    rw [Prod.Lex.toLex_le_toLex]
    exact ⟨fun h => h.elim (fun h => absurd h (lt_irrefl _)) fun h => h.2, fun h => .inr ⟨rfl, h⟩⟩
  exact or_congr Iff.rfl (and_congr eq_comm hname)

theorem compareRows_swap (ha : a.lastAcRaw = none) (hb : b.lastAcRaw = none) :
    compareRows b a = (compareRows a b).swap := by
  by_cases h : a.totalScoreRaw = .nan ∨ b.totalScoreRaw = .nan
  · rw [compareRows_of_nan ha hb h, compareRows_of_nan hb ha h.symm]
    exact (PreorderOn.of_key (l := [a, b]) (·.row.username) fun _ _ _ _ => rfl).swap a
      List.mem_cons_self b (List.mem_cons_of_mem _ List.mem_cons_self)
  · rw [not_or] at h
    rw [compareRows_eq_compare h.1 h.2, compareRows_eq_compare h.2 h.1]
    exact (PreorderOn.of_key (l := [a, b]) (·.sortKey) fun _ _ _ _ => rfl).swap a
      List.mem_cons_self b (List.mem_cons_of_mem _ List.mem_cons_self)

/-- With no NaN between two others, rows without times are in a transitive
order: two steps one of which goes by name are a step by name, or no step
back by total. -/
theorem compareRows_trans (hnone : ∀ r ∈ rows, r.lastAcRaw = none) (hno : ¬ NanBetween rows)
    {a b c : RowWithRaw} (ha : a ∈ rows) (hb : b ∈ rows) (hc : c ∈ rows)
    (hab : compareRows a b ≠ .gt) (hbc : compareRows b c ≠ .gt) : compareRows a c ≠ .gt := by
  have hname : ∀ {r r'}, r ∈ rows → r' ∈ rows → r.totalScoreRaw = .nan ∨ r'.totalScoreRaw = .nan →
      (compareRows r r' ≠ .gt ↔ r.row.username ≤ r'.row.username) :=
    fun hr hr' => compareRows_ne_gt_of_nan (hnone _ hr) (hnone _ hr')
  have htotal : ∀ {r r'}, r ∈ rows → r' ∈ rows → r.totalScoreRaw ≠ .nan → r'.totalScoreRaw ≠ .nan →
      (compareRows r r' ≠ .gt ↔ r'.totalScoreRaw < r.totalScoreRaw ∨
        r'.totalScoreRaw = r.totalScoreRaw ∧ r.row.username ≤ r'.row.username) :=
    fun hr hr' => compareRows_ne_gt_iff (hnone _ hr) (hnone _ hr')
  by_cases hna : a.totalScoreRaw = .nan
  · rw [hname ha hb (.inl hna)] at hab
    rw [hname ha hc (.inl hna)]
    by_cases hbc' : b.totalScoreRaw = .nan ∨ c.totalScoreRaw = .nan
    · exact hab.trans ((hname hb hc hbc').mp hbc)
    · rw [not_or] at hbc'
      rcases (htotal hb hc hbc'.1 hbc'.2).mp hbc with h | h
      · exact le_of_not_ge fun hca =>
          hno ⟨b, hb, a, ha, c, hc, hna, hbc'.1, hbc'.2, h, hca, hab⟩
      · exact hab.trans h.2
  · by_cases hnb : b.totalScoreRaw = .nan
    · rw [hname ha hb (.inr hnb)] at hab
      rw [hname hb hc (.inl hnb)] at hbc
      by_cases hnc : c.totalScoreRaw = .nan
      · rw [hname ha hc (.inr hnc)]
        exact hab.trans hbc
      · rw [htotal ha hc hna hnc]
        rcases lt_trichotomy c.totalScoreRaw a.totalScoreRaw with h | h | h
        · exact .inl h
        · exact .inr ⟨h, hab.trans hbc⟩
        · exact absurd ⟨c, hc, b, hb, a, ha, hnb, hnc, hna, h, hab, hbc⟩ hno
    · rw [htotal ha hb hna hnb] at hab
      by_cases hnc : c.totalScoreRaw = .nan
      · rw [hname hb hc (.inr hnc)] at hbc
        rw [hname ha hc (.inr hnc)]
        rcases hab with h | h
        · exact le_of_not_ge fun hca =>
            hno ⟨a, ha, c, hc, b, hb, hnc, hna, hnb, h, hbc, hca⟩
        · exact h.2.trans hbc
      · rw [htotal hb hc hnb hnc] at hbc
        rw [htotal ha hc hna hnc]
        rcases hab with h | h
        · exact .inl (hbc.elim h.trans' fun h' => h'.1 ▸ h)
        · exact hbc.elim (fun h' => .inl (h.1 ▸ h')) fun h' =>
            .inr ⟨h'.1.trans h.1, h.2.trans h'.2⟩

/-- Rows without times are compared by a total preorder exactly if no row with
NaN comes between two others. -/
theorem preorderOn_compareRows_iff (hnone : ∀ r ∈ rows, r.lastAcRaw = none) :
    PreorderOn compareRows rows ↔ ¬ NanBetween rows := by
  constructor
  · rintro h ⟨x, hx, y, hy, z, hz, hyn, hxn, hzn, hlt, hzy, hyx⟩
    have hzy' := (compareRows_ne_gt_of_nan (hnone z hz) (hnone y hy) (.inr hyn)).mpr hzy
    have hyx' := (compareRows_ne_gt_of_nan (hnone y hy) (hnone x hx) (.inl hyn)).mpr hyx
    have hzx := h.trans z hz y hy x hx hzy' hyx'
    rw [compareRows_ne_gt_iff (hnone z hz) (hnone x hx) hzn hxn] at hzx
    rcases hzx with h | h
    · exact lt_asymm h hlt
    · exact hlt.ne' h.1
  · intro hno
    refine ⟨fun a ha => ?_, fun a ha b hb => compareRows_swap (hnone a ha) (hnone b hb),
      fun a ha b hb c hc hab hbc => compareRows_trans hnone hno ha hb hc hab hbc⟩
    have hself := compareRows_swap (hnone a ha) (hnone a ha)
    revert hself
    cases compareRows a a <;> decide

theorem partialCmp_ne_lt (ha : a.lastAcRaw = none) (hb : b.lastAcRaw = none)
    (h : compareRows a b ≠ .gt) : a.totalScoreRaw.partialCmp b.totalScoreRaw ≠ some .lt := by
  by_cases hna : a.totalScoreRaw = .nan
  · rw [hna, F64.partialCmp_nan_left]
    exact fun h => by cases h
  · by_cases hnb : b.totalScoreRaw = .nan
    · rw [hnb, F64.partialCmp_nan_right]
      exact fun h => by cases h
    · rw [compareRows_ne_gt_iff ha hb hna hnb] at h
      rw [F64.partialCmp_eq_compare hna hnb, ne_eq, Option.some.injEq, compare_lt_iff_lt, not_lt]
      exact h.elim le_of_lt fun h => h.1.le

end

/-- The points of a user in a heuristic contest: the best scores, added up. -/
def heuristicTotal (db : Db) (contestId : String) (us : UserRow) : F64 :=
  (bestScores db contestId us).foldl (F64.add F64.round) 0

/-- In a heuristic contest the rows are compared by a total preorder, and sorted so
that the totals do not rise, exactly if no user whose total is NaN comes, by name,
between two others of whom the one with more points has the later name. -/
theorem heuristic_preorderOn_iff (ext : Externals) (app : AppState) (db : Db) (contest : Contest)
    (contestId : String) (order : HashOrder) (hids : (db.users.map (·.id)).Nodup)
    (hj : contest.judgeType = .heuristic) :
    (PreorderOn compareRows (rawRows ext app db order contest contestId) ∧
      (sortRows (rawRows ext app db order contest contestId)).Pairwise fun a b =>
        a.totalScoreRaw.partialCmp b.totalScoreRaw ≠ some .lt) ↔
    ¬ ∃ x ∈ db.standingUsers contest contestId, ∃ y ∈ db.standingUsers contest contestId,
      ∃ z ∈ db.standingUsers contest contestId,
        heuristicTotal db contestId y = .nan ∧ heuristicTotal db contestId x ≠ .nan ∧
        heuristicTotal db contestId z ≠ .nan ∧
        heuristicTotal db contestId z < heuristicTotal db contestId x ∧
        z.username ≤ y.username ∧ y.username ≤ x.username := by
  have hmem : ∀ r, r ∈ rawRows ext app db order contest contestId ↔
      ∃ us ∈ db.standingUsers contest contestId, heuristicUserRow ext db contestId us = r := by
    intro r
    rw [(rawRows_perm ext app contest contestId hids order).mem_iff, List.mem_map]
    simp only [userRow, if_pos hj]
  have hnone : ∀ r ∈ rawRows ext app db order contest contestId, r.lastAcRaw = none := by
    intro r hr
    obtain ⟨us, -, rfl⟩ := (hmem r).mp hr
    rfl
  have hbetween : NanBetween (rawRows ext app db order contest contestId) ↔
      ∃ x ∈ db.standingUsers contest contestId, ∃ y ∈ db.standingUsers contest contestId,
      ∃ z ∈ db.standingUsers contest contestId,
        heuristicTotal db contestId y = .nan ∧ heuristicTotal db contestId x ≠ .nan ∧
        heuristicTotal db contestId z ≠ .nan ∧
        heuristicTotal db contestId z < heuristicTotal db contestId x ∧
        z.username ≤ y.username ∧ y.username ≤ x.username := by
    simp only [NanBetween, hmem, exists_exists_and_eq_and]
    rfl
  rw [← hbetween, ← preorderOn_compareRows_iff hnone]
  refine ⟨fun h => h.1, fun h => ⟨h, ?_⟩⟩
  have hsub := (sortBy_perm compareRows (rawRows ext app db order contest contestId)).subset
  exact h.pairwise_sortBy.imp_of_mem fun ha hb hab =>
    partialCmp_ne_lt (hnone _ (hsub ha)) (hnone _ (hsub hb)) hab

def heuristicContest : Contest := { smallContest with judgeType := .heuristic }

/-- Three users, two of whom have the same score. -/
def scoredUsersDb : Db :=
  { contestDb "a" with
    users := [
      { id := 1, username := "alice", passwordHash := "", defaultLanguage := none },
      { id := 2, username := "bob", passwordHash := "", defaultLanguage := none },
      { id := 3, username := "carol", passwordHash := "", defaultLanguage := none }]
    submissions := [
      scoredRow 1 (.fin 4),
      { scoredRow 2 (.fin 5) with userId := some 2 },
      { scoredRow 3 (.fin 4) with userId := some 3 }] }

theorem heuristic_preorderOn_scoredUsersDb :
    PreorderOn compareRows
      (rawRows .titled contestConfig.app scoredUsersDb .inserted heuristicContest "c") ∧
    (sortRows
      (rawRows .titled contestConfig.app scoredUsersDb .inserted heuristicContest "c")).Pairwise
      fun a b => a.totalScoreRaw.partialCmp b.totalScoreRaw ≠ some .lt :=
  (heuristic_preorderOn_iff .titled contestConfig.app scoredUsersDb heuristicContest "c" .inserted
    (by decide) rfl).mpr (by decide +kernel)

/-! ### A scorer prints `nan` -/

def scorerExternals : Externals :=
  { Externals.titled with
    parseF64 := fun s =>
      if s = "1" then .ok (.fin 1) else if s = "2" then .ok (.fin 2) else if s = "nan" then .ok .nan
      else .error "invalid float literal" }

theorem plainName_scorer : plainName "scorer.py" = true := by decide

/-- A problem with a scorer. -/
def scorerFiles : FileTree :=
  smallTree [(⟨"a", plainName_a⟩, smallProblem [] [(⟨"scorer.py", plainName_scorer⟩, .file [])])] []

def scorerConfig : Config where
  ext := scorerExternals
  app := { AppState.empty with fs := scorerFiles }
  numWorkers := 1
  pos := Nat.one_pos

/-- Three users, and a heuristic contest. -/
def threeUsersDb : Db where
  users := [
    { id := 1, username := "alice", passwordHash := "", defaultLanguage := none },
    { id := 2, username := "bob", passwordHash := "", defaultLanguage := none },
    { id := 3, username := "carol", passwordHash := "", defaultLanguage := none }]
  contests := [{
    id := "c", title := "C", description := "", startTime := 0, endTime := 100
    judgeType := "heuristic" }]
  contestProblems := [{ contestId := "c", problemId := "a", displayOrder := 1, label := "A" }]
  submissions := []

def threeUsersServer : Server :=
  .boot scorerConfig 1000000000 threeUsersDb
    [(1, { SessionRecord.empty with userId := some 1 }),
      (2, { SessionRecord.empty with userId := some 2 }),
      (3, { SessionRecord.empty with userId := some 3 })]

/-- A submission whose only case the scorer gives a score. -/
def scoredActions (sid : Nat) (id : Uuid) (score : List UInt8) : List Action :=
  contestSubmitActions sid id ++ judgeActions [
    .tempdir (.ok ()),
    .compiled (.ok { executable := "solution", runArgs := [], error := none, warnings := "" }),
    .ran { run := .ok (printing []), scorer := .exited true score [] },
    .loopEnd]

/-- The scores are 1, NaN and 2. -/
def nanActions : List Action :=
  scoredActions 1 1 [49] ++ scoredActions 2 2 [110, 97, 110] ++ scoredActions 3 3 [50]

/-- The tables after that. -/
def nanDb : Db := (Server.lastOf scorerConfig threeUsersServer nanActions).db

/-- The rows of the contest. -/
def nanRows : List RowWithRaw :=
  rawRows scorerExternals scorerConfig.app nanDb .inserted heuristicContest "c"

/-- The comparison is not transitive on these rows. -/
theorem heuristic_preorderOn_fails :
    (Server.system scorerConfig).init threeUsersServer ∧
    (Server.system scorerConfig).Run threeUsersServer
      (Server.traceOf scorerConfig threeUsersServer nanActions)
      (Server.lastOf scorerConfig threeUsersServer nanActions) ∧
    nanDb.getContest "c" = .ok (some heuristicContest) ∧
    ¬ PreorderOn compareRows nanRows := by
  refine ⟨⟨_, _, _, rfl⟩, Server.run_traceOf _ _ _ (by decide +kernel), by decide +kernel,
    fun h => ?_⟩
  have hbad : (nanRows.any fun a => nanRows.any fun b => nanRows.any fun c =>
      compareRows a b != .gt && compareRows b c != .gt && compareRows a c == .gt) = true := by
    decide +kernel
  simp only [List.any_eq_true, Bool.and_eq_true, bne_iff_ne, beq_iff_eq] at hbad
  obtain ⟨a, ha, b, hb, c, hc, ⟨hab, hbc⟩, hac⟩ := hbad
  exact h.trans a ha b hb c hc hab hbc hac

end MikanJudge

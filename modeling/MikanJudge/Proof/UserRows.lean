import MikanJudge.Proof.Standings

/-!
# The rows of the standings, user by user

The map of the users has, for each user with a submission the query counts,
the aggregate of the user's submissions to each problem. The rows before the
sort are then, in some order, those of `userRow`: a function of the user and
the submissions in the table.
-/

namespace MikanJudge

open MikanJudge.Lib

section

variable {V : Type}

/-! ## The map of the users -/

theorem lookup_insert (ud : UserData V) (p q : String) (v : V) :
    (ud.insert p v).results.lookup q = if q = p then some v else ud.results.lookup q := by
  have hfilter : ∀ l : List (String × V), q ≠ p → (l.filter (·.1 != p)).lookup q = l.lookup q := by
    intro l hq
    induction l with
    | nil => rfl
    | cons e l ih =>
      obtain ⟨k, w⟩ := e
      by_cases hk : k = p
      · subst hk
        rw [List.filter_cons_of_neg (by simp), ih, List.lookup_cons, beq_eq_false_iff_ne.mpr hq]
      · rw [List.filter_cons_of_pos (by simpa using hk), List.lookup_cons, List.lookup_cons, ih]
  rw [UserData.insert, List.lookup_cons]
  split_ifs with h
  · rw [beq_iff_eq.mpr h]
  · rw [beq_eq_false_iff_ne.mpr h]
    exact hfilter _ h

theorem lookup_addResult (m : List (Uuid × UserData V)) (row : ResultRow V) (u : Uuid) :
    (addResult m row).lookup u =
      if u = row.userId then
        some (((m.lookup u).getD ⟨row.username, []⟩).insert row.problemId row.value)
      else m.lookup u := by
  induction m with
  | nil =>
    rw [addResult, List.lookup_cons]
    split_ifs with h
    · rw [beq_iff_eq.mpr h]
      rfl
    · rw [beq_eq_false_iff_ne.mpr h]
  | cons e m ih =>
    obtain ⟨k, ud⟩ := e
    rw [addResult]
    by_cases hk : k = row.userId
    · rw [if_pos hk, List.lookup_cons, List.lookup_cons, ← hk]
      split_ifs with h
      · rw [beq_iff_eq.mpr h]
        rfl
      · rw [beq_eq_false_iff_ne.mpr h]
    · rw [if_neg hk, List.lookup_cons, List.lookup_cons, ih]
      by_cases h : u = k
      · have hu : u ≠ row.userId := fun e => hk (h ▸ e)
        rw [beq_iff_eq.mpr h, if_neg hu, if_neg hu]
      · rw [beq_eq_false_iff_ne.mpr h]

/-- The keys stay distinct, and those of the results are added. -/
theorem keys_addResult (m : List (Uuid × UserData V)) (row : ResultRow V) :
    (addResult m row).map (·.1) =
      if row.userId ∈ m.map (·.1) then m.map (·.1) else m.map (·.1) ++ [row.userId] := by
  induction m with
  | nil => rfl
  | cons e m ih =>
    obtain ⟨k, ud⟩ := e
    rw [addResult]
    by_cases hk : k = row.userId
    · rw [if_pos hk, if_pos (by rw [← hk]; exact List.mem_cons_self)]
      rfl
    · rw [if_neg hk, List.map_cons, ih]
      simp only [List.map_cons, List.mem_cons, Ne.symm hk, false_or]
      split_ifs <;> rfl

/-- The last result of a user and a problem. -/
def valueOf (rows : List (ResultRow V)) (u : Uuid) (p : String) : Option V :=
  ((rows.filter fun row => row.userId == u && row.problemId == p).getLast?).map (·.value)

theorem valueOf_snoc (rows : List (ResultRow V)) (row : ResultRow V) (u : Uuid) (p : String) :
    valueOf (rows ++ [row]) u p =
      if row.userId = u ∧ row.problemId = p then some row.value else valueOf rows u p := by
  rw [valueOf, List.filter_append]
  split_ifs with h
  · rw [List.filter_cons_of_pos (by simp [h]), List.filter_nil, List.getLast?_concat, Option.map_some]
  · rw [List.filter_cons_of_neg (by simpa using h), List.filter_nil, List.append_nil, valueOf]

theorem valueOf_eq_none {rows : List (ResultRow V)} {u : Uuid} (h : ∀ row ∈ rows, row.userId ≠ u)
    (p : String) : valueOf rows u p = none := by
  have hnil : (rows.filter fun row => row.userId == u && row.problemId == p) = [] :=
    List.filter_eq_nil_iff.mpr fun row hrow => by simp [h row hrow]
  rw [valueOf, hnil]
  rfl

/-- What the map has for the users after some results. -/
structure MapOf (rows : List (ResultRow V)) (m : List (Uuid × UserData V)) : Prop where
  nodup : (m.map (·.1)).Nodup
  keys : ∀ u, u ∈ m.map (·.1) ↔ ∃ row ∈ rows, row.userId = u
  name : ∀ u ud, m.lookup u = some ud → ∃ row ∈ rows, row.userId = u ∧ row.username = ud.username
  results : ∀ u ud, m.lookup u = some ud → ∀ p, ud.results.lookup p = valueOf rows u p

theorem MapOf.not_mem {rows : List (ResultRow V)} {m : List (Uuid × UserData V)} (h : MapOf rows m)
    {u : Uuid} (hu : m.lookup u = none) : ∀ row ∈ rows, row.userId ≠ u := by
  intro row hrow e
  obtain ⟨p, hp, e'⟩ := List.mem_map.mp ((h.keys u).mpr ⟨row, hrow, e⟩)
  exact absurd (beq_iff_eq.mpr e'.symm) (by simpa using List.lookup_eq_none_iff.mp hu p hp)

theorem MapOf.add {rows : List (ResultRow V)} {m : List (Uuid × UserData V)} (h : MapOf rows m)
    (row : ResultRow V) : MapOf (rows ++ [row]) (addResult m row) where
  nodup := by
    rw [keys_addResult]
    split_ifs with hm
    · exact h.nodup
    · exact List.concat_eq_append ▸ h.nodup.concat hm
  keys u := by
    have hold : (∃ r ∈ rows ++ [row], r.userId = u) ↔
        (∃ r ∈ rows, r.userId = u) ∨ row.userId = u := by
      simp only [List.mem_append, List.mem_singleton, or_and_right, exists_or, exists_eq_left]
    rw [hold, keys_addResult, ← h.keys]
    split_ifs with hm
    · exact ⟨.inl, fun hu => hu.elim id fun e => e ▸ hm⟩
    · rw [List.mem_append, List.mem_singleton, eq_comm]
  name u ud hl := by
    rw [lookup_addResult] at hl
    split_ifs at hl with hu
    · cases hl
      cases hm : m.lookup u with
      | none => exact ⟨row, List.mem_append_right _ List.mem_cons_self, hu.symm, rfl⟩
      | some ud =>
        obtain ⟨r, hr, e, e'⟩ := h.name u ud hm
        exact ⟨r, List.mem_append_left _ hr, e, e'⟩
    · obtain ⟨r, hr, e⟩ := h.name u ud hl
      exact ⟨r, List.mem_append_left _ hr, e⟩
  results u ud hl p := by
    rw [lookup_addResult] at hl
    rw [valueOf_snoc]
    by_cases hu : u = row.userId
    · rw [if_pos hu] at hl
      cases hl
      rw [lookup_insert]
      by_cases hp : p = row.problemId
      · rw [if_pos hp, if_pos ⟨hu.symm, hp.symm⟩]
      · rw [if_neg hp, if_neg fun e => hp e.2.symm]
        cases hm : m.lookup u with
        | none => rw [valueOf_eq_none (h.not_mem hm)]; rfl
        | some ud => exact h.results u ud hm p
    · rw [if_neg hu] at hl
      rw [if_neg fun e => hu e.1.symm]
      exact h.results u ud hl p

theorem mapOf_userMap (rows : List (ResultRow V)) : MapOf rows (userMap rows) := by
  have hnil : MapOf ([] : List (ResultRow V)) [] :=
    ⟨List.nodup_nil, by simp, by simp, by simp⟩
  have hfold : ∀ rest done : List (ResultRow V), ∀ m, MapOf done m →
      MapOf (done ++ rest) (rest.foldl addResult m) := by
    intro rest
    induction rest with
    | nil => intro done m h; rwa [List.append_nil]
    | cons row rest ih =>
      intro done m h
      rw [List.append_cons]
      exact ih _ _ (h.add row)
  exact hfold rows [] [] hnil

theorem mem_values_userMap {order : HashOrder} {rows : List (ResultRow V)} {ud : UserData V}
    (h : ud ∈ order.values (userMap rows)) : ∃ row ∈ rows, row.username = ud.username := by
  obtain ⟨u, -, hl⟩ := List.mem_filterMap.mp h
  obtain ⟨row, hrow, -, e⟩ := (mapOf_userMap rows).name u ud hl
  exact ⟨row, hrow, e⟩

end

/-! ## What the queries say of a user -/

/-- The values of a user's submissions to a problem that a query counts. -/
def Db.resultsOf {V : Type} (db : Db) (contestId status : String) (value : SubmissionRow → Option V)
    (u : Uuid) (p : String) : List V :=
  (db.submissions.filter fun r => r.contestId == some contestId && r.status == status &&
    r.userId == some u && r.problemId == p).filterMap value

/-- The users with a submission that a query counts. -/
def Db.participants {V : Type} (db : Db) (contestId status : String)
    (value : SubmissionRow → Option V) : List UserRow :=
  db.users.filter fun u => db.submissions.any fun r => r.contestId == some contestId &&
    r.status == status && r.userId == some u.id && (value r).isSome

section

variable {V : Type} {db : Db} {contestId status : String} {value : SubmissionRow → Option V}
  {agg : List V → Option V} {us : UserRow}

/-- The group of a user and a problem. -/
def UserRow.groupKey (us : UserRow) (p : String) : GroupKey := toLex (us.id, toLex (us.username, p))

theorem groupKey_eq_iff (hids : (db.users.map (·.id)).Nodup) (hus : us ∈ db.users)
    {r : SubmissionRow} {p : String} :
    r.groupKey db.users = some (us.groupKey p) ↔ r.userId = some us.id ∧ r.problemId = p := by
  constructor
  · intro h
    exact ⟨(groupKey_eq_some h).2.1, (groupKey_eq_some h).2.2⟩
  · rintro ⟨hu, rfl⟩
    have hfind : db.users.find? (fun u => r.userId == some u.id) = some us := by
      obtain ⟨u, hu'⟩ : ∃ u, db.users.find? (fun u => r.userId == some u.id) = some u :=
        Option.isSome_iff_exists.mp (List.find?_isSome.mpr ⟨us, hus, beq_iff_eq.mpr hu⟩)
      have hid := List.find?_some hu'
      rw [beq_iff_eq, hu, Option.some.injEq] at hid
      rw [hu', List.inj_on_of_nodup_map hids (List.mem_of_find?_eq_some hu') hus hid.symm]
    rw [SubmissionRow.groupKey, hfind]
    rfl

theorem valuesAt_countedRows (hids : (db.users.map (·.id)).Nodup) (hus : us ∈ db.users) (p : String) :
    valuesAt (us.groupKey p) (db.countedRows contestId status value) =
      db.resultsOf contestId status value us.id p := by
  have hvalues : ∀ rows : List (GroupKey × V), valuesAt (us.groupKey p) rows =
      rows.filterMap fun row => if row.1 = us.groupKey p then some row.2 else none := by
    intro rows
    rw [valuesAt, ← List.filterMap_eq_map, List.filterMap_filter]
    simp only [decide_eq_true_eq, Function.comp]
  rw [hvalues, Db.countedRows, Db.resultsOf, List.filterMap_filter, List.filterMap_filter,
    List.filterMap_filterMap]
  refine List.filterMap_congr fun r _ => ?_
  have hkey := groupKey_eq_iff hids hus (r := r) (p := p)
  by_cases hP : (r.contestId == some contestId && r.status == status) = true
  · by_cases hk : r.groupKey db.users = some (us.groupKey p)
    · obtain ⟨hu, hp⟩ := hkey.mp hk
      simp only [hP, hk, hu, hp, if_true, Option.bind_some, BEq.rfl, Bool.and_self]
      cases value r <;> simp
    · have hQ : (r.userId == some us.id && r.problemId == p) = false := by
        rw [← Bool.not_eq_true, Bool.and_eq_true, beq_iff_eq, beq_iff_eq]
        exact fun h => hk (hkey.mpr h)
      simp only [hP, if_true, Bool.true_and, hQ, Bool.false_eq_true, if_false]
      cases hg : r.groupKey db.users with
      | none => rfl
      | some k =>
        have hne : k ≠ us.groupKey p := fun e => hk (hg.trans (congrArg some e))
        cases value r <;> simp [hne]
  · simp only [hP, Bool.false_eq_true, if_false, Bool.false_and, Option.bind_none]

/-- The rows of a query: for each user, what the aggregate makes of the
user's results. -/
theorem mem_results (hids : (db.users.map (·.id)).Nodup) (hnil : agg [] = none)
    {row : ResultRow V} :
    row ∈ (groupBy agg (db.countedRows contestId status value)).map .ofGroup ↔
      ∃ us ∈ db.users, us.id = row.userId ∧ us.username = row.username ∧
        agg (db.resultsOf contestId status value us.id row.problemId) = some row.value := by
  constructor
  · intro h
    obtain ⟨⟨k, v⟩, hk, rfl⟩ := List.mem_map.mp h
    have hagg := (mem_groupBy hnil).mp hk
    have hne : valuesAt k (db.countedRows contestId status value) ≠ [] := fun e => by
      rw [e, hnil] at hagg
      cases hagg
    obtain ⟨w, hw⟩ := List.exists_mem_of_ne_nil _ hne
    obtain ⟨r, -, hg, -⟩ := mem_countedRows.mp (mem_valuesAt.mp hw)
    obtain ⟨us, hus, rfl⟩ := Option.map_eq_some_iff.mp hg
    have hmem := List.mem_of_find?_eq_some hus
    refine ⟨us, hmem, rfl, rfl, ?_⟩
    exact (valuesAt_countedRows hids hmem r.problemId) ▸ hagg
  · rintro ⟨us, hus, hid, hname, hagg⟩
    refine List.mem_map.mpr ⟨(us.groupKey row.problemId, row.value), ?_, ?_⟩
    · rw [mem_groupBy hnil, valuesAt_countedRows hids hus]
      exact hagg
    · rw [ResultRow.ofGroup]
      cases row
      cases hid
      cases hname
      rfl

theorem valueOf_results (hids : (db.users.map (·.id)).Nodup) (hnil : agg [] = none)
    (hus : us ∈ db.users) (p : String) :
    valueOf ((groupBy agg (db.countedRows contestId status value)).map .ofGroup) us.id p =
      agg (db.resultsOf contestId status value us.id p) := by
  have hrow : ∀ {row : ResultRow V},
      row ∈ (groupBy agg (db.countedRows contestId status value)).map .ofGroup →
      row.userId = us.id → agg (db.resultsOf contestId status value us.id row.problemId) =
        some row.value := by
    intro row hrow hid
    obtain ⟨us', hus', hid', -, h⟩ := (mem_results hids hnil).mp hrow
    rwa [List.inj_on_of_nodup_map hids hus' hus (hid'.trans hid)] at h
  generalize hm : (groupBy agg (db.countedRows contestId status value)).map ResultRow.ofGroup = rows
  rw [hm] at hrow
  refine Option.ext fun v => ?_
  constructor
  · intro h
    obtain ⟨row, hlast, rfl⟩ := Option.map_eq_some_iff.mp h
    obtain ⟨hmem, hP⟩ := List.mem_filter.mp (List.mem_of_getLast? hlast)
    rw [Bool.and_eq_true, beq_iff_eq, beq_iff_eq] at hP
    rw [← hrow hmem hP.1, hP.2]
  · intro h
    have hmem : ⟨us.id, us.username, p, v⟩ ∈ rows :=
      hm ▸ (mem_results hids hnil).mpr ⟨us, hus, rfl, rfl, h⟩
    have hne : (rows.filter fun row => row.userId == us.id && row.problemId == p) ≠ [] :=
      List.ne_nil_of_mem (List.mem_filter.mpr ⟨hmem, by simp⟩)
    have hlast := List.getLast?_eq_some_getLast hne
    obtain ⟨hmem', hP⟩ := List.mem_filter.mp (List.mem_of_getLast? hlast)
    rw [Bool.and_eq_true, beq_iff_eq, beq_iff_eq] at hP
    have hv := hrow hmem' hP.1
    rw [hP.2, h] at hv
    rw [valueOf, hlast, hv]
    rfl

/-- The users in the map are those with a submission the query counts. -/
theorem mem_keys_iff (hids : (db.users.map (·.id)).Nodup) (hnil : agg [] = none)
    (hagg : ∀ vs, vs ≠ [] → (agg vs).isSome = true) {u : Uuid} :
    (∃ row ∈ (groupBy agg (db.countedRows contestId status value)).map ResultRow.ofGroup,
      row.userId = u) ↔ u ∈ (db.participants contestId status value).map (·.id) := by
  constructor
  · rintro ⟨row, hrow, rfl⟩
    obtain ⟨us, hus, hid, -, hv⟩ := (mem_results hids hnil).mp hrow
    refine List.mem_map.mpr ⟨us, List.mem_filter.mpr ⟨hus, ?_⟩, hid⟩
    have hne : db.resultsOf contestId status value us.id row.problemId ≠ [] := fun e => by
      rw [e, hnil] at hv
      cases hv
    obtain ⟨v, hv⟩ := List.exists_mem_of_ne_nil _ hne
    obtain ⟨r, hr, hrv⟩ := List.mem_filterMap.mp hv
    obtain ⟨hr, hP⟩ := List.mem_filter.mp hr
    refine List.any_eq_true.mpr ⟨r, hr, ?_⟩
    rw [hrv, Option.isSome_some, Bool.and_true]
    exact (Bool.and_eq_true _ _ ▸ hP).1
  · intro h
    obtain ⟨us, hus, rfl⟩ := List.mem_map.mp h
    obtain ⟨hus, hany⟩ := List.mem_filter.mp hus
    obtain ⟨r, hr, hP⟩ := List.any_eq_true.mp hany
    rw [Bool.and_eq_true] at hP
    obtain ⟨v, hv⟩ := Option.isSome_iff_exists.mp hP.2
    have hmem : v ∈ db.resultsOf contestId status value us.id r.problemId :=
      List.mem_filterMap.mpr ⟨r, List.mem_filter.mpr ⟨hr, by rw [hP.1, BEq.rfl]; rfl⟩, hv⟩
    obtain ⟨b, hb⟩ := Option.isSome_iff_exists.mp (hagg _ (List.ne_nil_of_mem hmem))
    exact ⟨⟨us.id, us.username, r.problemId, b⟩,
      (mem_results hids hnil).mpr ⟨us, hus, rfl, rfl, hb⟩, rfl⟩

/-- There is a row for each of these users, in the order in which the map lists them. -/
theorem exists_values_eq {α : Type} (hids : (db.users.map (·.id)).Nodup) (hnil : agg [] = none)
    (hagg : ∀ vs, vs ≠ [] → (agg vs).isSome = true) {f : UserData V → α} {g : UserRow → α}
    (hfg : ∀ us ∈ db.users, ∀ ud : UserData V, ud.username = us.username →
      (∀ p, ud.results.lookup p = agg (db.resultsOf contestId status value us.id p)) →
      f ud = g us) :
    ∃ (keys : List Uuid) (row : Uuid → Option α),
      keys.Perm ((db.participants contestId status value).map (·.id)) ∧
      (∀ us ∈ db.participants contestId status value, row us.id = some (g us)) ∧
      ∀ order : HashOrder, (order.values (userMap ((groupBy agg
        (db.countedRows contestId status value)).map ResultRow.ofGroup))).map f =
          (order.iterate keys).filterMap row := by
  generalize hm : (groupBy agg (db.countedRows contestId status value)).map ResultRow.ofGroup = rows
  have hmap := mapOf_userMap rows
  have hsub : (db.participants contestId status value).Sublist db.users := List.filter_sublist
  have hkeys : ((userMap rows).map (·.1)).Perm
      ((db.participants contestId status value).map (·.id)) := by
    refine (List.perm_ext_iff_of_nodup hmap.nodup ((hsub.map _).nodup hids)).mpr fun u => ?_
    rw [hmap.keys, ← hm, mem_keys_iff hids hnil hagg]
  refine ⟨_, fun u => ((userMap rows).lookup u).map f, hkeys, fun us hus => ?_, fun order => ?_⟩
  · have hmem : us.id ∈ (userMap rows).map (·.1) :=
      hkeys.mem_iff.mpr (List.mem_map.mpr ⟨us, hus, rfl⟩)
    have husers := hsub.subset hus
    cases hl : (userMap rows).lookup us.id with
    | none =>
      obtain ⟨row, hrow, e⟩ := (hmap.keys _).mp hmem
      exact absurd e (hmap.not_mem hl row hrow)
    | some ud =>
      dsimp only
      rw [hl, Option.map_some, hfg us husers ud ?_ ?_]
      · obtain ⟨row, hrow, hid, hname⟩ := hmap.name _ _ hl
        obtain ⟨us', hus', hid', hname', -⟩ := (mem_results hids hnil).mp (hm ▸ hrow)
        rw [← hname, ← hname', List.inj_on_of_nodup_map hids hus' husers (hid'.trans hid)]
      · intro p
        rw [hmap.results _ _ hl, ← hm, valueOf_results hids hnil husers]
  · rw [HashOrder.values, List.map_filterMap]

end

/-! ## The row of a user -/

/-- When the user's accepted submissions to a problem were made. -/
def Db.acTimes (db : Db) (contestId : String) (u : Uuid) (p : String) : List Time :=
  db.resultsOf contestId "accepted" (fun r => some r.createdAt) u p

/-- The scores of the user's submissions to a problem. -/
def Db.scores (db : Db) (contestId : String) (u : Uuid) (p : String) : List F64 :=
  db.resultsOf contestId "scored" (·.score) u p

/-- The users the standings show. -/
def Db.standingUsers (db : Db) (contest : Contest) (contestId : String) : List UserRow :=
  if contest.judgeType = .heuristic then db.participants contestId "scored" (·.score)
  else db.participants contestId "accepted" fun r => some r.createdAt

section

variable (ext : Externals) (app : AppState) (db : Db) (contest : Contest) (contestId : String)
  (us : UserRow)

/-- The user's points: the scores of the problems of the contest the user solved. -/
def exactTotal : Nat :=
  (((db.problemsForContest contestId).filter fun cp =>
    (db.acTimes contestId us.id cp.problemId).min?.isSome).map fun cp =>
      problemScore ext app cp.problemId).sum

/-- When the user solved the last of these. -/
def lastAc : Option Time :=
  ((db.problemsForContest contestId).filterMap fun cp =>
    (db.acTimes contestId us.id cp.problemId).min?).max?

/-- The user's best scores for the problems of the contest. -/
def bestScores : List F64 :=
  (db.problemsForContest contestId).filterMap fun cp =>
    (db.scores contestId us.id cp.problemId).max?

/-- The row of a user, in an exact contest. -/
def exactUserRow : RowWithRaw where
  row := {
    rank := 0
    username := us.username
    totalScore := toString (exactTotal ext app db contestId us % 2 ^ 64)
    elapsedFromStart := (lastAc db contestId us).map fun t => fmtElapsed (contest.elapsed t)
    problems := (db.problemsForContest contestId).map fun cp =>
      let acAt := (db.acTimes contestId us.id cp.problemId).min?
      { label := cp.label
        acTime := acAt.map fun t => fmtElapsed (contest.elapsed t)
        score := if acAt.isSome then toString (problemScore ext app cp.problemId) else ""
        hasResult := acAt.isSome } }
  totalScoreRaw := F64.round ((exactTotal ext app db contestId us % 2 ^ 64 : ℕ) : ℚ)
  lastAcRaw := lastAc db contestId us

/-- The row of a user, in a heuristic contest. -/
def heuristicUserRow : RowWithRaw :=
  let total := (bestScores db contestId us).foldl (F64.add F64.round) 0
  { row := {
      rank := 0
      username := us.username
      totalScore := formatScore ext total
      elapsedFromStart := none
      problems := (db.problemsForContest contestId).map fun cp =>
        let score := (db.scores contestId us.id cp.problemId).max?
        { label := cp.label
          acTime := none
          score := (score.map (formatScore ext)).getD ""
          hasResult := score.isSome } }
    totalScoreRaw := total
    lastAcRaw := none }

/-- The row of a user. -/
def userRow : RowWithRaw :=
  if contest.judgeType = .heuristic then heuristicUserRow ext db contestId us
  else exactUserRow ext app db contest contestId us

end

section

variable {ext : Externals} {app : AppState} {db : Db} {contest : Contest} {contestId : String}
  {us : UserRow}

theorem foldl_total {α : Type} (solved : α → Bool) (score : α → Nat) (l : List α) (n : Nat) :
    l.foldl (fun total cp => if solved cp then (total + score cp) % 2 ^ 64 else total) (n % 2 ^ 64) =
      (n + ((l.filter solved).map score).sum) % 2 ^ 64 := by
  induction l generalizing n with
  | nil => rfl
  | cons cp l ih =>
    rw [List.foldl_cons]
    cases h : solved cp with
    | false => rw [if_neg (by simp), ih, List.filter_cons_of_neg (by simp [h])]
    | true =>
      rw [if_pos rfl, Nat.mod_add_mod, ih, List.filter_cons_of_pos h, List.map_cons, List.sum_cons,
        Nat.add_assoc]

theorem foldl_lastAc {α : Type} (acAt : α → Option Time) (l : List α) (last : Option Time) :
    l.foldl (fun (last : Option Time) cp =>
        match acAt cp with
        | some t => some (last.elim t fun prev => max prev t)
        | none => last) last =
      (last.toList ++ l.filterMap acAt).max? := by
  induction l generalizing last with
  | nil => cases last <;> rfl
  | cons cp l ih =>
    rw [List.foldl_cons, ih]
    cases h : acAt cp with
    | none => rw [List.filterMap_cons_none h]
    | some t =>
      rw [List.filterMap_cons_some h]
      cases last <;> rfl

theorem foldl_bestScores {α : Type} (score : α → Option F64) (l : List α) (x : F64) :
    l.foldl (fun (total : F64) cp =>
        match score cp with
        | some s => total.add F64.round s
        | none => total) x =
      (l.filterMap score).foldl (F64.add F64.round) x := by
  induction l generalizing x with
  | nil => rfl
  | cons cp l ih =>
    rw [List.foldl_cons, ih]
    cases h : score cp with
    | none => rw [List.filterMap_cons_none h]
    | some s => rw [List.filterMap_cons_some h, List.foldl_cons]

theorem exactRow_eq {ud : UserData Time} (hname : ud.username = us.username)
    (hl : ∀ p, ud.results.lookup p = (db.acTimes contestId us.id p).min?) :
    exactRow ext app contest (db.problemsForContest contestId) ud =
      exactUserRow ext app db contest contestId us := by
  have htotal := foldl_total (fun cp : ContestProblem =>
    (db.acTimes contestId us.id cp.problemId).min?.isSome)
    (fun cp => problemScore ext app cp.problemId) (db.problemsForContest contestId) 0
  have hlast := foldl_lastAc (fun cp : ContestProblem =>
    (db.acTimes contestId us.id cp.problemId).min?) (db.problemsForContest contestId) none
  rw [Nat.zero_mod, Nat.zero_add] at htotal
  rw [Option.toList_none, List.nil_append] at hlast
  simp only [exactRow, exactUserRow, exactTotal, lastAc, hl, hname, htotal, RowWithRaw.mk.injEq,
    StandingRow.mk.injEq, true_and, and_true]
  exact ⟨congrArg _ hlast, hlast⟩

theorem heuristicRow_eq {ud : UserData F64} (hname : ud.username = us.username)
    (hl : ∀ p, ud.results.lookup p = (db.scores contestId us.id p).max?) :
    heuristicRow ext (db.problemsForContest contestId) ud = heuristicUserRow ext db contestId us := by
  have htotal := foldl_bestScores (fun cp : ContestProblem =>
    (db.scores contestId us.id cp.problemId).max?) (db.problemsForContest contestId) 0
  simp only [heuristicRow, heuristicUserRow, bestScores, hl, hname, RowWithRaw.mk.injEq,
    StandingRow.mk.injEq, true_and, and_true]
  exact ⟨congrArg _ htotal, htotal⟩

@[simp] theorem username_userRow (us : UserRow) :
    (userRow ext app db contest contestId us).row.username = us.username := by
  rw [userRow]
  split_ifs <;> rfl

theorem lastAcRaw_userRow (us : UserRow) :
    (userRow ext app db contest contestId us).lastAcRaw =
      if contest.judgeType = .heuristic then none else lastAc db contestId us := by
  rw [userRow]
  split_ifs <;> rfl

/-- The standings have a row for each of their users, in the order of the map. -/
theorem exists_rawRows_eq (ext : Externals) (app : AppState) (contest : Contest) (contestId : String)
    (hids : (db.users.map (·.id)).Nodup) :
    ∃ (keys : List Uuid) (row : Uuid → Option RowWithRaw),
      keys.Perm ((db.standingUsers contest contestId).map (·.id)) ∧
      (∀ us ∈ db.standingUsers contest contestId,
        row us.id = some (userRow ext app db contest contestId us)) ∧
      ∀ order : HashOrder, rawRows ext app db order contest contestId =
        (order.iterate keys).filterMap row := by
  have hmin : ∀ vs : List Time, vs ≠ [] → vs.min?.isSome = true := fun vs h =>
    List.isSome_min?_iff.mpr h
  have hmax : ∀ vs : List F64, vs ≠ [] → vs.max?.isSome = true := fun vs h =>
    List.isSome_max?_iff.mpr h
  simp only [rawRows, Db.standingUsers]
  split_ifs with h
  · refine exists_values_eq hids rfl hmax fun us _ ud hname hl => ?_
    rw [userRow, if_pos h]
    exact heuristicRow_eq hname hl
  · refine exists_values_eq hids rfl hmin fun us _ ud hname hl => ?_
    rw [userRow, if_neg h]
    exact exactRow_eq hname hl

/-- In another order, these are the rows of the users. -/
theorem rawRows_perm (ext : Externals) (app : AppState) (contest : Contest) (contestId : String)
    (hids : (db.users.map (·.id)).Nodup) (order : HashOrder) :
    (rawRows ext app db order contest contestId).Perm
      ((db.standingUsers contest contestId).map (userRow ext app db contest contestId)) := by
  obtain ⟨keys, row, hkeys, hrow, hraw⟩ := exists_rawRows_eq ext app contest contestId hids
  rw [hraw]
  refine (((order.perm _).trans hkeys).filterMap _).trans ?_
  rw [List.filterMap_map, ← List.filterMap_eq_map]
  exact .of_eq (List.filterMap_congr hrow)

end

/-! ## The ranks change nothing else -/

theorem map_rankRows {β : Type} {isHeuristic : Bool} {rows : List RowWithRaw} {i : Nat}
    {prevScore : Option F64} {prevElapsed : Option String} {currentRank : Nat} {f : StandingRow → β}
    (hf : ∀ row, f { row with rank := 0 } = f row) :
    (rankRows isHeuristic i prevScore prevElapsed currentRank rows).map f =
      rows.map fun r => f r.row := by
  have hrank : ∀ (row : StandingRow) (n : Nat), f { row with rank := n } = f row := fun row n =>
    (hf { row with rank := n }).symm.trans (hf row)
  induction rows generalizing i prevScore prevElapsed currentRank with
  | nil => rfl
  | cons r rows ih =>
    rw [rankRows, List.map_cons]
    dsimp only
    split_ifs <;> rw [List.map_cons, ih, hrank]

section

variable {β : Type} {ext : Externals} {app : AppState} {db : Db} {order : HashOrder}
  {contest : Contest} {contestId : String} {f : StandingRow → β}

theorem map_standingRows (hf : ∀ row, f { row with rank := 0 } = f row) :
    (standingRows ext app db order contest contestId).map f =
      (sortRows (rawRows ext app db order contest contestId)).map fun r => f r.row :=
  map_rankRows hf

/-- What the standings say apart from the ranks, user by user. -/
theorem map_standingRows_perm (ext : Externals) (app : AppState) (contest : Contest)
    (contestId : String) (hids : (db.users.map (·.id)).Nodup) (order : HashOrder)
    (hf : ∀ row, f { row with rank := 0 } = f row) :
    ((standingRows ext app db order contest contestId).map f).Perm
      ((db.standingUsers contest contestId).map fun us =>
        f (userRow ext app db contest contestId us).row) := by
  rw [map_standingRows hf]
  refine ((List.perm_insertionSort _ _).map _).trans ?_
  have hraw := (rawRows_perm ext app contest contestId hids order).map fun r => f r.row
  rwa [List.map_map] at hraw

theorem mem_standingRows_raw {row : StandingRow}
    (h : row ∈ standingRows ext app db order contest contestId) :
    ∃ r ∈ rawRows ext app db order contest contestId, row = { r.row with rank := row.rank } := by
  have hmem := List.mem_map_of_mem (f := fun row => { row with rank := 0 }) h
  rw [map_standingRows fun _ => rfl] at hmem
  obtain ⟨r, hr, e⟩ := List.mem_map.mp hmem
  refine ⟨r, (List.mem_insertionSort _).mp hr, ?_⟩
  cases row
  cases hrow : r.row
  rw [hrow, StandingRow.mk.injEq] at e
  obtain ⟨-, rfl, rfl, rfl, rfl⟩ := e
  rfl

end

end MikanJudge

import MikanJudge.Model.SessionStore

/-!
# Which rows the session store removes

`load` deletes an expired row in a statement of its own, which names the id
only. A `save` that comes between the two renews the row, and the DELETE then
removes a live session. Where no `save` does that, a row is only removed by a
`delete` of a caller or after its expiry.
-/

namespace MikanJudge

open MikanJudge.Lib

/-- The stored expiry is in the past. -/
def SessionRow.Expired (row : SessionRow) (now : Time) : Prop := row.expiryUnix * 1000000 < now

instance (row : SessionRow) (now : Time) : Decidable (row.Expired now) := by
  unfold SessionRow.Expired; infer_instance

namespace SessionStore

/-- No row is renewed while a `load` that finds it expired has yet to delete it:
a `save` before that DELETE stores an expiry in the past, and when `load` looks
at the row it has found, the one in the table is expired as well. -/
def NoRenewal (s : SessionStore) (a : StoreAction) : Prop :=
  (∀ i record, a = .exec i true → s.calls[i]? = some (.save record) →
    .cleanUp record.id ∈ s.calls → unixTimestamp record.expiryDate * 1000000 < s.clock) ∧
  ∀ i row, a = .check i → s.calls[i]? = some (.fetched row) → row.Expired s.clock →
    ∀ row' ∈ s.rows, row'.id = row.id → row'.Expired s.clock

/-- A row the step removes: its id is in the table no more. -/
def Removes (s t : SessionStore) (row : SessionRow) : Prop :=
  row ∈ s.rows ∧ ∀ row' ∈ t.rows, row'.id ≠ row.id

section

variable {ext : Externals} {s t : SessionStore} {a : StoreAction}

/-! ## What a step does -/

/-- What the next statement of a call makes of it and of the table. -/
inductive Executed (ext : Externals) (rows : List SessionRow) :
    Bool → StoreCall → StoreCall → List SessionRow → Prop
  | failed (c : StoreCall) :
    Executed ext rows false c (.returned (.error (.backend .connection))) rows
  | save (record : Record) :
    Executed ext rows true (.save record) (.returned (.ok none))
      (upsertSession rows (record.toRow ext))
  | missing {id : String} : rows.find? (·.id == id) = none →
    Executed ext rows true (.load id) (.returned (.ok none)) rows
  | found {id : String} {row : SessionRow} : rows.find? (·.id == id) = some row →
    Executed ext rows true (.load id) (.fetched row) rows
  | cleanUp (id : String) :
    Executed ext rows true (.cleanUp id) (.returned (.ok none)) (deleteSession rows id)
  | notCleanedUp (id : String) :
    Executed ext rows false (.cleanUp id) (.returned (.ok none)) rows
  | delete (id : String) :
    Executed ext rows true (.delete id) (.returned (.ok none)) (deleteSession rows id)

theorem exec_cases {i : Nat} {connected : Bool} (h : s.step ext (.exec i connected) = some t) :
    ∃ c c' rows, s.calls[i]? = some c ∧ Executed ext s.rows connected c c' rows ∧
      t = { s with rows := rows, calls := s.calls.set i c' } := by
  obtain ⟨c, hc, h⟩ := Option.bind_eq_some_iff.mp h
  cases c with
  | save record =>
    cases connected <;> cases h
    · exact ⟨_, _, _, hc, .failed _, rfl⟩
    · exact ⟨_, _, _, hc, .save record, rfl⟩
  | load id =>
    cases connected with
    | false =>
      cases h
      exact ⟨_, _, _, hc, .failed _, rfl⟩
    | true =>
      rw [stepExec, if_pos rfl] at h
      split at h
      · rename_i hfind
        cases h
        exact ⟨_, _, _, hc, .missing hfind, rfl⟩
      · rename_i row hfind
        cases h
        exact ⟨_, _, _, hc, .found hfind, rfl⟩
  | cleanUp id =>
    cases connected <;> cases h
    · exact ⟨_, _, _, hc, .notCleanedUp id, rfl⟩
    · exact ⟨_, _, _, hc, .cleanUp id, rfl⟩
  | delete id =>
    cases connected <;> cases h
    · exact ⟨_, _, _, hc, .failed _, rfl⟩
    · exact ⟨_, _, _, hc, .delete id, rfl⟩
  | fetched row => cases h
  | returned result => cases h

theorem check_cases {i : Nat} (h : s.step ext (.check i) = some t) :
    ∃ row, s.calls[i]? = some (.fetched row) ∧ t = s.setCall i (afterSelect ext s.clock row) := by
  rw [step] at h
  split at h
  · rename_i row hc
    cases h
    exact ⟨row, hc, rfl⟩
  · cases h

theorem mem_upsertSession {rows : List SessionRow} {row row' : SessionRow}
    (h : row' ∈ upsertSession rows row) : row' ∈ rows ∨ row' = row := by
  rw [upsertSession] at h
  split_ifs at h
  · obtain ⟨r, hr, rfl⟩ := List.mem_map.mp h
    split_ifs
    · exact .inr rfl
    · exact .inl hr
  · exact (List.mem_append.mp h).imp_right List.mem_singleton.mp

/-- An upsert keeps all ids. -/
theorem exists_id_upsertSession {rows : List SessionRow} (row : SessionRow) {r : SessionRow}
    (h : r ∈ rows) :
    ∃ row' ∈ upsertSession rows row, row'.id = r.id := by
  rw [upsertSession]
  split_ifs
  · by_cases hr : r.id = row.id
    · exact ⟨row, List.mem_map.mpr ⟨r, h, if_pos hr⟩, hr.symm⟩
    · exact ⟨r, List.mem_map.mpr ⟨r, h, if_neg hr⟩, rfl⟩
  · exact ⟨r, List.mem_append_left _ h, rfl⟩

theorem mem_of_mem_set {calls : List StoreCall} {i : Nat} {c c' : StoreCall}
    (h : c' ∈ calls.set i c) (hne : c' ≠ c) : c' ∈ calls :=
  (List.mem_or_eq_of_mem_set h).elim id fun e => absurd e hne

/-- The statement of a step on the table, if it has one. -/
def RowsStep (ext : Externals) (s : SessionStore) (a : StoreAction) (t : SessionStore) : Prop :=
  t.rows = s.rows ∨
  (∃ i record, a = .exec i true ∧ s.calls[i]? = some (.save record) ∧
    t.rows = upsertSession s.rows (record.toRow ext)) ∨
  (∃ i id, a = .exec i true ∧ s.calls[i]? = some (.cleanUp id) ∧ t.rows = deleteSession s.rows id) ∨
  ∃ i id, a = .exec i true ∧ s.calls[i]? = some (.delete id) ∧ t.rows = deleteSession s.rows id

/-- Where a call that is about to clean up comes from. -/
def CallsStep (s : SessionStore) (a : StoreAction) (t : SessionStore) : Prop :=
  ∀ id, .cleanUp id ∈ t.calls → .cleanUp id ∈ s.calls ∨
    ∃ i row, a = .check i ∧ s.calls[i]? = some (.fetched row) ∧ row.id = id ∧ row.Expired s.clock

theorem callsStep_of_set {i : Nat} {c : StoreCall} (h : t.calls = s.calls.set i c)
    (hc : ∀ id, c ≠ .cleanUp id) : CallsStep s a t := fun id hid =>
  .inl (mem_of_mem_set (h ▸ hid) (hc id).symm)

theorem afterSelect_eq_cleanUp {now : Time} {row : SessionRow} {id : String}
    (h : afterSelect ext now row = .cleanUp id) : row.id = id ∧ row.Expired now := by
  rw [afterSelect, fromUnixTimestamp] at h
  split_ifs at h with hr
  · dsimp only at h
    split_ifs at h with hlt
    · cases h
      exact ⟨rfl, hlt⟩
    · split at h <;> cases h

theorem step_cases (h : s.step ext a = some t) :
    s.clock ≤ t.clock ∧ RowsStep ext s a t ∧ CallsStep s a t := by
  cases a with
  | tick now =>
    rw [step] at h
    split_ifs at h with hle
    cases h
    exact ⟨hle, .inl rfl, fun id hid => .inl hid⟩
  | save record | load id | delete id =>
    cases h
    exact ⟨le_rfl, .inl rfl, fun id hid => by simpa [addCall] using hid⟩
  | exec i connected =>
    obtain ⟨c, c', rows, hc, hexec, rfl⟩ := exec_cases h
    refine ⟨le_rfl, ?_, callsStep_of_set rfl ?_⟩
    · cases hexec with
      | failed | missing | found | notCleanedUp => exact .inl rfl
      | save record => exact .inr (.inl ⟨i, record, rfl, hc, rfl⟩)
      | cleanUp id => exact .inr (.inr (.inl ⟨i, id, rfl, hc, rfl⟩))
      | delete id => exact .inr (.inr (.inr ⟨i, id, rfl, hc, rfl⟩))
    · cases hexec <;> exact fun _ => StoreCall.noConfusion
  | check i =>
    obtain ⟨row, hc, rfl⟩ := check_cases h
    refine ⟨le_rfl, .inl rfl, fun id hid => ?_⟩
    by_cases he : afterSelect ext s.clock row = .cleanUp id
    · obtain ⟨e, hexp⟩ := afterSelect_eq_cleanUp he
      exact .inr ⟨i, row, rfl, hc, e, hexp⟩
    · exact .inl (mem_of_mem_set hid fun e => he e.symm)
  | cancel i =>
    cases h
    exact ⟨le_rfl, .inl rfl, fun id hid => .inl (List.mem_of_mem_eraseIdx hid)⟩

/-! ## What a run removes -/

/-- A row that a `load` is about to delete is expired. -/
def CleansExpired (s : SessionStore) : Prop :=
  ∀ id, .cleanUp id ∈ s.calls → ∀ row ∈ s.rows, row.id = id → row.Expired s.clock

theorem CleansExpired.step (hi : CleansExpired s) (hok : s.NoRenewal a)
    (h : s.step ext a = some t) : CleansExpired t := by
  obtain ⟨hclock, hrows, hcalls⟩ := step_cases h
  -- a row that was in the table before
  have hold : ∀ id, .cleanUp id ∈ t.calls → ∀ row ∈ s.rows, row.id = id → row.Expired t.clock := by
    intro id hid row hrow e
    refine lt_of_lt_of_le ?_ hclock
    rcases hcalls id hid with hid | ⟨i, found, ha, hc, e', hexp⟩
    · exact hi id hid row hrow e
    · exact hok.2 i found ha hc hexp row hrow (e.trans e'.symm)
  intro id hid row hrow e
  rcases hrows with hr | ⟨i, record, ha, hc, hr⟩ | ⟨i, id', ha, hc, hr⟩ | ⟨i, id', ha, hc, hr⟩ <;>
    rw [hr] at hrow
  · exact hold id hid row hrow e
  · rcases mem_upsertSession hrow with hrow | rfl
    · exact hold id hid row hrow e
    · obtain rfl : record.id = id := e
      rcases hcalls record.id hid with hid | ⟨j, _, ha', -⟩
      · exact (hok.1 i record ha hc hid).trans_le hclock
      · rw [ha] at ha'
        cases ha'
  · exact hold id hid row (List.mem_of_mem_filter hrow) e
  · exact hold id hid row (List.mem_of_mem_filter hrow) e

/-- A row is removed by a `delete` of a caller, or it was expired. -/
theorem removed_of_step (hi : CleansExpired s) (h : s.step ext a = some t) {row : SessionRow}
    (hr : Removes s t row) :
    (∃ i, a = .exec i true ∧ s.calls[i]? = some (.delete row.id)) ∨ row.Expired s.clock := by
  have hdelete : ∀ id, t.rows = deleteSession s.rows id → row.id = id := by
    intro id e
    by_contra hne
    exact hr.2 row (e ▸ List.mem_filter.mpr ⟨hr.1, by simpa using hne⟩) rfl
  obtain ⟨-, hrows, -⟩ := step_cases h
  rcases hrows with e | ⟨i, record, ha, hc, e⟩ | ⟨i, id, ha, hc, e⟩ | ⟨i, id, ha, hc, e⟩
  · exact absurd rfl (hr.2 row (e ▸ hr.1))
  · obtain ⟨row', hrow', e'⟩ := exists_id_upsertSession (record.toRow ext) hr.1
    exact absurd e' (hr.2 row' (e ▸ hrow'))
  · exact .inr (hi id (List.mem_of_getElem? hc) row hr.1 (hdelete id e))
  · exact .inl ⟨i, ha, hdelete id e ▸ hc⟩

/-- In a run in which no row is renewed while a `load` that finds it expired has yet
to delete it, a row is only removed by a `delete` of a caller, or after its expiry. -/
theorem removed_of_run (ext : Externals) {s t u : SessionStore} {tr : List (SessionStore × StoreAction)}
    {a : StoreAction} (hs : (system ext).init s) (h : (system ext).Run s tr t)
    (hstep : (system ext).step t a u) (hok : ∀ e ∈ tr, e.1.NoRenewal e.2) :
    ∀ row, Removes t u row →
      (∃ i, a = .exec i true ∧ t.calls[i]? = some (.delete row.id)) ∨ row.Expired t.clock := by
  have hinv : CleansExpired t := by
    refine h.invariant_of_forall (fun s a t hi (hok : s.NoRenewal a) h => hi.step hok h) hok ?_
    intro id hid
    rw [show s.calls = [] from hs] at hid
    cases hid
  exact fun row hr => removed_of_step hinv hstep hr

end

/-! ### A renewed session -/

/-- A session that expired at second 100. -/
def expiredRow : SessionRow := { id := "a", data := "\x7b\x7d", expiryUnix := 100 }

/-- The store at second 200. -/
def expiredStore : SessionStore := { clock := 200000000, rows := [expiredRow], calls := [] }

/-- The session, valid until second 300. -/
def renewedRecord : Record := { id := "a", data := [], expiryDate := 300000000 }

/-- A `load` finds the row expired. -/
def expiredTrace : List (SessionStore × StoreAction) := [
  (expiredStore, .load "a"),
  ({ expiredStore with calls := [.load "a"] }, .exec 0 true),
  ({ expiredStore with calls := [.fetched expiredRow] }, .check 0)]

/-- And removes it, when no `save` comes between. -/
theorem removed_of_run_expired :
    (∃ i, StoreAction.exec 0 true = .exec i true ∧
      ([.cleanUp "a"] : List StoreCall)[i]? = some (.delete "a")) ∨
    expiredRow.Expired 200000000 := by
  have hrun : (system .simple).Run expiredStore expiredTrace
      { expiredStore with calls := [.cleanUp "a"] } :=
    System.run_of_execAll (show System.execAll (step .simple) expiredStore
      [.load "a", .exec 0 true, .check 0] = some (_, _) from rfl)
  have hok : ∀ e ∈ expiredTrace, e.1.NoRenewal e.2 := by
    simp only [expiredTrace, List.mem_cons, List.not_mem_nil, or_false, forall_eq_or_imp, forall_eq]
    refine ⟨⟨fun _ _ h => ?_, fun _ _ h => ?_⟩, ⟨fun _ _ h hc => ?_, fun _ _ h => ?_⟩,
      ⟨fun _ _ h => ?_, fun _ _ _ _ _ row' hrow' _ => ?_⟩⟩
    · cases h
    · cases h
    · cases h
      cases hc
    · cases h
    · cases h
    · rw [List.mem_singleton.mp hrow']
      decide
  have hstep : (system .simple).step { expiredStore with calls := [.cleanUp "a"] } (.exec 0 true)
      { expiredStore with rows := [], calls := [.returned (.ok none)] } := rfl
  exact removed_of_run .simple (show expiredStore.calls = [] from rfl) hrun hstep hok expiredRow
    ⟨List.mem_cons_self, fun _ h => absurd h List.not_mem_nil⟩

/-- When a `save` renews it first, the DELETE of the `load` removes a live session. -/
theorem removed_of_run_fails :
    ∃ tr s t, (system .simple).init expiredStore ∧ (system .simple).Run expiredStore tr s ∧
      (system .simple).step s (.exec 0 true) t ∧
      ∃ row, Removes s t row ∧ ¬ row.Expired s.clock ∧
        ¬ ∃ i, StoreAction.exec 0 true = .exec i true ∧ s.calls[i]? = some (.delete row.id) := by
  refine ⟨_, _, _, rfl, System.run_of_execAll (show System.execAll (step .simple) expiredStore
      [.load "a", .exec 0 true, .check 0, .save renewedRecord, .exec 1 true] = some (_, _) from rfl),
    rfl, renewedRecord.toRow .simple, ⟨List.mem_cons_self, fun row' h => by cases h⟩, by decide, ?_⟩
  rintro ⟨i, h, hc⟩
  cases h
  cases hc

end SessionStore

end MikanJudge

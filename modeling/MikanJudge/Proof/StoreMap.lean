import MikanJudge.Lib.ExpiringMap
import MikanJudge.Proof.SessionStore

/-!
# The session store is an expiring map

Calls made one after another, over connections that do not fail, on a table
that starts empty: what they return is what an expiring map answers, whose
expiries are those of the records cut to whole seconds. The map forgets an
expired entry when a `load` finds it; the table does so one statement later,
before the `load` returns.
-/

namespace MikanJudge

open MikanJudge.Lib

/-- A time cut to whole seconds. -/
def Time.toSeconds (t : Time) : Time := unixTimestamp t * 1000000

theorem Time.toSeconds_le (t : Time) : t.toSeconds ≤ t := by
  have h : (t / 1000000) * 1000000 ≤ t := Int.ediv_mul_le t (by decide)
  exact h

/-- A record whose data is decoded as it was encoded, and whose expiry is a date
with a year of up to four digits. -/
def Record.Storable (ext : Externals) (record : Record) : Prop :=
  decodeData ext (record.toRow ext).data = .ok record.data ∧
    fromUnixTimestamp (unixTimestamp record.expiryDate) = .ok record.expiryDate.toSeconds

/-- A record as it is stored and loaded again. -/
def Record.cut (record : Record) : Record :=
  { record with expiryDate := record.expiryDate.toSeconds }

def StoreCall.isReturned : StoreCall → Bool
  | .returned _ => true
  | _ => false

def StoreCall.result : StoreCall → Option (Except StoreError (Option Record))
  | .returned result => some result
  | _ => none

namespace SessionStore

/-- A step of calls made one after another: a call starts when those before it
have returned, and its statements reach the table. -/
def Sequential (s : SessionStore) : StoreAction → Prop
  | .save _ | .load _ | .delete _ => ∀ c ∈ s.calls, c.isReturned = true
  | .exec _ connected => connected = true
  | .cancel _ => False
  | .tick _ | .check _ => True

/-- The records saved can be read back. -/
def SavesStorable (ext : Externals) (a : StoreAction) : Prop :=
  ∀ record, a = .save record → record.Storable ext

/-! ## What a run shows -/

/-- The call on the map that a call under way is, at a clock reading. -/
def mapCall (now : Time) : StoreCall → Option (MapCall String Record Time)
  | .save record => some (.save record.id record record.expiryDate.toSeconds)
  | .load id | .cleanUp id => some (.load id now)
  | .fetched row => some (.load row.id now)
  | .delete id => some (.delete id)
  | .returned _ => none

/-- The position of the call an action goes on with. -/
def position : StoreAction → Option Nat
  | .exec i _ | .check i => some i
  | _ => none

/-- The call a step returns from, with what it returns. -/
def event (ext : Externals) (e : SessionStore × StoreAction) :
    Option (MapCall String Record Time × Except StoreError (Option Record)) :=
  (position e.2).bind fun i => (e.1.calls[i]?).bind fun c => (mapCall e.1.clock c).bind fun m =>
    (e.1.step ext e.2).bind fun t => (t.calls[i]?).bind fun c' => c'.result.map fun r => (m, r)

/-- The calls a trace shows, each with what it returned, in the order they
returned in. -/
def history (ext : Externals) (tr : List (SessionStore × StoreAction)) :
    List (MapCall String Record Time × Except StoreError (Option Record)) :=
  tr.filterMap (event ext)

/-- What a call returns, of the answer of the map. -/
def report (answer : Option (Record × Time)) : Except StoreError (Option Record) :=
  .ok (answer.map fun entry => { entry.1 with expiryDate := entry.2 })

/-! ## The table and the map -/

section

variable {ext : Externals} {s t : SessionStore} {a : StoreAction} {rows : List SessionRow}
  {m : ExpiringMap String Record Time} {c : StoreCall} {id : String} {now : Time}

/-- A row that is replaced is found, whatever comes after it. -/
theorem find?_replace_self {row : SessionRow} (h : ∃ r ∈ rows, r.id = row.id) :
    (rows.map fun r => if r.id = row.id then row else r).find? (·.id == row.id) = some row := by
  induction rows with
  | nil =>
    obtain ⟨r, hr, -⟩ := h
    exact absurd hr List.not_mem_nil
  | cons r rows ih =>
    rw [List.map_cons]
    by_cases hr : r.id = row.id
    · rw [if_pos hr, List.find?_cons_of_pos (by simp)]
    · rw [if_neg hr, List.find?_cons_of_neg (by simpa using hr)]
      obtain ⟨r', hr', e⟩ := h
      rcases List.mem_cons.mp hr' with rfl | hr'
      · exact absurd e hr
      · exact ih ⟨r', hr', e⟩

/-- Other rows are found as before. -/
theorem find?_replace_of_ne {row : SessionRow} (hid : row.id ≠ id) :
    (rows.map fun r => if r.id = row.id then row else r).find? (·.id == id) =
      rows.find? (·.id == id) := by
  induction rows with
  | nil => rfl
  | cons r rows ih =>
    rw [List.map_cons]
    by_cases hr : r.id = row.id
    · rw [if_pos hr, List.find?_cons_of_neg (by simpa using hid),
        List.find?_cons_of_neg (by simpa [hr] using hid), ih]
    · rw [if_neg hr]
      by_cases hr' : r.id = id
      · rw [List.find?_cons_of_pos (by simpa using hr'), List.find?_cons_of_pos (by simpa using hr')]
      · rw [List.find?_cons_of_neg (by simpa using hr'), List.find?_cons_of_neg (by simpa using hr'),
          ih]

/-- The row of an id after an upsert. -/
theorem find?_upsertSession (rows : List SessionRow) (row : SessionRow) (id : String) :
    (upsertSession rows row).find? (·.id == id) =
      if row.id = id then some row else rows.find? (·.id == id) := by
  rw [upsertSession]
  split_ifs with hany hid hid
  · subst hid
    exact find?_replace_self (by simpa using hany)
  · exact find?_replace_of_ne hid
  · subst hid
    have hnone : rows.find? (·.id == row.id) = none := by simpa using hany
    rw [List.find?_append, hnone]
    simp
  · rw [List.find?_append]
    simp [hid]

/-- The row of an id after a delete. -/
theorem find?_deleteSession (rows : List SessionRow) (id id' : String) :
    (deleteSession rows id).find? (·.id == id') =
      if id = id' then none else rows.find? (·.id == id') := by
  rw [deleteSession, List.find?_filter]
  split_ifs with h
  · subst h
    simp
  · congr 1
    funext r
    by_cases hr : r.id = id'
    · simp [hr, Ne.symm h]
    · simp [hr]

/-- A row, as `load` reads it. -/
def readRow (ext : Externals) (row : SessionRow) :
    String × Except StoreError (List (String × Json)) × Except StoreError Time :=
  (row.id, decodeData ext row.data, fromUnixTimestamp row.expiryUnix)

/-- The rows hold what the map holds. -/
def Represents (ext : Externals) (rows : List SessionRow) (m : ExpiringMap String Record Time) :
    Prop :=
  ∀ id, (rows.find? (·.id == id)).map (readRow ext) =
    (m id).map fun entry => (entry.1.id, .ok entry.1.data, .ok entry.2)

theorem Represents.upsert {record : Record} (h : Represents ext rows m)
    (hst : record.Storable ext) :
    Represents ext (upsertSession rows (record.toRow ext))
      (m.step (.save record.id record record.expiryDate.toSeconds)) := by
  intro id
  rw [find?_upsertSession, ExpiringMap.step, Function.update_apply]
  by_cases hid : record.id = id
  · rw [if_pos (show (record.toRow ext).id = id from hid), if_pos hid.symm, Option.map_some,
      Option.map_some, readRow, hst.1]
    exact congrArg some (Prod.ext rfl (Prod.ext rfl hst.2))
  · rw [if_neg (show (record.toRow ext).id ≠ id from hid), if_neg (Ne.symm hid)]
    exact h id

/-- The table loses what the map does. -/
theorem Represents.delete (h : Represents ext rows m) {id : String} :
    Represents ext (deleteSession rows id) (m.step (.delete id)) := by
  intro id'
  rw [find?_deleteSession, ExpiringMap.step, Function.update_apply]
  by_cases hid : id = id'
  · rw [if_pos hid, if_pos hid.symm]
    rfl
  · rw [if_neg hid, if_neg (Ne.symm hid)]
    exact h id'

/-- What is known of the call under way. -/
def Fits (ext : Externals) (s : SessionStore) (m : ExpiringMap String Record Time) :
    StoreCall → Prop
  | .save record => record.Storable ext
  | .fetched row => ∃ entry, m row.id = some entry ∧
      readRow ext row = (entry.1.id, .ok entry.1.data, .ok entry.2)
  -- found expired
  | .cleanUp id => ∀ entry, m id = some entry → entry.2 < s.clock
  | .load _ | .delete _ | .returned _ => True

/-- The store holds what the map holds, and all calls but the last have
returned. -/
structure Refines (ext : Externals) (s : SessionStore) (m : ExpiringMap String Record Time) :
    Prop where
  rows : Represents ext s.rows m
  calls : ∃ done cur, s.calls = done ++ Option.toList cur ∧ (∀ c ∈ done, c.isReturned = true) ∧
    ∀ c ∈ cur, Fits ext s m c

/-- A call that has not returned is the last one. -/
theorem Refines.current (h : Refines ext s m) {i : Nat} (hc : s.calls[i]? = some c)
    (hr : c.isReturned = false) :
    ∃ done, s.calls = done ++ [c] ∧ i = done.length ∧ (∀ c ∈ done, c.isReturned = true) ∧
      Fits ext s m c := by
  obtain ⟨done, cur, hcalls, hdone, hfits⟩ := h.calls
  rw [hcalls] at hc
  have hi : done.length ≤ i := by
    by_contra hlt
    rw [List.getElem?_append_left (Nat.lt_of_not_le hlt)] at hc
    exact absurd (hdone c (List.mem_of_getElem? hc)) (by simp [hr])
  rw [List.getElem?_append_right hi] at hc
  cases cur with
  | none => cases hc
  | some x =>
    obtain ⟨hlt, rfl⟩ := List.getElem?_eq_some_iff.mp hc
    have hi' : i = done.length := by
      simp only [Option.toList_some, List.length_singleton] at hlt
      omega
    subst hi'
    simp only [Option.toList_some, Nat.sub_self, List.getElem_cons_zero] at hcalls hfits ⊢
    exact ⟨done, hcalls, rfl, hdone, hfits x rfl⟩

/-- The call under way goes on. -/
theorem Refines.setCall (h : Refines ext s m) {i : Nat} {c' : StoreCall}
    {m' : ExpiringMap String Record Time} (hc : s.calls[i]? = some c) (hr : c.isReturned = false)
    (ht : t.calls = s.calls.set i c') (hrows : Represents ext t.rows m') (hfits : Fits ext t m' c') :
    Refines ext t m' := by
  obtain ⟨done, hcalls, rfl, hdone, -⟩ := h.current hc hr
  refine ⟨hrows, done, some c', ?_, hdone, fun c e => ?_⟩
  · rw [ht, hcalls, List.set_append_right _ _ le_rfl, Nat.sub_self]
    rfl
  · cases e
    exact hfits

/-- What a step shows of the call it goes on with. -/
theorem event_eq {i : Nat} {c' : StoreCall} {call : MapCall String Record Time}
    (hp : position a = some i) (hc : s.calls[i]? = some c) (hm : mapCall s.clock c = some call)
    (h : s.step ext a = some t) (ht : t.calls = s.calls.set i c') :
    event ext (s, a) = c'.result.map fun r => (call, r) := by
  have hi : i < s.calls.length := (List.getElem?_eq_some_iff.mp hc).1
  rw [event, hp, Option.bind_some, hc, Option.bind_some, hm, Option.bind_some, h, Option.bind_some,
    ht, List.getElem?_set_self hi, Option.bind_some]

theorem represents_load (h : Represents ext s.rows m) (id : String) (now : Time)
    (hlive : ∀ entry, m id = some entry → now ≤ entry.2) :
    Represents ext s.rows (m.step (.load id now)) := by
  intro id'
  by_cases hid : id = id'
  · subst hid
    rw [h id, ExpiringMap.step, Function.update_self]
    cases e : m id with
    | none => rw [ExpiringMap.lookup, e]; rfl
    | some entry => rw [ExpiringMap.lookup_eq_some_iff.mpr ⟨e, hlive entry e⟩]
  · rw [h id', ExpiringMap.step_of_ne (show (MapCall.load id now).key ≠ id' from hid)]

/-- A `load` that finds an expired entry does to the map what a `delete` does. -/
theorem step_load_of_expired (hexp : ∀ entry, m id = some entry → entry.2 < now) :
    m.lookup id now = none ∧ m.step (.load id now) = m.step (.delete id) := by
  have hnone : m.lookup id now = none := by
    rw [Option.eq_none_iff_forall_ne_some]
    intro entry he
    obtain ⟨he, hle⟩ := ExpiringMap.lookup_eq_some_iff.mp he
    exact absurd (hexp entry he) (not_lt.mpr hle)
  exact ⟨hnone, by rw [ExpiringMap.step, hnone, ExpiringMap.step]⟩

/-- The map follows a step of the store. -/
def Follows (ext : Externals) (s : SessionStore) (a : StoreAction) (t : SessionStore)
    (m : ExpiringMap String Record Time) : Prop :=
  ∃ m', Refines ext t m' ∧ ((ExpiringMap.system report).step m (event ext (s, a)) m' ∨
    (m' = m ∧ event ext (s, a) = none))

/-- A step from which a call returns what the map answers. -/
theorem Follows.of_event {call : MapCall String Record Time}
    {r : Except StoreError (Option Record)} (he : event ext (s, a) = some (call, r))
    (hr : r = report (m.answer call)) (h : Refines ext t (m.step call)) : Follows ext s a t m :=
  ⟨_, h, .inl ⟨call, by rw [he, hr], rfl⟩⟩

/-- The statements. -/
theorem follows_exec {i : Nat} (hR : Refines ext s m) (h : s.step ext (.exec i true) = some t) :
    Follows ext s (.exec i true) t m := by
  obtain ⟨c, c', rows, hc, hexec, rfl⟩ := exec_cases h
  have hfits : c.isReturned = false → Fits ext s m c := fun hr => by
    obtain ⟨-, -, -, -, hfits⟩ := hR.current hc hr
    exact hfits
  cases hexec with
  | save record =>
    refine .of_event (event_eq rfl hc rfl h rfl) rfl ?_
    exact hR.setCall hc rfl rfl (hR.rows.upsert (hfits rfl)) trivial
  | @missing id hfind =>
    have hrow := hR.rows id
    have hnone : m id = none := by simpa [hfind] using hrow
    refine .of_event (event_eq rfl hc rfl h rfl) ?_ ?_
    · rw [ExpiringMap.answer, ExpiringMap.lookup, hnone]
      rfl
    · refine hR.setCall hc rfl rfl (represents_load hR.rows id s.clock fun entry he => ?_) trivial
      rw [hnone] at he
      cases he
  | @found id row hfind =>
    have hrow := hR.rows id
    rw [hfind, Option.map_some] at hrow
    obtain ⟨entry, he, hread⟩ := Option.map_eq_some_iff.mp hrow.symm
    obtain rfl : row.id = id := by simpa using List.find?_some hfind
    exact ⟨m, hR.setCall hc rfl rfl hR.rows ⟨entry, he, hread.symm⟩,
      .inr ⟨rfl, event_eq rfl hc rfl h rfl⟩⟩
  | cleanUp id =>
    obtain ⟨hnone, hstep⟩ := step_load_of_expired (hfits rfl)
    refine .of_event (event_eq rfl hc rfl h rfl) ?_ ?_
    · rw [ExpiringMap.answer, hnone]
      rfl
    · rw [hstep]
      exact hR.setCall hc rfl rfl hR.rows.delete trivial
  | delete id =>
    refine .of_event (event_eq rfl hc rfl h rfl) rfl ?_
    exact hR.setCall hc rfl rfl hR.rows.delete trivial

/-- `load` looks at the row it found. -/
theorem follows_check {i : Nat} (hR : Refines ext s m) (h : s.step ext (.check i) = some t) :
    Follows ext s (.check i) t m := by
  obtain ⟨row, hc, rfl⟩ := check_cases h
  obtain ⟨-, -, -, -, entry, hentry, hread⟩ := hR.current hc rfl
  obtain ⟨hid, hdata, hexpiry⟩ : row.id = entry.1.id ∧
      decodeData ext row.data = .ok entry.1.data ∧
      fromUnixTimestamp row.expiryUnix = .ok entry.2 := by
    simpa only [readRow, Prod.mk.injEq] using hread
  by_cases hexp : entry.2 < s.clock
  · have hafter : afterSelect ext s.clock row = .cleanUp row.id := by
      rw [afterSelect, hexpiry]
      exact if_pos hexp
    refine ⟨m, hR.setCall hc rfl rfl hR.rows ?_, .inr ⟨rfl, ?_⟩⟩
    · rw [hafter]
      intro entry' he
      obtain rfl : entry = entry' := Option.some.inj (hentry.symm.trans he)
      exact hexp
    · rw [event_eq rfl hc rfl h rfl, hafter]
      rfl
  · have hafter : afterSelect ext s.clock row = .returned (.ok (some
        { id := row.id, data := entry.1.data, expiryDate := entry.2 })) := by
      rw [afterSelect, hexpiry]
      dsimp only
      rw [if_neg hexp, hdata]
    have hlookup : m.lookup row.id s.clock = some entry :=
      ExpiringMap.lookup_eq_some_iff.mpr ⟨hentry, not_lt.mp hexp⟩
    refine .of_event ((event_eq rfl hc rfl h rfl).trans (by rw [hafter]; rfl)) ?_ ?_
    · rw [ExpiringMap.answer, hlookup, hid]
      rfl
    · refine hR.setCall hc rfl rfl (represents_load hR.rows row.id s.clock fun entry' he => ?_) ?_
      · obtain rfl : entry = entry' := Option.some.inj (hentry.symm.trans he)
        exact not_lt.mp hexp
      · rw [hafter]
        trivial

theorem simulation (ext : Externals) :
    System.Simulation
      ((system ext).restrict fun s a => Sequential s a ∧ SavesStorable ext a)
      (ExpiringMap.system report) (event ext) (Refines ext) where
  step {s t a m} hR hstep := by
    obtain ⟨⟨hseq, hst⟩, h⟩ := hstep
    change s.step ext a = some t at h
    cases a with
    | tick now =>
      rw [step] at h
      split_ifs at h with hle
      cases h
      refine ⟨m, ⟨hR.rows, ?_⟩, .inr ⟨rfl, rfl⟩⟩
      obtain ⟨done, cur, hcalls, hdone, hfits⟩ := hR.calls
      refine ⟨done, cur, hcalls, hdone, fun c hc => ?_⟩
      have hc := hfits c hc
      cases c with
      | cleanUp id => exact fun entry he => (hc entry he).trans_le hle
      | _ => exact hc
    | save record =>
      cases h
      exact ⟨m, ⟨hR.rows, s.calls, some (.save record), rfl, hseq, fun c e => by
        cases e; exact hst record rfl⟩, .inr ⟨rfl, rfl⟩⟩
    | load id =>
      cases h
      exact ⟨m, ⟨hR.rows, s.calls, some (.load id), rfl, hseq, fun c e => by
        cases e; exact trivial⟩, .inr ⟨rfl, rfl⟩⟩
    | delete id =>
      cases h
      exact ⟨m, ⟨hR.rows, s.calls, some (.delete id), rfl, hseq, fun c e => by
        cases e; exact trivial⟩, .inr ⟨rfl, rfl⟩⟩
    | exec i connected =>
      obtain rfl : connected = true := hseq
      exact follows_exec hR h
    | check i => exact follows_check hR h
    | cancel i => exact hseq.elim

/-- A trace of calls made one after another on a table that starts empty, whose
records can be read back. -/
structure SequentialRun (ext : Externals) (tr : List (SessionStore × StoreAction)) : Prop where
  run : ∃ s t, s.rows = [] ∧ s.calls = [] ∧ (system ext).Run s tr t
  sequential : ∀ e ∈ tr, Sequential e.1 e.2
  storable : ∀ e ∈ tr, SavesStorable ext e.2

variable {tr : List (SessionStore × StoreAction)}

/-- What the calls return is what an expiring map answers. -/
theorem SequentialRun.answers (h : SequentialRun ext tr) :
    ExpiringMap.Answers report (history ext tr) := by
  obtain ⟨s, t, hrows, hcalls, hrun⟩ := h.run
  have hstart : Refines ext s .empty := by
    refine ⟨fun id => ?_, [], none, hcalls, fun c hc => absurd hc List.not_mem_nil, fun c e => ?_⟩
    · rw [hrows]
      rfl
    · cases e
  have hrun' :
      System.Run ((system ext).restrict fun s a => Sequential s a ∧ SavesStorable ext a) s tr t :=
    hrun.restrict fun e he => ⟨h.sequential e he, h.storable e he⟩
  obtain ⟨m, tr', hmap, -, e⟩ := (simulation ext).run hrun' hstart
  rw [history, ← e]
  exact (ExpiringMap.answers_of_run hmap).2

/-- A `save` in the history is that of a record under its id, its expiry cut. -/
theorem save_of_mem_history {e : MapCall String Record Time × Except StoreError (Option Record)}
    (he : e ∈ history ext tr) {saved : Record} {expiry : Time} (hsave : e.1 = .save id saved expiry) :
    saved.id = id ∧ expiry = saved.expiryDate.toSeconds := by
  obtain ⟨x, -, hx⟩ := List.mem_filterMap.mp he
  obtain ⟨i, -, hx⟩ := Option.bind_eq_some_iff.mp hx
  obtain ⟨c, -, hx⟩ := Option.bind_eq_some_iff.mp hx
  obtain ⟨call, hcall, hx⟩ := Option.bind_eq_some_iff.mp hx
  obtain ⟨t, -, hx⟩ := Option.bind_eq_some_iff.mp hx
  obtain ⟨c', -, hx⟩ := Option.bind_eq_some_iff.mp hx
  obtain ⟨r, -, rfl⟩ := Option.map_eq_some_iff.mp hx
  obtain rfl : call = .save id saved expiry := hsave
  cases c with
  | save record =>
    cases hcall
    exact ⟨rfl, rfl⟩
  | _ => cases hcall

theorem report_eq_some_iff {answer : Option (Record × Time)} {record : Record} :
    report answer = .ok (some record) ↔
      ∃ entry, answer = some entry ∧ { entry.1 with expiryDate := entry.2 } = record := by
  rw [report, Except.ok.injEq, Option.map_eq_some_iff]

/-- A `load` returns the record last saved under its id, its expiry cut to whole
seconds, if that is not in the past and every call on the id since then is a
`load` that returned it; else it returns none. What was called on other ids does
not matter, and no record is returned after its expiry. -/
theorem load_iff (h : SequentialRun ext tr)
    {pre post : List (MapCall String Record Time × Except StoreError (Option Record))}
    {result : Except StoreError (Option Record)}
    (he : history ext tr = pre ++ (.load id now, result) :: post) :
    (∃ found, result = .ok found) ∧
    (∀ record, result = .ok (some record) ↔ ∃ saved : Record,
      ExpiringMap.LastSaved report pre id (saved, saved.expiryDate.toSeconds) ∧ saved.id = id ∧
        now ≤ saved.expiryDate.toSeconds ∧ record = saved.cut) ∧
    (∀ record, result = .ok (some record) → ∃ saved : Record,
      ExpiringMap.LastSaved report pre id (saved, saved.expiryDate.toSeconds) ∧
        now ≤ saved.expiryDate) ∧
    ∀ tr' pre' post' result', SequentialRun ext tr' →
      history ext tr' = pre' ++ (.load id now, result') :: post' →
      (pre'.map (·.1)).filter (·.key = id) = (pre.map (·.1)).filter (·.key = id) →
      result' = result := by
  have hresult := h.answers pre _ result post he
  have hpre : ExpiringMap.Answers report pre := fun pre' c r post' e =>
    h.answers pre' c r (post' ++ (.load id now, result) :: post) (by
      rw [he, e, List.append_assoc, List.cons_append])
  have hiff : ∀ record, result = .ok (some record) ↔ ∃ saved : Record,
      ExpiringMap.LastSaved report pre id (saved, saved.expiryDate.toSeconds) ∧ saved.id = id ∧
        now ≤ saved.expiryDate.toSeconds ∧ record = saved.cut := by
    intro record
    rw [hresult, report_eq_some_iff]
    constructor
    · rintro ⟨⟨saved, expiry⟩, hfound, rfl⟩
      obtain ⟨hentry, hle⟩ := ExpiringMap.lookup_eq_some_iff.mp hfound
      have hlast := (hpre.lastSaved_iff (fun _ e => by cases e)).mpr hentry
      have hsaved := hlast
      obtain ⟨before, after, e, -⟩ := hsaved
      obtain ⟨hid, rfl⟩ := save_of_mem_history
        (show (.save id saved expiry, report none) ∈ history ext tr by rw [he, e]; simp) rfl
      exact ⟨saved, hlast, hid, hle, rfl⟩
    · rintro ⟨saved, hlast, -, hle, rfl⟩
      have hentry := (hpre.lastSaved_iff (fun _ e => by cases e)).mp hlast
      exact ⟨_, ExpiringMap.lookup_eq_some_iff.mpr ⟨hentry, hle⟩, rfl⟩
  refine ⟨⟨_, hresult⟩, hiff, fun record hr => ?_, fun tr' pre' post' result' h' he' hcalls => ?_⟩
  · obtain ⟨saved, hlast, -, hle, -⟩ := (hiff record).mp hr
    exact ⟨saved, hlast, hle.trans saved.expiryDate.toSeconds_le⟩
  · have hmap : ExpiringMap.run (pre'.map (·.1)) id = ExpiringMap.run (pre.map (·.1)) id := by
      rw [← ExpiringMap.run_filter, hcalls, ExpiringMap.run_filter]
    rw [hresult, h'.answers pre' _ result' post' he', ExpiringMap.answer, ExpiringMap.answer,
      ExpiringMap.lookup, ExpiringMap.lookup, hmap]

end

/-! ### A session saved and loaded -/

/-- An instance that reads the text of an empty object. -/
def emptyObjects : Externals :=
  { Externals.simple with parseJson := fun s => if s = "\x7b\x7d" then some (.obj []) else none }

/-- A session without data that expires half a second after second 300. -/
def halfRecord : Record := { id := "a", data := [], expiryDate := 300500000 }

def halfStore : SessionStore := { clock := 200000000, rows := [], calls := [] }

/-- It is saved, and loaded at second 300. -/
def halfTrace : List (SessionStore × StoreAction) :=
  let saved : SessionStore := { halfStore with
    rows := [halfRecord.toRow emptyObjects], calls := [.returned (.ok none)] }
  let later := { saved with clock := 300000000 }
  [(halfStore, .save halfRecord),
    ({ halfStore with calls := [.save halfRecord] }, .exec 0 true),
    (saved, .tick 300000000),
    (later, .load "a"),
    ({ later with calls := [.returned (.ok none), .load "a"] }, .exec 1 true),
    ({ later with calls := [.returned (.ok none), .fetched (halfRecord.toRow emptyObjects)] },
      .check 1)]

theorem sequentialRun_halfTrace : SequentialRun emptyObjects halfTrace where
  run := ⟨halfStore, _, rfl, rfl, System.run_of_execAll
    (show System.execAll (step emptyObjects) halfStore
      [.save halfRecord, .exec 0 true, .tick 300000000, .load "a", .exec 1 true, .check 1] =
        some (halfTrace, _) from rfl)⟩
  sequential := by
    simp [halfTrace, halfStore, Sequential, StoreCall.isReturned]
  storable := by
    intro e he record h
    obtain rfl : record = halfRecord := by
      simp only [halfTrace, List.mem_cons, List.not_mem_nil, or_false] at he
      rcases he with rfl | rfl | rfl | rfl | rfl | rfl <;> cases h
      rfl
    exact ⟨rfl, rfl⟩

/-- The record comes back with its expiry at second 300. -/
theorem load_iff_half :
    history emptyObjects halfTrace =
      [(.save "a" halfRecord 300000000, .ok none),
        (.load "a" 300000000, .ok (some { halfRecord with expiryDate := 300000000 }))] ∧
    ∃ saved : Record, ExpiringMap.LastSaved report
      [(.save "a" halfRecord 300000000, .ok none)] "a" (saved, saved.expiryDate.toSeconds) ∧
        300000000 ≤ saved.expiryDate :=
  have he : history emptyObjects halfTrace = [(.save "a" halfRecord 300000000, .ok none)] ++
      (.load "a" 300000000, .ok (some { halfRecord with expiryDate := 300000000 })) :: [] := rfl
  ⟨he, (load_iff sequentialRun_halfTrace he).2.2.1 _ rfl⟩

end SessionStore

end MikanJudge

import MikanJudge.Lib.Positions
import MikanJudge.Model.SessionRequests
import MikanJudge.Proof.SessionStore

/-!
# When a logout is final

`save` writes the whole record, whether its row is still there or not. A
request that loaded a session before a logout deleted it, and saves it after,
brings the session back. Where no request does, no later load returns it.
-/

namespace MikanJudge

open MikanJudge.Lib

namespace SessionRequests

/-- The store call the next statement is of, when an action executes one. -/
def executing (s : SessionRequests) : RequestAction → Option StoreCall
  | .exec v true =>
    ((s.requests[v]?).bind fun req => req.stage.call).bind fun n => s.store.calls[n]?
  | _ => none

/-- The DELETE of a `flush` of the session commits. -/
def deletes (id : String) (e : SessionRequests × RequestAction) : Bool :=
  match executing e.1 e.2 with
  | some (.delete id') => id' == id
  | _ => false

/-- The SELECT of the request at position `v` is executed. -/
def selects (v : Nat) (e : SessionRequests × RequestAction) : Bool :=
  match e.2, executing e.1 e.2 with
  | .exec w _, some (.load _) => w == v
  | _, _ => false

/-- The session was deleted since the request at position `v` read it. -/
def deletedSince (tr : List (SessionRequests × RequestAction)) (id : String) (v : Nat) : Bool :=
  (tr.dropWhile fun e => !selects v e).any (deletes id)

/-- A request only saves a session that has not been deleted since it read it. -/
def savesInTime (tr : List (SessionRequests × RequestAction)) (s : SessionRequests)
    (a : RequestAction) : Bool :=
  match a, executing s a with
  | .exec v _, some (.save record) => !deletedSince tr record.id v
  | _, _ => true

/-- A call with the record of the session. -/
def carries (id : String) : StoreCall → Prop
  | .fetched row => row.id = id
  | .returned (.ok (some record)) => record.id = id
  | .save record => record.id = id
  | _ => False

/-- A request at this stage has the record of the session. -/
def Holds (id : String) (calls : List StoreCall) : RequestStage → Prop
  | .loading n | .saving n | .flushing n => ∃ c, calls[n]? = some c ∧ carries id c
  | .loaded (some record) | .modified record => record.id = id
  | _ => False

/-- What a `load` returns is the record of the row it found. -/
theorem carries_afterSelect {ext : Externals} {now : Time} {row : SessionRow} {id : String}
    (h : carries id (SessionStore.afterSelect ext now row)) : row.id = id := by
  rw [SessionStore.afterSelect] at h
  split at h
  · exact h.elim
  · split_ifs at h
    · exact h.elim
    · split at h
      · exact h.elim
      · exact h

/-! ## What a step does -/

section

variable {ext : Externals} {s t : SessionRequests} {a : RequestAction}

/-- What a step makes of the requests and the store. -/
inductive Effect (ext : Externals) (s : SessionRequests) : RequestAction → SessionRequests → Prop
  | clock (now : Time) : Effect ext s (.tick now) { s with store := { s.store with clock := now } }
  | arrived (id : String) (kind : RequestKind) :
    Effect ext s (.arrive id kind)
      { s with requests := s.requests ++ [{ id := id, kind := kind, stage := .arrived }] }
  /-- A request goes on without a call. -/
  | moved {a : RequestAction} {v : Nat} {req : SessionRequest} {stage : RequestStage} :
    s.requests[v]? = some req → stage.call = none →
    (∀ id, Holds id s.store.calls stage → Holds id s.store.calls req.stage) →
    Effect ext s a (s.setStage v req stage)
  /-- It calls the store; what it saves it has. -/
  | issued {a : RequestAction} {v : Nat} {req : SessionRequest} {call : StoreCall}
    {stage : Nat → RequestStage} :
    s.requests[v]? = some req → (∀ n, (stage n).call = some n) →
    ((∃ id, call = .load id) ∨ (∃ id, call = .delete id) ∨
      ∃ record, call = .save record ∧ Holds record.id s.store.calls req.stage) →
    Effect ext s a (s.issue v req call stage)
  | executed {v n : Nat} {req : SessionRequest} {c c' : StoreCall} {connected : Bool}
    {rows : List SessionRow} :
    s.requests[v]? = some req → req.stage.call = some n → s.store.calls[n]? = some c →
    SessionStore.Executed ext s.store.rows connected c c' rows →
    Effect ext s (.exec v connected)
      { s with store := { s.store with rows := rows, calls := s.store.calls.set n c' } }
  | checked {v n : Nat} {req : SessionRequest} {row : SessionRow} :
    s.requests[v]? = some req → req.stage.call = some n →
    s.store.calls[n]? = some (.fetched row) →
    Effect ext s (.check v)
      { s with store := s.store.setCall n (SessionStore.afterSelect ext s.store.clock row) }

theorem effect_of_step (h : s.step ext a = some t) : Effect ext s a t := by
  cases a with
  | tick now =>
    obtain ⟨store, hstore, rfl⟩ := Option.map_eq_some_iff.mp h
    rw [SessionStore.step] at hstore
    split_ifs at hstore
    cases hstore
    exact .clock now
  | arrive id kind =>
    cases h
    exact .arrived id kind
  | start v =>
    obtain ⟨req, hv, h⟩ := Option.bind_eq_some_iff.mp h
    rw [stepRequest] at h
    split at h
    · cases h
      exact .issued hv (fun _ => rfl) (.inr (.inl ⟨_, rfl⟩))
    · cases h
      exact .issued hv (fun _ => rfl) (.inl ⟨_, rfl⟩)
    · cases h
  | resume v =>
    obtain ⟨req, hv, h⟩ := Option.bind_eq_some_iff.mp h
    rw [stepRequest] at h
    split at h
    · rename_i n hstage
      split at h
      · rename_i record hc
        cases h
        refine .moved hv rfl fun id hid => ?_
        cases record with
        | none => exact hid.elim
        | some record =>
          rw [hstage]
          exact ⟨_, hc, hid⟩
      · cases h
        exact .moved hv rfl fun id hid => hid.elim
      · cases h
    · cases h
  | accept v =>
    obtain ⟨req, hv, h⟩ := Option.bind_eq_some_iff.mp h
    rw [stepRequest] at h
    split at h
    · rename_i record hstage
      split_ifs at h
      rw [accepted] at h
      split at h
      · cases h
        refine .moved hv rfl fun id hid => ?_
        rw [hstage]
        exact hid
      · cases h
        exact .issued hv (fun _ => rfl) (.inr (.inl ⟨_, rfl⟩))
      · cases h
    · cases h
  | refuse v =>
    obtain ⟨req, hv, h⟩ := Option.bind_eq_some_iff.mp h
    rw [stepRequest] at h
    split at h
    · cases h
      exact .moved hv rfl fun id hid => hid.elim
    · cases h
  | respond v expiryDate =>
    obtain ⟨req, hv, h⟩ := Option.bind_eq_some_iff.mp h
    rw [stepRequest] at h
    split at h
    · rename_i record hstage
      cases h
      exact .issued hv (fun _ => rfl) (.inr (.inr ⟨_, rfl, by rw [hstage]; rfl⟩))
    · cases h
  | exec v connected =>
    obtain ⟨req, hv, h⟩ := Option.bind_eq_some_iff.mp h
    obtain ⟨n, hn, h⟩ := Option.bind_eq_some_iff.mp h
    obtain ⟨store, hstore, rfl⟩ := Option.map_eq_some_iff.mp h
    obtain ⟨c, c', rows, hc, hexec, rfl⟩ := SessionStore.exec_cases hstore
    exact .executed hv hn hc hexec
  | check v =>
    obtain ⟨req, hv, h⟩ := Option.bind_eq_some_iff.mp h
    obtain ⟨n, hn, h⟩ := Option.bind_eq_some_iff.mp h
    obtain ⟨store, hstore, rfl⟩ := Option.map_eq_some_iff.mp h
    obtain ⟨row, hc, rfl⟩ := SessionStore.check_cases hstore
    exact .checked hv hn hc

/-! ## Who has the record -/

theorem holds_iff_of_call {id : String} {calls : List StoreCall} {stage : RequestStage} {n : Nat}
    (h : stage.call = some n) : Holds id calls stage ↔ ∃ c, calls[n]? = some c ∧ carries id c := by
  cases stage <;> cases h <;> rfl

/-- It depends on the request's own call only. -/
theorem holds_congr {id : String} {calls calls' : List StoreCall} {stage : RequestStage}
    (h : ∀ n, stage.call = some n → calls'[n]? = calls[n]?) :
    Holds id calls' stage ↔ Holds id calls stage := by
  cases stage with
  | loading n | saving n | flushing n => rw [Holds, Holds, h n rfl]
  | loaded record => cases record <;> exact Iff.rfl
  | arrived | modified record | refused => exact Iff.rfl

/-- The request at position `v` goes on with the call at position `n`. -/
def CallOf (s : SessionRequests) (v n : Nat) : Prop :=
  ∃ req, s.requests[v]? = some req ∧ req.stage.call = some n

/-- Each call is of one request. -/
structure CallsApart (s : SessionRequests) : Prop where
  lt {v n : Nat} : CallOf s v n → n < s.store.calls.length
  apart {v w n : Nat} : CallOf s v n → CallOf s w n → v = w

theorem CallsApart.step (hA : CallsApart s) (he : Effect ext s a t) : CallsApart t := by
  cases he with
  | clock now => exact ⟨hA.lt, hA.apart⟩
  | @arrived id kind =>
    have hold : ∀ {v n : Nat}, CallOf { s with requests := s.requests ++ [⟨id, kind, .arrived⟩] } v n →
        CallOf s v n := by
      rintro v n ⟨req, hv, hn⟩
      rcases get_concat_iff.mp hv with hv | ⟨-, rfl⟩
      · exact ⟨req, hv, hn⟩
      · cases hn
    exact ⟨fun h => hA.lt (hold h), fun h h' => hA.apart (hold h) (hold h')⟩
  | @moved _ v req stage hv hstage =>
    have hold : ∀ {w n : Nat}, CallOf (s.setStage v req stage) w n → CallOf s w n := by
      rintro w n ⟨req', hw, hn⟩
      rcases (get_set_iff hv).mp hw with ⟨-, rfl⟩ | ⟨-, hw⟩
      · cases hstage.symm.trans hn
      · exact ⟨req', hw, hn⟩
    exact ⟨fun h => hA.lt (hold h), fun h h' => hA.apart (hold h) (hold h')⟩
  | @issued _ v req call stage hv hstage =>
    -- a call of before, or the new one
    have hold : ∀ {w n : Nat}, CallOf (s.issue v req call stage) w n →
        w = v ∧ n = s.store.calls.length ∨ CallOf s w n := by
      rintro w n ⟨req', hw, hn⟩
      rcases (get_set_iff hv).mp hw with ⟨rfl, rfl⟩ | ⟨-, hw⟩
      · exact .inl ⟨rfl, Option.some.inj (hn.symm.trans (hstage _))⟩
      · exact .inr ⟨req', hw, hn⟩
    have hlen : (s.issue v req call stage).store.calls.length = s.store.calls.length + 1 :=
      List.length_append
    constructor
    · intro w n h
      rw [hlen]
      rcases hold h with ⟨-, rfl⟩ | h
      · exact Nat.lt_succ_self _
      · exact Nat.lt_succ_of_lt (hA.lt h)
    · intro w w' n h h'
      rcases hold h with ⟨rfl, rfl⟩ | hs <;> rcases hold h' with ⟨rfl, e⟩ | hs'
      · rfl
      · exact absurd (hA.lt hs') (Nat.lt_irrefl _)
      · exact absurd e (Nat.ne_of_lt (hA.lt hs))
      · exact hA.apart hs hs'
  | executed | checked => exact ⟨fun h => (hA.lt h).trans_eq List.length_set.symm, hA.apart⟩

/-- A request that has the record after a step had it before, or the step is its
SELECT. -/
theorem holds_cases (hA : CallsApart s) (he : Effect ext s a t) {id : String} {w : Nat}
    {req' : SessionRequest} (hw : t.requests[w]? = some req')
    (hh : Holds id t.store.calls req'.stage) :
    (∃ req, s.requests[w]? = some req ∧ Holds id s.store.calls req.stage) ∨
      selects w (s, a) = true ∧ ∃ row ∈ s.store.rows, row.id = id := by
  cases he with
  | clock now => exact .inl ⟨req', hw, hh⟩
  | arrived id' kind =>
    rcases get_concat_iff.mp hw with hw | ⟨-, rfl⟩
    · exact .inl ⟨req', hw, hh⟩
    · exact hh.elim
  | @moved _ v req stage hv hstage hheld =>
    rcases (get_set_iff hv).mp hw with ⟨rfl, rfl⟩ | ⟨-, hw⟩
    · exact .inl ⟨req, hv, hheld id hh⟩
    · exact .inl ⟨req', hw, hh⟩
  | @issued _ v req call stage hv hstage hcall =>
    rcases (get_set_iff hv).mp hw with ⟨rfl, rfl⟩ | ⟨-, hw⟩
    · obtain ⟨c, hc, hid⟩ := (holds_iff_of_call (hstage _)).mp hh
      obtain rfl : c = call := by
        simpa [issue, SessionStore.addCall, eq_comm] using hc
      rcases hcall with ⟨_, rfl⟩ | ⟨_, rfl⟩ | ⟨record, rfl, hrec⟩
      · exact hid.elim
      · exact hid.elim
      · obtain rfl : record.id = id := hid
        exact .inl ⟨req, hv, hrec⟩
    · refine .inl ⟨req', hw, (holds_congr fun n hn => ?_).mp hh⟩
      exact List.getElem?_append_left (hA.lt ⟨req', hw, hn⟩)
  | @executed v n req c c' connected rows hv hn hc hexec =>
    by_cases hwv : w = v
    · subst hwv
      obtain rfl : req = req' := Option.some.inj (hv.symm.trans hw)
      obtain ⟨c'', hc'', hid⟩ := (holds_iff_of_call hn).mp hh
      obtain rfl : c'' = c' := by
        rcases (get_set_iff hc).mp hc'' with ⟨-, e⟩ | ⟨e, -⟩
        · exact e
        · exact absurd rfl e
      cases hexec with
      | @found id' row hfind =>
        refine .inr ⟨?_, row, List.mem_of_find?_eq_some hfind, hid⟩
        simp [selects, executing, hv, hn, hc]
      | failed | save | missing | cleanUp | notCleanedUp | delete => exact hid.elim
    · refine .inl ⟨req', hw, (holds_congr fun m hm => ?_).mp hh⟩
      refine List.getElem?_set_ne fun e => hwv ?_
      exact hA.apart ⟨req', hw, e ▸ hm⟩ ⟨req, hv, hn⟩
  | @checked v n req row hv hn hc =>
    by_cases hwv : w = v
    · subst hwv
      obtain rfl : req = req' := Option.some.inj (hv.symm.trans hw)
      obtain ⟨c, hc', hid⟩ := (holds_iff_of_call hn).mp hh
      obtain rfl : c = SessionStore.afterSelect ext s.store.clock row := by
        rcases (get_set_iff hc).mp hc' with ⟨-, e⟩ | ⟨e, -⟩
        · exact e
        · exact absurd rfl e
      refine .inl ⟨req, hv, (holds_iff_of_call hn).mpr ⟨_, hc, ?_⟩⟩
      exact carries_afterSelect hid
    · refine .inl ⟨req', hw, (holds_congr fun m hm => ?_).mp hh⟩
      refine List.getElem?_set_ne fun e => hwv ?_
      exact hA.apart ⟨req', hw, e ▸ hm⟩ ⟨req, hv, hn⟩

/-! ## After a logout -/

/-- Requests that have the record read it in the trace. -/
def ReadIn (tr : List (SessionRequests × RequestAction)) (id : String) (s : SessionRequests) : Prop :=
  ∀ (v : Nat) req, s.requests[v]? = some req → Holds id s.store.calls req.stage →
    tr.any (selects v) = true

/-- What holds after the session was deleted, given the trace up to then and the
number of calls made by then. -/
structure Gone (tr : List (SessionRequests × RequestAction)) (made : Nat) (id : String)
    (s : SessionRequests) : Prop where
  rows : ∀ row ∈ s.store.rows, row.id ≠ id
  read : ReadIn tr id s
  fetched (j : Nat) (row : SessionRow) : made ≤ j → s.store.calls[j]? = some (.fetched row) →
    row.id ≠ id
  returned (j : Nat) (record : Record) : made ≤ j →
    s.store.calls[j]? = some (.returned (.ok (some record))) → record.id ≠ id

variable {tr pre post : List (SessionRequests × RequestAction)}
  {e : SessionRequests × RequestAction} {id : String} {made : Nat}

theorem ReadIn.step (hR : ReadIn tr id s) (hA : CallsApart s) (he : Effect ext s a t) :
    ReadIn (tr ++ [(s, a)]) id t := by
  intro v req hv hh
  rw [List.any_append, Bool.or_eq_true]
  rcases holds_cases hA he hv hh with ⟨req', hv', hh'⟩ | ⟨hsel, -⟩
  · exact .inl (hR v req' hv' hh')
  · exact .inr (by simpa using hsel)

/-- A request that read the session before it was deleted. -/
theorem deletedSince_of_mem {v : Nat} (htr : tr = pre ++ e :: post)
    (hsel : pre.any (selects v) = true) (hdel : deletes id e = true) :
    deletedSince tr id v = true := by
  subst htr
  induction pre with
  | nil => cases hsel
  | cons x pre ih =>
    rw [deletedSince, List.cons_append, List.dropWhile_cons]
    cases hx : selects v x with
    | true =>
      rw [if_neg (by simp), List.any_eq_true]
      exact ⟨e, by simp, hdel⟩
    | false =>
      rw [if_pos (by simp)]
      refine ih ?_
      rwa [List.any_cons, hx, Bool.false_or] at hsel

/-- No step brings the session back. -/
theorem Gone.step (hG : Gone pre made id s) (hA : CallsApart s) (he : Effect ext s a t)
    (hok : savesInTime tr s a = true) (htr : tr = pre ++ e :: post) (hdel : deletes id e = true) :
    Gone pre made id t := by
  have hread : ReadIn pre id t := fun v req hv hh => by
    rcases holds_cases hA he hv hh with ⟨req', hv', hh'⟩ | ⟨-, row, hrow, e⟩
    · exact hG.read v req' hv' hh'
    · exact absurd e (hG.rows row hrow)
  cases he with
  | clock | arrived | moved => exact ⟨hG.rows, hread, hG.fetched, hG.returned⟩
  | @issued _ v req call stage hv hstage hcall =>
    have hold : ∀ {j c}, (s.store.calls ++ [call])[j]? = some c →
        s.store.calls[j]? = some c ∨ c = call := fun h =>
      (get_concat_iff.mp h).imp_right And.right
    refine ⟨hG.rows, hread, fun j row hj hc => ?_, fun j record hj hc => ?_⟩ <;>
      rcases hold hc with hc | rfl
    · exact hG.fetched j row hj hc
    · simp at hcall
    · exact hG.returned j record hj hc
    · simp at hcall
  | @executed v n req c c' connected rows hv hn hc hexec =>
    have hrows : ∀ row ∈ rows, row.id ≠ id := by
      cases hexec with
      | failed | missing | found | notCleanedUp => exact hG.rows
      | cleanUp | delete => exact fun row hrow => hG.rows row (List.mem_of_mem_filter hrow)
      | save record =>
        intro row hrow
        rcases SessionStore.mem_upsertSession hrow with hrow | rfl
        · exact hG.rows row hrow
        -- its request read the session before it was deleted
        · rintro rfl
          have hsel := hG.read v req hv ((holds_iff_of_call hn).mpr ⟨_, hc, rfl⟩)
          have hexecuting : executing s (.exec v true) = some (.save record) := by
            rw [executing, hv, Option.bind_some, hn, Option.bind_some, hc]
          have hlate : deletedSince tr record.id v = true := deletedSince_of_mem htr hsel hdel
          simp [savesInTime, hexecuting, hlate] at hok
    refine ⟨hrows, hread, fun j row hj hcj => ?_, fun j record hj hcj => ?_⟩ <;>
      rcases (get_set_iff hc).mp hcj with ⟨-, rfl⟩ | ⟨-, hcj⟩
    · cases hexec with
      | found hfind => exact hG.rows row (List.mem_of_find?_eq_some hfind)
    · exact hG.fetched j row hj hcj
    · cases hexec
    · exact hG.returned j record hj hcj
  | @checked v n req row hv hn hc =>
    refine ⟨hG.rows, hread, fun j row' hj hcj => ?_, fun j record hj hcj => ?_⟩ <;>
      rcases (get_set_iff hc).mp hcj with ⟨rfl, e'⟩ | ⟨-, hcj⟩
    · exact fun hid => hG.fetched j row hj hc (carries_afterSelect (by rw [← e']; exact hid))
    · exact hG.fetched j row' hj hcj
    · exact fun hid => hG.fetched j row hj hc (carries_afterSelect (by rw [← e']; exact hid))
    · exact hG.returned j record hj hcj

theorem executing_of_deletes (h : deletes id (s, a) = true) : executing s a = some (.delete id) := by
  rw [deletes] at h
  split at h
  · rename_i hexecuting
    rw [hexecuting, beq_iff_eq.mp h]
  · cases h

theorem exec_of_executing {c : StoreCall} (h : executing s a = some c) :
    ∃ v req n, a = .exec v true ∧ s.requests[v]? = some req ∧ req.stage.call = some n ∧
      s.store.calls[n]? = some c := by
  cases a with
  | exec v connected =>
    cases connected with
    | false => cases h
    | true =>
      obtain ⟨n, hn, hc⟩ := Option.bind_eq_some_iff.mp h
      obtain ⟨req, hv, hn⟩ := Option.bind_eq_some_iff.mp hn
      exact ⟨v, req, n, rfl, hv, hn, hc⟩
  | _ => cases h

/-- The DELETE of a logout. -/
theorem Gone.of_delete (hR : ReadIn tr id s) (hA : CallsApart s) (hstep : s.step ext a = some t)
    (hdel : deletes id (s, a) = true) : Gone tr s.store.calls.length id t := by
  have hexecuting := executing_of_deletes hdel
  have hread : ReadIn tr id t := fun v req hv hh => by
    rcases holds_cases hA (effect_of_step hstep) hv hh with ⟨req', hv', hh'⟩ | ⟨hsel, -⟩
    · exact hR v req' hv' hh'
    · simp [selects, hexecuting] at hsel
  obtain ⟨v, req, n, rfl, hv, hn, hc⟩ := exec_of_executing hexecuting
  have ht : t = { s with store := { s.store with
      rows := deleteSession s.store.rows id, calls := s.store.calls.set n (.returned (.ok none)) } } := by
    obtain ⟨req', hv', hstep⟩ := Option.bind_eq_some_iff.mp hstep
    obtain rfl : req = req' := Option.some.inj (hv.symm.trans hv')
    obtain ⟨n', hn', hstep⟩ := Option.bind_eq_some_iff.mp hstep
    obtain rfl : n = n' := Option.some.inj (hn.symm.trans hn')
    obtain ⟨store, hstore, rfl⟩ := Option.map_eq_some_iff.mp hstep
    obtain ⟨c, c', rows, hc', hexec, rfl⟩ := SessionStore.exec_cases hstore
    obtain rfl : .delete id = c := Option.some.inj (hc.symm.trans hc')
    cases hexec
    rfl
  subst ht
  refine ⟨fun row hrow => ?_, hread, fun j row hj hcj => ?_, fun j record hj hcj => ?_⟩
  · simpa using (List.mem_filter.mp hrow).2
  all_goals
    rcases (get_set_iff hc).mp hcj with ⟨-, e'⟩ | ⟨-, hcj⟩
    · cases e'
    · exact absurd (List.getElem?_eq_some_iff.mp hcj).1 (Nat.not_lt.mpr hj)

/-- In a run in which a request only saves a session that has not been deleted since
it read it, no call made after a logout deleted the session returns a record
of it. -/
theorem logout_final (ext : Externals) {s t : SessionRequests}
    {tr : List (SessionRequests × RequestAction)} (hs : (system ext).init s) (h : (system ext).Run s tr t)
    (hok : System.Meets (fun tr s a => savesInTime tr s a = true) tr) :
    ∀ pre e post id, tr = pre ++ e :: post → deletes id e = true →
      ∀ j record, e.1.store.calls.length ≤ j →
        t.store.calls[j]? = some (.returned (.ok (some record))) → record.id ≠ id := by
  have hinv : CallsApart t ∧ (∀ id, ReadIn tr id t) ∧
      ∀ pre e post id, tr = pre ++ e :: post → deletes id e = true →
        Gone pre e.1.store.calls.length id t := by
    refine h.history_of_meets (I := fun tr t => CallsApart t ∧ (∀ id, ReadIn tr id t) ∧
      ∀ pre e post id, tr = pre ++ e :: post → deletes id e = true →
        Gone pre e.1.store.calls.length id t) ?_ ?_ hok
    · obtain ⟨-, hrequests⟩ := hs
      have hnone : ∀ v : Nat, s.requests[v]? = none := fun v => by rw [hrequests]; rfl
      refine ⟨⟨?_, ?_⟩, fun id v req hv => ?_, fun pre e post id he => ?_⟩
      · rintro v n ⟨req, hv, -⟩
        cases (hnone v).symm.trans hv
      · rintro v w n ⟨req, hv, -⟩
        cases (hnone v).symm.trans hv
      · cases (hnone v).symm.trans hv
      · exact absurd he.symm (List.append_ne_nil_of_right_ne_nil _ (List.cons_ne_nil _ _))
    · rintro tr s a t ⟨hA, hR, hG⟩ hok hstep
      have he := effect_of_step hstep
      refine ⟨hA.step he, fun id => (hR id).step hA he, fun pre e post id htr hdel => ?_⟩
      rcases snoc_eq_append_cons_iff.mp htr with ⟨rfl, rfl, -⟩ | ⟨post, rfl, -⟩
      · exact .of_delete (hR id) hA hstep hdel
      · exact (hG pre e post id rfl hdel).step hA he hok rfl hdel
  exact fun pre e post id he hdel j record hj hc =>
    (hinv.2.2 pre e post id he hdel).returned j record hj hc

end

/-! ### A logout during a submission -/

/-- The texts of a session, before and after it recorded a submission. -/
def sessionText : String :=
  "\x7b\"user_id\":\"00000000-0000-0000-0000-000000000001\"\x7d"

def recordedText : String :=
  "\x7b\"last_submit_at\":200000,\"user_id\":\"00000000-0000-0000-0000-000000000001\"\x7d"

def sessionData : List (String × Json) :=
  [("user_id", .str "00000000-0000-0000-0000-000000000001")]

/-- An instance that reads these texts. -/
def sessionTexts : Externals :=
  { Externals.simple with
    parseJson := fun s =>
      if s = sessionText then some (.obj sessionData)
      else if s = recordedText then some (.obj (("last_submit_at", .int 200000) :: sessionData))
      else none }

/-- The table with the session, at second 200. -/
def oneSession : SessionRequests where
  store := { clock := 200000000, calls := []
             rows := [{ id := "a", data := sessionText, expiryUnix := 300 }] }
  requests := []

/-- A submission reads the session and is accepted. -/
def submitActions (v : Nat) : List RequestAction :=
  [.arrive "a" (.submit .lastSubmitAt), .start v, .exec v true, .check v, .resume v, .accept v]

def logoutActions (v : Nat) : List RequestAction := [.arrive "a" .logout, .start v, .exec v true]

def answerActions (v : Nat) : List RequestAction := [.respond v 400000000, .exec v true]

/-- Another request reads the session. -/
def readActions (v : Nat) : List RequestAction :=
  [.arrive "a" (.submit .lastSubmitAt), .start v, .exec v true]

def returnsSession (t : SessionRequests) (j : Nat) : Bool :=
  match t.store.calls[j]? with
  | some (.returned (.ok (some record))) => record.id == "a"
  | _ => false

/-- When the submission is answered before the logout, the session stays away. -/
theorem logout_final_answered :
    ∃ tr t, (system sessionTexts).Run oneSession tr t ∧ ∃ pre e post, tr = pre ++ e :: post ∧
      deletes "a" e = true ∧ ∀ j record, e.1.store.calls.length ≤ j →
        t.store.calls[j]? = some (.returned (.ok (some record))) → record.id ≠ "a" := by
  obtain ⟨tr, t, hrun, hcheck⟩ := System.run_of_execAll_any (by decide +kernel :
    (System.execAll (step sessionTexts) oneSession
      (submitActions 0 ++ answerActions 0 ++ logoutActions 1 ++ readActions 2)).any (fun r =>
        r.1.any (deletes "a") &&
          decide (System.Meets (fun tr s a => savesInTime tr s a = true) r.1)) = true)
  obtain ⟨hdel, hok⟩ := Bool.and_eq_true_iff.mp hcheck
  obtain ⟨e, he, hdel⟩ := List.any_eq_true.mp hdel
  obtain ⟨pre, post, htr⟩ := List.append_of_mem he
  exact ⟨tr, t, hrun, pre, e, post, htr, hdel,
    logout_final sessionTexts ⟨rfl, rfl⟩ hrun (of_decide_eq_true hok) pre e post "a" htr hdel⟩

/-- When it is answered after the logout, a request made after that reads the session
again. -/
theorem logout_final_fails :
    ∃ tr t, (system sessionTexts).init oneSession ∧ (system sessionTexts).Run oneSession tr t ∧
      ∃ pre e post, tr = pre ++ e :: post ∧ deletes "a" e = true ∧
        ∃ j record, e.1.store.calls.length ≤ j ∧
          t.store.calls[j]? = some (.returned (.ok (some record))) ∧ record.id = "a" := by
  obtain ⟨tr, t, hrun, hcheck⟩ := System.run_of_execAll_any (by decide +kernel :
    (System.execAll (step sessionTexts) oneSession
      (submitActions 0 ++ logoutActions 1 ++ answerActions 0 ++ readActions 2 ++ [.check 2])).any
        (fun r => r.1.any (fun e => deletes "a" e && decide (e.1.store.calls.length ≤ 3)) &&
            returnsSession r.2 3) = true)
  obtain ⟨hdel, hreturns⟩ := Bool.and_eq_true_iff.mp hcheck
  obtain ⟨e, he, hdel⟩ := List.any_eq_true.mp hdel
  obtain ⟨hdel, hmade⟩ := Bool.and_eq_true_iff.mp hdel
  obtain ⟨pre, post, htr⟩ := List.append_of_mem he
  refine ⟨tr, t, ⟨rfl, rfl⟩, hrun, pre, e, post, htr, hdel, 3, ?_⟩
  rw [returnsSession] at hreturns
  split at hreturns
  · rename_i record hc
    exact ⟨record, of_decide_eq_true hmade, hc, beq_iff_eq.mp hreturns⟩
  · cases hreturns

end SessionRequests

end MikanJudge

import MikanJudge.Proof.Authority

/-!
# What a wait is for

The times in a session are those of its own submissions. A contest submission that
is refused is answered without a wait, or told one (`contestProblemSubmit_error`).
Over any run, the wait it is told is how long the cooldown of such a submission
still lasts (`waits_due`), whatever the interleaving of the session's requests, and
across restarts.
-/

namespace MikanJudge

open MikanJudge.Lib

/-- A submission was inserted in a session, and its time recorded under a key, at
so many milliseconds. -/
def RecordedAt (tr : List (Server × Action)) (sid : Nat) (key : CooldownKey) (ms : Int) : Prop :=
  ∃ e ∈ tr, ∃ q, e.1.Records e.2 q key ∧ q.sid = sid ∧ e.1.clock.millis = ms

/-- The time was in the session when the process was first started, or has been
recorded since. -/
def Dated (s₀ : Server) (tr : List (Server × Action)) (sid : Nat) (key : CooldownKey)
    (ms : Int) : Prop :=
  (∃ record, (sid, record) ∈ s₀.sessions ∧ record.get key = some ms) ∨ RecordedAt tr sid key ms

/-- No stored session has a time that is still to come. -/
def Server.SessionsPast (s : Server) : Prop :=
  ∀ sid record, (sid, record) ∈ s.sessions → ∀ key ms, record.get key = some ms →
    ms ≤ s.clock.millis

section

variable {cfg : Config} {s₀ s t : Server} {a : Action} {tr : List (Server × Action)} {sid : Nat}
  {key : CooldownKey} {ms : Int} {record session : SessionRecord}

theorem RecordedAt.snoc (h : RecordedAt tr sid key ms) (e : Server × Action) :
    RecordedAt (tr ++ [e]) sid key ms := by
  obtain ⟨e', he, h⟩ := h
  exact ⟨e', List.mem_append_left _ he, h⟩

theorem Dated.snoc (h : Dated s₀ tr sid key ms) (e : Server × Action) :
    Dated s₀ (tr ++ [e]) sid key ms := h.imp_right fun h => h.snoc e

/-- A saved session has the times it had. -/
theorem AccountStep.get_save {ext : Externals} {db db' : Db} {route : AccountRoute}
    (h : AccountStep ext db session route db' (.save record)) (key : CooldownKey) :
    record.get key = session.get key := by
  cases h <;> cases key <;> rfl

theorem get_recordSubmitTime (session : SessionRecord) (key key' : CooldownKey) (now : Time) :
    (recordSubmitTime session key now).get key' =
      if key' = key then some now.millis else session.get key' := by
  cases key <;> cases key' <;> rfl

/-- The times of the sessions and of the requests are dated, and none is still to
come. -/
structure Times (s₀ : Server) (tr : List (Server × Action)) (s : Server) : Prop where
  clock : s₀.clock ≤ s.clock
  past : ∀ sid key ms, RecordedAt tr sid key ms → ms ≤ s.clock.millis
  stored : ∀ sid record, (sid, record) ∈ s.sessions → ∀ key ms, record.get key = some ms →
    Dated s₀ tr sid key ms
  read : ∀ q ∈ s.requests, ∀ key ms, q.session.get key = some ms → Dated s₀ tr q.sid key ms

theorem Times.loaded (hI : Times s₀ tr s) (h : (s.loadSession sid).get key = some ms) :
    Dated s₀ tr sid key ms := by
  rcases loadSession_cases s sid with hempty | hmem
  · rw [hempty] at h
    cases key <;> cases h
  · exact hI.stored sid _ hmem key ms h

theorem Times.step (hI : Times s₀ tr s) (h : ServerStep cfg s a t) : Times s₀ (tr ++ [(s, a)]) t where
  clock := hI.clock.trans (clock_le_of_step h)
  past sid key ms hrec := by
    have hle := millis_mono (clock_le_of_step h)
    obtain ⟨e, he, hq⟩ := hrec
    rcases List.mem_append.mp he with he | he
    · exact (hI.past sid key ms ⟨e, he, hq⟩).trans hle
    · rw [List.mem_singleton.mp he] at hq
      obtain ⟨q, -, -, rfl⟩ := hq
      exact hle
  stored sid record hmem key ms hms := by
    rcases sessions_of_step h hmem with hmem | ⟨q, hq, rfl, rfl⟩ | ⟨route, rfl, hsave⟩
    · exact (hI.stored sid record hmem key ms hms).snoc _
    · exact (hI.read q hq key ms hms).snoc _
    · have hstep := accountStep_handle cfg.ext s.db (s.loadSession sid) route
      rw [hsave] at hstep
      exact (hI.loaded ((hstep.get_save key).symm.trans hms)).snoc _
  read q' hq' key ms hms := by
    rcases requests_of_step h hq' with ⟨q, hq, hsid, e | ⟨key', hrecords, e⟩⟩ | e
    · rw [e] at hms
      rw [hsid]
      exact (hI.read q hq key ms hms).snoc _
    · rw [e, get_recordSubmitTime] at hms
      rw [hsid]
      split_ifs at hms with hkey
      · obtain rfl := hkey
        exact .inr ⟨_, List.mem_append_right _ List.mem_cons_self, q, hrecords, rfl,
          Option.some.inj hms⟩
      · exact (hI.read q hq key ms hms).snoc _
    · rw [e] at hms
      exact (hI.loaded hms).snoc _

theorem times_of_run (hs : (Server.system cfg).init s₀) (h : (Server.system cfg).Run s₀ tr s) :
    Times s₀ tr s := by
  refine h.history ⟨le_rfl, ?_, fun sid record hmem key ms hms => .inl ⟨record, hmem, hms⟩, ?_⟩
    fun tr t a u hI hst => hI.step (step_cases hst)
  · rintro sid key ms ⟨e, he, -⟩
    cases he
  · obtain ⟨clock, db, sessions, rfl⟩ := hs
    intro q hq
    cases hq

/-- A wait is until the cooldown after the last time of the session is over. -/
theorem checkSubmitCooldown_cases (session : SessionRecord) (key : CooldownKey) {cooldownMs : Int}
    {now : Time} (hnow : cooldownMs ≤ now.millis) :
    checkSubmitCooldown session key cooldownMs now = 0 ∨ ∃ ms, session.get key = some ms ∧
      now.millis < ms + cooldownMs ∧
      checkSubmitCooldown session key cooldownMs now = ms + cooldownMs - now.millis := by
  unfold checkSubmitCooldown
  cases hms : session.get key with
  | none =>
    left
    simp only [Option.getD_none]
    rw [if_neg (by omega)]
  | some ms =>
    simp only [Option.getD_some]
    split_ifs with hlt
    · exact .inr ⟨ms, rfl, by omega, by omega⟩
    · exact .inl rfl

theorem cooldown_le (c : Contest) : c.cooldown.2 ≤ 300000 := by
  unfold Contest.cooldown
  split <;> decide

/-! ## Refusals -/

/-- The answer to a contest submission that is made to wait. -/
def waitResponse (contestId problemId : String) (wait : Int) : Response :=
  .redirectTo ("/contests/" ++ contestId ++ "/problems/" ++ problemId ++
    "?cooldown_remaining_ms=" ++ toString wait)

/-- The answers to a contest submission that tell it no wait. -/
def TellsNoWait (contestId : String) (r : Response) : Prop :=
  r = .redirect "/login" ∨ r = .redirectTo ("/contests/" ++ contestId) ∨
    r = sourceCodeTooLargeResponse ∨ ∃ message, r = .htmlError message

/-- A contest submission that is refused is made to wait, or told nothing of it. -/
theorem contestProblemSubmit_error {ext : Externals} {app : AppState} {db : Db} {now₁ now₂ : Time}
    {contestId problemId : String} {form : ProblemSubmitForm} {id : Uuid} {r : Response}
    (h : contestProblemSubmit ext app db session now₁ now₂ contestId problemId form id = .error r) :
    (∃ contest, db.getContest contestId = .ok (some contest) ∧
      0 < checkSubmitCooldown session contest.cooldown.1 contest.cooldown.2 now₂ ∧
      r = waitResponse contestId problemId
        (checkSubmitCooldown session contest.cooldown.1 contest.cooldown.2 now₂)) ∨
    TellsNoWait contestId r := by
  unfold contestProblemSubmit at h
  split at h
  · exact .inr (.inl (Except.error.inj h).symm)
  · split at h
    · exact .inr (.inr (.inr (.inr ⟨_, (Except.error.inj h).symm⟩)))
    · exact .inr (.inr (.inr (.inr ⟨_, (Except.error.inj h).symm⟩)))
    · rename_i contest hcontest
      split at h
      · exact .inr (.inr (.inl (Except.error.inj h).symm))
      · split at h
        · exact .inr (.inr (.inr (.inl (Except.error.inj h).symm)))
        · dsimp only at h
          split at h
          · rename_i hwait
            exact .inl ⟨contest, hcontest, hwait, (Except.error.inj h).symm⟩
          · split at h
            · exact .inr (.inr (.inr (.inr ⟨_, (Except.error.inj h).symm⟩)))
            · cases h

end

/-- Over any run, a contest submission that is refused is told no wait, or it is told
the rest of the cooldown after a submission that was made in its own session: this
is still to come, and never longer than the whole cooldown. -/
theorem waits_due (cfg : Config) {s₀ t : Server} {tr : List (Server × Action)} {q : Request}
    (hs : (Server.system cfg).init s₀) (h : (Server.system cfg).Run s₀ tr t)
    (hpast : s₀.SessionsPast) (hclock : 300000 ≤ s₀.clock.millis) (hq : q ∈ t.requests)
    {contestId problemId : String} {form : ProblemSubmitForm}
    (hroute : q.route = .contestProblem contestId problemId form) {r : Response}
    (hr : q.route.check cfg.ext cfg.app t.db q.session t.clock t.clock q.id = .error r) :
    (∃ contest ms wait, t.db.getContest contestId = .ok (some contest) ∧
      Dated s₀ tr q.sid contest.cooldown.1 ms ∧ wait = ms + contest.cooldown.2 - t.clock.millis ∧
      0 < wait ∧ wait ≤ contest.cooldown.2 ∧ r = waitResponse contestId problemId wait) ∨
    TellsNoWait contestId r := by
  have hI := times_of_run hs h
  have hclocks := millis_mono hI.clock
  rw [hroute] at hr
  refine (contestProblemSubmit_error hr).imp_left ?_
  rintro ⟨contest, hcontest, hpos, rfl⟩
  have hlong := cooldown_le contest
  rcases checkSubmitCooldown_cases q.session contest.cooldown.1
    (hlong.trans (hclock.trans hclocks)) with hzero | ⟨ms, hms, hlt, hwait⟩
  · omega
  · have hdated := hI.read q hq _ ms hms
    have hle : ms ≤ t.clock.millis := by
      rcases hdated with ⟨record, hmem, hget⟩ | hrec
      · exact (hpast q.sid record hmem _ ms hget).trans hclocks
      · exact hI.past _ _ ms hrec
    exact ⟨contest, ms, _, hcontest, hdated, hwait, hpos, by omega, rfl⟩

/-! ### Two submissions, two seconds apart -/

/-- The server after some minutes, with a session of the user. -/
def lateServer : Server :=
  .boot contestConfig 400000000 (contestDb "a") [(0, { SessionRecord.empty with userId := some 1 })]

def hastyActions : List Action :=
  contestSubmitActions 0 7 ++ [.tick 402000000,
    .arrive 0 (.contestProblem "c" "a" { language := "cpp", sourceCode := "" }) 8]

/-- The session after the first, and the request of the second. -/
def hastyRequest : Request where
  sid := 0
  session := { SessionRecord.empty with userId := some 1, lastSubmitAt := some 400000 }
  modified := false
  route := .contestProblem "c" "a" { language := "cpp", sourceCode := "" }
  id := 8
  stage := .loaded

def exactContest : Contest where
  id := "c"
  title := "C"
  description := ""
  startTime := 0
  endTime := 100
  judgeType := .exact

theorem waitResponse_hasty : waitResponse "c" "a" 3000 =
    .redirect "/contests/c/problems/a?cooldown_remaining_ms=3000" := by
  rfl

theorem not_tellsNoWait_hasty : ¬ TellsNoWait "c" (waitResponse "c" "a" 3000) := by
  rw [waitResponse_hasty, TellsNoWait,
    show Response.redirectTo ("/contests/" ++ "c") = .redirect "/contests/c" from rfl]
  simp [sourceCodeTooLargeResponse, Response.htmlError]

/-- The second one is told to wait three seconds, for the first. -/
theorem waits_due_hasty :
    hastyRequest.route.check contestConfig.ext contestConfig.app
      (Server.lastOf contestConfig lateServer hastyActions).db hastyRequest.session 402000000
        402000000 hastyRequest.id = .error (waitResponse "c" "a" 3000) ∧
    ∃ ms wait, Dated lateServer (Server.traceOf contestConfig lateServer hastyActions) 0
        .lastSubmitAt ms ∧
      wait = ms + 5000 - 402000 ∧ waitResponse "c" "a" 3000 = waitResponse "c" "a" wait := by
  have hrun := Server.run_traceOf contestConfig lateServer hastyActions (by decide +kernel)
  have hinit : (Server.system contestConfig).init lateServer := ⟨_, _, _, rfl⟩
  have hpast : lateServer.SessionsPast := by
    intro sid record hmem key ms hms
    obtain ⟨rfl, rfl⟩ := Prod.mk.inj (List.mem_singleton.mp hmem)
    cases key <;> cases hms
  have hlast : (Server.lastOf contestConfig lateServer hastyActions).requests = [hastyRequest] := rfl
  have hclock : (Server.lastOf contestConfig lateServer hastyActions).clock = 402000000 := rfl
  have hcontests : (Server.lastOf contestConfig lateServer hastyActions).db.getContest "c" =
      .ok (some exactContest) := rfl
  have hr : hastyRequest.route.check contestConfig.ext contestConfig.app
      (Server.lastOf contestConfig lateServer hastyActions).db hastyRequest.session 402000000
        402000000 hastyRequest.id = .error (waitResponse "c" "a" 3000) := rfl
  have hq : hastyRequest ∈ (Server.lastOf contestConfig lateServer hastyActions).requests :=
    hlast ▸ List.mem_singleton_self _
  rw [← hclock] at hr
  rcases waits_due contestConfig hinit hrun hpast (by decide) hq rfl hr with hdue | hnone
  · obtain ⟨contest, ms, wait, hcontest, hdated, hwait, -, -, htold⟩ := hdue
    obtain rfl := Option.some.inj (Except.ok.inj (hcontests.symm.trans hcontest))
    rw [hclock] at hr hwait
    exact ⟨hr, ms, wait, hdated, hwait, htold⟩
  · exact absurd hnone not_tellsNoWait_hasty

end MikanJudge

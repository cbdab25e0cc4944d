import MikanJudge.Proof.Polling

/-!
# The poll and the page of a contest submission

The page looks up the contest of the path first, the poll never does: it
answers for a submission under any path. It puts the path into a header, and
panics if a header cannot hold it (`headerValueOk_iff_bytes`). So the two agree
exactly if the header can hold the path of a judged submission, and the path
names a contest that has started (`pollAgrees_iff`).
-/

namespace MikanJudge

open MikanJudge.Lib

/-! ## What a header can hold -/

/-- A byte that `HeaderValue::from_str` accepts. -/
def HeaderByte (b : UInt8) : Prop := b = 9 ∨ 32 ≤ b ∧ b ≠ 127

theorem headerByte_iff {b : UInt8} : HeaderByte b ↔ b.toNat = 9 ∨ 32 ≤ b.toNat ∧ b.toNat ≠ 127 := by
  simp only [HeaderByte, UInt8.le_iff_toNat_le, ne_eq, ← UInt8.toNat_inj]
  rfl

/-- The bytes of a character that is not ASCII are all at least 128. -/
theorem le_of_mem_utf8EncodeChar {c : Char} (h : 128 ≤ c.toNat) :
    ∀ b ∈ String.utf8EncodeChar c, 128 ≤ b.toNat := by
  have hle : ∀ n, 128 ≤ n → n < 256 → 128 ≤ (UInt8.ofNat n).toNat := by
    intro n hn hn'
    rwa [UInt8.toNat_ofNat_of_lt' hn']
  rw [Char.toNat] at h
  rw [String.utf8EncodeChar, if_neg (by omega)]
  split_ifs
  all_goals
    simp only [List.forall_mem_cons, List.not_mem_nil, false_imp_iff, implies_true, and_true]
    and_intros
    all_goals exact hle _ (by omega) (by omega)

theorem headerByte_utf8EncodeChar_iff (c : Char) :
    (∀ b ∈ String.utf8EncodeChar c, HeaderByte b) ↔
      (c == '\t' || (32 ≤ c.toNat && c.toNat != 127)) = true := by
  have htab : c = '\t' ↔ c.toNat = 9 := Char.toNat_inj.symm
  simp only [Bool.or_eq_true, Bool.and_eq_true, beq_iff_eq, bne_iff_ne, ne_eq, decide_eq_true_eq,
    headerByte_iff, htab]
  by_cases h : 128 ≤ c.toNat
  · refine iff_of_true (fun b hb => ?_) (by omega)
    have hb := le_of_mem_utf8EncodeChar h b hb
    omega
  · rw [Char.toNat] at h ⊢
    rw [String.utf8EncodeChar, if_pos (by omega), List.forall_mem_singleton,
      UInt8.toNat_ofNat_of_lt' (by change c.val.toNat < 256; omega)]

theorem headerValueOk_iff_bytes (s : String) :
    headerValueOk s = true ↔ ∀ b ∈ s.toUTF8.data.toList, HeaderByte b := by
  rw [headerValueOk, List.all_eq_true, toList_data_toUTF8]
  simp only [← headerByte_utf8EncodeChar_iff, List.mem_flatMap]
  constructor
  · rintro h b ⟨c, hc, hb⟩
    exact h c hc b hb
  · exact fun h c hc b hb => h b ⟨c, hc, hb⟩

/-! ## Poll and page -/

/-- A redirect, or the fragment of a submission that is not judged. -/
def Response.Polls : Response → Prop
  | .hxRedirect _ => True
  | .html template _ => template = "submissions/poll.html"
  | _ => False

/-- The page fails with this message, or is the one of a contest that has not started. -/
def Response.Refuses (r : Response) : Prop :=
  r = .htmlError "contest not found" ∨ ∃ ctx, r = .html "errors/contest_locked.html" ctx

/-- The poll gives an answer, and a redirect or a fragment only where the page, at
this time, would not refuse. -/
def PollAgrees (ext : Externals) (app : AppState) (db : Db) (contestId : String) (id : Uuid)
    (now : Time) : Prop :=
  contestSubmissionPoll ext db contestId id ≠ none ∧
    ∀ r, contestSubmissionPoll ext db contestId id = some r → r.Polls →
      ∀ (session : SessionRecord) (later : Time),
        ¬ (contestSubmissionDetail ext app db session now later contestId id).Refuses

section

variable {ext : Externals} {db : Db} {contestId : String} {id : Uuid}

theorem contestSubmissionPoll_of_none (hsub : db.getSubmission ext id = none) :
    contestSubmissionPoll ext db contestId id = some (.htmlError "submission not found") := by
  rw [contestSubmissionPoll, pollResponse, hsub]

/-- The poll of a submission panics exactly if it is judged and the header cannot
hold the path, and otherwise polls or redirects. -/
theorem contestSubmissionPoll_of_some (contestId : String) {sub : Submission}
    (hsub : db.getSubmission ext id = some sub) :
    (contestSubmissionPoll ext db contestId id ≠ none ↔
      sub.status.isTerminal = true → headerValueOk contestId = true) ∧
    ∀ r, contestSubmissionPoll ext db contestId id = some r → r.Polls := by
  cases hterminal : sub.status.isTerminal with
  | true =>
    rw [contestSubmissionPoll, pollResponse_of_terminal hsub hterminal, headerValueOk_location]
    split_ifs with hok
    · simp [hok, Response.Polls]
    · simp [hok]
  | false =>
    rw [contestSubmissionPoll, pollResponse, hsub]
    dsimp only
    rw [isPending_verdictInfo, hterminal]
    simp [Response.Polls]

theorem refuses_htmlError_iff {message : String} :
    (Response.htmlError message).Refuses ↔ message = "contest not found" := by
  simp only [Response.Refuses, Response.htmlError, Response.text.injEq, true_and,
    String.append_right_inj, reduceCtorEq, exists_false, or_false]

theorem refuses_html_iff {template : String} {ctx : Ctx} :
    (Response.html template ctx).Refuses ↔ template = "errors/contest_locked.html" := by
  simp [Response.Refuses, Response.htmlError]

/-- The page refuses exactly if there is no such contest or it has not started. -/
theorem refuses_contestSubmissionDetail_iff (hext : ∀ e, ext.dbErrorText e ≠ "contest not found")
    (app : AppState) (session : SessionRecord) (now later : Time) :
    (contestSubmissionDetail ext app db session now later contestId id).Refuses ↔
      db.getContest contestId = .ok none ∨
        ∃ contest, db.getContest contestId = .ok (some contest) ∧ contest.status now = .upcoming := by
  unfold contestSubmissionDetail
  cases db.getContest contestId with
  | error e => simp [refuses_htmlError_iff, hext]
  | ok found =>
    cases found with
    | none => simp [refuses_htmlError_iff]
    | some contest =>
      dsimp only
      split_ifs with hnow
      · simp [renderContestLocked, refuses_html_iff, hnow]
      · have hok : (∃ c, (Except.ok (some contest) : Except DbError _) = .ok (some c) ∧
            c.status now = .upcoming) ↔ False := by simp [hnow]
        rw [hok]
        cases db.getSubmission ext id with
        | none => simp [refuses_htmlError_iff]
        | some sub =>
          dsimp only
          split_ifs <;> simp [refuses_html_iff]

end

/-- For all paths, submissions and states: poll and page agree exactly if the
submission, if there is one, is not judged or a header can hold the path, and
the path is not that of no contest or of one that has not started. -/
theorem pollAgrees_iff (ext : Externals) (hext : ∀ e, ext.dbErrorText e ≠ "contest not found")
    (app : AppState) (db : Db) (contestId : String) (id : Uuid) (now : Time) :
    (∀ s, headerValueOk s = true ↔ ∀ b ∈ s.toUTF8.data.toList, HeaderByte b) ∧
    (PollAgrees ext app db contestId id now ↔
      ∀ sub, db.getSubmission ext id = some sub →
        (sub.status.isTerminal = true → headerValueOk contestId = true) ∧
        db.getContest contestId ≠ .ok none ∧
        ∀ contest, db.getContest contestId = .ok (some contest) →
          contest.status now ≠ .upcoming) := by
  refine ⟨headerValueOk_iff_bytes, ?_⟩
  cases hsub : db.getSubmission ext id with
  | none =>
    refine iff_of_true ⟨?_, ?_⟩ (fun sub h => by cases h)
    · rw [contestSubmissionPoll_of_none hsub]
      simp
    · rw [contestSubmissionPoll_of_none hsub]
      rintro r h hpolls
      cases h
      exact hpolls.elim
  | some sub =>
    obtain ⟨hpanics, hpolls⟩ := contestSubmissionPoll_of_some contestId hsub
    have hstarted : (∀ (session : SessionRecord) (later : Time),
        ¬ (contestSubmissionDetail ext app db session now later contestId id).Refuses) ↔
        db.getContest contestId ≠ .ok none ∧ ∀ contest,
          db.getContest contestId = .ok (some contest) → contest.status now ≠ .upcoming := by
      simp only [refuses_contestSubmissionDetail_iff hext, not_or, not_exists, not_and]
      exact ⟨fun h => h .empty now, fun h _ _ => h⟩
    constructor
    · rintro ⟨hanswer, hagree⟩ sub' hsub'
      obtain rfl : sub = sub' := Option.some.inj hsub'
      obtain ⟨r, hr⟩ := Option.ne_none_iff_exists'.mp hanswer
      exact ⟨hpanics.mp hanswer, hstarted.mp (hagree r hr (hpolls r hr))⟩
    · intro h
      obtain ⟨hok, hpage⟩ := h sub rfl
      exact ⟨hpanics.mpr hok, fun r _ _ => hstarted.mpr hpage⟩

/-- The poll of a submission under the path of its contest. -/
theorem pollAgrees_iff_judged :
    PollAgrees .simple .empty (polledDb .accepted) "c" 2 60 := by
  have hext : ∀ e, Externals.simple.dbErrorText e ≠ "contest not found" := fun _ =>
    show "error returned from database" ≠ "contest not found" by decide
  refine (pollAgrees_iff .simple hext .empty _ _ _ _).2.mpr fun sub _ =>
    ⟨fun _ => by decide, fun h => ?_, fun contest h => ?_⟩
  · cases h
  · cases h
    decide

/-- A line feed in the path makes the poll of a judged submission panic; under a
path without a contest it redirects to a page that is not found. -/
theorem pollAgrees_fails :
    contestSubmissionPoll .simple (polledDb .accepted) "c\n" 2 = none ∧
    contestSubmissionPoll .simple (polledDb .accepted) "d" 2 =
      some (.hxRedirect ("/contests/d/submissions/" ++ Uuid.toString 2)) ∧
    contestSubmissionDetail .simple .empty (polledDb .accepted) .empty 60 60 "d" 2 =
      .htmlError "contest not found" ∧
    ¬ PollAgrees .simple .empty (polledDb .accepted) "c\n" 2 60 ∧
    ¬ PollAgrees .simple .empty (polledDb .accepted) "d" 2 60 :=
  ⟨rfl, rfl, rfl, fun h => h.1 rfl, fun h => h.2 _ rfl trivial .empty 60 (.inl rfl)⟩

end MikanJudge

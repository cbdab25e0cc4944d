import MikanJudge.Model.Polling

/-!
# Where the polls of a contest submission go

The page of a contest submission polls inside the contest. The fragment it gets
comes from a template without a contest, so the polls after the first go to
the route without one, and so does the page they lead to. The first one goes to
the contest if its id is read as one segment of the URL, and as itself
(`pollRoute_contest_iff`).
-/

namespace MikanJudge

open MikanJudge.Lib

/-! ## The text of an id -/

theorem hexValue_hexDigit :
    ∀ d < 16, Url.hexValue (Json.hexDigit d).toNat = some d ∧ Json.hexDigit d ≠ '-' := by
  decide

namespace Uuid

@[simp] theorem length_hexDigits (k n : Nat) : (hexDigits k n).length = k := by
  induction k generalizing n with
  | zero => rfl
  | succ k ih => rw [hexDigits, List.length_append, ih, List.length_singleton]

/-- What is true of each digit is true of the digits of a number. -/
theorem forall_mem_hexDigits {p : Char → Prop} (hp : ∀ d < 16, p (Json.hexDigit d)) (k n : Nat) :
    ∀ c ∈ hexDigits k n, p c := by
  induction k generalizing n with
  | zero => exact fun c h => absurd h List.not_mem_nil
  | succ k ih =>
    intro c h
    rcases List.mem_append.mp h with h | h
    · exact ih _ c h
    · exact List.mem_singleton.mp h ▸ hp _ (Nat.mod_lt n (by decide))

theorem hexNumber_append (ds ds' : List Char) :
    hexNumber (ds ++ ds') = (hexNumber ds).bind fun n =>
      ds'.foldlM (fun n c => (Url.hexValue c.toNat).map (16 * n + ·)) n :=
  List.foldlM_append

/-- The digits of a number spell it, as far as they go. -/
theorem hexNumber_hexDigits (k n : Nat) : hexNumber (hexDigits k n) = some (n % 16 ^ k) := by
  induction k generalizing n with
  | zero => rw [Nat.pow_zero, Nat.mod_one]; rfl
  | succ k ih =>
    have hd := (hexValue_hexDigit _ (Nat.mod_lt n (by decide))).1
    rw [hexDigits, hexNumber_append, ih, Option.bind_some, List.foldlM_cons, hd]
    change some (16 * (n / 16 % 16 ^ k) + n % 16) = _
    rw [Nat.pow_succ', Nat.mod_mul, Nat.add_comm]

theorem toList_toString (id : Uuid) :
    id.toString.toList =
      (hexDigits 32 id.val).take 8 ++ '-' :: (((hexDigits 32 id.val).drop 8).take 4 ++
        '-' :: (((hexDigits 32 id.val).drop 12).take 4 ++
        '-' :: (((hexDigits 32 id.val).drop 16).take 4 ++ '-' :: (hexDigits 32 id.val).drop 20))) := by
  rw [toString, String.toList_ofList]
  simp only [List.append_assoc, List.cons_append]

theorem length_toString (id : Uuid) : id.toString.toList.length = 36 := by
  simp [toList_toString]

theorem take_four_append (ds : List Char) (k : Nat) :
    (ds.drop k).take 4 ++ ds.drop (k + 4) = ds.drop k := by
  rw [← List.drop_drop, List.take_append_drop]

/-- What is true of each digit and of a hyphen is true of the text of an id. -/
theorem forall_mem_toString {p : Char → Prop} (hp : ∀ d < 16, p (Json.hexDigit d)) (hyphen : p '-')
    (id : Uuid) : ∀ c ∈ id.toString.toList, p c := by
  have hdigits := forall_mem_hexDigits hp 32 id.val
  have htake : ∀ k n, ∀ c ∈ ((hexDigits 32 id.val).drop k).take n, p c :=
    fun k n c hc => hdigits c (List.mem_of_mem_drop (List.mem_of_mem_take hc))
  rw [toList_toString]
  simp only [List.forall_mem_append, List.forall_mem_cons]
  exact ⟨htake 0 8, hyphen, htake 8 4, hyphen, htake 12 4, hyphen, htake 16 4, hyphen,
    fun c hc => hdigits c (List.mem_of_mem_drop hc)⟩

/-- The text of an id is read as the id. -/
theorem parse_toString (id : Uuid) : parse id.toString = some id := by
  have hdigits := forall_mem_hexDigits (p := (· ≠ '-')) (fun d hd => (hexValue_hexDigit d hd).2)
    32 id.val
  have hgroup : ∀ k n, '-' ∉ ((hexDigits 32 id.val).drop k).take n :=
    fun k n hc => hdigits _ (List.mem_of_mem_drop (List.mem_of_mem_take hc)) rfl
  have hgroups : id.toString.toList.splitOn '-' =
      [(hexDigits 32 id.val).take 8, ((hexDigits 32 id.val).drop 8).take 4,
        ((hexDigits 32 id.val).drop 12).take 4, ((hexDigits 32 id.val).drop 16).take 4,
        (hexDigits 32 id.val).drop 20] := by
    rw [toList_toString, List.splitOn_append_cons_self_of_not_mem fun hc => hdigits _
        (List.mem_of_mem_take hc) rfl,
      List.splitOn_append_cons_self_of_not_mem (hgroup 8 4),
      List.splitOn_append_cons_self_of_not_mem (hgroup 12 4),
      List.splitOn_append_cons_self_of_not_mem (hgroup 16 4),
      List.splitOn_eq_singleton fun hc => hdigits _ (List.mem_of_mem_drop hc) rfl]
  have hflatten : (id.toString.toList.splitOn '-').flatten = hexDigits 32 id.val := by
    rw [hgroups]
    simp only [List.flatten_cons, List.flatten_nil, List.append_nil]
    rw [take_four_append, take_four_append, take_four_append, List.take_append_drop]
  rw [parse, length_toString, if_neg (by decide), if_pos rfl, parseHyphenated, if_pos, hflatten,
    parseSimple, if_pos (length_hexDigits _ _), hexNumber_hexDigits,
    Nat.mod_eq_of_lt (b := 16 ^ 32) id.isLt, Option.bind_some, dif_pos id.isLt]
  · rw [hgroups]
    simp

end Uuid

/-! ## URLs -/

theorem toList_data_toUTF8 (s : String) :
    s.toUTF8.data.toList = s.toList.flatMap String.utf8EncodeChar := by
  rw [String.toUTF8, ← String.utf8Encode_toList, List.utf8Encode, List.data_toByteArray]

theorem utf8Bytes_append (s s' : String) : utf8Bytes (s ++ s') = utf8Bytes s ++ utf8Bytes s' := by
  rw [utf8Bytes, toList_data_toUTF8, String.toList_append, List.flatMap_append,
    ← toList_data_toUTF8, ← toList_data_toUTF8]
  rfl

/-- A parameter is the text that its decoded bytes encode. -/
theorem pathParam_eq_some_iff {seg : List UInt8} {s : String} :
    pathParam seg = some s ↔ Url.percentDecode seg = utf8Bytes s := by
  rw [pathParam, String.fromUTF8?, utf8Bytes]
  constructor
  · intro h
    split_ifs at h with hvalid
    obtain rfl := Option.some.inj h
    rfl
  · intro h
    have hs : (⟨(Url.percentDecode seg).toArray⟩ : ByteArray) = s.toByteArray := by
      rw [h]
      rfl
    rw [dif_pos (hs ▸ s.isValidUTF8)]
    exact congrArg some (String.toByteArray_inj.mp hs)

/-- A text of digits and hyphens has no delimiters, dots and percent signs. -/
theorem forall_mem_utf8Bytes_toString (id : Uuid) :
    ∀ b ∈ utf8Bytes id.toString, Url.isPlain b = true ∧ b ≠ 46 ∧ b ≠ 37 := by
  have hmem := Uuid.forall_mem_toString
    (p := fun c => ∀ b ∈ String.utf8EncodeChar c, Url.isPlain b = true ∧ b ≠ 46 ∧ b ≠ 37)
    (by decide +kernel) (by decide +kernel) id
  rw [utf8Bytes, toList_data_toUTF8]
  intro b hb
  obtain ⟨c, hc, hb⟩ := List.mem_flatMap.mp hb
  exact hmem c hc b hb

theorem isSegment_toString (id : Uuid) : Url.isSegment (utf8Bytes id.toString) = true := by
  refine Url.isSegment_of_plain (fun h => ?_) (forall_mem_utf8Bytes_toString id)
  rw [utf8Bytes, toList_data_toUTF8, List.flatMap_eq_nil_iff] at h
  exact absurd (h '-' (by simp [Uuid.toList_toString])) (by decide)

/-- The segments of the path of a contest's polls, before it is read. -/
def contestPollSegments (contestId : String) (id : Uuid) : List (List UInt8) :=
  [utf8Bytes "contests", utf8Bytes contestId, utf8Bytes "submissions", utf8Bytes id.toString,
    utf8Bytes "poll"]

def pollSegments (id : Uuid) : List (List UInt8) :=
  [utf8Bytes "submissions", utf8Bytes id.toString, utf8Bytes "poll"]

theorem utf8Bytes_contestPath (contestId : String) (id : Uuid) :
    utf8Bytes ("/contests/" ++ contestId ++ "/submissions/" ++ id.toString ++ "/poll") =
      Url.join (contestPollSegments contestId id) := by
  simp only [utf8Bytes_append, contestPollSegments, Url.join_cons, Url.join_nil, List.append_nil]
  rw [show utf8Bytes "/contests/" = 47 :: (utf8Bytes "contests" ++ [47]) by decide +kernel,
    show utf8Bytes "/submissions/" = 47 :: (utf8Bytes "submissions" ++ [47]) by decide +kernel,
    show utf8Bytes "/poll" = 47 :: utf8Bytes "poll" by decide +kernel]
  simp only [List.cons_append, List.append_assoc, List.nil_append]

theorem utf8Bytes_path (id : Uuid) :
    utf8Bytes ("/submissions/" ++ id.toString ++ "/poll") = Url.join (pollSegments id) := by
  simp only [utf8Bytes_append, pollSegments, Url.join_cons, Url.join_nil, List.append_nil]
  rw [show utf8Bytes "/submissions/" = 47 :: (utf8Bytes "submissions" ++ [47]) by decide +kernel,
    show utf8Bytes "/poll" = 47 :: utf8Bytes "poll" by decide +kernel]
  simp only [List.cons_append, List.append_assoc, List.nil_append]

/-- The literal segments are sent as they are. -/
theorem literal_segments :
    ∀ seg ∈ [utf8Bytes "contests", utf8Bytes "submissions", utf8Bytes "poll"],
      Url.isSegment seg = true ∧ Url.percentEncode seg = seg ∧ 37 ∉ seg := by
  decide +kernel

/-- What is sent for a segment of a text is read as the text. -/
theorem pathParam_percentEncode {s : String} (h : Url.isSegment (utf8Bytes s) = true) :
    Url.percentEncode (utf8Bytes s) ≠ [] ∧
      pathParam (Url.percentEncode (utf8Bytes s)) = some s := by
  obtain ⟨hne, -, -, hdecode⟩ := Url.isSegment_iff.mp h
  refine ⟨Url.percentEncode_ne_nil hne, ?_⟩
  rw [pathParam_eq_some_iff, Url.percentDecode_percentEncode, hdecode]

theorem pathParam_toString (id : Uuid) :
    Url.percentEncode (utf8Bytes id.toString) ≠ [] ∧
      (pathParam (Url.percentEncode (utf8Bytes id.toString))).bind Uuid.parse = some id := by
  obtain ⟨hne, hparam⟩ := pathParam_percentEncode (isSegment_toString id)
  refine ⟨hne, ?_⟩
  rw [hparam, Option.bind_some, Uuid.parse_toString]

theorem isSegment_of_mem_pollSegments {id : Uuid} :
    ∀ seg ∈ pollSegments id, Url.isSegment seg = true := by
  have hliteral := literal_segments
  simp only [pollSegments, List.forall_mem_cons] at hliteral ⊢
  exact ⟨hliteral.2.1.1, isSegment_toString id, hliteral.2.2.1.1, fun _ h => absurd h List.not_mem_nil⟩

theorem isSegment_of_mem_contestPollSegments {contestId : String} {id : Uuid}
    (h : Url.isSegment (utf8Bytes contestId) = true) :
    ∀ seg ∈ contestPollSegments contestId id, Url.isSegment seg = true := by
  rw [contestPollSegments, List.forall_mem_cons, List.forall_mem_cons]
  exact ⟨(literal_segments _ (by simp)).1, h, isSegment_of_mem_pollSegments⟩

/-- The URL of a fragment goes to the route without a contest. -/
theorem pollRoute_path (id : Uuid) :
    pollRoute ("/submissions/" ++ id.toString ++ "/poll") = some (.submissionsPoll id) := by
  obtain ⟨hne, hid⟩ := pathParam_toString id
  have hsubmissions := (literal_segments (utf8Bytes "submissions") (by simp)).2.1
  have hpoll := (literal_segments (utf8Bytes "poll") (by simp)).2.1
  rw [pollRoute, utf8Bytes_path, Url.pathSegments_join_of_isSegment isSegment_of_mem_pollSegments]
  simp only [pollSegments, List.map_cons, List.map_nil]
  rw [if_pos ⟨hsubmissions, hne, hpoll⟩, hid]
  rfl

/-- The URL that the page of a contest submission polls goes to the contest exactly
if its id is read as one segment, and as itself. -/
theorem pollRoute_contest_iff (contestId : String) (id : Uuid) :
    pollRoute ("/contests/" ++ contestId ++ "/submissions/" ++ id.toString ++ "/poll") =
      some (.contestSubmissionPoll contestId id) ↔ Url.isSegment (utf8Bytes contestId) = true := by
  rw [pollRoute, utf8Bytes_contestPath]
  constructor
  · intro h
    split at h
    · rename_i contests contestParam submissions idParam poll hpath
      split_ifs at h with hparams
      obtain ⟨contestId', hcontest, h⟩ := Option.bind_eq_some_iff.mp h
      obtain ⟨id', -, h⟩ := Option.bind_eq_some_iff.mp h
      obtain ⟨rfl, -⟩ := Route.contestSubmissionPoll.inj (Option.some.inj h)
      -- the parameter was one of the segments
      obtain ⟨seg, hseg, rfl⟩ : ∃ seg ∈ Url.pathSegments (Url.join (contestPollSegments contestId' id)),
          Url.percentEncode seg = contestParam := by
        rw [← List.mem_map, hpath]
        simp
      rw [pathParam_eq_some_iff, Url.percentDecode_percentEncode] at hcontest
      refine Url.isSegment_of_mem_join ?_ hseg ?_ hcontest
      · simp only [contestPollSegments, List.forall_mem_cons]
        exact ⟨.inr (literal_segments _ (by simp)).2.2, .inl trivial,
          .inr (literal_segments _ (by simp)).2.2,
          .inr fun hmem => (forall_mem_utf8Bytes_toString id _ hmem).2.2 rfl,
          .inr (literal_segments _ (by simp)).2.2, fun _ h => absurd h List.not_mem_nil⟩
      · rintro rfl
        exact hparams.2.1 rfl
    · split_ifs at h
      obtain ⟨id', -, h⟩ := Option.bind_eq_some_iff.mp h
      cases h
    · cases h
  · intro h
    obtain ⟨hne, hid⟩ := pathParam_toString id
    obtain ⟨hcontestNe, hcontest⟩ := pathParam_percentEncode h
    have hcontests := (literal_segments (utf8Bytes "contests") (by simp)).2.1
    have hsubmissions := (literal_segments (utf8Bytes "submissions") (by simp)).2.1
    have hpoll := (literal_segments (utf8Bytes "poll") (by simp)).2.1
    rw [Url.pathSegments_join_of_isSegment (isSegment_of_mem_contestPollSegments h)]
    simp only [contestPollSegments, List.map_cons, List.map_nil]
    rw [if_pos ⟨hcontests, hcontestNe, hsubmissions, hne, hpoll⟩, hcontest, hid]
    rfl

/-! ## Answers -/

section

variable {ext : Externals} {app : AppState} {db : Db} {session : SessionRecord} {now₁ now₂ : Time}
  {contestId : String} {id : Uuid} {sub : Submission}

theorem getSubmission_id (h : db.getSubmission ext id = some sub) : sub.id = id := by
  obtain ⟨row, hrow, rfl⟩ := Option.map_eq_some_iff.mp h
  have hid : row.id = id := by simpa using List.find?_some hrow
  exact hid

/-- A page of a contest submission that polls does so with the contest in the URL. -/
theorem pollUrl_contestSubmissionDetail {url : String}
    (h : (contestSubmissionDetail ext app db session now₁ now₂ contestId id).pollUrl = some url) :
    "/contests/" ++ contestId ++ "/submissions/" ++ id.toString ++ "/poll" = url := by
  unfold contestSubmissionDetail at h
  split at h
  · cases h
  · cases h
  · split_ifs at h
    · cases h
    · split at h
      · cases h
      · rename_i sub hsub
        dsimp only at h
        split_ifs at h
        · cases h
        · obtain rfl := getSubmission_id hsub
          cases hp : (verdictInfo sub.status).2.2 with
          | false =>
            rw [hp] at h
            cases h
          | true =>
            rw [hp] at h
            exact Option.some.inj h

theorem isPending_verdictInfo (status : JudgeStatus) :
    (verdictInfo status).2.2 = !status.isTerminal := by
  cases status <;> rfl

/-- The fragment of a pending verdict polls without a contest, whichever route it
comes from. -/
theorem pollUrl_pollResponse (location : String) {extra : List (String × Json)}
    (hextra : extra = [] ∨ ∃ c, extra = [("contest_id", .str c)])
    (hsub : db.getSubmission ext id = some sub) (hpending : sub.status.isTerminal = false) :
    (pollResponse ext db location extra id).bind Response.pollUrl =
      some ("/submissions/" ++ id.toString ++ "/poll") := by
  obtain rfl := getSubmission_id hsub
  rw [pollResponse, hsub]
  dsimp only
  rw [isPending_verdictInfo, hpending]
  rcases hextra with rfl | ⟨c, rfl⟩ <;> rfl

theorem pollResponse_of_terminal {location : String} {extra : List (String × Json)}
    (hsub : db.getSubmission ext id = some sub) (hterminal : sub.status.isTerminal = true) :
    pollResponse ext db location extra id =
      if headerValueOk location then some (.hxRedirect location) else none := by
  rw [pollResponse, hsub]
  dsimp only
  rw [isPending_verdictInfo, hterminal]
  rfl

/-! ## Polling -/

/-- All polls go to the contest, and the last answer leads to the page in it. -/
def StaysInContest (contestId : String) (id : Uuid) (polls : List Poll) : Prop :=
  (∀ p ∈ polls, p.route = some (.contestSubmissionPoll contestId id)) ∧
    (polls.getLast?.bind (·.answer)) =
      some (.hxRedirect ("/contests/" ++ contestId ++ "/submissions/" ++ id.toString))

/-- What a poll finds while the submission is pending or running, and when it is
judged. -/
def Finds (ext : Externals) (id : Uuid) (terminal : Bool) (m : Db × Visit) : Prop :=
  ∃ sub, m.1.getSubmission ext id = some sub ∧ sub.status.isTerminal = terminal

theorem headerValueOk_toString (id : Uuid) : headerValueOk id.toString = true := by
  rw [headerValueOk, List.all_eq_true]
  exact Uuid.forall_mem_toString (by decide) (by decide) id

theorem headerValueOk_append (s s' : String) :
    headerValueOk (s ++ s') = (headerValueOk s && headerValueOk s') := by
  rw [headerValueOk, String.toList_append, List.all_append]
  rfl

theorem headerValueOk_location (contestId : String) (id : Uuid) :
    headerValueOk ("/contests/" ++ contestId ++ "/submissions/" ++ id.toString) =
      headerValueOk contestId := by
  rw [headerValueOk_append, headerValueOk_append, headerValueOk_append, headerValueOk_toString,
    show headerValueOk "/contests/" = true by decide,
    show headerValueOk "/submissions/" = true by decide]
  simp

/-- The first poll goes to the route of the URL. -/
theorem head?_pollsFrom (url : String) (m : Db × Visit) (ms : List (Db × Visit)) :
    (pollsFrom ext app url (m :: ms)).head?.bind Poll.route = pollRoute url := by
  rw [pollsFrom]
  cases pollRoute url <;> rfl

theorem pollsFrom_of_pollRoute {url : String} {m : Db × Visit} {ms : List (Db × Visit)}
    {route : Route} (h : pollRoute url = some route) :
    pollsFrom ext app url (m :: ms) = ⟨some route, route.respond ext app m.1 m.2⟩ ::
      ((route.respond ext app m.1 m.2).bind Response.pollUrl).elim []
        fun url => pollsFrom ext app url ms := by
  rw [pollsFrom, h]

/-- After a poll of the contest that finds the submission pending or running, the
next goes to the route without a contest. -/
theorem pollsFrom_of_pending {url : String} {m : Db × Visit} {ms : List (Db × Visit)}
    (hm : Finds ext id false m)
    (hroute : pollRoute url = some (.contestSubmissionPoll contestId id)) :
    pollsFrom ext app url (m :: ms) =
      ⟨some (.contestSubmissionPoll contestId id), contestSubmissionPoll ext m.1 contestId id⟩ ::
        pollsFrom ext app ("/submissions/" ++ id.toString ++ "/poll") ms := by
  obtain ⟨sub, hsub, hpending⟩ := hm
  have hnext := pollUrl_pollResponse ("/contests/" ++ contestId ++ "/submissions/" ++ id.toString)
    (.inr ⟨contestId, rfl⟩) hsub hpending
  rw [pollsFrom_of_pollRoute hroute, Route.respond, contestSubmissionPoll, hnext, Option.elim_some]

/-- Polls stay in the contest only if the first does. -/
theorem StaysInContest.first {url : String} {m : Db × Visit} {ms : List (Db × Visit)}
    (h : StaysInContest contestId id (pollsFrom ext app url (m :: ms))) :
    pollRoute url = some (.contestSubmissionPoll contestId id) := by
  have hfirst : (pollsFrom ext app url (m :: ms)).head?.bind Poll.route = pollRoute url :=
    head?_pollsFrom url m ms
  rw [← hfirst]
  cases hpolls : pollsFrom ext app url (m :: ms) with
  | nil =>
    rw [hpolls] at h
    cases h.2
  | cons p polls =>
    rw [hpolls] at h
    exact h.1 p List.mem_cons_self

/-- A poll of the contest that finds the submission judged is the last, and leads to
its page in the contest if the id fits into a header. -/
theorem staysInContest_of_judged {url : String} {m : Db × Visit} (hm : Finds ext id true m)
    (hroute : pollRoute url = some (.contestSubmissionPoll contestId id)) :
    StaysInContest contestId id (pollsFrom ext app url [m]) ↔ headerValueOk contestId = true := by
  obtain ⟨sub, hsub, hterminal⟩ := hm
  have hanswer : (Route.contestSubmissionPoll contestId id).respond ext app m.1 m.2 =
      if headerValueOk contestId then
        some (.hxRedirect ("/contests/" ++ contestId ++ "/submissions/" ++ id.toString))
      else none := by
    rw [Route.respond, contestSubmissionPoll, pollResponse_of_terminal hsub hterminal,
      headerValueOk_location]
  have hlast : ((Route.contestSubmissionPoll contestId id).respond ext app m.1 m.2).bind
      Response.pollUrl = none := by
    rw [hanswer]
    split_ifs <;> rfl
  rw [pollsFrom_of_pollRoute hroute, hlast, Option.elim_none, StaysInContest,
    List.getLast?_singleton, Option.bind_some, hanswer]
  cases headerValueOk contestId <;> simp

theorem not_staysInContest_of_pending {url : String} {m m' : Db × Visit} {ms : List (Db × Visit)}
    (hm : Finds ext id false m)
    (hroute : pollRoute url = some (.contestSubmissionPoll contestId id)) :
    ¬ StaysInContest contestId id (pollsFrom ext app url (m :: m' :: ms)) := by
  rw [pollsFrom_of_pending hm hroute, pollsFrom_of_pollRoute (pollRoute_path id)]
  intro hstays
  cases hstays.1 _ (List.mem_cons_of_mem _ List.mem_cons_self)

/-- From the page of a contest submission that is pending or running, the polls stay
in the contest, and lead to its page there, exactly when the first of them finds the
submission judged, and the id of the contest fits into a header and is read as one
segment of a URL, and as itself. -/
theorem staysInContest_iff (ext : Externals) (app : AppState) {db : Db} {session : SessionRecord}
    {now₁ now₂ : Time} {contestId : String} {id : Uuid} {url : String}
    {pending : List (Db × Visit)} {m : Db × Visit}
    (hurl : (contestSubmissionDetail ext app db session now₁ now₂ contestId id).pollUrl = some url)
    (hpending : ∀ m ∈ pending, Finds ext id false m) (hm : Finds ext id true m) :
    StaysInContest contestId id (pollsFrom ext app url (pending ++ [m])) ↔
      pending = [] ∧ headerValueOk contestId = true ∧
        Url.isSegment (utf8Bytes contestId) = true := by
  obtain rfl := pollUrl_contestSubmissionDetail hurl
  rw [← pollRoute_contest_iff contestId id]
  cases pending with
  | nil =>
    constructor
    · intro hstays
      have hroute := hstays.first
      exact ⟨rfl, (staysInContest_of_judged hm hroute).mp hstays, hroute⟩
    · rintro ⟨-, hheader, hroute⟩
      exact (staysInContest_of_judged hm hroute).mpr hheader
  | cons m' pending =>
    refine iff_of_false (fun hstays => ?_) fun h => List.cons_ne_nil _ _ h.1
    have hroute := hstays.first
    obtain ⟨m'', ms, hms⟩ : ∃ m'' ms, pending ++ [m] = m'' :: ms := by
      cases pending <;> exact ⟨_, _, rfl⟩
    rw [List.cons_append, hms] at hstays
    exact not_staysInContest_of_pending (hpending m' List.mem_cons_self) hroute hstays

end

/-! ### A contest submission -/

/-- A contest with one submission, at a status. -/
def polledDb (status : JudgeStatus) : Db where
  users := [{ id := 1, username := "alice", passwordHash := "", defaultLanguage := none }]
  contests := [{
    id := "c", title := "C", description := "", startTime := 0, endTime := 100
    judgeType := "exact" }]
  contestProblems := []
  submissions := [{
    id := 2, problemId := "a", userId := some 1, contestId := some "c", language := "cpp"
    sourceCode := "", status := status.toDb, timeUsedMs := none, memoryUsedKb := none
    stdout := none, stderr := none, testcaseResults := none, score := none, createdAt := 50 }]

/-- What a request finds, at a status. -/
def polledAt (status : JudgeStatus) : Db × Visit :=
  (polledDb status, {
    session := { SessionRecord.empty with userId := some 1 }, clock := fun _ => 60, id := 3
    users := .inserted, rows := .table _, contests := .table _ })

def polledUrl : String := "/contests/c/submissions/" ++ Uuid.toString 2 ++ "/poll"

theorem pollUrl_polledDb :
    (contestSubmissionDetail .simple .empty (polledDb .pending)
      { SessionRecord.empty with userId := some 1 } 60 60 "c" 2).pollUrl = some polledUrl := rfl

/-- The first poll finds it judged. -/
theorem staysInContest_iff_judged :
    StaysInContest "c" 2 (pollsFrom .simple .empty polledUrl ([] ++ [polledAt .accepted])) ↔
      ([] : List (Db × Visit)) = [] ∧ headerValueOk "c" = true ∧
        Url.isSegment (utf8Bytes "c") = true :=
  staysInContest_iff .simple .empty pollUrl_polledDb (fun _ h => absurd h List.not_mem_nil)
    ⟨_, rfl, rfl⟩

/-- The second poll, after one that found it running, goes to the route without a
contest, and so does the page. -/
theorem staysInContest_iff_fails :
    (contestSubmissionDetail .simple .empty (polledDb .pending)
      { SessionRecord.empty with userId := some 1 } 60 60 "c" 2).pollUrl = some polledUrl ∧
    (pollsFrom .simple .empty polledUrl [polledAt .running, polledAt .accepted]).map (·.route) =
      [some (.contestSubmissionPoll "c" 2), some (.submissionsPoll 2)] ∧
    (pollsFrom .simple .empty polledUrl [polledAt .running, polledAt .accepted]).getLast?.bind
      (·.answer) = some (.hxRedirect ("/submissions/" ++ Uuid.toString 2)) ∧
    ¬ StaysInContest "c" 2
      (pollsFrom .simple .empty polledUrl [polledAt .running, polledAt .accepted]) := by
  have hcontest : pollRoute polledUrl = some (.contestSubmissionPoll "c" 2) :=
    (pollRoute_contest_iff "c" 2).mpr (by decide +kernel)
  have hpolls : pollsFrom .simple .empty polledUrl [polledAt .running, polledAt .accepted] =
      [⟨some (.contestSubmissionPoll "c" 2),
        contestSubmissionPoll .simple (polledDb .running) "c" 2⟩,
      ⟨some (.submissionsPoll 2), submissionsPoll .simple (polledDb .accepted) 2⟩] := by
    rw [pollsFrom_of_pending ⟨_, rfl, rfl⟩ hcontest, pollsFrom_of_pollRoute (pollRoute_path 2)]
    rfl
  rw [hpolls]
  refine ⟨pollUrl_polledDb, rfl, rfl, fun h => ?_⟩
  have hroute := h.1 _ (List.mem_cons_of_mem _ List.mem_cons_self)
  cases hroute

end MikanJudge

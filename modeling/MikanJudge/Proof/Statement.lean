import MikanJudge.Lib.FileUpdate
import MikanJudge.Model.Routes

/-!
# The pages with another statement

The statement of a problem is read from its directory, by `load_one` only.
With another text in that file every problem still loads as before, and those
whose statement it is differ in their HTML (`loadOne_withStatement`). The pages
that do not show the HTML stay the same, and so do the jobs.
-/

namespace MikanJudge

open MikanJudge.Lib

namespace AppState

variable (app : AppState)

def dirOf (id : String) : String := Path.join app.problemsDir id

/-- Where the statement of a problem is. -/
def statementLoc (id : String) : Option (List String) :=
  app.fs.resolve (Path.join (app.dirOf id) "statement.md")

/-- Where the test cases of a problem are. -/
def casesLoc (id : String) : Option (List String) :=
  app.fs.resolve (Path.join (app.dirOf id) "testcases")

/-- The files with other contents at a location. -/
def withStatement (loc : List String) (bytes : List UInt8) : AppState :=
  { app with fs := app.fs.write loc bytes }

/-- A problem as it loads with another text at a location. -/
def reword (ext : Externals) (loc : List String) (text : String) (prob : Problem) : Problem :=
  if app.statementLoc prob.id = some loc then { prob with htmlContent := ext.markdownToHtml text }
  else prob

end AppState

section

variable {ext : Externals} {app : AppState} {loc : List String} {text : String} {prob : Problem}

@[simp] theorem reword_id : (app.reword ext loc text prob).id = prob.id := by
  rw [AppState.reword]; split_ifs <;> rfl

@[simp] theorem reword_title : (app.reword ext loc text prob).title = prob.title := by
  rw [AppState.reword]; split_ifs <;> rfl

@[simp] theorem reword_timeLimitMs :
    (app.reword ext loc text prob).timeLimitMs = prob.timeLimitMs := by
  rw [AppState.reword]; split_ifs <;> rfl

@[simp] theorem reword_memoryLimitKb :
    (app.reword ext loc text prob).memoryLimitKb = prob.memoryLimitKb := by
  rw [AppState.reword]; split_ifs <;> rfl

@[simp] theorem reword_score : (app.reword ext loc text prob).score = prob.score := by
  rw [AppState.reword]; split_ifs <;> rfl

@[simp] theorem reword_testcases : (app.reword ext loc text prob).testcases = prob.testcases := by
  rw [AppState.reword]; split_ifs <;> rfl

@[simp] theorem reword_scorerPath :
    (app.reword ext loc text prob).scorerPath = prob.scorerPath := by
  rw [AppState.reword]; split_ifs <;> rfl

/-! ## Loading with another statement -/

/-- The location of a statement ends in its name. -/
theorem eq_append_of_resolve {fs : FileTree} {dir name : String} (hn : plainName name = true)
    (h : fs.resolve (Path.join dir name) = some loc) : ∃ base, loc = base ++ [name] := by
  obtain ⟨base, -, e⟩ := FileTree.locate_join_plain hn (FileTree.locate_of_resolve h)
  exact ⟨base, e⟩

/-- A file of another name is somewhere else. -/
theorem resolve_ne_of_name {fs : FileTree} {dir name name' : String} {base : List String}
    (hn : plainName name = true) (hne : name ≠ name') :
    fs.resolve (Path.join dir name) ≠ some (base ++ [name']) := by
  intro h
  obtain ⟨base', e⟩ := eq_append_of_resolve hn h
  exact hne (List.append_inj_right' e rfl |> List.singleton_inj.mp).symm

theorem withExtension_ne_statement (name : String) :
    Path.withExtension name "out" ≠ "statement.md" := by
  obtain ⟨x, e⟩ : ∃ x : String, Path.withExtension name "out" = x ++ "out" := by
    rw [Path.withExtension]
    split
    · exact ⟨_, rfl⟩
    · exact ⟨_, rfl⟩
  intro h
  have hlast := congrArg (fun s : String => s.toList.getLast?) (e.symm.trans h)
  simp only [String.toList_append, List.getLast?_append] at hlast
  have hout : "out".toList.getLast? = some 't' := by decide
  have hmd : "statement.md".toList.getLast? = some 'd' := by decide
  rw [hout, hmd, Option.some_or] at hlast
  exact absurd hlast (by decide)

theorem loadTestcase_write {fs : FileTree} {dir : String} {name : Lib.Name} {base : List String}
    {bytes : List UInt8} (hext : Path.extension name.val = some "in") :
    loadTestcase (fs.write (base ++ ["statement.md"]) bytes) dir name.val =
      loadTestcase fs dir name.val := by
  have hin : name.val ≠ "statement.md" := fun e => by
    rw [e] at hext
    exact absurd hext (by decide)
  have hout : plainName (Path.withExtension name.val "out") = true :=
    Path.plainName_withExtension name.property (by decide) (by decide)
  unfold loadTestcase
  simp only [FileTree.exists?_write,
    FileTree.readToString_write_of_ne (resolve_ne_of_name name.property hin),
    FileTree.readToString_write_of_ne (resolve_ne_of_name hout (withExtension_ne_statement _))]

theorem loadTestcases_write {fs : FileTree} {dir : String} {base : List String}
    {bytes : List UInt8} :
    loadTestcases (fs.write (base ++ ["statement.md"]) bytes) dir = loadTestcases fs dir := by
  unfold loadTestcases
  rw [FileTree.readDir_write]
  cases fs.readDir dir with
  | none => rfl
  | some entries =>
    have hmap : ∀ names : List String,
        (∀ n ∈ names, ∃ name : Lib.Name, name.val = n ∧ Path.extension n = some "in") →
        names.map (loadTestcase (fs.write (base ++ ["statement.md"]) bytes) dir) =
          names.map (loadTestcase fs dir) := by
      intro names hnames
      refine List.map_congr_left fun n hn => ?_
      obtain ⟨name, rfl, hext⟩ := hnames n hn
      exact loadTestcase_write hext
    dsimp only
    rw [hmap]
    intro n hn
    simp only [List.mem_insertionSort, List.mem_filter, List.mem_map, beq_iff_eq] at hn
    obtain ⟨⟨name, -, rfl⟩, hext⟩ := hn
    exact ⟨name, rfl, hext⟩

/-- A statement that can be read. -/
structure AppState.StatementAt (app : AppState) (loc : List String) : Prop where
  name : ∃ base, loc = base ++ ["statement.md"]
  readable : ((app.fs.fileAt loc).bind Utf8.decodeStrict).isSome = true

theorem AppState.StatementAt.of_readToString {id : String}
    (h : (app.fs.readToString (Path.join (app.dirOf id) "statement.md")).isSome = true)
    (hloc : app.statementLoc id = some loc) : app.StatementAt loc where
  name := eq_append_of_resolve (by decide) hloc
  readable := by
    rw [FileTree.readToString, FileTree.read, ← AppState.statementLoc, hloc, Option.bind_some,
      Option.isSome_map] at h
    exact h

theorem AppState.StatementAt.isFile (h : app.StatementAt loc) :
    (app.fs.fileAt loc).isSome = true := by
  have hr := h.readable
  cases hf : app.fs.fileAt loc with
  | none => rw [hf] at hr; cases hr
  | some old => rfl

theorem id_of_loadOne {fs : FileTree} {problemsDir id : String}
    (h : (loadOne ext fs problemsDir id).result = .ok prob) : prob.id = id := by
  unfold loadOne at h
  dsimp only at h
  split at h
  · cases h
  · split at h
    · cases h
    · split at h
      · cases h
      · split at h <;> cases h
        rfl

variable {bytes : List UInt8} {cs : List Char}

/-- With another text at the location of a statement, a problem loads as
before, but for the HTML where this is its statement. -/
theorem loadOne_withStatement (hs : app.StatementAt loc) (hb : Utf8.decodeStrict bytes = some cs)
    (id : String) :
    (loadOne ext (app.withStatement loc bytes).fs app.problemsDir id).result =
      (loadOne ext app.fs app.problemsDir id).result.map (app.reword ext loc (String.ofList cs)) := by
  obtain ⟨base, rfl⟩ := hs.name
  have hmeta : (app.fs.write (base ++ ["statement.md"]) bytes).readToString
      (Path.join (Path.join app.problemsDir id) "meta.toml") =
        app.fs.readToString (Path.join (Path.join app.problemsDir id) "meta.toml") :=
    FileTree.readToString_write_of_ne (resolve_ne_of_name (by decide) (by decide))
  unfold loadOne AppState.withStatement
  dsimp only
  rw [hmeta, loadTestcases_write, FileTree.exists?_write]
  split
  · rfl
  · split
    · rfl
    · by_cases hloc : app.statementLoc id = some (base ++ ["statement.md"])
      · -- its own statement: both texts can be read
        have hself : (app.fs.write (base ++ ["statement.md"]) bytes).readToString
            (Path.join (Path.join app.problemsDir id) "statement.md") = _ :=
          FileTree.readToString_write_self hloc hs.isFile
        have hold : (app.fs.readToString
            (Path.join (Path.join app.problemsDir id) "statement.md")).isSome = true := by
          rw [FileTree.readToString, FileTree.read, ← AppState.dirOf, ← AppState.statementLoc, hloc,
            Option.bind_some, Option.isSome_map]
          exact hs.readable
        obtain ⟨md, hmd⟩ := Option.isSome_iff_exists.mp hold
        rw [hself, hb, hmd, Option.map_some]
        dsimp only
        split
        · rfl
        · rfl
        · simp only [Except.map, AppState.reword, hloc, if_true]
      · have hother : (app.fs.write (base ++ ["statement.md"]) bytes).readToString
            (Path.join (Path.join app.problemsDir id) "statement.md") = _ :=
          FileTree.readToString_write_of_ne hloc
        rw [hother]
        split
        · rfl
        · split
          · rfl
          · rfl
          · simp only [Except.map, AppState.reword, hloc, if_false]

theorem toOption_map {ε α β : Type} (f : α → β) (e : Except ε α) :
    (e.map f).toOption = e.toOption.map f := by
  cases e <;> rfl

/-- The problems that load, with another text. -/
theorem loadAll_withStatement (hs : app.StatementAt loc)
    (hb : Utf8.decodeStrict bytes = some cs) :
    loadAll ext (app.withStatement loc bytes).fs app.problemsDir =
      (loadAll ext app.fs app.problemsDir).map (app.reword ext loc (String.ofList cs)) := by
  have hfs : (app.withStatement loc bytes).fs = app.fs.write loc bytes := rfl
  unfold loadAll
  rw [hfs, FileTree.readDir_write]
  cases app.fs.readDir app.problemsDir with
  | none => rfl
  | some entries =>
    simp only [FileTree.resolve_write, FileTree.dirAt_write, List.map_filterMap]
    refine List.filterMap_congr fun id _ => ?_
    rw [← hfs, loadOne_withStatement hs hb, toOption_map]

/-! ## The pages with another statement -/

theorem withStatement_problemsDir : (app.withStatement loc bytes).problemsDir = app.problemsDir := rfl

theorem withStatement_langVersions :
    (app.withStatement loc bytes).langVersions = app.langVersions := rfl

theorem problemScore_withStatement (hs : app.StatementAt loc)
    (hb : Utf8.decodeStrict bytes = some cs) :
    problemScore ext (app.withStatement loc bytes) = problemScore ext app := by
  funext id
  simp only [problemScore, withStatement_problemsDir, loadOne_withStatement hs hb, toOption_map,
    Option.map_map, Function.comp_def, reword_score]

theorem exactRow_withStatement (hs : app.StatementAt loc)
    (hb : Utf8.decodeStrict bytes = some cs) :
    exactRow ext (app.withStatement loc bytes) = exactRow ext app := by
  funext contest cpList ud
  simp only [exactRow, problemScore_withStatement hs hb]

theorem contestStandings_withStatement (hs : app.StatementAt loc)
    (hb : Utf8.decodeStrict bytes = some cs) :
    contestStandings ext (app.withStatement loc bytes) = contestStandings ext app := by
  funext db order session now contestId page
  simp only [contestStandings, standingRows, rawRows, exactRow_withStatement hs hb, problemHeaders,
    withStatement_problemsDir, loadOne_withStatement hs hb, toOption_map, Option.map_map,
    Function.comp_def, reword_title, reword_score]

theorem contestSubmissionDetail_withStatement (hs : app.StatementAt loc)
    (hb : Utf8.decodeStrict bytes = some cs) :
    contestSubmissionDetail ext (app.withStatement loc bytes) = contestSubmissionDetail ext app := by
  funext db session now₁ now₂ contestId id
  simp only [contestSubmissionDetail, withStatement_problemsDir, withStatement_langVersions,
    loadOne_withStatement hs hb, toOption_map, Option.map_map, Function.comp_def, reword_title,
    reword_score]

theorem submissionsDetail_withStatement (hs : app.StatementAt loc)
    (hb : Utf8.decodeStrict bytes = some cs) :
    submissionsDetail ext (app.withStatement loc bytes) = submissionsDetail ext app := by
  funext db session id
  simp only [submissionsDetail, withStatement_problemsDir, withStatement_langVersions,
    loadOne_withStatement hs hb, toOption_map, Option.map_map, Function.comp_def, reword_title,
    reword_score]

theorem submissionListItem_withStatement :
    submissionListItem ext (app.withStatement loc bytes) = submissionListItem ext app := rfl

theorem submissionsIndex_withStatement (hs : app.StatementAt loc)
    (hb : Utf8.decodeStrict bytes = some cs) :
    submissionsIndex ext (app.withStatement loc bytes) = submissionsIndex ext app := by
  funext db session
  simp only [submissionsIndex, withStatement_problemsDir, loadAll_withStatement hs hb,
    List.find?_map, Option.map_map, Function.comp_def, reword_id, reword_title,
    submissionListItem_withStatement]

theorem contestSubmissionItems_withStatement (hs : app.StatementAt loc)
    (hb : Utf8.decodeStrict bytes = some cs) :
    contestSubmissionItems ext (app.withStatement loc bytes) = contestSubmissionItems ext app := by
  funext db contestId rows
  simp only [contestSubmissionItems, withStatement_problemsDir, loadAll_withStatement hs hb,
    List.map_map, Function.comp_def, reword_id, reword_title, submissionListItem_withStatement]

theorem contestProblemsIndex_withStatement (hs : app.StatementAt loc)
    (hb : Utf8.decodeStrict bytes = some cs) :
    contestProblemsIndex ext (app.withStatement loc bytes) = contestProblemsIndex ext app := by
  funext db session now contestId
  simp only [contestProblemsIndex, withStatement_problemsDir, loadOne_withStatement hs hb,
    toOption_map, Option.map_map, Function.comp_def, reword_id, reword_title, reword_score,
    reword_timeLimitMs, reword_memoryLimitKb]

theorem problemsIndex_withStatement (hs : app.StatementAt loc)
    (hb : Utf8.decodeStrict bytes = some cs) :
    problemsIndex ext (app.withStatement loc bytes) = problemsIndex ext app := by
  funext db session
  simp only [problemsIndex, withStatement_problemsDir, loadAll_withStatement hs hb, List.map_map,
    Function.comp_def, reword_id, reword_title, reword_score, reword_timeLimitMs,
    reword_memoryLimitKb]

/-- A submit request comes to the same whatever the statement is. -/
theorem check_withStatement (hs : app.StatementAt loc) (hb : Utf8.decodeStrict bytes = some cs)
    (route : SubmitRoute) (db : Db) (session : SessionRecord) (now₁ now₂ : Time) (id : Uuid) :
    route.check ext (app.withStatement loc bytes) db session now₁ now₂ id =
      route.check ext app db session now₁ now₂ id := by
  cases route with
  | contestProblem contestId problemId form =>
    simp only [SubmitRoute.check, contestProblemSubmit, withStatement_problemsDir,
      loadOne_withStatement hs hb]
    cases (loadOne ext app.fs app.problemsDir problemId).result with
    | error e => rfl
    | ok prob =>
      simp only [Except.map, Problem.job, reword_testcases, reword_timeLimitMs,
        reword_memoryLimitKb, reword_scorerPath]
  | problem problemId form =>
    simp only [SubmitRoute.check, problemsSubmit, withStatement_problemsDir,
      loadOne_withStatement hs hb]
    cases (loadOne ext app.fs app.problemsDir problemId).result with
    | error e => rfl
    | ok prob =>
      simp only [Except.map, Problem.job, reword_testcases, reword_timeLimitMs,
        reword_memoryLimitKb]
  | api req => rfl

end

end MikanJudge

import MikanJudge.Model.ProgramServer
import MikanJudge.Proof.Progress

/-!
# The steps of the server with `judge` as a program

What each step can do (`ProgramStep`). A step that no worker takes is the same with
any workers (`step_withWorkers`).
-/

namespace MikanJudge

open MikanJudge.Lib Program

inductive ProgramStep (cfg : Config) (s : ProgramServer) : ProgramAction → ProgramServer → Prop
  | server {a : Action} {t : Server} : a ≠ .restart → (s.withWorkers []).step cfg a = some t →
    ProgramStep cfg s (.server a) (s.become t)
  | restart : ProgramStep cfg s (.server .restart) (.boot cfg s.clock s.db s.sessions)
  | lock {w : Nat} : s.workers[w]? = some .idle → .receiving ∉ s.workers →
    ProgramStep cfg s (.lock w) (s.setWorker w .receiving)
  | recv {w : Nat} {job : JudgeJob} {jobs : List JudgeJob} : s.workers[w]? = some .receiving →
    s.channel = job :: jobs → ProgramStep cfg s (.recv w)
      { s.setWorker w (.judging job (judgeProgram cfg.ext job)) with channel := jobs }
  | request {w : Nat} {job : JudgeJob} {e : JudgeRequest} {k : e.Reply → JudgeProgram Ending}
    {answer : Replies} {connected : Bool} : s.workers[w]? = some (.judging job (.request e k)) →
    ProgramStep cfg s (.request w answer connected)
      ((s.perform cfg job.id connected e).setWorker w (.judging job (k (answer e))))
  | returned {w : Nat} {job : JudgeJob} : s.workers[w]? = some (.judging job (.pure .returned)) →
    ProgramStep cfg s (.returned w) (s.setWorker w .idle)

section

variable {cfg : Config} {s t : ProgramServer} {a : ProgramAction}

theorem programStep_cases (h : s.step cfg a = some t) : ProgramStep cfg s a t := by
  have hworker : ∀ {w : Nat}, ((s.workers[w]?).bind fun worker => s.stepWorker cfg w worker a) = some t →
      ∃ worker, s.workers[w]? = some worker ∧ s.stepWorker cfg w worker a = some t :=
    fun h => Option.bind_eq_some_iff.mp h
  cases a with
  | server a =>
    by_cases ha : a = .restart
    · subst ha
      cases h
      exact .restart
    · have hs : s.step cfg (.server a) = ((s.withWorkers []).step cfg a).map s.become := by
        cases a <;> first | rfl | exact absurd rfl ha
      obtain ⟨t', ht, rfl⟩ := Option.map_eq_some_iff.mp (hs.symm.trans h)
      exact .server ha ht
  | lock w =>
    obtain ⟨worker, hw, h⟩ := hworker h
    cases worker with
    | idle =>
      simp only [ProgramServer.stepWorker] at h
      split at h <;> cases h
      rename_i hany
      refine .lock hw fun hmem => hany (List.any_eq_true.mpr ⟨_, hmem, rfl⟩)
    | receiving | judging job left => simp only [ProgramServer.stepWorker, reduceCtorEq] at h
  | recv w =>
    obtain ⟨worker, hw, h⟩ := hworker h
    cases worker with
    | receiving =>
      cases hc : s.channel with
      | nil => simp only [ProgramServer.stepWorker, hc, reduceCtorEq] at h
      | cons job jobs =>
        simp only [ProgramServer.stepWorker, hc, Option.some.injEq] at h
        subst h
        exact .recv hw hc
    | idle | judging job left => simp only [ProgramServer.stepWorker, reduceCtorEq] at h
  | request w answer connected =>
    obtain ⟨worker, hw, h⟩ := hworker h
    cases worker with
    | judging job left =>
      cases left with
      | pure ending => simp only [ProgramServer.stepWorker, reduceCtorEq] at h
      | request e k =>
        simp only [ProgramServer.stepWorker, Option.some.injEq] at h
        subst h
        exact .request hw
    | idle | receiving => simp only [ProgramServer.stepWorker, reduceCtorEq] at h
  | returned w =>
    obtain ⟨worker, hw, h⟩ := hworker h
    cases worker with
    | judging job left =>
      cases left with
      | pure ending =>
        cases ending with
        | returned =>
          simp only [ProgramServer.stepWorker, Option.some.injEq] at h
          subst h
          exact .returned hw
        | panicked => simp only [ProgramServer.stepWorker, reduceCtorEq] at h
      | request e k => simp only [ProgramServer.stepWorker, reduceCtorEq] at h
    | idle | receiving => simp only [ProgramServer.stepWorker, reduceCtorEq] at h

/-- Each of these is a step. -/
theorem step_of_requestStep {s t : Server} {i : Nat} {q : Request} {a : Action}
    (hq : s.requests[i]? = some q) (h : RequestStep cfg s i q a t) : s.step cfg a = some t := by
  have hstep : ∀ {t'}, s.stepRequest cfg i q a = some t' →
      ((s.requests[i]?).bind fun q => s.stepRequest cfg i q a) = some t' := by
    intro t' h
    rw [hq, Option.bind_some, h]
  cases h with
  | refuse hs hc => exact hstep (by simp only [Server.stepRequest, hs, hc])
  | check hs hc => exact hstep (by simp only [Server.stepRequest, hs, hc])
  | @insertFail task connected hs hi =>
    refine hstep ?_
    cases connected with
    | false => simp only [Server.stepRequest, hs, Bool.false_eq_true, if_false]
    | true =>
      cases hdb : s.db.insertSubmission task.sub s.clock with
      | error e => simp only [Server.stepRequest, hs, hdb, if_true]
      | ok db =>
        rw [hdb] at hi
        cases hi
  | insert hs hi => exact hstep (by simp only [Server.stepRequest, hs, hi, if_true])
  | record hs hkey => exact hstep (by simp only [Server.stepRequest, hs, hkey])
  | send hs hlen =>
    refine hstep ?_
    rcases hs with ⟨hs, hkey⟩ | hs
    · simp only [Server.stepRequest, hs, hkey, hlen, and_self, if_true]
    · simp only [Server.stepRequest, hs, hlen, if_true]
  | respond hs => exact hstep (by simp only [Server.stepRequest, hs])
  | cancel =>
    refine hstep ?_
    unfold Server.stepRequest
    cases q.stage <;> rfl

theorem RequestStep.withWorkers {i : Nat} {q : Request} {a : Action} {t : Server}
    {workers : List Worker} (h : RequestStep cfg (s.withWorkers workers) i q a t)
    (workers' : List Worker) :
    RequestStep cfg (s.withWorkers workers') i q a ((s.become t).withWorkers workers') := by
  cases h with
  | refuse hs hc => exact .refuse hs hc
  | check hs hc => exact .check hs hc
  | insertFail hs hi => exact .insertFail hs hi
  | insert hs hi => exact .insert hs hi
  | record hs hkey => exact .record hs hkey
  | send hs hlen => exact .send hs hlen
  | respond hs => exact .respond hs
  | cancel => exact .cancel

/-- A step that no worker takes does not look at the workers. -/
theorem step_withWorkers {a : Action} {t : Server} {workers : List Worker} (hworks : a.works = false)
    (ha : a ≠ .restart) (h : (s.withWorkers workers).step cfg a = some t) (workers' : List Worker) :
    (s.withWorkers workers').step cfg a = some ((s.become t).withWorkers workers') := by
  cases step_cases h with
  | tick hle => exact if_pos hle
  | arrive | account => rfl
  | request hq hr => exact step_of_requestStep hq (hr.withWorkers workers')
  | worker _ hw => cases hw <;> cases hworks
  | restart => exact absurd rfl ha

/-- Without workers, no step is one of a worker. -/
theorem not_works_of_step {a : Action} {t : Server} (h : (s.withWorkers []).step cfg a = some t) :
    a.works = false := by
  cases step_cases h with
  | tick | arrive | account | restart => rfl
  | request _ hr => cases hr <;> rfl
  | worker hw => cases hw

end

end MikanJudge

import MikanJudge.Proof.Ledger
import MikanJudge.Proof.Progress
import Mathlib.Data.List.DropRight

/-!
# The job channel

Since the last start of the process, the jobs the workers have taken and those
still in the channel are the jobs sent, in order (`channel_fifo`): none is lost,
taken twice or overtaken there. The channel never holds more than its capacity,
and at most one worker waits at the receiver.
-/

namespace MikanJudge

open MikanJudge.Lib

def Action.restarts : Action → Bool
  | .restart => true
  | _ => false

namespace Server

/-- The job an action sends. -/
def sends (s : Server) : Action → Option JudgeJob
  | .send i => (s.requests[i]?).bind fun q =>
    match q.stage with
    | .inserted task | .recorded task => some task.job
    | _ => none
  | _ => none

/-- The job an action takes out of the channel. -/
def takes (s : Server) : Action → Option JudgeJob
  | .recv _ => s.channel.head?
  | _ => none

end Server

/-- A worker that waits for a job, with the lock of the receiver. -/
def Worker.isReceiving : Worker → Bool
  | .receiving => true
  | _ => false

/-- The steps of a run since the process was last started. -/
def sinceRestart (tr : List (Server × Action)) : List (Server × Action) :=
  tr.rtakeWhile fun e => !e.2.restarts

def sentJobs (tr : List (Server × Action)) : List JudgeJob :=
  (sinceRestart tr).filterMap fun e => e.1.sends e.2

def receivedJobs (tr : List (Server × Action)) : List JudgeJob :=
  (sinceRestart tr).filterMap fun e => e.1.takes e.2

section

variable {cfg : Config} {s t : Server} {a : Action} {tr : List (Server × Action)}

theorem sentJobs_snoc (h : a.restarts = false) :
    sentJobs (tr ++ [(s, a)]) = sentJobs tr ++ (s.sends a).toList := by
  rw [sentJobs, sinceRestart, List.rtakeWhile_concat, if_pos (by rw [h]; rfl), filterMap_snoc]
  rfl

theorem receivedJobs_snoc (h : a.restarts = false) :
    receivedJobs (tr ++ [(s, a)]) = receivedJobs tr ++ (s.takes a).toList := by
  rw [receivedJobs, sinceRestart, List.rtakeWhile_concat, if_pos (by rw [h]; rfl), filterMap_snoc]
  rfl

theorem sinceRestart_restart : sinceRestart (tr ++ [(s, .restart)]) = [] := by
  rw [sinceRestart, List.rtakeWhile_concat, if_neg (by simp [Action.restarts])]

/-- What a step does to the channel: what it sends comes in at its end, what it
takes goes out at its beginning. -/
theorem channel_of_step (h : ServerStep cfg s a t) (ha : a.restarts = false) :
    s.channel ++ (s.sends a).toList = (s.takes a).toList ++ t.channel := by
  have hsame : s.sends a = none → s.takes a = none → t.channel = s.channel →
      s.channel ++ (s.sends a).toList = (s.takes a).toList ++ t.channel := by
    intro h₁ h₂ h₃
    rw [h₁, h₂, h₃, Option.toList_none, List.append_nil, List.nil_append]
  cases h with
  | tick | arrive | account => exact hsame rfl rfl rfl
  | restart => cases ha
  | request hq h =>
    cases h with
    | refuse | check | insertFail | insert | record | respond | cancel => exact hsame rfl rfl rfl
    | send hs _ =>
      rcases hs with ⟨hs, -⟩ | hs <;> simp only [Server.sends, hq, Option.bind_some, hs] <;> rfl
  | worker _ h =>
    cases h with
    | lock | event => exact hsame rfl rfl rfl
    | start | finish => exact hsame rfl rfl (by rw [Server.setWorker, channel_writeRow])
    | recv hc =>
      simp only [Server.sends, Server.takes, hc, List.head?_cons, Option.toList_some,
        Option.toList_none, List.append_nil]
      rfl

/-- The channel grows only where there is room. -/
theorem length_channel_of_step (h : ServerStep cfg s a t) (hlen : s.channel.length ≤ channelCapacity) :
    t.channel.length ≤ channelCapacity := by
  cases h with
  | tick | arrive | account => exact hlen
  | restart => exact Nat.zero_le _
  | request _ h =>
    cases h with
    | refuse | check | insertFail | insert | record | respond | cancel => exact hlen
    | send _ hroom =>
      rw [List.length_append, List.length_singleton]
      exact hroom
  | worker _ h =>
    cases h with
    | lock | event => exact hlen
    | start | finish =>
      rw [Server.setWorker, channel_writeRow]
      exact hlen
    | recv hc =>
      rw [hc, List.length_cons] at hlen
      exact Nat.le_of_succ_le hlen

/-- A worker takes the lock only where none waits. -/
theorem lock_free {w : Nat} (h : s.step cfg (.lock w) = some t) :
    s.workers.countP Worker.isReceiving = 0 := by
  obtain ⟨worker, hw, h⟩ := Option.bind_eq_some_iff.mp h
  cases worker with
  | idle =>
    simp only [Server.stepWorker] at h
    split at h
    · cases h
    · rename_i hany
      refine List.countP_eq_zero.mpr fun worker hmem hr => hany ?_
      cases worker with
      | receiving => exact List.any_eq_true.mpr ⟨_, hmem, rfl⟩
      | idle | judging => cases hr
  | receiving | judging => simp only [Server.stepWorker, reduceCtorEq] at h

/-- At most one more worker waits, and none more if the new one does not. -/
theorem countP_set_le {p : Worker → Bool} (workers : List Worker) (w : Nat) (worker : Worker) :
    (workers.set w worker).countP p ≤ workers.countP p + if p worker then 1 else 0 := by
  by_cases hlt : w < workers.length
  · rw [List.countP_set hlt]
    omega
  · rw [List.set_eq_of_length_le (by omega)]
    omega

theorem receivers_of_step (h : s.step cfg a = some t) (hone : s.workers.countP Worker.isReceiving ≤ 1) :
    t.workers.countP Worker.isReceiving ≤ 1 := by
  have hset : ∀ w worker, worker.isReceiving = false →
      (s.workers.set w worker).countP Worker.isReceiving ≤ 1 := by
    intro w worker hr
    have hle := countP_set_le (p := Worker.isReceiving) s.workers w worker
    rw [hr] at hle
    exact hle.trans hone
  cases step_cases h with
  | tick | arrive | account => exact hone
  | restart => simp [Server.boot, List.countP_replicate, Worker.isReceiving]
  | request _ h => cases h <;> exact hone
  | @worker w worker a t _ hv =>
    cases hv with
    | lock =>
      have hle := countP_set_le (p := Worker.isReceiving) s.workers w .receiving
      rw [lock_free h] at hle
      exact hle
    | recv | event => exact hset _ _ rfl
    | start | finish =>
      rw [Server.setWorker, workers_writeRow]
      exact hset _ _ rfl

end

/-- Over any run: since the process was last started, the jobs sent are those the
workers have received and then those in the channel, in order; the channel holds
no more than its capacity; and at most one worker waits at the receiver. -/
theorem channel_fifo (cfg : Config) {s t : Server} {tr : List (Server × Action)}
    (hs : (Server.system cfg).init s) (h : (Server.system cfg).Run s tr t) :
    sentJobs tr = receivedJobs tr ++ t.channel ∧ t.channel.length ≤ channelCapacity ∧
      t.workers.countP Worker.isReceiving ≤ 1 := by
  refine h.history (I := fun tr t => sentJobs tr = receivedJobs tr ++ t.channel ∧
    t.channel.length ≤ channelCapacity ∧ t.workers.countP Worker.isReceiving ≤ 1) ?_ ?_
  · obtain ⟨clock, db, sessions, rfl⟩ := hs
    exact ⟨rfl, Nat.zero_le _, by simp [Server.boot, List.countP_replicate, Worker.isReceiving]⟩
  · rintro tr t a u ⟨hsent, hlen, hone⟩ hst
    refine ⟨?_, length_channel_of_step (step_cases hst) hlen, receivers_of_step hst hone⟩
    cases ha : a.restarts with
    | true =>
      obtain rfl : a = .restart := by cases a <;> first | rfl | cases ha
      cases hst
      rw [sentJobs, receivedJobs, sinceRestart_restart]
      rfl
    | false =>
      rw [sentJobs_snoc ha, receivedJobs_snoc ha, hsent, List.append_assoc, List.append_assoc,
        channel_of_step (step_cases hst) ha]

/-! ### A job that is taken -/

theorem channel_fifo_taken :
    sentJobs (Server.traceOf smallConfig (.boot smallConfig 0 emptyDb []) uncompiledActions) =
      receivedJobs (Server.traceOf smallConfig (.boot smallConfig 0 emptyDb []) uncompiledActions) ++
        (Server.lastOf smallConfig (.boot smallConfig 0 emptyDb []) uncompiledActions).channel :=
  (channel_fifo smallConfig ⟨0, emptyDb, [], rfl⟩
    (Server.run_traceOf smallConfig (.boot smallConfig 0 emptyDb []) uncompiledActions (by rfl))).1

end MikanJudge

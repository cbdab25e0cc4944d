import MikanJudge.Proof.Jobs

/-!
# What becomes of a submission

The job of a pending or running submission is in the process: with a request
that has still to send it, in the channel, or with a worker. Nothing brings a
job back that was lost from there (`Server.Loses`): the queue is only in
memory, and nothing reads the table when the process starts.
-/

namespace MikanJudge

open MikanJudge.Lib WorkQueue

/-- A step loses the job of a submission: the process restarts, its request is
cancelled between insert and send, or the last write of its judging fails. -/
def Server.Loses (cfg : Config) (s : Server) (a : Action) (id : Uuid) : Prop :=
  (a = .restart ∧ id ∈ s.inFlight) ∨
  (∃ i q, a = .cancel i ∧ s.requests[i]? = some q ∧ q.unsent = some id) ∨
  ∃ w connected job u, a = .write w connected ∧
    s.workers[w]? = some (.judging job (.finish u)) ∧ job.id = id ∧
    (connected && u.val.textsOk cfg.ext) = false

section

variable {cfg : Config} {s t : Server} {a : Action}

/-- The steps whose label loses an item are those that lose its job. -/
theorem loses_of_label {l : Label Uuid FinalStatus} (h : s.label cfg a = some l) {id : Uuid}
    (hid : id ∈ l.lost) : s.Loses cfg a id := by
  cases a with
  | insert i connected =>
    obtain ⟨q, hq, h⟩ := Option.bind_eq_some_iff.mp h
    split at h
    · split_ifs at h
      cases h
      cases hid
    · cases h
  | recv w =>
    simp only [Server.label] at h
    split at h <;> cases h
    cases hid
  | write w connected =>
    simp only [Server.label] at h
    split at h <;> cases h
    · cases hid
    · rename_i job u hw
      -- no result is a write that failed
      split_ifs at hid with hok
      · cases hid
      · exact .inr (.inr ⟨w, connected, job, u, rfl, hw, (List.mem_singleton.mp hid).symm,
          Bool.eq_false_of_not_eq_true hok⟩)
  | cancel i =>
    obtain ⟨q, hq, h⟩ := Option.bind_eq_some_iff.mp h
    obtain ⟨id', hu, rfl⟩ := Option.map_eq_some_iff.mp h
    rw [Label.lost, List.mem_singleton] at hid
    exact .inr (.inl ⟨i, q, rfl, hq, hid ▸ hu⟩)
  | restart =>
    cases h
    exact .inl ⟨rfl, hid⟩
  | _ => cases h

/-- The submissions of a state that are not judged are in the process, or
accounted for by `gone`. -/
def Conserved (gone : Uuid → Prop) (s : Server) : Prop :=
  ∀ r ∈ s.db.submissions, r.Unfinished → r.id ∈ s.queue.places ∨ gone r.id

/-- A step keeps that, up to what it loses itself. -/
theorem Conserved.step {gone : Uuid → Prop} (hc : Conserved gone s) (h : s.step cfg a = some t) :
    Conserved (fun id => gone id ∨ s.Loses cfg a id) t := by
  have heff := step_effect h
  generalize hl : s.label cfg a = l at heff
  have hp := heff.places_add
  have hsame := heff.places_eq
  -- a row that was there before, in a step that moves no job out of the process
  have keep : ∀ {r : SubmissionRow} {id : Uuid}, r ∈ s.db.submissions → r.Unfinished → id = r.id →
      s.queue.places ≤ t.queue.places → id ∈ t.queue.places ∨ gone id ∨ s.Loses cfg a id := by
    rintro r id hr hu rfl hp
    exact (hc r hr hu).imp (Multiset.mem_of_le hp) .inl
  intro r hr hu
  cases heff with
  | @quiet f hrows hf hw hv =>
    rw [hrows] at hr
    obtain ⟨r₀, hr₀, rfl⟩ := List.mem_map.mp hr
    have hu₀ : r₀.Unfinished := by
      rcases hf r₀ with e | e <;> rw [e] at hu <;> exact hu
    exact keep hr₀ hu₀ (hf r₀).id_eq (hsame rfl rfl).ge
  | @create task hid hrows hw hv =>
    change t.queue.places + 0 = s.queue.places + {task.sub.id} at hp
    rw [add_zero] at hp
    rw [hrows, List.mem_append, List.mem_singleton] at hr
    rcases hr with hr | rfl
    · exact keep hr hu rfl (hp ▸ Multiset.le_add_right _ _)
    · exact .inl (hp ▸ Multiset.mem_add.mpr (.inr (Multiset.mem_singleton_self _)))
  | @take id hrows hw hv =>
    exact keep (hrows ▸ hr) hu rfl (hsame rfl rfl).ge
  | @start id connected rest hrows hw hv hv' =>
    have hplaces := hsame rfl rfl
    rw [hrows] at hr
    split_ifs at hr
    · obtain ⟨r₀, hr₀, rfl⟩ := mem_updateWhere.mp hr
      split_ifs at hu ⊢ with h₀
      · -- the submission a worker has just begun to judge
        refine .inl (hplaces ▸ mem_places.mpr (.inr ⟨false, hv ▸ ?_⟩))
        exact h₀ ▸ Multiset.mem_cons_self _ _
      · exact keep hr₀ hu rfl hplaces.ge
    · exact keep hr hu rfl hplaces.ge
  | @finish id u ok hrows hw hv =>
    change t.queue.places + {id} = s.queue.places + 0 at hp
    rw [add_zero] at hp
    -- another submission stays where it is
    have other : ∀ {r₀ : SubmissionRow}, r₀ ∈ s.db.submissions → r₀.Unfinished → r₀.id ≠ id →
        r₀.id ∈ t.queue.places ∨ gone r₀.id ∨ s.Loses cfg a r₀.id := fun hr₀ hu₀ hne => by
      refine (hc _ hr₀ hu₀).imp (fun hid => ?_) .inl
      rw [← hp, Multiset.mem_add, Multiset.mem_singleton] at hid
      exact hid.resolve_right hne
    rw [hrows] at hr
    split_ifs at hr hl with hok
    · obtain ⟨r₀, hr₀, rfl⟩ := mem_updateWhere.mp hr
      split_ifs at hu ⊢ with h₀
      · exact absurd hu (FinalUpdate.not_unfinished_apply u r₀)
      · exact other hr₀ hu h₀
    · by_cases h₀ : r.id = id
      · exact .inr (.inr (h₀ ▸ loses_of_label hl List.mem_cons_self))
      · exact other hr hu h₀
  | @drop items hrows hw hv hp' =>
    rw [hrows] at hr
    rcases hc r hr hu with hid | hg
    · rw [hp', Multiset.mem_add, Multiset.mem_coe] at hid
      exact hid.imp_right fun hid => .inr (loses_of_label hl hid)
    · exact .inr (.inl hg)

/-- In every state a run of the server reaches, the job of each pending or
running submission is in the process, unless its row was there before the run
or a step of the run lost it. -/
theorem unfinished_inFlight (cfg : Config) {s t : Server} {tr : List (Server × Action)}
    (h : (Server.system cfg).Run s tr t) :
    ∀ r ∈ t.db.submissions, r.Unfinished → r.id ∈ t.inFlight ∨
      r.id ∈ s.db.submissions.map (·.id) ∨ ∃ e ∈ tr, e.1.Loses cfg e.2 r.id := by
  have hc := h.history (I := fun tr t => Conserved (fun id =>
    id ∈ s.db.submissions.map (·.id) ∨ ∃ e ∈ tr, e.1.Loses cfg e.2 id) t) ?_ ?_
  · intro r hr hu
    rw [← Multiset.mem_coe, Server.coe_inFlight]
    exact hc r hr hu
  · exact fun r hr _ => .inr (.inl (List.mem_map.mpr ⟨r, hr, rfl⟩))
  · intro tr t a u hc hst r hr hu
    refine (hc.step hst r hr hu).imp_right fun h => ?_
    rcases h with (h | ⟨e, he, hl⟩) | hl
    · exact .inl h
    · exact .inr ⟨e, List.mem_append_left _ he, hl⟩
    · exact .inr ⟨(t, a), List.mem_append_right _ List.mem_cons_self, hl⟩

end

/-! ### A restart -/

theorem unfinished_inFlight_small :
    ∃ r ∈ (Server.lastOf smallConfig (.boot smallConfig 0 emptyDb []) apiSubmitActions).db.submissions,
      r.Unfinished ∧ (r.id ∈
          (Server.lastOf smallConfig (.boot smallConfig 0 emptyDb []) apiSubmitActions).inFlight ∨
        r.id ∈ (Server.boot smallConfig 0 emptyDb []).db.submissions.map (·.id) ∨
        ∃ e ∈ Server.traceOf smallConfig (.boot smallConfig 0 emptyDb []) apiSubmitActions,
          e.1.Loses smallConfig e.2 r.id) := by
  have hrow : ∃ r ∈ (Server.lastOf smallConfig (.boot smallConfig 0 emptyDb [])
      apiSubmitActions).db.submissions, r.Unfinished := by decide
  obtain ⟨r, hr, hu⟩ := hrow
  exact ⟨r, hr, hu, unfinished_inFlight smallConfig (Server.run_traceOf _ _ _ (by rfl)) r hr hu⟩

/-- After a restart the submission is pending, and no one has its job. -/
theorem unfinished_inFlight_fails :
    (Server.system smallConfig).Run (.boot smallConfig 0 emptyDb [])
      (Server.traceOf smallConfig (.boot smallConfig 0 emptyDb []) (apiSubmitActions ++ [.restart]))
      (Server.lastOf smallConfig (.boot smallConfig 0 emptyDb []) (apiSubmitActions ++ [.restart])) ∧
    ∃ r ∈ (Server.lastOf smallConfig (.boot smallConfig 0 emptyDb [])
        (apiSubmitActions ++ [.restart])).db.submissions,
      r.Unfinished ∧ r.id ∉ (Server.lastOf smallConfig (.boot smallConfig 0 emptyDb [])
        (apiSubmitActions ++ [.restart])).inFlight :=
  ⟨Server.run_traceOf _ _ _ (by rfl), by decide⟩

end MikanJudge

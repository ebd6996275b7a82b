import Sqi.Invariant.Gating

/-! The three levels of a job without upstream jobs. -/

namespace Sqi
open List Table Transition

def NoUpstreams (db : DB) (jobID : ID) : Prop := ∀ e ∈ db.jobDependencies, e.jobID ≠ jobID

variable {db : DB} {s : StepStatus} {j : JobStatus} {h : History} {jobID : ID}

lemma NoUpstreams.of_edges {db' : DB} (h : db'.jobDependencies = db.jobDependencies)
    (hn : NoUpstreams db' jobID) : NoUpstreams db jobID := fun e he => hn e (h ▸ he)

def Lat : StepStatus → TaskStatus → Prop
  | .pending, t => t = .pending ∨ t.IsTerminal
  | .ready, t => t ≠ .pending
  | .running, _ => False
  | .completed, t => t = .succeeded
  | .failed, t => t.IsTerminal
  | .canceled, t => t.IsTerminal

def JobLat (j : JobStatus) (s : StepStatus) : Prop :=
  (j.IsTerminal → s.IsTerminal) ∧ (j = .completed → s = .completed)

structure LatticeInv (db : DB) : Prop where
  step_task : ∀ s ∈ db.steps, NoUpstreams db s.jobID → ∀ t ∈ db.tasks, t.stepID = s.id → Lat s.status t.status
  job_step : ∀ j ∈ db.jobs, NoUpstreams db j.id → ∀ s ∈ db.steps, s.jobID = j.id → JobLat j.status s.status
  not_blocked : ∀ j ∈ db.jobs, NoUpstreams db j.id → j.status ≠ .blocked

lemma Lat.moves {a b : TaskStatus} (h : Lat s a) (hm : a.Moves b) : Lat s b := by
  cases s <;> cases a <;> cases b <;>
    simp_all [Lat, TaskStatus.Moves, TaskStatus.IsTerminal, TaskStatus.InFlight]

lemma Lat.isTerminal {t : TaskStatus} (h : Lat s t) (hs : s.IsTerminal) : t.IsTerminal := by
  rcases hs with rfl | rfl | rfl
  · exact .inl h
  · exact h
  · exact h

lemma JobLat.of_open (hj : ¬ j.IsTerminal) (s : StepStatus) : JobLat j s :=
  ⟨fun h => absurd h hj, fun h => absurd (.inl h) hj⟩
lemma JobLat.not_terminal (h : JobLat j s) (hs : ¬ s.IsTerminal) : ¬ j.IsTerminal := fun hj => hs (h.1 hj)

lemma stepOutcome_lat {stepID : ID} (hclosed : stepHasNoOpenTask db stepID) {t : Task}
    (ht : t ∈ db.tasks) (e : t.stepID = stepID) : Lat (stepOutcome db stepID) t.status := by
  have hterm := hclosed t ht e
  unfold stepOutcome
  split_ifs with hf hc
  · exact hterm
  · exact hterm
  rcases hterm with h | h | h
  · exact h
  · exact absurd ⟨t, ht, e, h⟩ hf
  · exact absurd ⟨t, ht, e, h⟩ hc

lemma cancelStepOutcome_isTerminal (db : DB) (s : Step) : (cancelStepOutcome db s).IsTerminal := by
  unfold cancelStepOutcome
  split_ifs
  · simp [StepStatus.IsTerminal]
  · simp [StepStatus.IsTerminal]
  · exact stepOutcome_isTerminal db s.id

lemma jobOutcome_jobLat (hclosed : jobHasNoOpenStep db jobID) {s : Step}
    (hs : s ∈ db.steps) (e : s.jobID = jobID) : JobLat (jobOutcome db jobID) s.status := by
  have hterm := hclosed s hs e
  refine ⟨fun _ => hterm, fun hc => ?_⟩
  unfold jobOutcome at hc
  split_ifs at hc with hf hcan
  rcases hterm with h | h | h
  · exact h
  · exact absurd ⟨s, hs, e, h⟩ hf
  · exact absurd ⟨s, hs, e, h⟩ hcan

section
variable {db : DB} {s : Step}

lemma revived_of_not_released (wf : WF db) (hs : s ∈ db.steps)
    (h : ¬ s.status.Released) : revivedStatus db s.id = .pending := by
  refine if_neg ?_
  rintro ⟨s', hs', e, hr⟩
  exact h (wf.steps_keyed.eq_of_mem hs' hs e ▸ hr)

lemma cancelJobTasks_closed (wf : WF db) (reason : String) (jobID : ID) : ∀ s ∈ db.steps, s.jobID = jobID →
      stepHasNoOpenTask (sqlCancelJobTasks reason jobID db) s.id := by
  refine fun s hs e => forall_update (fun _ _ _ _ => .inr (.inr rfl)) fun t ht hq et => ?_
  by_contra hopen
  exact hq ⟨(wf.task_jobID ht hs et).trans e, hopen⟩

lemma cancelExecution_steps (wf : WF db) {jobID : ID} {reason : String} {now : Time} :
    (cancelJobExecution jobID reason now db).2.steps = update (fun s => s.jobID = jobID ∧ ¬ s.status.IsTerminal)
        (fun s => { s with status := cancelStepOutcome (sqlCancelJobTasks reason jobID db) s })
        db.steps :=
  update_congr fun s hs => ⟨fun h => ⟨h.1, h.2.1⟩, fun h => ⟨h.1, h.2, cancelJobTasks_closed wf reason jobID s hs h.1⟩⟩

end
namespace LatticeInv
variable {db db' : DB}

/-! ## One lemma for each way the levels change -/

section
variable (inv : LatticeInv db)
include inv

lemma levels (h : Levels db db') : LatticeInv db' := by
  have up : ∀ jobID, NoUpstreams db' jobID → NoUpstreams db jobID := fun _ => .of_edges h.edges
  constructor
  · intro s hs hn t' ht' e
    rw [h.steps] at hs
    obtain ⟨t, ht, hk, hm⟩ := of_mem_right h.tasks ht'
    simp only [Task.key, Prod.mk.injEq] at hk
    exact (inv.step_task s hs (up _ hn) t ht (by rw [← hk.2.2, e])).moves hm
  · intro j' hj' hn s hs e
    rw [h.steps] at hs
    obtain ⟨j, hj, hid, hst⟩ := of_mem_right h.jobs hj'
    rw [hst]
    exact inv.job_step j hj (hid ▸ up _ hn) s hs (e.trans hid)
  · intro j' hj' hn
    obtain ⟨j, hj, hid, hst⟩ := of_mem_right h.jobs hj'
    rw [hst]
    exact inv.not_blocked j hj (hid ▸ up _ hn)

lemma jobRows (h : JobRows db db') : LatticeInv db' := by
  have up : ∀ jobID, NoUpstreams db' jobID → NoUpstreams db jobID := fun _ => .of_edges h.edges
  constructor
  · intro s hs hn t ht e
    rw [h.steps] at hs
    rw [h.tasks] at ht
    exact inv.step_task s hs (up _ hn) t ht e
  · intro j' hj' hn s hs e
    rw [h.steps] at hs
    obtain ⟨j, hj, hid, _, hst⟩ := of_mem_right h.jobs hj'
    rcases hst with hst | ⟨_, hopen, _⟩
    · rw [hst]
      exact inv.job_step j hj (hid ▸ up _ hn) s hs (e.trans hid)
    · exact .of_open hopen _
  · intro j' hj' hn
    obtain ⟨j, hj, hid, _, hst⟩ := of_mem_right h.jobs hj'
    rcases hst with hst | ⟨_, _, hb⟩
    · rw [hst]
      exact inv.not_blocked j hj (hid ▸ up _ hn)
    · exact hb

lemma finalizeStep (id : ID) : LatticeInv (Sqi.finalizeStep id db).2 := by
  refine finalizeStep_of inv ⟨forall_update (fun s hs hp => ?_) fun s hs _ => inv.step_task s hs,
    fun j hj hn => forall_update (fun s hs hp e => ?_) fun s hs _ => inv.job_step j hj hn s hs,
    inv.not_blocked⟩
  · exact fun _ t ht e => stepOutcome_lat hp.2.2 ht e
  · exact .of_open ((inv.job_step j hj hn s hs e).not_terminal hp.2.1) _

lemma finalizeJob (id : ID) (now : Time) :
    LatticeInv (Sqi.finalizeJob id now db).2 := by
  refine finalizeJob_of inv ⟨inv.step_task, forall_update (fun j hj hp => ?_) fun j hj _ => inv.job_step j hj,
    forall_update (fun j hj _ => ?_) fun j hj _ => inv.not_blocked j hj⟩
  · exact fun _ s hs e => jobOutcome_jobLat hp.2.2 hs e
  · dsimp only [jobOutcome]
    split_ifs <;> simp

lemma movePendingStep (wf : WF db) (id : ID) {stepTo : StepStatus}
    {taskTo : TaskStatus} (reason : String) (hmoved : Lat stepTo taskTo)
    (hclosed : ∀ t : TaskStatus, t.IsTerminal → Lat stepTo t) :
    LatticeInv (Sqi.movePendingStep id stepTo taskTo reason db).2 := by
  refine moveStep_of inv fun s0 hs0 hpending => ?_
  obtain ⟨hmem0, hid0⟩ := DB.step?_some hs0
  have hstep : ∀ s ∈ db.steps, s.id = id → s.status = .pending := by
    intro s hs e
    rw [wf.steps_keyed.eq_of_mem hs hmem0 (e.trans hid0.symm)]
    exact hpending
  refine ⟨forall_update (fun s hs hp hn => ?_) fun s hs hp hn => ?_, fun j hj hn =>
    forall_update (fun s hs hp e => ?_) fun s hs _ => inv.job_step j hj hn s hs, inv.not_blocked⟩
  · refine forall_update (fun _ _ _ _ => hmoved) fun t ht hq e => ?_
    have hlat := inv.step_task s hs hn t ht e
    rw [hp.2] at hlat
    rcases hlat with h | h
    · exact absurd ⟨e.trans hp.1, h⟩ hq
    · exact hclosed _ h
  · refine forall_update (fun t _ hq e => ?_) fun t ht _ => inv.step_task s hs hn t ht
    exact absurd (e.symm.trans hq.1) fun e => hp ⟨e, hstep s hs e⟩
  · refine .of_open ((inv.job_step j hj hn s hs e).not_terminal ?_) _
    simp [hp.2, StepStatus.IsTerminal]

lemma cancelJobExecution (wf : WF db) (jobID : ID) (reason : String)
    (now : Time) : LatticeInv (Sqi.cancelJobExecution jobID reason now db).2 := by
  have hclosed := cancelJobTasks_closed wf reason jobID
  refine ⟨?_, ?_, forall_update (fun _ _ _ _ => by simp) fun j hj _ => inv.not_blocked j hj⟩
  · rw [cancelExecution_steps wf]
    refine forall_update (fun s hs hp _ t ht e => ?_) fun s hs hp hn => ?_
    · dsimp only [cancelStepOutcome]
      split_ifs with h1 h2
      · exact hclosed s hs hp.1 t ht e
      · exact absurd e (h2 t ht)
      · exact stepOutcome_lat (hclosed s hs hp.1) ht e
    · refine forall_update (fun t ht hq e => ?_) fun t ht _ => inv.step_task s hs hn t ht
      have hterm : s.status.IsTerminal := by
        by_contra hopen
        exact hp ⟨(wf.task_jobID ht hs e).symm.trans hq.1, hopen⟩
      exact absurd ((inv.step_task s hs hn t ht e).isTerminal hterm) hq.2
  · rw [cancelExecution_steps wf]
    refine forall_update (fun j hj hq _ => ?_) fun j hj _ hn => ?_
    · refine forall_update (fun s _ _ _ => ⟨fun _ => cancelStepOutcome_isTerminal _ s, by simp⟩)
        fun s _ hp e => ⟨fun _ => ?_, by simp⟩
      by_contra hopen
      exact hp ⟨e.trans hq.1, hopen⟩
    · refine forall_update (fun s hs hp e => ?_) fun s hs _ => inv.job_step j hj hn s hs
      exact .of_open ((inv.job_step j hj hn s hs e).not_terminal hp.2) _

lemma retryTasks (wf : WF db) (jobID : ID) (taskIDs : Option (List ID)) :
    LatticeInv (Sqi.retryTasks jobID taskIDs db).2 := by
  refine retryTasks_of inv ?_
  rintro ⟨t0, ht0, hm0⟩
  have notCompleted : ∀ {s : Step}, s ∈ db.steps → NoUpstreams db s.jobID → s.status = .completed →
      ∀ t ∈ db.tasks, t.stepID = s.id → ¬ t.status.Unsuccessful := by
    intro s hs hn hc t ht e hu
    have hlat := inv.step_task s hs hn t ht e
    rw [hc] at hlat
    rw [hlat] at hu
    simp [TaskStatus.Unsuccessful] at hu
  have resetSkips : ∀ {j : Job}, j ∈ db.jobs → NoUpstreams db j.id → ¬ (j.id = jobID ∧ retryResets j) →
      j.id = jobID → ¬ j.status.IsTerminal := by
    rintro j hj hn hr hj' (hc | hu)
    · obtain ⟨s0, hs0, e0, ej0⟩ := wf.task_step t0 ht0
      have hid : s0.jobID = j.id := by rw [ej0, hm0.1, hj']
      have hcs := (inv.job_step j hj hn s0 hs0 hid).2 hc
      exact notCompleted hs0 (hid ▸ hn) hcs t0 ht0 e0.symm hm0.2.1
    · exact hr ⟨hj', .inl hu⟩
  refine ⟨forall_update (fun s (hs : s ∈ db.steps) hp hn => ?_) fun s (hs : s ∈ db.steps) hp hn => ?_,
    forall_update (fun _ _ _ _ _ _ _ => .of_open (by simp [JobStatus.IsTerminal]) _)
      fun j hj hr hn => ?_,
    forall_update (fun _ _ _ _ => by simp) fun j hj _ => inv.not_blocked j hj⟩
  · -- the step goes back to pending: its tasks were all closed, some are revived
    have hwaits : revivedStatus db s.id = .pending := by
      refine revived_of_not_released wf hs fun hr => ?_
      rcases hr with hr | hr <;> simp [hr, StepStatus.Unsuccessful] at hp
    exact forall_update (fun t _ _ e => .inl ((congrArg (revivedStatus db) e).trans hwaits))
      fun t ht _ e => .inr ((inv.step_task s hs hn t ht e).isTerminal hp.2.1.isTerminal)
  · refine forall_update (fun t ht hq e => ?_) fun t ht _ => inv.step_task s hs hn t ht
    have hst : (reviveTask db t).status = revivedStatus db s.id := congrArg (revivedStatus db) e
    rw [hst]
    cases hs' : s.status with
    | ready =>
      rw [revivedStatus, if_pos ⟨s, hs, rfl, .inl hs'⟩]
      simp [Lat]
    | pending =>
      rw [revived_of_not_released wf hs (by simp [hs', StepStatus.Released])]
      exact .inl rfl
    | running =>
      have hlat := inv.step_task s hs hn t ht e
      simp [hs', Lat] at hlat
    | completed => exact absurd hq.2.1 (notCompleted hs hn hs' t ht e)
    | failed | canceled =>
      refine absurd ⟨(wf.task_jobID ht hs e).symm.trans hq.1, by simp [hs', StepStatus.Unsuccessful],
        reviveTask db t, mem_update.mpr ⟨t, ht, if_pos hq⟩, e, ?_⟩ hp
      rw [hst, revived_of_not_released wf hs (by simp [hs', StepStatus.Released])]
  · refine forall_update (fun s hs hp e => ?_) fun s hs _ e => ?_
    all_goals by_cases hj' : j.id = jobID
    · -- a job the reset skips is open: a completed one has nothing to revive
      exact .of_open (resetSkips hj hn hr hj') _
    · exact absurd (e.symm.trans hp.1) hj'
    · exact .of_open (resetSkips hj hn hr hj') _
    · exact inv.job_step j hj hn s hs e

lemma cancelBlockedJob (wf : WF db) (id : ID) (reason : String) (now : Time) :
    LatticeInv (Sqi.cancelBlockedJob id reason now db).2 := by
  refine cancelBlocked_of inv fun j0 hj0 hblocked => ?_
  obtain ⟨hmem0, hid0⟩ := DB.job?_some hj0
  have hups : ¬ NoUpstreams db id := fun hn => inv.not_blocked j0 hmem0 (hid0 ▸ hn) hblocked
  refine ⟨forall_update (fun s _ hp hn => absurd (hp.1 ▸ hn) hups) fun s hs _ hn => ?_,
    forall_update (fun j _ hp hn => absurd (hp.1 ▸ hn) hups) fun j hj _ hn => ?_,
    forall_update (fun _ _ _ _ => by simp) fun j hj _ => inv.not_blocked j hj⟩
  · refine forall_update (fun t ht hq e => ?_) fun t ht _ => inv.step_task s hs hn t ht
    exact absurd (hq.1 ▸ wf.task_jobID ht hs e ▸ hn) hups
  · refine forall_update (fun s _ hp e => ?_) fun s hs _ => inv.job_step j hj hn s hs
    exact absurd (hp.1 ▸ e ▸ hn) hups

lemma submit {h : History} (wf : WF db) {p : SubmissionPlan} {blocked : Bool}
    (hread : DependenciesRead h db p blocked) :
    LatticeInv (createJobSubmission (buildSubmission p blocked) db).2 := by
  refine submission_of inv fun hjob hrows => ?_
  have wf' := submittedState_wf hjob hrows wf
  have hfree : ∀ j ∈ db.jobs, j.id ≠ p.jobID := hjob.1
  have up : ∀ jobID, NoUpstreams (submittedState (buildSubmission p blocked) db) jobID → NoUpstreams db jobID :=
    fun _ hn e he => hn e (mem_insertDeps.mpr (.inl he))
  constructor
  · intro s hs hn t ht et
    rcases mem_append.mp hs with hs1 | hs1
    · rcases mem_append.mp ht with ht | ht
      · exact inv.step_task s hs1 (up _ hn) t ht et
      · have hj := wf'.task_jobID (mem_append_right _ ht) hs et
        obtain ⟨sp, _, id, _, rfl⟩ := mem_newTasks.mp ht
        exact absurd hj.symm (wf.step_jobID_ne hfree hs1)
    · obtain ⟨sp, hsp, rfl⟩ := mem_newSteps.mp hs1
      rcases mem_append.mp ht with ht | ht
      · have hj := wf'.task_jobID (mem_append_left _ ht) hs et
        exact absurd hj (wf.task_jobID_ne hfree ht)
      obtain ⟨sp', hsp', id, _, rfl⟩ := mem_newTasks.mp ht
      have hs' : buildStep p.jobID blocked sp' ∈ (submittedState (buildSubmission p blocked) db).steps :=
        mem_append_right _ (mem_newSteps.mpr ⟨sp', hsp', rfl⟩)
      have hsame := wf'.steps_keyed.eq_of_mem hs' hs et
      have hst : initialStepStatus blocked sp' = initialStepStatus blocked sp := congrArg Step.status hsame
      simp only [buildStep, buildTask, initialTaskStatus, ← hst]
      unfold initialStepStatus
      split_ifs <;> simp_all [Lat]
  · intro j hj hn s hs ej
    rcases mem_append.mp hj with hj | hj
    · rcases mem_append.mp hs with hs | hs
      · exact inv.job_step j hj (up _ hn) s hs ej
      · obtain ⟨sp, _, rfl⟩ := mem_newSteps.mp hs
        exact absurd ej.symm (hfree j hj)
    · rw [mem_singleton.mp hj]
      refine .of_open ?_ _
      cases blocked <;> simp [buildSubmission, JobStatus.IsTerminal]
  · intro j hj hn
    rcases mem_append.mp hj with hj | hj
    · exact inv.not_blocked j hj (up _ hn)
    rw [mem_singleton.mp hj] at hn ⊢
    -- a job without edges has no upstream to wait for
    have hnil : ∀ up' ∈ p.dependsOn, False := fun up' hup =>
      hn ⟨p.jobID, up'⟩ (mem_insertDeps.mpr (.inr ⟨up', hup, rfl⟩)) rfl
    obtain ⟨_, _, hblocked⟩ := hread
    have : blocked = false := by
      cases blocked
      · rfl
      · obtain ⟨up', hup, _⟩ := hblocked.mp rfl
        exact (hnil up' hup).elim
    simp [buildSubmission, this]

end
end LatticeInv

/-! ## Every run -/

lemma latticeInv_run (run : StoreRun h db) : LatticeInv db := by
  refine run.safe ⟨by simp [storeSystem, DB.empty], by simp [storeSystem, DB.empty],
    by simp [storeSystem, DB.empty]⟩ ?_
  intro h db op run inv he
  have wf := wf_run run
  by_cases hw : op.WorkerSide
  · exact inv.levels (Op.levels hw db)
  by_cases hj : op.OnJobRow
  · exact inv.jobRows (Op.jobRows hj db)
  cases op with
  | submit => exact inv.submit wf he
  | cancelJobExecution => exact inv.cancelJobExecution wf ..
  | retryTasks => exact inv.retryTasks wf ..
  | finalizeStep => exact inv.finalizeStep _
  | finalizeJob => exact inv.finalizeJob ..
  | releaseStep id =>
    exact inv.movePendingStep wf id "" (by simp [Lat]) (by simp [Lat, TaskStatus.IsTerminal])
  | cancelPendingStep id reason =>
    exact inv.movePendingStep wf id reason (by simp [Lat, TaskStatus.IsTerminal]) fun _ ht => ht
  | cancelBlockedJob => exact inv.cancelBlockedJob wf ..
  | _ => first | exact absurd trivial hw | exact absurd trivial hj

structure JobLattice (db : DB) (j : Job) : Prop where
  pending_step : ∀ s ∈ db.steps, s.jobID = j.id → s.status = .pending →
    ∀ t ∈ db.tasks, t.stepID = s.id → t.status = .pending ∨ t.status.IsTerminal
  ready_step : ∀ s ∈ db.steps, s.jobID = j.id → s.status = .ready →
    ∀ t ∈ db.tasks, t.stepID = s.id → t.status ≠ .pending
  completed_step : ∀ s ∈ db.steps, s.jobID = j.id → s.status = .completed →
    ∀ t ∈ db.tasks, t.stepID = s.id → t.status = .succeeded
  unsuccessful_step : ∀ s ∈ db.steps, s.jobID = j.id → s.status = .failed ∨ s.status = .canceled →
    ∀ t ∈ db.tasks, t.stepID = s.id → t.status.IsTerminal
  terminal_job : j.status.IsTerminal → (∀ s ∈ db.steps, s.jobID = j.id → s.status.IsTerminal) ∧
    ∀ t ∈ db.tasks, t.jobID = j.id → t.status.IsTerminal
  completed_job : j.status = .completed → ∀ s ∈ db.steps, s.jobID = j.id → s.status = .completed

structure CompletedForGood (past now : DB) : Prop where
  steps : ∀ s ∈ past.steps, s.status = .completed → ∃ s' ∈ now.steps, now.step? s.id = some s' ∧
    s'.status = .completed
  jobs : ∀ j ∈ past.jobs, j.status = .completed → ∃ j' ∈ now.jobs, now.job? j.id = some j' ∧
    j'.status = .completed

lemma completedForGood_run {σ : DB} (run : StoreRun h db) (hv : Visited h db σ) : CompletedForGood σ db := by
  have wf := wf_run run
  constructor
  · intro s hs hc
    obtain ⟨s', hs', e, hc'⟩ := run.stable
      (Q := fun d => ∃ s' ∈ d.steps, s'.id = s.id ∧ s'.status = .completed) (by
        rintro _ d op _ _ ⟨u, hu, e, huc⟩
        obtain ⟨u', hu', hk, huc'⟩ := Op.completed_step op hu huc
        exact ⟨u', hu', (congrArg Prod.fst hk).trans e, huc'⟩) hv ⟨s, hs, rfl, hc⟩
    exact ⟨s', hs', e ▸ wf.step?_eq hs', hc'⟩
  · intro j hj hc
    obtain ⟨j', hj', e, hc'⟩ := run.stable
      (Q := fun d => ∃ j' ∈ d.jobs, j'.id = j.id ∧ j'.status = .completed) (by
        rintro _ d op _ _ ⟨u, hu, e, huc⟩
        obtain ⟨u', hu', hk, huc'⟩ := Op.completed_job op hu huc
        exact ⟨u', hu', hk.trans e, huc'⟩) hv ⟨j, hj, rfl, hc⟩
    exact ⟨j', hj', e ▸ wf.job?_eq hj', hc'⟩

/-- The levels of every job without upstreams agree in every reachable state,
and nothing completed changes again. -/
theorem levels_agree {h : History} {db : DB} (run : StoreRun h db) :
    (∀ j ∈ db.jobs, NoUpstreams db j.id → JobLattice db j) ∧
    ∀ σ, Visited h db σ → CompletedForGood σ db := by
  refine ⟨fun j hj hn => ?_, fun σ => completedForGood_run run⟩
  have wf := wf_run run
  have inv := latticeInv_run run
  have lat : ∀ s ∈ db.steps, s.jobID = j.id → ∀ t ∈ db.tasks, t.stepID = s.id →
      Lat s.status t.status := fun s hs e => inv.step_task s hs (e ▸ hn)
  constructor
  case pending_step => exact fun s hs e hst t ht et => by simpa [hst, Lat] using lat s hs e t ht et
  case ready_step => exact fun s hs e hst t ht et => by simpa [hst, Lat] using lat s hs e t ht et
  case completed_step => exact fun s hs e hst t ht et => by simpa [hst, Lat] using lat s hs e t ht et
  case unsuccessful_step => exact fun s hs e hst t ht et => (lat s hs e t ht et).isTerminal (.inr hst)
  case terminal_job =>
    intro hterm
    have hsteps : ∀ s ∈ db.steps, s.jobID = j.id → s.status.IsTerminal :=
      fun s hs e => (inv.job_step j hj hn s hs e).1 hterm
    refine ⟨hsteps, fun t ht e => ?_⟩
    obtain ⟨s, hs, e₁, e₂⟩ := wf.task_step t ht
    exact (lat s hs (e₂.trans e) t ht e₁.symm).isTerminal (hsteps s hs (e₂.trans e))
  case completed_job => exact fun hc s hs e => (inv.job_step j hj hn s hs e).2 hc

/-- The first step completes, the second is released and the job canceled. -/
theorem levels_agree_smallBuild :
    let db := (storeSystem.exec (smallBuild ++ [.cancelJobExecution 1 "stop" 70]) [] DB.empty).2
    db.steps.map (·.status) = [.completed, .canceled] ∧ db.jobs.map (·.status) = [.canceled] ∧
      (∀ j ∈ db.jobs, JobLattice db j) := by
  intro db
  have run : StoreRun _ db :=
    Run.start.exec (smallBuild_permits [.cancelJobExecution 1 "stop" 70] ⟨trivial, trivial⟩)
  have hnone : db.jobDependencies = [] := by decide
  exact ⟨by decide, by decide, fun j hj => (levels_agree run).1 j hj (by simp [NoUpstreams, hnone])⟩

end Sqi

import Sqi.Invariant.Attempts
import Sqi.Invariant.Lattice
import Sqi.Store.JobStatus

/-! Jobs that wait for other jobs. -/

namespace Sqi
open List Op Table Transition

def StepStatus.Waiting (s : StepStatus) : Prop := s = .pending ∨ s = .canceled
def TaskStatus.Waiting (s : TaskStatus) : Prop := s = .pending ∨ s = .canceled

structure JobWaits (db : DB) (jobID : ID) : Prop where
  steps : ∀ s ∈ db.steps, s.jobID = jobID → s.status.Waiting
  tasks : ∀ t ∈ db.tasks, t.jobID = jobID → t.status.Waiting
  attempts : ∀ a ∈ db.attempts, ∀ t ∈ db.tasks, t.id = a.taskID → t.jobID ≠ jobID

def Held (db : DB) (j : Job) : Prop := j.status = .blocked ∨ ¬ upstreamsCompleted db j.id

lemma TaskStatus.Moves.waiting {a b : TaskStatus} (h : a.Moves b) (ha : a.Waiting) : b.Waiting := by
  rcases h with rfl | ⟨_, rfl⟩ | ⟨hr, _⟩
  · exact ha
  · exact .inr rfl
  · rcases ha with rfl | rfl <;> simp [InFlight] at hr

/-! ## Waiting rows -/

namespace JobWaits
variable {db db' : DB} {jobID : ID}

lemma of_sameKeys (w : JobWaits db jobID) (keys : SameKeys db db')
    (hs : ∀ s ∈ db'.steps, s.jobID = jobID → s.status.Waiting)
    (ht : ∀ t ∈ db'.tasks, t.jobID = jobID → t.status.Waiting) : JobWaits db' jobID where
  steps := hs
  tasks := ht
  attempts := by
    intro a' ha' t' ht' e
    obtain ⟨a, ha, ka⟩ := keys.symm.attempt ha'
    obtain ⟨t, htm, kt⟩ := keys.symm.task ht'
    rw [← kt.2.1]
    exact w.attempts a ha t htm (by rw [kt.1, e, ka.2.1])

lemma tasks_of_levels (w : JobWaits db jobID) (h : Levels db db') :
    ∀ t ∈ db'.tasks, t.jobID = jobID → t.status.Waiting := by
  intro t' ht' e
  obtain ⟨t, ht, hk, hm⟩ := of_mem_right h.tasks ht'
  simp only [Task.key, Prod.mk.injEq] at hk
  exact hm.waiting (w.tasks t ht (hk.2.1 ▸ e))

lemma leaseTask (w : JobWaits db jobID) (wf : WF db) (req : LeaseRequest) :
    JobWaits (Sqi.leaseTask req db).2 jobID := by
  have levels : Levels db _ := leaseTask_levels req
  rcases leaseTask_cases req db with ⟨_, h⟩ | ⟨scope, _, ⟨t0, ht0, hm0⟩, _, _, _, h⟩
  · rwa [h]
  refine ⟨fun s hs => w.steps s (levels.steps ▸ hs), w.tasks_of_levels levels, ?_⟩
  rw [h]
  intro a ha
  refine forall_mem_update.mpr fun t ht => ?_
  rw [apply_ite Task.id, apply_ite Task.jobID]
  simp only [assignTask, ite_self]
  rcases mem_append.mp ha with ha | ha
  · exact w.attempts a ha t ht
  rw [mem_singleton.mp ha]
  intro e hj
  have heq : t = t0 := wf.tasks_keyed.eq_of_mem ht ht0 (e.trans hm0.1.symm)
  have hw := w.tasks t ht hj
  rw [heq, hm0.2.1] at hw
  simp [TaskStatus.Waiting] at hw

lemma workerSide {op : Op} (hw : op.WorkerSide) (w : JobWaits db jobID) (wf : WF db) :
    JobWaits (op.apply db) jobID := by
  have levels := Op.levels hw db
  by_cases hi : op.Inserts
  swap
  · exact w.of_sameKeys (op.sameKeys hi db) (fun s hs => w.steps s (levels.steps ▸ hs))
      (w.tasks_of_levels levels)
  cases op with
  | leaseTask req => exact w.leaseTask wf req
  | submit => exact hw.elim
  | _ => exact hi.elim

lemma jobRows (w : JobWaits db jobID) (h : JobRows db db') : JobWaits db' jobID :=
  w.of_sameKeys h.sameKeys (h.steps ▸ w.steps) (h.tasks ▸ w.tasks)

lemma stepOutcome (w : JobWaits db jobID) (wf : WF db) {s : Step} (hs : s ∈ db.steps)
    (e : s.jobID = jobID) (hclosed : stepHasNoOpenTask db s.id) :
    Sqi.stepOutcome db s.id = .canceled := by
  obtain ⟨t, ht, et⟩ := wf.step_task s hs
  have hwaits : ∀ u ∈ db.tasks, u.stepID = s.id → u.status.Waiting :=
    fun u hu eu => w.tasks u hu ((wf.task_jobID hu hs eu).trans e)
  have hcanceled : t.status = .canceled := by
    rcases hwaits t ht et with h | h
    · simpa [h, TaskStatus.IsTerminal] using hclosed t ht et
    · exact h
  unfold Sqi.stepOutcome
  rw [if_neg, if_pos ⟨t, ht, et, hcanceled⟩]
  rintro ⟨u, hu, eu, hf⟩
  rcases hwaits u hu eu with h | h <;> simp [hf] at h

lemma finalizeStep (w : JobWaits db jobID) (wf : WF db) (id : ID) :
    JobWaits (Sqi.finalizeStep id db).2 jobID := by
  refine finalizeStep_of (R := fun d => JobWaits d jobID) w ?_
  refine w.of_sameKeys (.updateSteps fun _ => rfl) (forall_update (fun s hs hp e => ?_) ?_) w.tasks
  · exact .inr (w.stepOutcome wf hs e hp.2.2)
  · exact fun s hs _ => w.steps s hs

lemma jobOutcome {j : Job} (w : JobWaits db j.id) (wf : WF db) (hj : j ∈ db.jobs)
    (hclosed : jobHasNoOpenStep db j.id) : Sqi.jobOutcome db j.id = .canceled := by
  obtain ⟨s, hs, es⟩ := wf.job_step j hj
  have hcanceled : s.status = .canceled := by
    rcases w.steps s hs es with h | h
    · simpa [h, StepStatus.IsTerminal] using hclosed s hs es
    · exact h
  unfold Sqi.jobOutcome
  rw [if_neg, if_pos ⟨s, hs, es, hcanceled⟩]
  rintro ⟨u, hu, eu, hf⟩
  rcases w.steps u hu eu with h | h <;> simp [hf] at h

section
variable (w : JobWaits db jobID)
include w

lemma finalizeJob (id : ID) (now : Time) :
    JobWaits (Sqi.finalizeJob id now db).2 jobID := by
  refine finalizeJob_of (R := fun d => JobWaits d jobID) w ?_
  exact w.of_sameKeys (.updateJobs fun _ => rfl) w.steps w.tasks

lemma movePendingStep (wf : WF db) (id : ID) {stepTo : StepStatus}
    {taskTo : TaskStatus} (reason : String)
    (h : ∀ s ∈ db.steps, s.id = id → s.jobID = jobID → stepTo = .canceled ∧ taskTo = .canceled) :
    JobWaits (Sqi.movePendingStep id stepTo taskTo reason db).2 jobID := by
  refine moveStep_of (R := fun d => JobWaits d jobID) w fun _ _ _ => ?_
  have keys : SameKeys db (sqlGuardStepPending stepTo id db) := .updateSteps fun _ => rfl
  refine w.of_sameKeys (keys.trans (.updateTasks fun _ => rfl))
    (forall_update (fun s hs hp e => .inr (h s hs hp.1 e).1) fun s hs _ => w.steps s hs)
    (forall_update (fun t ht hq e => ?_) fun t ht _ => w.tasks t ht)
  obtain ⟨s, hs, e1, e2⟩ := wf.task_step t ht
  exact .inr (h s hs (e1.trans hq.1) (e2.trans e)).2

lemma cancelJobExecution (wf : WF db) (id : ID) (reason : String)
    (now : Time) : JobWaits (Sqi.cancelJobExecution id reason now db).2 jobID := by
  refine w.of_sameKeys (Op.sameKeys (.cancelJobExecution id reason now) not_false db) ?_
    (forall_update (fun _ _ _ _ => .inr rfl) fun t ht _ => w.tasks t ht)
  rw [cancelExecution_steps wf]
  refine forall_update (fun s hs hp e => ?_) fun s hs _ => w.steps s hs
  rcases w.steps s hs e with h | h
  · exact .inr (if_pos h)
  · exact absurd (.inr (.inr h)) hp.2

lemma cancelBlockedJob (id : ID) (reason : String) (now : Time) :
    JobWaits (Sqi.cancelBlockedJob id reason now db).2 jobID := by
  have keys : SameKeys db _ := Op.sameKeys (.cancelBlockedJob id reason now) not_false db
  refine cancelBlocked_of (R := fun d => SameKeys db d → JobWaits d jobID) (fun _ => w) ?_ keys
  exact fun _ _ _ keys => w.of_sameKeys keys
    (forall_update (fun _ _ _ _ => .inr rfl) fun s hs _ => w.steps s hs)
    (forall_update (fun _ _ _ _ => .inr rfl) fun t ht _ => w.tasks t ht)

lemma retryTasks (id : ID) (taskIDs : Option (List ID))
    (h : (∃ t ∈ db.tasks, retryMatches id taskIDs t) → id ≠ jobID) :
    JobWaits (Sqi.retryTasks id taskIDs db).2 jobID := by
  have keys : SameKeys db _ := Op.sameKeys (.retryTasks id taskIDs) not_false db
  refine retryTasks_of (R := fun d => SameKeys db d → JobWaits d jobID) (fun _ => w) ?_ keys
  exact fun hmatch keys => w.of_sameKeys keys
    (forall_update (fun _ _ hp e => absurd (hp.1.symm.trans e) (h hmatch)) fun s hs _ => w.steps s hs)
    (forall_update (fun _ _ hq e => absurd (hq.1.symm.trans e) (h hmatch)) fun t ht _ => w.tasks t ht)

lemma submitted {p : SubmissionPlan} {blocked : Bool} (hne : jobID ≠ p.jobID) :
    JobWaits (submittedState (buildSubmission p blocked) db) jobID where
  steps := fun s hs e => by
    rcases mem_append.mp hs with hs | hs
    · exact w.steps s hs e
    · obtain ⟨sp, _, rfl⟩ := mem_newSteps.mp hs
      exact absurd e.symm hne
  tasks := fun t ht e => by
    rcases mem_append.mp ht with ht | ht
    · exact w.tasks t ht e
    · obtain ⟨sp, _, id, _, rfl⟩ := mem_newTasks.mp ht
      exact absurd e.symm hne
  attempts := fun a ha t ht et ej => by
    rcases mem_append.mp ht with ht | ht
    · exact w.attempts a ha t ht et ej
    · obtain ⟨sp, _, id, _, rfl⟩ := mem_newTasks.mp ht
      exact absurd ej.symm hne

end
end JobWaits

lemma submittedState_waits {db : DB} {p : SubmissionPlan}
    (hjob : jobInsertable (buildSubmission p true).job db)
    (hrows : rowsInsertable (buildSubmission p true) db) (wf : WF db) :
    JobWaits (submittedState (buildSubmission p true) db) p.jobID where
  steps := fun s hs e => by
    rcases mem_append.mp hs with hs | hs
    · exact absurd e (wf.step_jobID_ne hjob.1 hs)
    · obtain ⟨sp, _, rfl⟩ := mem_newSteps.mp hs
      simp [buildStep, initialStepStatus, StepStatus.Waiting]
  tasks := fun t ht e => by
    rcases mem_append.mp ht with ht | ht
    · exact absurd e (wf.task_jobID_ne hjob.1 ht)
    · obtain ⟨sp, _, id, _, rfl⟩ := mem_newTasks.mp ht
      simp [buildTask, initialTaskStatus, initialStepStatus, TaskStatus.Waiting]
  attempts := fun a ha t ht et ej => by
    -- an attempt's task is an old row
    obtain ⟨t0, ht0, et0⟩ := wf.attempt_task a ha
    have same : t = t0 := (submittedState_wf hjob hrows wf).tasks_keyed.eq_of_mem ht
      (mem_append_left _ ht0) (et.trans et0.symm)
    exact absurd (same ▸ ej) (wf.task_jobID_ne hjob.1 ht0)

/-! ## Free jobs stay free -/

section
variable {db : DB} {jobID : ID}

lemma Op.edges_eq {op : Op} (hs : ∀ p blocked, op ≠ .submit p blocked) (db : DB) :
    (op.apply db).jobDependencies = db.jobDependencies := by
  by_cases hi : op.Inserts
  swap
  · exact (op.sameKeys hi db).edges
  cases op with
  | submit p blocked => exact absurd rfl (hs p blocked)
  | leaseTask req => exact (leaseTask_levels req).edges
  | _ => exact hi.elim

lemma Op.upstreamsCompleted (op : Op) (hex : ∃ j ∈ db.jobs, j.id = jobID)
    (h : Sqi.upstreamsCompleted db jobID) : Sqi.upstreamsCompleted (op.apply db) jobID := by
  have old : ∀ e ∈ (op.apply db).jobDependencies, e.jobID = jobID → e ∈ db.jobDependencies := by
    intro e he ej
    by_cases hsub : ∃ p blocked, op = .submit p blocked
    · obtain ⟨p, blocked, rfl⟩ := hsub
      rcases submission_cases (buildSubmission p blocked) db with h | ⟨hjob, _, h⟩
      · rwa [Op.apply, h] at he
      rw [Op.apply, h] at he
      rcases mem_insertDeps.mp he with he | ⟨up, _, rfl⟩
      · exact he
      · obtain ⟨j, hj, ej'⟩ := hex
        exact absurd (ej'.trans ej.symm) (hjob.1 j hj)
    · rwa [edges_eq (fun p b e => hsub ⟨p, b, e⟩)] at he
  intro e he ej
  obtain ⟨u, hu, eu, hc⟩ := h e (old e he ej) ej
  obtain ⟨u', hu', eu', hc'⟩ := completed_job op hu hc
  exact ⟨u', hu', eu'.trans eu, hc'⟩

def Free (jobID : ID) (db : DB) : Prop := ∃ j ∈ db.jobs, j.id = jobID ∧ ¬ Held db j

lemma Op.free (op : Op) (h : Free jobID db) : Free jobID (op.apply db) := by
  obtain ⟨j, hj, rfl, hfree⟩ := h
  simp only [Held, not_or, not_not] at hfree
  have hups := Op.upstreamsCompleted op ⟨j, hj, rfl⟩ hfree.2
  rcases op.submit_or_opens db with ⟨p, blocked, rfl⟩ | opens
  · exact ⟨j, submit_jobs_subset _ hj, rfl, not_or.mpr ⟨hfree.1, not_not.mpr hups⟩⟩
  · obtain ⟨j', hj', hid, _, hb⟩ := of_mem_left opens.jobs hj
    exact ⟨j', hj', hid, not_or.mpr ⟨fun h => hfree.1 (hb h), not_not.mpr (hid ▸ hups)⟩⟩

lemma releaseBlockedJob_free {id : ID} (h : (releaseBlockedJob id db).1 = .ok true) :
    Free id (Op.apply (.releaseBlockedJob id) db) := by
  have hfound : ∃ j, db.job? id = some j ∧ j.status = .blocked ∧ Sqi.upstreamsCompleted db id := by
    unfold releaseBlockedJob at h
    split at h
    · cases h
    · rename_i j hj
      exact ⟨j, hj, by simpa using h⟩
  obtain ⟨j, hj, hb, hups⟩ := hfound
  obtain ⟨hmem, hid⟩ := DB.job?_some hj
  have hups' := Op.upstreamsCompleted (.releaseBlockedJob id) ⟨j, hmem, hid⟩ hups
  refine ⟨{ j with status := .pending }, ?_, hid, ?_⟩
  · simp only [Op.apply, releaseBlockedJob, hj]
    exact mem_update.mpr ⟨j, hmem, if_pos ⟨hid, hb, hid ▸ hups⟩⟩
  · rw [Held, not_or, not_not]
    exact ⟨by simp, hid ▸ hups'⟩

lemma Held.before {M : System DB Op} (hnext : M.next = Op.apply) {h : History} {σ : DB}
    (run : Run M h db) (wf : WF db) {j : Job} (hj : j ∈ db.jobs) (held : Held db j)
    (hv : Visited h db σ) {j0 : Job} (hj0 : j0 ∈ σ.jobs) (e : j0.id = j.id) : Held σ j0 := by
  by_contra hfree
  obtain ⟨j', hj', e', hfree'⟩ := run.stable (Q := Free j.id)
    (fun _ _ op _ _ hf => by rw [hnext]; exact Op.free op hf) hv ⟨j0, hj0, e, hfree⟩
  exact hfree' (wf.jobs_keyed.eq_of_mem hj' hj e' ▸ held)

end

/-! ## Runs whose retries find the job free -/

def RetryFree (_ : History) (db : DB) : Op → Prop
  | .retryTasks jobID taskIDs => (∃ t ∈ db.tasks, retryMatches jobID taskIDs t) →
      ∀ j ∈ db.jobs, j.id = jobID → j.status ≠ .blocked ∧ upstreamsCompleted db jobID
  | _ => True

def freeRetrySystem : System DB Op := storeSystem.guarded RetryFree
def HeldInv (db : DB) : Prop := ∀ j ∈ db.jobs, Held db j →
  (j.status = .blocked ∨ j.status = .canceled) ∧ JobWaits db j.id

section
variable {h : History} {db : DB} {j : Job} {p : SubmissionPlan} {op : Op}

section
variable (run : Run freeRetrySystem h db)
include run

section
variable (inv : ∀ σ, Visited h db σ → HeldInv σ)
include inv

lemma resolveCalled_free (hj : j ∈ db.jobs)
    (hcall : ResolveCalled h db j.id) : ¬ Held db j := by
  intro held
  have wf := wf_run run.of_guarded
  have before : ∀ σ, Visited h db σ → ∀ j0 ∈ σ.jobs, j0.id = j.id → Held σ j0 :=
    fun σ hv j0 hj0 e => held.before rfl run wf hj hv hj0 e
  have atEntry : ∀ {σ op}, (σ, op) ∈ h → Visited h db σ ∧ WF σ ∧ RetryFree h σ op := by
    intro σ op hmem
    obtain ⟨h', run', he⟩ := run.at_entry hmem
    exact ⟨.inr ⟨op, hmem⟩, wf_run run'.of_guarded, he.2⟩
  rcases hcall with ⟨σ, id, changed, hmem, hans, s, hs, eid, ej⟩ | ⟨σ, ids, hmem, hne⟩ |
    ⟨σ, hmem, hans⟩ | ⟨σ, hv, j0, hj0, e0, hopen, hnb⟩
  · -- a step finalized as completed had a succeeded task
    obtain ⟨hv, wfσ, _⟩ := atEntry hmem
    obtain ⟨j0, hj0, e0⟩ := wfσ.step_job s hs
    have waits := (inv σ hv j0 hj0 (before σ hv j0 hj0 (e0.trans ej))).2
    have hst := waits.steps s hs e0.symm
    have hfound : σ.step? id = some s := eid ▸ wfσ.step?_eq hs
    unfold finalizeStep at hans
    simp only [hfound] at hans
    split_ifs at hans with hterm hclosed
    · simp only [Except.ok.injEq, Prod.mk.injEq, Option.some.injEq] at hans
      simp [hans.1, StepStatus.Waiting] at hst
    · have hout := waits.stepOutcome wfσ hs e0.symm (eid ▸ hclosed)
      rw [eid] at hout
      simp [hout] at hans
    · simp at hans
  · -- a retry that revived something found the job free
    obtain ⟨hv, wfσ, hc⟩ := atEntry hmem
    rcases retryTasks_cases j.id ids σ with ⟨_, hnil, _⟩ | ⟨⟨t, ht, hm⟩, _, _⟩
    · exact hne hnil
    obtain ⟨j0, hj0, e0⟩ := wfσ.task_job ht
    have hid := e0.trans hm.1
    obtain ⟨hnb, hups⟩ := hc ⟨t, ht, hm⟩ j0 hj0 hid
    rcases before σ hv j0 hj0 hid with hb | hn
    · exact hnb hb
    · exact hn (hid ▸ hups)
  · -- the release left the job pending with every upstream completed
    obtain ⟨j', hj', e', hfree'⟩ := run.stable_after (Q := Free j.id)
      (fun _ _ op _ _ hf => Op.free op hf) hmem (releaseBlockedJob_free hans)
    exact hfree' (wf.jobs_keyed.eq_of_mem hj' hj e' ▸ held)
  · rcases (inv σ hv j0 hj0 (before σ hv j0 hj0 e0)).1 with hb | hc
    · exact hnb hb
    · exact hopen (.inr (.inr hc))

lemma releaseDecided_free {s : Step} (hs : s ∈ db.steps)
    (hdec : ReleaseDecided h db s.id) (hj : j ∈ db.jobs) (e : s.jobID = j.id) :
    ¬ Held db j := by
  obtain ⟨σ, hv, s0, hs0, hid, _, hcall⟩ := hdec
  obtain ⟨u, hu, hk⟩ := run.stable (Q := fun d => ∃ u ∈ d.steps, u.key = s0.key)
    (by
      rintro _ d op _ _ ⟨u, hu, hk⟩
      obtain ⟨u', hu', hk'⟩ := step_stays op hu
      exact ⟨u', hu', hk'.trans hk⟩) hv ⟨s0, hs0, rfl⟩
  simp only [Step.key, Prod.mk.injEq] at hk
  have hsame := (wf_run run.of_guarded).steps_keyed.eq_of_mem hu hs (hk.1.trans hid)
  have hjob : s0.jobID = j.id := by rw [← hk.2.1, hsame, e]
  exact resolveCalled_free run inv hj (hjob ▸ hcall)

lemma parkDecided_free (hj : j ∈ db.jobs) {reason : String}
    (hdec : ParkDecided h j.id reason) : ¬ Held db j := by
  intro held
  obtain ⟨σ, attemptID, taskID, _, _, _, _, _, _, _, hmem, _, ⟨t, ht, et, ej⟩, _⟩ := hdec
  obtain ⟨h', run', he⟩ := run.at_entry hmem
  have wfσ := wf_run run'.of_guarded
  have hv : Visited h db σ := .inr ⟨_, hmem⟩
  obtain ⟨j0, hj0, e0⟩ := wfσ.task_job ht
  have heldσ := held.before rfl run (wf_run run.of_guarded) hj hv hj0 (e0.trans ej)
  obtain ⟨a, ha, _, eta⟩ := AttemptRead.now run'.of_guarded he.1
  exact (inv σ hv j0 hj0 heldσ).2.attempts a ha t ht (et.trans eta.symm) e0.symm

lemma JobWaits.apply (he : freeRetrySystem.enabled h db op)
    (hsub : ∀ p blocked, op ≠ .submit p blocked) (hj : j ∈ db.jobs) (held : Held db j)
    (w : JobWaits db j.id) : JobWaits (op.apply db) j.id := by
  have wf := wf_run run.of_guarded
  by_cases hw : op.WorkerSide
  · exact w.workerSide hw wf
  by_cases hr : op.OnJobRow
  · exact w.jobRows (Op.jobRows hr db)
  cases op with
  | submit p blocked => exact absurd rfl (hsub p blocked)
  | cancelJobExecution => exact w.cancelJobExecution wf ..
  | retryTasks jobID taskIDs =>
    refine w.retryTasks jobID taskIDs fun hmatch e => ?_
    obtain ⟨hnb, hups⟩ := he.2 hmatch j hj e.symm
    rcases held with hb | hn
    · exact hnb hb
    · exact hn (e ▸ hups)
  | finalizeStep id => exact w.finalizeStep wf id
  | finalizeJob => exact w.finalizeJob ..
  | releaseStep id =>
    refine w.movePendingStep wf id "" fun s hs e ej => ?_
    exact absurd held (releaseDecided_free run inv hs (e ▸ he.1) hj ej)
  | cancelPendingStep id reason => exact w.movePendingStep wf id reason fun _ _ _ _ => ⟨rfl, rfl⟩
  | cancelBlockedJob => exact w.cancelBlockedJob ..
  | _ => first | exact absurd trivial hw | exact absurd trivial hr

lemma held_status (he : freeRetrySystem.enabled h db op)
    (hsub : ∀ p blocked, op ≠ .submit p blocked) {j' : Job} (hj : j ∈ db.jobs)
    (hj' : j' ∈ (op.apply db).jobs) (e : j'.id = j.id) (held : Held db j)
    (held' : Held (op.apply db) j') : j'.status = .blocked ∨ j'.status = .canceled := by
  have wf := wf_run run.of_guarded
  obtain ⟨hst, waits⟩ := inv db .now j hj held
  have hrow := jobStatus_eq hsub wf hj hj' e
  -- a row the operation does not match keeps its status
  have kept : ∀ {p : Prop} [Decidable p] {st : JobStatus}, (p → st = .blocked ∨ st = .canceled) →
      (if p then st else j.status) = .blocked ∨ (if p then st else j.status) = .canceled := by
    intro p _ st hp
    split
    · exact hp ‹p›
    · exact hst
  rw [hrow]
  cases op with
  | submit p blocked => exact absurd rfl (hsub p blocked)
  | cancelJobExecution id | cancelBlockedJob id => exact kept fun _ => .inr rfl
  | retryTasks id taskIDs =>
    refine kept fun hp => ?_
    obtain ⟨hnb, hups⟩ := he.2 hp.2.2 j hj hp.1
    rcases held with hb | hn
    · exact absurd hb hnb
    · exact absurd (hp.1 ▸ hups) hn
  | finalizeJob id now => exact kept fun hp => .inr (waits.jobOutcome wf hj hp.2.2)
  | releaseBlockedJob id =>
    refine kept fun hp => ?_
    simp only [Op.jobStatus, if_pos hp] at hrow
    have hups := Op.upstreamsCompleted (.releaseBlockedJob id) ⟨j, hj, rfl⟩ hp.2.2
    rcases held' with hb | hn
    · simp [hrow] at hb
    · exact absurd (e ▸ hups) hn
  | promoteJobRunning id | pauseJob id | resumeJob id =>
    refine kept fun hp => ?_
    rcases hst with hst | hst <;> simp [hst] at hp
  | demoteStalledJob id =>
    refine kept fun hp => ?_
    rcases hst with hst | hst <;> simp [hst, stalledJob] at hp
  | parkJob id reason => exact kept fun hp => absurd held (parkDecided_free run inv hj (hp.1 ▸ he.1))
  | _ => exact hst

end
end

lemma submit_upstreamsCompleted (run : StoreRun h db) (hread : DependenciesRead h db p false) (wf : WF db)
    (hjob : jobInsertable (buildSubmission p false).job db) :
    upstreamsCompleted (submittedState (buildSubmission p false) db) p.jobID := by
  obtain ⟨read, hreads, hblocked⟩ := hread
  intro e he ej
  rcases mem_insertDeps.mp he with he | ⟨up, hup, rfl⟩
  · obtain ⟨j, hj, e'⟩ := wf.edge_job e he
    exact absurd (e'.trans ej) (hjob.1 j hj)
  have hdone : read up = .completed := by
    by_contra hne
    exact Bool.false_ne_true (hblocked.mpr ⟨up, hup, hne⟩)
  obtain ⟨_, σ, hv, j, hj, eid, _, hst⟩ := hreads up hup
  obtain ⟨j', hj', hfound, hc⟩ := (completedForGood_run run hv).jobs j hj (hst.trans hdone)
  exact ⟨j', mem_append_left _ hj', (DB.job?_some hfound).2.trans eid, hc⟩

lemma heldInv_submit (run : StoreRun h db) (inv : HeldInv db) {blocked : Bool}
    (hread : DependenciesRead h db p blocked) :
    HeldInv (createJobSubmission (buildSubmission p blocked) db).2 := by
  have wf := wf_run run
  rcases submission_cases (buildSubmission p blocked) db with e | ⟨hjob, hrows, e⟩
  · rwa [e]
  rw [e]
  have hfree : ∀ j ∈ db.jobs, j.id ≠ p.jobID := hjob.1
  intro j hj held
  rcases mem_append.mp hj with hj | hj
  · -- an old job: its rows, edges and upstreams are as they were
    have held0 : Held db j := by
      rcases held with hb | hn
      · exact .inl hb
      · refine .inr fun hups => hn ?_
        have := Op.upstreamsCompleted (.submit p blocked) ⟨j, hj, rfl⟩ hups
        rwa [Op.apply, e] at this
    obtain ⟨hst, w⟩ := inv j hj held0
    exact ⟨hst, w.submitted fun e => hfree j hj e⟩
  · rw [mem_singleton.mp hj] at held ⊢
    have hblocked : blocked = true := by
      cases blocked
      · rcases held with hb | hn
        · simp [buildSubmission] at hb
        · exact absurd (submit_upstreamsCompleted run hread wf hjob) hn
      · rfl
    subst hblocked
    exact ⟨.inl rfl, submittedState_waits hjob hrows wf⟩

lemma heldInv_run (run : Run freeRetrySystem h db) : ∀ σ, Visited h db σ → HeldInv σ := by
  refine run.invariant (P := fun h db => ∀ σ, Visited h db σ → HeldInv σ) ?_ ?_
  · rintro σ (rfl | ⟨_, hmem⟩)
    · intro j hj
      cases hj
    · cases hmem
  intro h db op run inv he σ hv
  rcases hv.cases_later with rfl | hv
  · have wf := wf_run run.of_guarded
    by_cases hsub : ∃ p blocked, op = .submit p blocked
    · obtain ⟨p, blocked, rfl⟩ := hsub
      exact heldInv_submit run.of_guarded (inv db .now) he.1
    have hsub' : ∀ p blocked, op ≠ .submit p blocked := fun p b e => hsub ⟨p, b, e⟩
    intro j' hj' held'
    obtain ⟨j, hj, e, _⟩ := of_mem_right (Op.jobSteps hsub' wf) hj'
    have held : Held db j := by
      by_contra hfree
      obtain ⟨j1, hj1, e1, hfree1⟩ := Op.free op ⟨j, hj, rfl, hfree⟩
      exact hfree1 ((Op.wf op wf).jobs_keyed.eq_of_mem hj1 hj' (e1.trans e.symm) ▸ held')
    refine ⟨held_status run inv he hsub' hj hj' e held held', ?_⟩
    exact e ▸ JobWaits.apply run inv he hsub' hj held (inv db .now j hj held).2
  · exact inv σ hv

end

/-- A blocked job has no step or task released, and leases wait for every upstream. -/
theorem blocked_jobs_wait {h : History} {db : DB} (run : Run freeRetrySystem h db) :
    (∀ j ∈ db.jobs, j.status = .blocked → (∀ s ∈ db.steps, s.jobID = j.id → s.status ≠ .ready) ∧
      ∀ t ∈ db.tasks, t.jobID = j.id → t.status ≠ .ready ∧ t.status ≠ .assigned ∧ t.status ≠ .running) ∧
    ∀ σ req, (σ, Op.leaseTask req) ∈ h → (leaseTask req σ).1 = .ok .leased →
      ∀ t ∈ σ.tasks, t.id = req.taskID → upstreamsCompleted σ t.jobID := by
  constructor
  · intro j hj hb
    have w := (heldInv_run run db .now j hj (.inl hb)).2
    refine ⟨fun s hs e hr => ?_, fun t ht e => ?_⟩
    · rcases w.steps s hs e with h | h <;> simp [hr] at h
    · rcases w.tasks t ht e with h | h <;> simp [h]
  · intro σ req hmem hleased t ht e
    have hv : Visited h db σ := .inr ⟨_, hmem⟩
    obtain ⟨h', run', _⟩ := run.at_entry hmem
    have wf := wf_run run'.of_guarded
    rcases leaseTask_cases req σ with ⟨hne, _⟩ | ⟨scope, _, ⟨t₀, ht₀, hm₀⟩, _⟩
    · exact absurd hleased hne
    have heq : t = t₀ := wf.tasks_keyed.eq_of_mem ht ht₀ (e.trans hm₀.1.symm)
    obtain ⟨j, hj, ej⟩ := wf.task_job ht
    by_contra hn
    have w := (heldInv_run run σ hv j hj (.inr (ej ▸ hn))).2
    rcases w.tasks t ht ej.symm with h | h <;> rw [heq, hm₀.2.1] at h <;> cases h

def waitingPlan : SubmissionPlan where
  jobID := 2
  farmID := 1
  queueID := 1
  retry := noRetry
  dependsOn := [1]
  steps := [⟨20, "comp", [], [200, 201]⟩]
  steps_ne := by decide
  tasks_ne := by decide
  names_nodup := by decide
  deps_declared := by decide

lemma waitingPlan_read {h : History} {db : DB}
    (hup : ∃ j ∈ db.jobs, j.id = 1 ∧ j.farmID = 1 ∧ j.status = .pending) :
    DependenciesRead h db waitingPlan true := by
  refine ⟨fun _ => .pending, ?_, by simp [waitingPlan]⟩
  intro up hmem
  obtain rfl : up = 1 := by simpa [waitingPlan] using hmem
  exact ⟨by simp [JobStatus.Unsuccessful], db, .now, hup⟩

def releasedAfterUpstream : List Op :=
  smallBuild ++ [.submit waitingPlan true, smallLease 110 1002, smallSuccess 110 1002,
    .finalizeStep 11, .finalizeJob 1 80, .releaseBlockedJob 2, .releaseStep 20, smallLease 200 2000]

lemma releasedAfterUpstream_permits : storeSystem.Permits releasedAfterUpstream [] DB.empty := by
  refine smallBuild_permits _ ⟨waitingPlan_read (by decide), trivial, ⟨⟨_, .now, by decide⟩, nofun⟩,
    trivial, trivial, trivial, ?_, trivial, trivial⟩
  refine ⟨_, .now, ⟨20, 2, "comp", [], .pending⟩, by decide, rfl, by decide, .inr (.inr (.inl ?_))⟩
  exact ⟨_, mem_cons_self, by decide⟩

theorem blocked_jobs_wait_released :
    let r := storeSystem.exec releasedAfterUpstream [] DB.empty
    r.2.tasks.map (·.status) = [.succeeded, .succeeded, .succeeded, .assigned, .ready] ∧
      ∀ σ req, (σ, Op.leaseTask req) ∈ r.1 → (leaseTask req σ).1 = .ok .leased →
        ∀ t ∈ σ.tasks, t.id = req.taskID → upstreamsCompleted σ t.jobID := by
  intro r
  have permits := releasedAfterUpstream_permits.guarded (C := RetryFree) (by
    simp [releasedAfterUpstream, smallBuild, smallSetup, smallLease, smallSuccess, RetryFree])
  have run := Run.start.exec permits
  rw [System.exec_guarded] at run
  exact ⟨by decide, (blocked_jobs_wait run).2⟩

def retriedWhileBlocked : List Op :=
  smallSetup ++ [.submit waitingPlan true, .cancelTaskExecution 200 failureReasonCanceledByUser 60,
    .finalizeStep 20, .retryTasks 2 (some [200]), .releaseStep 20, smallLease 200 2000]

lemma retriedWhileBlocked_permits : storeSystem.Permits retriedWhileBlocked [] DB.empty := by
  refine smallSetup_permits _ ⟨waitingPlan_read (by decide), trivial, trivial, trivial, ?_, trivial, trivial⟩
  refine ⟨_, .now, ⟨20, 2, "comp", [], .pending⟩, by decide, rfl, by decide, .inr (.inl ?_)⟩
  exact ⟨_, some [200], mem_cons_self, by decide⟩

theorem retry_frees_blocked_job :
    ∃ h db, StoreRun h db ∧ ⟨2, 1⟩ ∈ db.jobDependencies ∧ (∃ j ∈ db.jobs, j.id = 2 ∧ j.status = .blocked) ∧
      (∃ s ∈ db.steps, s.jobID = 2 ∧ s.status = .ready) ∧
      (∃ t ∈ db.tasks, t.jobID = 2 ∧ t.status = .assigned) ∧
      ∀ e ∈ h, ∀ u ∈ e.1.jobs, u.id = 1 → u.status ≠ .completed :=
  ⟨_, _, Run.start.exec retriedWhileBlocked_permits, by decide⟩

end Sqi

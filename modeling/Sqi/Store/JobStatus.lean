import Sqi.Store.Wellformed

/-! The status column of the job table: what each transaction makes of one row, as a function of the state
and the row. -/

namespace Sqi
open List Table Transition

def Op.jobStatus (db : DB) (j : Job) : Op → JobStatus
  | .cancelJobExecution id .. => if j.id = id ∧ ¬ j.status.IsTerminal then .canceled else j.status
  | .retryTasks id taskIDs =>
    if j.id = id ∧ retryResets j ∧ ∃ t ∈ db.tasks, retryMatches id taskIDs t then .pending
    else j.status
  | .finalizeJob id _ =>
    if j.id = id ∧ ¬ j.status.IsTerminal ∧ jobHasNoOpenStep db j.id then jobOutcome db j.id
    else j.status
  | .releaseBlockedJob id =>
    if j.id = id ∧ j.status = .blocked ∧ upstreamsCompleted db j.id then .pending else j.status
  | .cancelBlockedJob id .. => if j.id = id ∧ j.status = .blocked then .canceled else j.status
  | .promoteJobRunning id _ => if j.id = id ∧ j.status = .pending then .running else j.status
  | .demoteStalledJob id => if j.id = id ∧ stalledJob db j then .pending else j.status
  | .pauseJob id =>
    if j.id = id ∧ (j.status = .pending ∨ j.status = .running) then .paused else j.status
  | .parkJob id _ => if j.id = id ∧ ¬ j.status.IsTerminal then .paused else j.status
  | .resumeJob id => if j.id = id ∧ j.status = .paused then .pending else j.status
  | _ => j.status

def Job.Steps (db : DB) (op : Op) (j j' : Job) : Prop := j'.id = j.id ∧ j'.status = op.jobStatus db j

section
variable {db : DB} {op : Op} {id : ID}

lemma jobSteps_update {p : Job → Prop} [DecidablePred p] {f : Job → Job}
    (hf : ∀ j, (f j).id = j.id) (h : ∀ j, op.jobStatus db j = if p j then (f j).status else j.status) :
    Forall₂ (Job.Steps db op) db.jobs (update p f db.jobs) := by
  refine forall₂_update_iff.mpr fun j _ => ?_
  rw [Job.Steps, h]
  split
  · exact ⟨hf j, rfl⟩
  · exact ⟨rfl, rfl⟩

lemma jobSteps_refl (h : ∀ j ∈ db.jobs, op.jobStatus db j = j.status) :
    Forall₂ (Job.Steps db op) db.jobs db.jobs :=
  forall₂_same.mpr fun j hj => ⟨rfl, (h j hj).symm⟩
lemma job?_none_id (h : db.job? id = none) : ∀ j ∈ db.jobs, j.id ≠ id := by
  simpa [DB.job?, find?_eq_none] using h
lemma WF.job_of_id (wf : WF db) {j0 : Job} (h : db.job? id = some j0) {j : Job}
    (hj : j ∈ db.jobs) (e : j.id = id) : j = j0 := by
  obtain ⟨hmem, hid⟩ := DB.job?_some h
  exact wf.jobs_keyed.eq_of_mem hj hmem (e.trans hid.symm)
lemma finalizeStep_jobs (id : ID) : (finalizeStep id db).2.jobs = db.jobs :=
  finalizeStep_of (R := fun d => d.jobs = db.jobs) rfl rfl

end

lemma Op.jobSteps {op : Op} (hsub : ∀ p blocked, op ≠ .submit p blocked) {db : DB} (wf : WF db) :
    Forall₂ (Job.Steps db op) db.jobs (op.apply db).jobs := by
  by_cases hw : op.WorkerSide
  · have same : ∀ j, op.jobStatus db j = j.status := by
      intro j
      cases op <;> first | rfl | exact hw.elim
    exact (Op.levels hw db).jobs.imp fun j j' e => ⟨e.1, e.2.trans (same j).symm⟩
  cases op with
  | submit p blocked => exact absurd rfl (hsub p blocked)
  | cancelJobExecution id | promoteJobRunning id | demoteStalledJob id | parkJob id | resumeJob id =>
    exact jobSteps_update (fun _ => rfl) fun _ => rfl
  | retryTasks id taskIDs =>
    rcases retryTasks_cases id taskIDs db with ⟨hno, _, h⟩ | ⟨hmatch, _, h⟩ <;> rw [Op.apply, h]
    · exact jobSteps_refl fun j _ => if_neg fun hp => hno hp.2.2
    · exact jobSteps_update (fun _ => rfl) fun j => by simp only [Op.jobStatus, hmatch, and_true]
  | finalizeStep id =>
    rw [Op.apply, finalizeStep_jobs]
    exact jobSteps_refl fun _ _ => rfl
  | releaseStep id | cancelPendingStep id =>
    exact moveStep_of (R := fun d => Forall₂ (Job.Steps db _) db.jobs d.jobs)
      (jobSteps_refl fun _ _ => rfl) fun _ _ _ => jobSteps_refl fun _ _ => rfl
  | finalizeJob id now =>
    simp only [Op.apply, Sqi.finalizeJob]
    split
    · rename_i hnone
      exact jobSteps_refl fun j hj => if_neg fun hp => job?_none_id hnone j hj hp.1
    rename_i j0 hj0
    split
    · rename_i hterm
      refine jobSteps_refl fun j hj => if_neg ?_
      rintro ⟨e, hopen, _⟩
      exact hopen (wf.job_of_id hj0 hj e ▸ hterm)
    split
    · exact jobSteps_update (fun _ => rfl) fun _ => rfl
    rename_i hopen
    refine jobSteps_refl fun j _ => if_neg ?_
    rintro ⟨rfl, _, hclosed⟩
    exact hopen hclosed
  | releaseBlockedJob id =>
    simp only [Op.apply, Sqi.releaseBlockedJob]
    split
    · rename_i hnone
      exact jobSteps_refl fun j hj => if_neg fun hp => job?_none_id hnone j hj hp.1
    · exact jobSteps_update (fun _ => rfl) fun _ => rfl
  | cancelBlockedJob id reason now =>
    simp only [Op.apply, Sqi.cancelBlockedJob]
    split
    · rename_i hnone
      exact jobSteps_refl fun j hj => if_neg fun hp => job?_none_id hnone j hj hp.1
    rename_i j0 hj0
    split
    · rename_i hne
      refine jobSteps_refl fun j hj => if_neg ?_
      rintro ⟨e, hst⟩
      exact hne (wf.job_of_id hj0 hj e ▸ hst)
    · exact jobSteps_update (fun _ => rfl) fun _ => rfl
  | pauseJob id =>
    simp only [Op.apply, Sqi.pauseJob]
    split
    · rename_i hnone
      exact jobSteps_refl fun j hj => if_neg fun hp => job?_none_id hnone j hj hp.1
    rename_i j0 hj0
    split
    · exact jobSteps_update (fun _ => rfl) fun _ => rfl
    rename_i hne
    refine jobSteps_refl fun j hj => if_neg ?_
    rintro ⟨e, hst⟩
    exact hne (wf.job_of_id hj0 hj e ▸ hst)
  | _ => exact absurd trivial hw

lemma Op.jobStatus_eq {op : Op} (hsub : ∀ p blocked, op ≠ .submit p blocked) {db : DB} (wf : WF db)
    {j j' : Job} (hj : j ∈ db.jobs) (hj' : j' ∈ (op.apply db).jobs) (e : j'.id = j.id) :
    j'.status = op.jobStatus db j := by
  obtain ⟨j0, hj0, e0, hst⟩ := of_mem_right (Op.jobSteps hsub wf) hj'
  rwa [wf.jobs_keyed.eq_of_mem hj0 hj (e0.symm.trans e)] at hst

end Sqi

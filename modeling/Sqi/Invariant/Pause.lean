import Sqi.Invariant.Gating
import Sqi.Store.JobStatus

/-! A job an operator paused. -/

namespace Sqi
open Table Transition

def Op.resumes (id : ID) : Op → Bool
  | .resumeJob id' => id' = id
  | _ => false
def RetryUnparked (id : ID) (db : DB) : Op → Prop
  | .retryTasks jobID taskIDs => jobID = id → (∃ t ∈ db.tasks, retryMatches jobID taskIDs t) →
      ∀ j ∈ db.jobs, j.id = id → j.parkReason = ""
  | _ => True
def PausedOrEnded (id : ID) (db : DB) : Prop :=
  ∃ j ∈ db.jobs, j.id = id ∧ (j.status = .paused ∨ j.status.IsTerminal)

section
variable {db : DB} {id : ID} {j : Job} {op : Op}

lemma pauseJob_pauses (h : (pauseJob id db).1 = .ok ()) : PausedOrEnded id (Op.apply (.pauseJob id) db) := by
  simp only [Op.apply]
  unfold pauseJob at h ⊢
  split at h
  · cases h
  rename_i j hj
  split_ifs at h ⊢ with hst
  obtain ⟨hmem, hid⟩ := DB.job?_some hj
  exact ⟨{ j with status := .paused }, mem_update.mpr ⟨j, hmem, if_pos ⟨hid, hst⟩⟩, hid, .inl rfl⟩

lemma jobStatus_paused (hst : j.status = .paused) (hj : j ∈ db.jobs)
    (hid : j.id = id) (hresume : op.resumes id = false) (hretry : RetryUnparked id db op) :
    op.jobStatus db j = .paused ∨ (op.jobStatus db j).IsTerminal := by
  have terminal : ∀ k, (jobOutcome db k).IsTerminal := by
    intro k
    unfold jobOutcome
    split_ifs <;> simp [JobStatus.IsTerminal]
  cases op with
  | cancelJobExecution | cancelBlockedJob =>
    simp only [Op.jobStatus]
    split
    · exact .inr (.inr (.inr rfl))
    · exact .inl hst
  | retryTasks jobID taskIDs =>
    simp only [Op.jobStatus]
    split
    · rename_i hp
      have hpark := hretry (hp.1.symm.trans hid) hp.2.2 j hj hid
      rcases hp.2.1 with hu | ⟨_, hne⟩
      · simp [hst, JobStatus.Unsuccessful] at hu
      · exact absurd hpark hne
    · exact .inl hst
  | finalizeJob =>
    simp only [Op.jobStatus]
    split
    · exact .inr (terminal _)
    · exact .inl hst
  | resumeJob id' =>
    simp only [Op.jobStatus]
    split
    · rename_i hp
      simp [Op.resumes, ← hp.1, hid] at hresume
    · exact .inl hst
  | parkJob => simp [Op.jobStatus, hst]
  | _ => exact .inl (by simp [Op.jobStatus, hst, stalledJob])

lemma PausedOrEnded.step (wf : WF db) (h : PausedOrEnded id db)
    (hopen : ∀ j ∈ db.jobs, j.id = id → ¬ j.status.IsTerminal) (hresume : op.resumes id = false)
    (hretry : RetryUnparked id db op) : PausedOrEnded id (op.apply db) := by
  obtain ⟨j, hj, hid, hst⟩ := h
  have hpaused : j.status = .paused := hst.resolve_right (hopen j hj hid)
  by_cases hsub : ∃ p blocked, op = .submit p blocked
  · obtain ⟨p, blocked, rfl⟩ := hsub
    exact ⟨j, submit_jobs_subset _ hj, hid, .inl hpaused⟩
  · obtain ⟨j', hj', e', hst'⟩ := of_mem_left (Op.jobSteps (fun p b e => hsub ⟨p, b, e⟩) wf) hj
    exact ⟨j', hj', e'.trans hid, hst' ▸ jobStatus_paused hpaused hj hid hresume hretry⟩

lemma leaseTask_paused (wf : WF db) (hj : j ∈ db.jobs) (hpaused : j.status = .paused)
    {req : LeaseRequest} (hleased : (leaseTask req db).1 = .ok .leased) {t : Task} (ht : t ∈ db.tasks)
    (e : t.id = req.taskID) : t.jobID ≠ j.id := by
  rcases leaseTask_cases req db with ⟨hne, _⟩ | ⟨scope, _, ⟨t0, ht0, hm0⟩, _⟩
  · exact absurd hleased hne
  obtain ⟨hid, _, _, ⟨j0, hj0, e0, _, _, hlease, _⟩, _⟩ := hm0
  intro ej
  have heq : t = t0 := wf.tasks_keyed.eq_of_mem ht ht0 (e.trans hid.symm)
  have : j0 = j := wf.jobs_keyed.eq_of_mem hj0 hj (by rw [e0, ← heq, ej])
  exact hlease.1 (this ▸ hpaused)

end

/-- From a pause on, until the operator resumes the job or it ends, none of its tasks is leased. -/
theorem paused_until_resumed {later earlier : History} {σ db : DB} {id : ID}
    (run : StoreRun (later ++ (σ, .pauseJob id) :: earlier) db)
    (hpause : (pauseJob id σ).1 = .ok ())
    (hresume : ∀ e ∈ later, e.2.resumes id = false)
    (hopen : ∀ e ∈ later, ∀ j ∈ e.1.jobs, j.id = id → ¬ j.status.IsTerminal)
    (hretry : ∀ e ∈ later, RetryUnparked id e.1 e.2) :
    (∃ j ∈ db.jobs, j.id = id ∧ (j.status = .paused ∨ j.status.IsTerminal)) ∧
    ∀ e ∈ later, (∃ j ∈ e.1.jobs, j.id = id ∧ j.status = .paused) ∧
      ∀ req, e.2 = .leaseTask req → (leaseTask req e.1).1 = .ok .leased →
        ∀ t ∈ e.1.tasks, t.id = req.taskID → t.jobID ≠ id := by
  have paused : PausedOrEnded id db ∧ ∀ e ∈ later, PausedOrEnded id e.1 := by
    refine run.since ?_ ?_
    · intro s₀ run₀
      cases run₀ with
      | step _ _ _ => exact pauseJob_pauses hpause
    · intro h₁ s₁ op hmem run₁ _ hp
      exact hp.step (wf_run run₁) (hopen _ hmem) (hresume _ hmem) (hretry _ hmem)
  refine ⟨paused.1, fun e he => ?_⟩
  obtain ⟨j, hj, rfl, hst⟩ := paused.2 e he
  have hpaused := hst.resolve_right (hopen e he j hj rfl)
  refine ⟨⟨j, hj, rfl, hpaused⟩, fun req hop hleased t ht et => ?_⟩
  obtain ⟨h₁, run₁, _⟩ := run.at_entry (List.mem_append_left _ he)
  exact leaseTask_paused (wf_run run₁) hj hpaused hleased ht et

def limitedPlan : SubmissionPlan :=
  { smallPlan with retry := ⟨none, none, some 1⟩ }
def limitedStart : List Op :=
  [.saveFarm ⟨1, 0, noRetry⟩, .saveQueue ⟨1, false, 4, noRetry⟩, .saveUsagePool ⟨1, "licences", 2⟩,
    .submit limitedPlan false, smallLease 100 1000]
def limitedDB : DB := (storeSystem.exec limitedStart [] DB.empty).2

lemma limitedStart_paused :
    StoreRun ((limitedDB, .pauseJob 1) :: (storeSystem.exec limitedStart [] DB.empty).1)
      (Op.apply (.pauseJob 1) limitedDB) := by
  refine .step _ (Run.start.exec ?_) trivial
  exact ⟨trivial, trivial, trivial, dependenciesRead_nil rfl, trivial, trivial⟩

def retryWhilePaused : List Op :=
  [.cancelTaskExecution 101 failureReasonCanceledByUser 60, .retryTasks 1 (some [101]), smallLease 101 1001]

theorem paused_until_resumed_retry :
    let r := storeSystem.exec retryWhilePaused [] (Op.apply (.pauseJob 1) limitedDB)
    (∃ j ∈ r.2.jobs, j.id = 1 ∧ (j.status = .paused ∨ j.status.IsTerminal)) ∧
    ∀ e ∈ r.1, (∃ j ∈ e.1.jobs, j.id = 1 ∧ j.status = .paused) ∧
      ∀ req, e.2 = .leaseTask req → (leaseTask req e.1).1 = .ok .leased →
        ∀ t ∈ e.1.tasks, t.id = req.taskID → t.jobID ≠ 1 := by
  have run := limitedStart_paused.exec_since
    (show storeSystem.Permits retryWhilePaused _ _ from ⟨trivial, trivial, trivial, trivial⟩)
  refine paused_until_resumed run rfl (by decide) (by decide) ?_
  intro e he
  have unparked : ∀ e ∈ (storeSystem.exec retryWhilePaused [] (Op.apply (.pauseJob 1) limitedDB)).1,
      ∀ j ∈ e.1.jobs, j.parkReason = "" := by decide
  cases hop : e.2 with
  | retryTasks => exact fun _ _ j hj _ => unparked e he j hj
  | _ => trivial

def retryWhileParked : List Op :=
  [.recordTaskFailure 1000 100 (some 1) "s" "boom" 60 60, .parkJob 1 (parkedReason 1),
    .completeTaskAttempt ⟨1000, 100, .failed, some 1, "s", "boom", "boom", 60⟩ 60,
    .retryTasks 1 none, smallLease 100 1002]

lemma retryWhileParked_permits (h : History) :
    storeSystem.Permits retryWhileParked h (Op.apply (.pauseJob 1) limitedDB) := by
  refine ⟨⟨_, .now, by decide⟩, ?_, ⟨⟨_, .now, by decide⟩, fun _ => ?_⟩, trivial, trivial, trivial⟩
  · exact ⟨_, 1000, 100, some 1, "s", "boom", 60, 60, _, 1, List.mem_cons_self, rfl, by decide⟩
  · exact ⟨_, _, _, _, _, _, _, List.mem_cons_of_mem _ List.mem_cons_self, rfl⟩

theorem retry_resumes_paused_job :
    ∃ later earlier σ db, StoreRun (later ++ (σ, .pauseJob 1) :: earlier) db ∧
      (pauseJob 1 σ).1 = .ok () ∧ (∀ e ∈ later, e.2.resumes 1 = false) ∧
      (∀ e ∈ later, ∀ j ∈ e.1.jobs, j.id = 1 → ¬ j.status.IsTerminal) ∧
      (∃ j ∈ db.jobs, j.id = 1 ∧ j.status = .pending) ∧
      ∃ t ∈ db.tasks, t.id = 100 ∧ t.jobID = 1 ∧ t.status = .assigned :=
  ⟨_, _, limitedDB, _, limitedStart_paused.exec_since (retryWhileParked_permits _), rfl, by decide,
    by decide, by decide, by decide⟩

end Sqi

import Sqi.Store.Effects

/-! Keys and references hold in every reachable state: `SameKeys` for the
transactions on steps and jobs, and the two that insert rows. -/

namespace Sqi
open List Table Transition

def Op.Inserts : Op → Prop
  | .submit .. | .leaseTask .. => True
  | _ => False

lemma Op.sameKeys (op : Op) (hi : ¬ op.Inserts) (db : DB) : SameKeys db (op.apply db) := by
  by_cases hw : op.WorkerSide
  · by_cases ht : op.Tallies
    · cases op with
      | leaseTask => exact absurd trivial hi
      | recordTaskFailure => exact (recordFailure_levels ..).2
      | _ => exact ht.elim
    · exact (Op.workSide hw ht db).sameKeys
  by_cases hj : op.OnJobRow
  · exact (Op.jobRows hj db).sameKeys
  cases op with
  | submit => exact absurd trivial hi
  | cancelJobExecution jobID reason now =>
    have tasks : SameKeys db (sqlCancelJobTasks reason jobID db) := .updateTasks fun _ => rfl
    have attempts : ∀ d, SameKeys d (sqlCancelJobAttempts now jobID d) := fun _ => .updateAttempts fun _ => rfl
    have claims : ∀ d, SameKeys d (sqlReleaseClosedJobClaims now jobID d) := fun _ => .updateClaims
    have steps : ∀ d, SameKeys d (sqlCancelJobFinalizeSteps jobID d) := fun _ => .updateSteps fun _ => rfl
    exact (((tasks.trans (attempts _)).trans (claims _)).trans (steps _)).trans (.updateJobs fun _ => rfl)
  | retryTasks jobID taskIDs =>
    have tasks : SameKeys db (sqlRetryTasks jobID taskIDs db) := .updateTasks fun _ => rfl
    have steps : ∀ d, SameKeys d (sqlRetryResetSteps jobID d) := fun _ => .updateSteps fun _ => rfl
    exact retryTasks_of (.refl db) fun _ => (tasks.trans (steps _)).trans (.updateJobs fun _ => rfl)
  | finalizeStep => exact finalizeStep_of (.refl db) (.updateSteps fun _ => rfl)
  | finalizeJob => exact finalizeJob_of (.refl db) (.updateJobs fun _ => rfl)
  | releaseStep | cancelPendingStep =>
    have guarded : ∀ stepTo id, SameKeys db (sqlGuardStepPending stepTo id db) := fun _ _ => .updateSteps fun _ => rfl
    exact moveStep_of (.refl db) fun _ _ _ => (guarded _ _).trans (.updateTasks fun _ => rfl)
  | cancelBlockedJob id reason now =>
    have job : SameKeys db (sqlCancelBlockedJobRow id now db) := .updateJobs fun _ => rfl
    have steps : ∀ d, SameKeys d (sqlCancelJobOpenSteps id d) := fun _ => .updateSteps fun _ => rfl
    exact cancelBlocked_of (.refl db) fun _ _ _ => (job.trans (steps _)).trans (.updateTasks fun _ => rfl)
  | _ => first | exact absurd trivial hw | exact absurd trivial hj

section
variable {db : DB}

lemma leasedState_wf {scope : LeaseScope} {req : LeaseRequest}
    (hmatch : ∃ t ∈ db.tasks, leaseMatches db scope req t)
    (hfresh : ∀ a ∈ db.attempts, a.id ≠ req.attemptID) (wf : WF db) :
    WF (leasedState scope req db) := by
  have assigned : WF (leaseTaskRow scope req db) := wf.of_sameKeys (.updateTasks fun _ => rfl)
  refine { assigned with
    attempts_keyed := assigned.attempts_keyed.append_singleton hfresh
    attempt_task := ?_ }
  intro a ha
  rcases mem_append.mp ha with ha | ha
  · exact assigned.attempt_task a ha
  obtain ⟨t, ht, hm⟩ := hmatch
  refine ⟨_, mem_update.mpr ⟨t, ht, rfl⟩, ?_⟩
  rw [mem_singleton.mp ha, if_pos hm]
  exact hm.1

lemma leaseTask_wf (req : LeaseRequest) (wf : WF db) : WF (leaseTask req db).2 :=
  leaseTask_of wf fun _ hmatch hfresh => leasedState_wf hmatch hfresh wf

end
section
variable {db : DB} {p : SubmissionPlan} {blocked : Bool} {jobID : ID}

lemma WF.step_jobID_ne (wf : WF db) (hfree : ∀ j ∈ db.jobs, j.id ≠ jobID)
    {s : Step} (hs : s ∈ db.steps) : s.jobID ≠ jobID := by
  obtain ⟨j, hj, e⟩ := wf.step_job s hs
  exact e ▸ hfree j hj
lemma WF.task_jobID_ne (wf : WF db) (hfree : ∀ j ∈ db.jobs, j.id ≠ jobID)
    {t : Task} (ht : t ∈ db.tasks) : t.jobID ≠ jobID := by
  obtain ⟨s, hs, _, e⟩ := wf.task_step t ht
  exact e ▸ wf.step_jobID_ne hfree hs

lemma submittedState_wf (hjob : jobInsertable (buildSubmission p blocked).job db)
    (hrows : rowsInsertable (buildSubmission p blocked) db) (wf : WF db) :
    WF (submittedState (buildSubmission p blocked) db) := by
  have hfree : ∀ j ∈ db.jobs, j.id ≠ p.jobID := hjob.1
  have newStep : ∀ {sp}, sp ∈ p.steps → buildStep p.jobID blocked sp ∈ db.steps ++ (buildSubmission p blocked).steps :=
    fun h => mem_append_right _ (mem_newSteps.mpr ⟨_, h, rfl⟩)
  constructor
  case jobs_keyed => exact wf.jobs_keyed.append_singleton hfree
  case steps_keyed => exact hrows.1
  case tasks_keyed => exact hrows.2.2
  case attempts_keyed => exact wf.attempts_keyed
  case names =>
    intro s hs s' hs' hj hn
    rcases mem_append.mp hs with hs | hs <;> rcases mem_append.mp hs' with hs' | hs'
    · exact wf.names s hs s' hs' hj hn
    · obtain ⟨sp', _, rfl⟩ := mem_newSteps.mp hs'
      exact absurd hj (wf.step_jobID_ne hfree hs)
    · obtain ⟨sp, _, rfl⟩ := mem_newSteps.mp hs
      exact absurd hj.symm (wf.step_jobID_ne hfree hs')
    · exact congrArg Step.id (inj_on_of_nodup_map hrows.2.1 hs hs' hn)
  case step_job =>
    intro s hs
    rcases mem_append.mp hs with hs | hs
    · obtain ⟨j, hj, e⟩ := wf.step_job s hs
      exact ⟨j, mem_append_left _ hj, e⟩
    · obtain ⟨sp, _, rfl⟩ := mem_newSteps.mp hs
      exact ⟨_, mem_append_right _ (mem_singleton_self _), rfl⟩
  case job_step =>
    intro j hj
    rcases mem_append.mp hj with hj | hj
    · obtain ⟨s, hs, e⟩ := wf.job_step j hj
      exact ⟨s, mem_append_left _ hs, e⟩
    · obtain ⟨sp, hsp⟩ := exists_mem_of_ne_nil _ p.steps_ne
      exact ⟨_, newStep hsp, by rw [mem_singleton.mp hj]; rfl⟩
  case task_step =>
    intro t ht
    rcases mem_append.mp ht with ht | ht
    · obtain ⟨s, hs, e⟩ := wf.task_step t ht
      exact ⟨s, mem_append_left _ hs, e⟩
    · obtain ⟨sp, hsp, id, _, rfl⟩ := mem_newTasks.mp ht
      exact ⟨_, newStep hsp, rfl, rfl⟩
  case step_task =>
    intro s hs
    rcases mem_append.mp hs with hs | hs
    · obtain ⟨t, ht, e⟩ := wf.step_task s hs
      exact ⟨t, mem_append_left _ ht, e⟩
    · obtain ⟨sp, hsp, rfl⟩ := mem_newSteps.mp hs
      obtain ⟨id, hid⟩ := exists_mem_of_ne_nil _ (p.tasks_ne sp hsp)
      exact ⟨_, mem_append_right _ (mem_newTasks.mpr ⟨sp, hsp, id, hid, rfl⟩), rfl⟩
  case deps_declared =>
    intro s hs d hd
    rcases mem_append.mp hs with hs | hs
    · obtain ⟨s', hs', e⟩ := wf.deps_declared s hs d hd
      exact ⟨s', mem_append_left _ hs', e⟩
    · obtain ⟨sp, hsp, rfl⟩ := mem_newSteps.mp hs
      obtain ⟨sp', hsp', e⟩ := p.deps_declared sp hsp d hd
      exact ⟨_, newStep hsp', rfl, e⟩
  case attempt_task =>
    intro a ha
    obtain ⟨t, ht, e⟩ := wf.attempt_task a ha
    exact ⟨t, mem_append_left _ ht, e⟩
  case edge_job =>
    intro e he
    rcases mem_insertDeps.mp he with he | ⟨up, _, rfl⟩
    · obtain ⟨j, hj, ej⟩ := wf.edge_job e he
      exact ⟨j, mem_append_left _ hj, ej⟩
    · exact ⟨_, mem_append_right _ (mem_singleton_self _), rfl⟩

end

lemma Op.wf (op : Op) {db : DB} (wf : WF db) : WF (op.apply db) := by
  by_cases hi : op.Inserts
  swap
  · exact wf.of_sameKeys (op.sameKeys hi db)
  cases op with
  | submit p blocked => exact submission_of wf fun hjob hrows => submittedState_wf hjob hrows wf
  | leaseTask req => exact leaseTask_wf req wf
  | _ => exact hi.elim

lemma wf_run {h : History} {db : DB} (run : StoreRun h db) : WF db :=
  run.safe WF.empty fun _ _ op _ wf _ => op.wf wf

end Sqi

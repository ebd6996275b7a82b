import Sqi.Invariant.Closing

/-! What every transaction but a lease leaves alone. -/

namespace Sqi
open Table Transition

def Job.place (j : Job) : ID × ID × ID := (j.id, j.queueID, j.farmID)
def Task.Landed (t t' : Task) : Prop :=
  t'.key = t.key ∧ (t'.status.InFlight → t.status.InFlight)

structure Quiet (db db' : DB) : Prop where
  tasks : List.Forall₂ Task.Landed db.tasks db'.tasks
  jobs : db'.jobs.map Job.place = db.jobs.map Job.place
  claims : List.Forall₂ UsageClaim.Kept db.claims db'.claims
  queues : db'.queues = db.queues
  farms : db'.farms = db.farms
  pools : db'.pools = db.pools

def Task.Rests (t t' : Task) : Prop :=
  t'.key = t.key ∧ (t'.status.InFlight → t.status.InFlight ∧ t'.assignedWorkerID = t.assignedWorkerID)

structure Calm (db db' : DB) : Prop where
  tasks : List.Forall₂ Task.Rests db.tasks db'.tasks
  jobs : db'.jobs.map Job.place = db.jobs.map Job.place
  claims : List.Forall₂ UsageClaim.Kept db.claims db'.claims
  queues : db'.queues = db.queues
  farms : db'.farms = db.farms
  pools : db'.pools = db.pools

lemma Task.Rests.refl (t : Task) : t.Rests t := ⟨rfl, fun h => ⟨h, rfl⟩⟩
lemma Task.Rests.trans {t t' t'' : Task} (h1 : t.Rests t') (h2 : t'.Rests t'') : t.Rests t'' := by
  refine ⟨h2.1.trans h1.1, fun h => ?_⟩
  obtain ⟨hf, hw⟩ := h2.2 h
  exact ⟨(h1.2 hf).1, hw.trans (h1.2 hf).2⟩

lemma UsageClaim.Kept.trans {c c' c'' : UsageClaim} (h1 : c.Kept c') (h2 : c'.Kept c'') : c.Kept c'' :=
  ⟨h2.1.trans h1.1, h2.2.1.trans h1.2.1, fun h => h1.2.2 (h2.2.2 h)⟩
lemma kept_release (now : Time) (c : UsageClaim) : c.Kept { c with releasedAt := some now } :=
  ⟨rfl, rfl, nofun⟩

namespace Calm
variable {db db' : DB} {f : Task → Task} {p : Task → Prop}

@[refl] lemma refl (db : DB) : Calm db db :=
  ⟨forall₂_refl Task.Rests.refl _, rfl, forall₂_refl UsageClaim.Kept.refl _, rfl, rfl, rfl⟩

lemma trans {db'' : DB} (h1 : Calm db db') (h2 : Calm db' db'') : Calm db db'' where
  tasks := forall₂_trans (fun _ _ _ k1 k2 => k1.trans k2) h1.tasks h2.tasks
  jobs := h2.jobs.trans h1.jobs
  claims := forall₂_trans (fun _ _ _ k1 k2 => k1.trans k2) h1.claims h2.claims
  queues := h2.queues.trans h1.queues
  farms := h2.farms.trans h1.farms
  pools := h2.pools.trans h1.pools

lemma quiet (h : Calm db db') : Quiet db db' :=
  ⟨h.tasks.imp fun _ _ r => ⟨r.1, fun hf => (r.2 hf).1⟩, h.jobs, h.claims, h.queues, h.farms, h.pools⟩
lemma updateTasks [DecidablePred p] (h : Calm db db')
    (hf : ∀ t, p t → t.Rests (f t)) : Calm db (db'.updateTasks p f) :=
  h.trans { Calm.refl db' with tasks := forall₂_update Task.Rests.refl hf }
lemma lands [DecidablePred p] (h : Calm db db')
    (hk : ∀ t, (f t).key = t.key) (hf : ∀ t, ¬ (f t).status.InFlight) :
    Calm db (db'.updateTasks p f) :=
  h.updateTasks fun t _ => ⟨hk t, fun h => absurd h (hf t)⟩

lemma updateJobs {p : Job → Prop} [DecidablePred p] {f : Job → Job} (h : Calm db db')
    (hf : ∀ j, p j → (f j).place = j.place) : Calm db (db'.updateJobs p f) :=
  h.trans { Calm.refl db' with jobs := map_update _ hf }
lemma updateClaims {p : UsageClaim → Prop} [DecidablePred p] {f : UsageClaim → UsageClaim}
    (h : Calm db db') (hf : ∀ c, p c → c.Kept (f c)) : Calm db (db'.updateClaims p f) :=
  h.trans { Calm.refl db' with claims := forall₂_update UsageClaim.Kept.refl hf }
lemma updateSteps {p : Step → Prop} [DecidablePred p] {f : Step → Step} (h : Calm db db') :
    Calm db (db'.updateSteps p f) := { h with }
lemma updateAttempts {p : TaskAttempt → Prop} [DecidablePred p] {f : TaskAttempt → TaskAttempt}
    (h : Calm db db') : Calm db (db'.updateAttempts p f) := { h with }

end Calm

/-! ## Transactions -/

section
variable {db db' : DB} {op : Op}

lemma closeTasks_calm (h : Calm db db') (ids : List ID) (st : AttemptStatus)
    (message : String) (now : Time) : Calm db (closeTasksAttempts ids st message now db') := by
  unfold closeTasksAttempts
  split
  · exact h
  · exact Calm.updateClaims (Calm.updateAttempts h) fun c _ => kept_release now c

lemma Calm.reported (db : DB) : Reported (Calm db) where
  workers h _ := { h with }
  note h _ := h.updateAttempts
  start h _ := h.updateTasks fun t ht => ⟨rfl, fun _ => ⟨by simp [ht.2, TaskStatus.InFlight], rfl⟩⟩
  reclaim h _ _ := closeTasks_calm
    (h.lands (f := reclaimTask) (fun _ => rfl) fun _ => by simp [reclaimTask, TaskStatus.InFlight]) ..

lemma Outcome.taskStatus_not_inFlight (o : Outcome) : ¬ o.taskStatus.InFlight := by
  cases o <;> simp [Outcome.taskStatus, TaskStatus.InFlight]
lemma Op.calm_onJobRow (h : op.OnJobRow) : Calm db (op.apply db) := by
  have written : ∀ (p : Job → Prop) [DecidablePred p] (f : Job → Job), (∀ j, (f j).place = j.place) →
      Calm db (db.updateJobs p f) := fun p _ f hf => (Calm.refl db).updateJobs fun j _ => hf j
  cases op with
  | releaseBlockedJob | pauseJob =>
    simp only [Op.apply, Sqi.releaseBlockedJob, Sqi.pauseJob]
    repeat' split
    all_goals first | rfl | exact written _ _ fun _ => rfl
  | promoteJobRunning | demoteStalledJob | parkJob | resumeJob => exact written _ _ fun _ => rfl
  | _ => exact h.elim

def Op.Loud : Op → Prop
  | .leaseTask .. | .submit .. | .updateJob .. | .saveFarm .. | .saveQueue .. | .saveUsagePool .. =>
    True
  | _ => False

lemma Op.calm (h : ¬ op.Loud) (db : DB) : Calm db (op.apply db) := by
  by_cases hr : op.IsReport
  · exact (Calm.reported db).apply op hr (.refl db)
  by_cases hj : op.OnJobRow
  · exact Op.calm_onJobRow hj
  cases op with
  | leaseTask | submit | updateJob | saveFarm | saveQueue | saveUsagePool => exact absurd trivial h
  | completeTaskAttempt r now =>
    have closed : Calm db (closeAttemptAndRelease r.completion now db) :=
      Calm.updateClaims (Calm.updateAttempts (.refl db)) fun c _ => kept_release now c
    refine complete_of (.refl db) closed (fun _ _ _ _ => ?_) fun d hd => ?_
    · exact closed.lands (fun _ => rfl) fun _ => r.outcome.taskStatus_not_inFlight
    · exact hd.updateTasks fun t _ => .refl t
  | recordTaskFailure attemptID taskID exitCode sessionID message at_ now =>
    have closed : Calm db (sqlReleaseAttemptClaims now attemptID
        (sqlCloseAttemptAsFailed attemptID exitCode sessionID message at_ db)) :=
      Calm.updateClaims (Calm.updateAttempts (.refl db)) fun c _ => kept_release now c
    refine recordFailure_of (.refl db) closed fun jobID d hd => ?_
    exact Calm.updateJobs (hd.updateTasks fun t _ => .refl t) fun _ _ => rfl
  | requeueTaskForRetry => exact Calm.lands (.refl db) (fun _ => rfl) fun _ => by simp [TaskStatus.InFlight]
  | cancelTaskExecution taskID reason now =>
    have canceled : Calm db (sqlCancelOneTask reason taskID db) :=
      Calm.lands (.refl db) (fun _ => rfl) fun _ => by simp [TaskStatus.InFlight]
    exact cancelTask_of (.refl db) (closeTasks_calm canceled ..)
  | cancelJobExecution jobID reason now =>
    have canceled : Calm db (sqlCancelJobTasks reason jobID db) :=
      Calm.lands (.refl db) (fun _ => rfl) fun _ => by simp [TaskStatus.InFlight]
    exact Calm.updateJobs (Calm.updateSteps (Calm.updateClaims (Calm.updateAttempts canceled)
      fun c _ => kept_release now c)) fun _ _ => rfl
  | retryTasks =>
    refine retryTasks_of (.refl db) fun _ => Calm.updateJobs (Calm.updateSteps ?_) fun _ _ => rfl
    exact Calm.lands (.refl db) (fun _ => rfl) fun t => by
      simp only [reviveTask, revivedStatus]
      split <;> simp [TaskStatus.InFlight]
  | finalizeStep => exact finalizeStep_of (.refl db) (.updateSteps (.refl db))
  | finalizeJob => exact finalizeJob_of (.refl db) (Calm.updateJobs (.refl db) fun _ _ => rfl)
  | releaseStep | cancelPendingStep =>
    exact moveStep_of (.refl db) fun _ _ _ =>
      Calm.lands (Calm.updateSteps (.refl db)) (fun _ => rfl) fun _ => by simp [TaskStatus.InFlight]
  | cancelBlockedJob =>
    exact cancelBlocked_of (.refl db) fun _ _ _ =>
      Calm.lands (Calm.updateSteps (Calm.updateJobs (.refl db) fun _ _ => rfl)) (fun _ => rfl)
        fun _ => by simp [TaskStatus.InFlight]
  | _ => first | exact absurd trivial hr | exact absurd trivial hj

lemma Op.quiet (h : ¬ op.Loud) (db : DB) : Quiet db (op.apply db) := (Op.calm h db).quiet

end

/-! ## Tasks in flight -/

def Task.Holds (u t : Task) : Prop :=
  u.id = t.id ∧ u.status.InFlight ∧ u.assignedWorkerID = t.assignedWorkerID
def LeaseRequest.Gives (req : LeaseRequest) (db : DB) (t : Task) : Prop :=
  (leaseTask req db).1 = .ok .leased ∧ t.id = req.taskID ∧ t.assignedWorkerID = some req.workerID
def LeasedSince (h : History) (t : Task) : Prop :=
  ∃ later σ req earlier, h = later ++ (σ, .leaseTask req) :: earlier ∧ req.Gives σ t ∧
    ∀ e ∈ later, ∃ u ∈ e.1.tasks, u.Holds t

lemma initialTaskStatus_landed (hold : Bool) (sp : StepPlan) : ¬ (initialTaskStatus hold sp).InFlight := by
  unfold initialTaskStatus
  split <;> simp [TaskStatus.InFlight]

lemma inFlight_cases (op : Op) {db : DB} {t : Task} (ht : t ∈ (op.apply db).tasks) (hf : t.status.InFlight) :
    (∃ u ∈ db.tasks, u.Holds t) ∨ ∃ req, op = .leaseTask req ∧ req.Gives db t := by
  have same : t ∈ db.tasks → ∃ u ∈ db.tasks, u.Holds t := fun h => ⟨t, h, rfl, hf, rfl⟩
  by_cases hl : op.Loud
  · cases op with
    | leaseTask req =>
      simp only [Op.apply] at ht
      rcases leaseTask_cases req db with ⟨_, e⟩ | ⟨scope, _, _, _, _, landed, e⟩ <;> rw [e] at ht
      · exact .inl (same ht)
      obtain ⟨u, hu, rfl⟩ := mem_update.mp ht
      split at hf
      next hm =>
        rw [if_pos hm]
        exact .inr ⟨req, rfl, landed, hm.1, rfl⟩
      next hm =>
        rw [if_neg hm]
        exact .inl ⟨u, hu, rfl, hf, rfl⟩
    | submit p blocked =>
      refine .inl (submission_of (R := fun d => t ∈ d.tasks → _) same (fun _ _ ht => ?_) ht)
      rcases List.mem_append.mp ht with ht | ht
      · exact same ht
      obtain ⟨sp, _, id, _, rfl⟩ := mem_newTasks.mp ht
      cases initialTaskStatus_landed _ _ hf
    | updateJob =>
      simp only [Op.apply, Sqi.updateJob] at ht
      split at ht <;> exact .inl (same ht)
    | saveFarm | saveQueue | saveUsagePool => exact .inl (same ht)
    | _ => exact hl.elim
  · obtain ⟨u, hu, hk, kept⟩ := of_mem_right (Op.calm hl db).tasks ht
    exact .inl ⟨u, hu, (congrArg Prod.fst hk).symm, (kept hf).1, (kept hf).2.symm⟩

/-- A task in flight was leased to the worker it names, and has been in flight with it ever since. -/
theorem inFlight_since_lease {h : History} {db : DB} (run : StoreRun h db) :
    ∀ t ∈ db.tasks, t.status.InFlight → LeasedSince h t := by
  induction run with
  | start => nofun
  | step op _ _ ih =>
    intro t ht hf
    rcases inFlight_cases op ht hf with ⟨u, hu, hid, hfu, hw⟩ | ⟨req, rfl, gives⟩
    · obtain ⟨later, σ, req, earlier, rfl, ⟨landed, htask, hworker⟩, since⟩ := ih u hu hfu
      refine ⟨(_, op) :: later, σ, req, earlier, rfl, ⟨landed, hid ▸ htask, hw ▸ hworker⟩, ?_⟩
      refine List.forall_mem_cons.mpr ⟨⟨u, hu, hid, hfu, hw⟩, fun e he => ?_⟩
      obtain ⟨v, hv, hvid, hvf, hvw⟩ := since e he
      exact ⟨v, hv, hvid.trans hid, hvf, hvw.trans hw⟩
    · exact ⟨[], _, req, _, rfl, gives, nofun⟩

theorem inFlight_since_lease_small :
    let r := storeSystem.exec (smallSetup ++ [smallLease 100 1000, smallLease 101 1001]) [] DB.empty
    ∃ t ∈ r.2.tasks, t.id = 100 ∧ LeasedSince r.1 t := by
  intro r
  obtain ⟨t, ht, hid, hf⟩ : ∃ t ∈ r.2.tasks, t.id = 100 ∧ t.status.InFlight := by decide +kernel
  have run : StoreRun r.1 r.2 := Run.start.exec (smallSetup_permits _ ⟨trivial, trivial, trivial⟩)
  exact ⟨t, ht, hid, inFlight_since_lease run t ht hf⟩

end Sqi

import Sqi.Store.System

/-! What each transaction can do, said once. -/

namespace Sqi
open Function List Table Transition

def Task.key (t : Task) : ID × ID × ID := (t.id, t.jobID, t.stepID)
def Step.key (s : Step) : ID × ID × String × List String := (s.id, s.jobID, s.name, s.dependsOn)
def TaskAttempt.key (a : TaskAttempt) : ID × ID × ID × Nat :=
  (a.id, a.taskID, a.workerID, a.attemptNumber)

structure SameKeys (db db' : DB) : Prop where
  jobs : db'.jobs.map (·.id) = db.jobs.map (·.id)
  edges : db'.jobDependencies = db.jobDependencies
  steps : db'.steps.map Step.key = db.steps.map Step.key
  tasks : db'.tasks.map Task.key = db.tasks.map Task.key
  attempts : db'.attempts.map TaskAttempt.key = db.attempts.map TaskAttempt.key

namespace SameKeys
variable {db db' db'' : DB}

@[refl] lemma refl (db : DB) : SameKeys db db := ⟨rfl, rfl, rfl, rfl, rfl⟩
lemma trans (h1 : SameKeys db db') (h2 : SameKeys db' db'') : SameKeys db db'' :=
  ⟨h2.jobs.trans h1.jobs, h2.edges.trans h1.edges, h2.steps.trans h1.steps,
    h2.tasks.trans h1.tasks, h2.attempts.trans h1.attempts⟩
lemma updateJobs {p : Job → Prop} [DecidablePred p] {f : Job → Job}
    (hf : ∀ j, (f j).id = j.id) : SameKeys db (db.updateJobs p f) :=
  ⟨map_update _ fun j _ => hf j, rfl, rfl, rfl, rfl⟩
lemma updateSteps {p : Step → Prop} [DecidablePred p] {f : Step → Step}
    (hf : ∀ s, (f s).key = s.key) : SameKeys db (db.updateSteps p f) :=
  ⟨rfl, rfl, map_update _ fun s _ => hf s, rfl, rfl⟩
lemma updateTasks {p : Task → Prop} [DecidablePred p] {f : Task → Task}
    (hf : ∀ t, (f t).key = t.key) : SameKeys db (db.updateTasks p f) :=
  ⟨rfl, rfl, rfl, map_update _ fun t _ => hf t, rfl⟩
lemma updateAttempts {p : TaskAttempt → Prop} [DecidablePred p] {f : TaskAttempt → TaskAttempt}
    (hf : ∀ a, (f a).key = a.key) : SameKeys db (db.updateAttempts p f) :=
  ⟨rfl, rfl, rfl, rfl, map_update _ fun a _ => hf a⟩
lemma updateClaims {p : UsageClaim → Prop} [DecidablePred p] {f : UsageClaim → UsageClaim} :
    SameKeys db (db.updateClaims p f) := ⟨rfl, rfl, rfl, rfl, rfl⟩

end SameKeys

lemma exists_key_of_mem {α β : Type} {key : α → β} {rows rows' : List α}
    (h : rows'.map key = rows.map key) {r : α} (hr : r ∈ rows) : ∃ r' ∈ rows', key r' = key r := by
  have hk : key r ∈ rows'.map key := h ▸ mem_map_of_mem hr
  exact mem_map.mp hk

namespace SameKeys
variable {db db' : DB} (h : SameKeys db db')
include h

lemma symm : SameKeys db' db := ⟨h.jobs.symm, h.edges.symm, h.steps.symm, h.tasks.symm, h.attempts.symm⟩
lemma step {s : Step} (hs : s ∈ db.steps) : ∃ r ∈ db'.steps,
    r.id = s.id ∧ r.jobID = s.jobID ∧ r.name = s.name ∧ r.dependsOn = s.dependsOn := by
  simpa [Step.key] using exists_key_of_mem h.steps hs
lemma task {t : Task} (ht : t ∈ db.tasks) :
    ∃ r ∈ db'.tasks, r.id = t.id ∧ r.jobID = t.jobID ∧ r.stepID = t.stepID := by
  simpa [Task.key] using exists_key_of_mem h.tasks ht
lemma attempt {a : TaskAttempt} (ha : a ∈ db.attempts) : ∃ r ∈ db'.attempts, r.id = a.id ∧
    r.taskID = a.taskID ∧ r.workerID = a.workerID ∧ r.attemptNumber = a.attemptNumber := by
  simpa [TaskAttempt.key] using exists_key_of_mem h.attempts ha

end SameKeys

/-! ## Well-formed states -/

structure WF (db : DB) : Prop where
  jobs_keyed : Keyed (·.id) db.jobs
  steps_keyed : Keyed (·.id) db.steps
  tasks_keyed : Keyed (·.id) db.tasks
  attempts_keyed : Keyed (·.id) db.attempts
  names : ∀ s ∈ db.steps, ∀ s' ∈ db.steps, s.jobID = s'.jobID → s.name = s'.name → s.id = s'.id
  step_job : ∀ s ∈ db.steps, ∃ j ∈ db.jobs, j.id = s.jobID
  job_step : ∀ j ∈ db.jobs, ∃ s ∈ db.steps, s.jobID = j.id
  task_step : ∀ t ∈ db.tasks, ∃ s ∈ db.steps, s.id = t.stepID ∧ s.jobID = t.jobID
  step_task : ∀ s ∈ db.steps, ∃ t ∈ db.tasks, t.stepID = s.id
  deps_declared : ∀ s ∈ db.steps, ∀ d ∈ s.dependsOn, ∃ s' ∈ db.steps, s'.jobID = s.jobID ∧ s'.name = d
  attempt_task : ∀ a ∈ db.attempts, ∃ t ∈ db.tasks, t.id = a.taskID
  edge_job : ∀ e ∈ db.jobDependencies, ∃ j ∈ db.jobs, j.id = e.jobID

section
variable {db : DB} {t : Task} {s : Step}

lemma WF.task?_eq (wf : WF db) (ht : t ∈ db.tasks) : db.task? t.id = some t := wf.tasks_keyed.find?_eq ht
lemma WF.job?_eq (wf : WF db) {j : Job} (hj : j ∈ db.jobs) : db.job? j.id = some j :=
  wf.jobs_keyed.find?_eq hj
lemma WF.step?_eq (wf : WF db) (hs : s ∈ db.steps) : db.step? s.id = some s := wf.steps_keyed.find?_eq hs
lemma WF.task_job (wf : WF db) (ht : t ∈ db.tasks) : ∃ j ∈ db.jobs, j.id = t.jobID := by
  obtain ⟨s, hs, _, e⟩ := wf.task_step t ht
  exact e ▸ wf.step_job s hs
lemma WF.task_jobID (wf : WF db) (ht : t ∈ db.tasks) (hs : s ∈ db.steps)
    (e : t.stepID = s.id) : t.jobID = s.jobID := by
  obtain ⟨s', hs', e1, e2⟩ := wf.task_step t ht
  rw [← e2, wf.steps_keyed.eq_of_mem hs' hs (e1.trans e)]

end

lemma WF.of_sameKeys {db db' : DB} (h : SameKeys db db') (wf : WF db) : WF db' := by
  have tasks_id : db'.tasks.map (·.id) = db.tasks.map (·.id) := by
    simpa only [map_map, comp_def, Task.key] using congrArg (List.map Prod.fst) h.tasks
  have steps_id : db'.steps.map (·.id) = db.steps.map (·.id) := by
    simpa only [map_map, comp_def, Step.key] using congrArg (List.map Prod.fst) h.steps
  have attempts_id : db'.attempts.map (·.id) = db.attempts.map (·.id) := by
    simpa only [map_map, comp_def, TaskAttempt.key] using congrArg (List.map Prod.fst) h.attempts
  constructor
  case jobs_keyed => simpa only [Keyed, h.jobs] using wf.jobs_keyed
  case steps_keyed => simpa only [Keyed, steps_id] using wf.steps_keyed
  case tasks_keyed => simpa only [Keyed, tasks_id] using wf.tasks_keyed
  case attempts_keyed => simpa only [Keyed, attempts_id] using wf.attempts_keyed
  case names =>
    intro s hs s' hs' hj hn
    obtain ⟨r, hr, e1, e2, e3, _⟩ := h.symm.step hs
    obtain ⟨r', hr', e1', e2', e3', _⟩ := h.symm.step hs'
    have := wf.names r hr r' hr' (by rw [e2, e2', hj]) (by rw [e3, e3', hn])
    rw [← e1, ← e1', this]
  case step_job =>
    intro s hs
    obtain ⟨r, hr, _, e2, _⟩ := h.symm.step hs
    obtain ⟨j, hj, e⟩ := wf.step_job r hr
    obtain ⟨j', hj', e'⟩ := exists_key_of_mem h.jobs hj
    exact ⟨j', hj', by simp_all⟩
  case job_step =>
    intro j hj
    obtain ⟨j0, hj0, e⟩ := exists_key_of_mem h.jobs.symm hj
    obtain ⟨r, hr, e1⟩ := wf.job_step j0 hj0
    obtain ⟨s, hs, _, e2, _⟩ := h.step hr
    exact ⟨s, hs, by simp_all⟩
  case task_step =>
    intro t ht
    obtain ⟨r, hr, _, e2, e3⟩ := h.symm.task ht
    obtain ⟨s, hs, e, e'⟩ := wf.task_step r hr
    obtain ⟨s', hs', e4, e₅, _⟩ := h.step hs
    exact ⟨s', hs', by rw [e4, e, e3], by rw [e₅, e', e2]⟩
  case step_task =>
    intro s hs
    obtain ⟨r, hr, e1, _⟩ := h.symm.step hs
    obtain ⟨t, ht, e⟩ := wf.step_task r hr
    obtain ⟨t', ht', _, _, e3⟩ := h.task ht
    exact ⟨t', ht', by rw [e3, e, e1]⟩
  case deps_declared =>
    intro s hs d hd
    obtain ⟨r, hr, _, e2, _, e4⟩ := h.symm.step hs
    obtain ⟨u, hu, e, e'⟩ := wf.deps_declared r hr d (e4 ▸ hd)
    obtain ⟨u', hu', _, e₆, e₇, _⟩ := h.step hu
    exact ⟨u', hu', by rw [e₆, e, e2], e₇.trans e'⟩
  case attempt_task =>
    intro a ha
    obtain ⟨b, hb, _, e, _⟩ := h.symm.attempt ha
    obtain ⟨t, ht, e'⟩ := wf.attempt_task b hb
    obtain ⟨t', ht', e1, _⟩ := h.task ht
    exact ⟨t', ht', by rw [e1, e', e]⟩
  case edge_job =>
    intro e he
    obtain ⟨j, hj, e'⟩ := wf.edge_job e (h.edges ▸ he)
    obtain ⟨j', hj', e''⟩ := exists_key_of_mem h.jobs hj
    exact ⟨j', hj', by simp_all⟩

lemma WF.empty : WF DB.empty := by constructor <;> simp [DB.empty, Keyed]

section
variable (ids : List ID) (st : AttemptStatus) (message : String) (now : Time) (db : DB)

@[simp] lemma closeTasks_tasks : (closeTasksAttempts ids st message now db).tasks = db.tasks := by
  unfold closeTasksAttempts; split <;> rfl
@[simp] lemma closeTasks_steps : (closeTasksAttempts ids st message now db).steps = db.steps := by
  unfold closeTasksAttempts; split <;> rfl
@[simp] lemma closeTasks_jobs : (closeTasksAttempts ids st message now db).jobs = db.jobs := by
  unfold closeTasksAttempts; split <;> rfl
@[simp] lemma closeTasks_jobDependencies :
    (closeTasksAttempts ids st message now db).jobDependencies = db.jobDependencies := by
  unfold closeTasksAttempts; split <;> rfl

lemma closeTasks_sameKeys : SameKeys db (closeTasksAttempts ids st message now db) := by
  unfold closeTasksAttempts
  split
  · rfl
  · have closed : SameKeys db (sqlCloseTasksRunningAttempts st now message ids db) := .updateAttempts fun _ => rfl
    exact closed.trans .updateClaims

end

/-! ## The worker side -/

def TaskStatus.Moves (a b : TaskStatus) : Prop :=
  b = a ∨ (a = .pending ∧ b = .canceled) ∨ ((a = .ready ∨ a.InFlight) ∧ b ≠ .pending)

lemma TaskStatus.Moves.refl (a : TaskStatus) : a.Moves a := .inl rfl
lemma TaskStatus.Moves.trans {a b c : TaskStatus} (h1 : a.Moves b) (h2 : b.Moves c) : a.Moves c := by
  unfold Moves InFlight at *
  grind
lemma TaskStatus.Moves.of_inFlight {a b : TaskStatus} (ha : a.InFlight) (hb : b ≠ .pending) :
    a.Moves b := .inr (.inr ⟨.inr ha, hb⟩)
lemma TaskStatus.Moves.to_canceled {a : TaskStatus} (ha : ¬ a.IsTerminal) : a.Moves .canceled := by
  cases a <;> simp_all [Moves, IsTerminal, InFlight]

def Task.Worked (t t' : Task) : Prop := t'.key = t.key ∧ t.status.Moves t'.status

structure Levels (db db' : DB) : Prop where
  steps : db'.steps = db.steps
  edges : db'.jobDependencies = db.jobDependencies
  jobs : Forall₂ (fun j j' => j'.id = j.id ∧ j'.status = j.status) db.jobs db'.jobs
  tasks : Forall₂ Task.Worked db.tasks db'.tasks

def Task.counter (t : Task) : ID × Nat := (t.id, t.failedAttempts)
def Job.counter (j : Job) : ID × Nat := (j.id, j.failedAttempts)

structure WorkSide (db db' : DB) : Prop where
  levels : Levels db db'
  attempts : db'.attempts.map TaskAttempt.key = db.attempts.map TaskAttempt.key
  taskCounters : db'.tasks.map Task.counter = db.tasks.map Task.counter
  jobCounters : db'.jobs.map Job.counter = db.jobs.map Job.counter

lemma Task.Worked.refl (t : Task) : t.Worked t := ⟨rfl, .refl _⟩
lemma Task.Worked.trans (t t' t'' : Task) (h1 : t.Worked t') (h2 : t'.Worked t'') :
    t.Worked t'' := ⟨h2.1.trans h1.1, h1.2.trans h2.2⟩

namespace Levels
variable {db db' db'' : DB}

lemma of_eq (hs : db'.steps = db.steps) (he : db'.jobDependencies = db.jobDependencies)
    (hj : db'.jobs = db.jobs) (ht : db'.tasks = db.tasks) : Levels db db' :=
  ⟨hs, he, hj ▸ forall₂_refl (fun _ => ⟨rfl, rfl⟩) _, ht ▸ forall₂_refl Task.Worked.refl _⟩

lemma trans (h1 : Levels db db') (h2 : Levels db' db'') : Levels db db'' where
  steps := h2.steps.trans h1.steps
  edges := h2.edges.trans h1.edges
  jobs := forall₂_trans (fun _ _ _ a b => ⟨b.1.trans a.1, b.2.trans a.2⟩) h1.jobs h2.jobs
  tasks := forall₂_trans Task.Worked.trans h1.tasks h2.tasks

lemma updateTasks {p : Task → Prop} [DecidablePred p] {f : Task → Task}
    (hf : ∀ t, p t → t.Worked (f t)) : Levels db (db.updateTasks p f) where
  steps := rfl
  edges := rfl
  jobs := forall₂_refl (fun _ => ⟨rfl, rfl⟩) _
  tasks := forall₂_update Task.Worked.refl hf

lemma updateJobs {p : Job → Prop} [DecidablePred p] {f : Job → Job}
    (hf : ∀ j, (f j).id = j.id ∧ (f j).status = j.status) : Levels db (db.updateJobs p f) where
  steps := rfl
  edges := rfl
  jobs := forall₂_update (fun _ => ⟨rfl, rfl⟩) fun j _ => hf j
  tasks := forall₂_refl Task.Worked.refl _

end Levels
namespace WorkSide
variable {db db' db'' : DB}

@[refl] lemma refl (db : DB) : WorkSide db db := ⟨.of_eq rfl rfl rfl rfl, rfl, rfl, rfl⟩
lemma trans (h1 : WorkSide db db') (h2 : WorkSide db' db'') : WorkSide db db'' :=
  ⟨h1.levels.trans h2.levels, h2.attempts.trans h1.attempts,
    h2.taskCounters.trans h1.taskCounters, h2.jobCounters.trans h1.jobCounters⟩
lemma updateTasks {p : Task → Prop} [DecidablePred p] {f : Task → Task}
    (hf : ∀ t, p t → t.Worked (f t)) (hc : ∀ t, (f t).counter = t.counter) :
    WorkSide db (db.updateTasks p f) :=
  ⟨.updateTasks hf, rfl, map_update _ fun t _ => hc t, rfl⟩
lemma updateJobs {p : Job → Prop} [DecidablePred p] {f : Job → Job}
    (hf : ∀ j, (f j).id = j.id ∧ (f j).status = j.status) (hc : ∀ j, (f j).counter = j.counter) :
    WorkSide db (db.updateJobs p f) :=
  ⟨.updateJobs hf, rfl, rfl, map_update _ fun j _ => hc j⟩

lemma updateAttempts {p : TaskAttempt → Prop} [DecidablePred p] {f : TaskAttempt → TaskAttempt}
    (hf : ∀ a, (f a).key = a.key) : WorkSide db (db.updateAttempts p f) :=
  ⟨.of_eq rfl rfl rfl rfl, map_update _ fun a _ => hf a, rfl, rfl⟩
lemma updateClaims {p : UsageClaim → Prop} [DecidablePred p] {f : UsageClaim → UsageClaim} :
    WorkSide db (db.updateClaims p f) := ⟨.of_eq rfl rfl rfl rfl, rfl, rfl, rfl⟩

lemma sameKeys (h : WorkSide db db') : SameKeys db db' where
  jobs := map_eq_of_forall₂ _ (fun _ _ e => e.1) h.levels.jobs
  edges := h.levels.edges
  steps := by rw [h.levels.steps]
  tasks := map_eq_of_forall₂ _ (fun _ _ e => e.1) h.levels.tasks
  attempts := h.attempts

end WorkSide

def Op.IsReport : Op → Prop
  | .registerWorker .. | .updateWorkerHeartbeat .. | .setWorkerDisabled .. | .startTaskAttempt ..
  | .recordAttemptProgress .. | .reclaimTaskAttempt .. | .reclaimStaleBatch ..
  | .offlineStaleWorker .. | .offlineWorker .. => True
  | _ => False

structure Reported (R : DB → Prop) : Prop where
  workers : ∀ {db}, R db → ∀ workers, R { db with workers }
  note : ∀ {db} {p : TaskAttempt → Prop} [DecidablePred p] {f : TaskAttempt → TaskAttempt}, R db →
    (∀ a, (f a).key = a.key ∧ (f a).status = a.status) → R (db.updateAttempts p f)
  start : ∀ {db}, R db → ∀ id, R (casWriteTaskStatus id .assigned .running db)
  reclaim : ∀ {db} {p : Task → Prop} [DecidablePred p] {ids message now}, R db →
    (∀ t, p t → t.status.InFlight) → (∀ t ∈ db.tasks, p t → t.id ∈ ids) →
      R (closeTasksAttempts ids .failed message now (db.updateTasks p reclaimTask))

namespace Reported
variable {R : DB → Prop} {db : DB}

lemma reclaimWorkerTasks (S : Reported R) (h : R db) (workerID : ID) (message : String) (now : Time) :
    R (Sqi.reclaimWorkerTasks workerID message now db).2 :=
  S.reclaim h (fun _ ht => ht.2) fun _ ht hp => mem_map_returning rfl ht hp

lemma apply (S : Reported R) (op : Op) (hop : op.IsReport) (h : R db) : R (op.apply db) := by
  have offline : ∀ (mark : Worker → Prop) [DecidablePred mark] id now, R (offlineWorkerIf mark id now db).2 := by
    intro mark _ id now
    unfold offlineWorkerIf
    split
    · exact S.reclaimWorkerTasks (S.workers h _) ..
    · exact h
  cases op with
  | registerWorker w now =>
    simp only [Op.apply, Sqi.registerWorker]
    split
    · exact S.workers h _
    split
    · exact h
    split
    · exact S.reclaimWorkerTasks (S.workers h _) ..
    · exact S.workers h _
  | updateWorkerHeartbeat | setWorkerDisabled =>
    simp only [Op.apply, Sqi.updateWorkerHeartbeat, Sqi.setWorkerDisabled]
    split
    · exact S.workers h _
    · exact h
  | startTaskAttempt attemptID taskID sessionID =>
    simp only [Op.apply, Sqi.startTaskAttempt]
    split
    · exact h
    rename_i t _
    split
    · exact h
    have started : R (if t.status = .assigned then casWriteTaskStatus taskID .assigned .running db else db) := by
      split
      · exact S.start h taskID
      · exact h
    dsimp only
    split
    · exact S.note started fun _ => ⟨rfl, rfl⟩
    · exact started
  | recordAttemptProgress p =>
    have noted : R (sqlRecordAttemptProgress p db) := S.note h fun _ => ⟨rfl, rfl⟩
    simp only [Op.apply, Sqi.recordAttemptProgress]
    repeat' split
    all_goals first | exact h | exact noted
  | reclaimTaskAttempt attemptID taskID now =>
    have reclaimed : R (closeTasksAttempts [taskID] .failed failureReasonWorkerShutdown now
        (sqlReclaimOneTask taskID db)) := S.reclaim h (fun _ ht => ht.2) fun _ _ hp => by simp [hp.1]
    simp only [Op.apply, Sqi.reclaimTaskAttempt]
    repeat' split
    all_goals first | exact h | exact reclaimed
  | reclaimStaleBatch batch cutoff now =>
    simp only [Op.apply, Sqi.reclaimStaleBatch]
    split
    · exact h
    · exact S.reclaim h (fun _ ht => .inl ht.2.1) fun _ ht hp => mem_map_returning rfl ht hp
  | offlineStaleWorker | offlineWorker => exact offline ..
  | _ => exact hop.elim

end Reported

/-! ### Worker-side transactions -/

section
variable {db : DB}

lemma closeTasks_workSide (ids : List ID) (st : AttemptStatus) (message : String)
    (now : Time) : WorkSide db (closeTasksAttempts ids st message now db) where
  levels := .of_eq (by simp) (by simp) (by simp) (by simp)
  attempts := (closeTasks_sameKeys ids st message now db).attempts
  taskCounters := by simp
  jobCounters := by simp

lemma reclaimTask_worked (t : Task) (h : t.status.InFlight) : t.Worked (reclaimTask t) :=
  ⟨rfl, .of_inFlight h (by simp [reclaimTask])⟩
lemma closeRelease_workSide (c : AttemptCompletion) (now : Time) :
    WorkSide db (closeAttemptAndRelease c now db) := by
  have closed : WorkSide db (sqlCloseRunningAttempt c db) := .updateAttempts fun _ => rfl
  exact closed.trans .updateClaims
lemma Outcome.taskStatus_ne_pending (o : Outcome) : o.taskStatus ≠ .pending := by
  cases o <;> simp [taskStatus]

lemma complete_workSide {c : AttemptCompletion} (hc : c.taskStatus ≠ .pending)
    (now : Time) : WorkSide db (completeTaskAttempt c now db).2 := by
  have closed : WorkSide db (closeAttemptAndRelease c now db) := closeRelease_workSide c now
  refine complete_of (.refl db) closed (fun t _ hf _ => ?_) fun d h => ?_
  · exact closed.trans (.updateTasks (fun _ h => ⟨rfl, .of_inFlight (h.2 ▸ hf) hc⟩) fun _ => rfl)
  · exact h.trans (.updateTasks (fun _ _ => ⟨rfl, .refl _⟩) fun _ => rfl)

lemma closeAttemptAsFailed_workSide (attemptID : ID) (exitCode : Option Int)
    (sessionID message : String) (at_ now : Time) :
    WorkSide db (sqlReleaseAttemptClaims now attemptID
      (sqlCloseAttemptAsFailed attemptID exitCode sessionID message at_ db)) := by
  have marked : WorkSide db (sqlCloseAttemptAsFailed attemptID exitCode sessionID message at_ db) :=
    .updateAttempts fun _ => rfl
  exact marked.trans .updateClaims

lemma leaseTask_levels (req : LeaseRequest) : Levels db (leaseTask req db).2 := by
  refine leaseTask_of (.of_eq rfl rfl rfl rfl) fun scope _ _ => ?_
  have assigned : Levels db (leaseTaskRow scope req db) :=
    .updateTasks fun t ht => ⟨rfl, .inr (.inr ⟨.inl ht.2.1, by simp [assignTask]⟩)⟩
  exact ⟨assigned.steps, assigned.edges, assigned.jobs, assigned.tasks⟩

lemma recordFailure_levels (attemptID taskID : ID) (exitCode : Option Int)
    (sessionID message : String) (at_ now : Time) :
    Levels db (recordTaskFailure attemptID taskID exitCode sessionID message at_ now db).2 ∧
    SameKeys db (recordTaskFailure attemptID taskID exitCode sessionID message at_ now db).2 := by
  have closed : WorkSide db _ := closeAttemptAsFailed_workSide attemptID exitCode sessionID message at_ now
  refine recordFailure_of (R := fun d => Levels db d ∧ SameKeys db d)
    ⟨.of_eq rfl rfl rfl rfl, .refl _⟩ ⟨closed.levels, closed.sameKeys⟩ fun jobID d h => ⟨?_, ?_⟩
  · refine (h.1.trans ?_).trans (.updateJobs fun _ => ⟨rfl, rfl⟩)
    exact .updateTasks fun _ _ => ⟨rfl, .refl _⟩
  · refine (h.2.trans ?_).trans (.updateJobs fun _ => rfl)
    exact .updateTasks fun _ => rfl

end

def Op.WorkerSide : Op → Prop
  | .saveFarm .. | .saveQueue .. | .saveUsagePool .. | .registerWorker ..
  | .updateWorkerHeartbeat .. | .setWorkerDisabled .. | .leaseTask .. | .startTaskAttempt ..
  | .recordAttemptProgress .. | .completeTaskAttempt .. | .recordTaskFailure ..
  | .requeueTaskForRetry .. | .reclaimTaskAttempt .. | .reclaimStaleBatch ..
  | .offlineStaleWorker .. | .offlineWorker .. | .cancelTaskExecution .. | .updateJob .. => True
  | _ => False

def Op.Tallies : Op → Prop
  | .leaseTask .. | .recordTaskFailure .. => True
  | _ => False

lemma WorkSide.reported (db : DB) : Reported (WorkSide db) where
  workers h _ := h.trans ⟨.of_eq rfl rfl rfl rfl, rfl, rfl, rfl⟩
  note h hf := h.trans (.updateAttempts fun a => (hf a).1)
  start h _ := h.trans (.updateTasks (fun _ ht => ⟨rfl, .of_inFlight (.inl ht.2) (by simp)⟩) fun _ => rfl)
  reclaim h hp _ := (h.trans (.updateTasks (fun t ht => reclaimTask_worked t (hp t ht)) fun _ => rfl)).trans
    (closeTasks_workSide ..)

lemma Op.workSide {op : Op} (h : op.WorkerSide) (ht : ¬ op.Tallies) (db : DB) :
    WorkSide db (op.apply db) := by
  by_cases hr : op.IsReport
  · exact (WorkSide.reported db).apply op hr (.refl db)
  cases op with
  | saveFarm | saveQueue | saveUsagePool => exact ⟨.of_eq rfl rfl rfl rfl, rfl, rfl, rfl⟩
  | leaseTask | recordTaskFailure => exact absurd trivial ht
  | completeTaskAttempt r => exact complete_workSide r.outcome.taskStatus_ne_pending _
  | requeueTaskForRetry => exact .updateTasks (fun _ hm => ⟨rfl, .of_inFlight hm.2.1 (by simp)⟩) fun _ => rfl
  | cancelTaskExecution taskID reason now =>
    have canceled : WorkSide db (sqlCancelOneTask reason taskID db) :=
      .updateTasks (fun _ hm => ⟨rfl, .to_canceled hm.2⟩) fun _ => rfl
    exact cancelTask_of (.refl db) (canceled.trans (closeTasks_workSide ..))
  | updateJob =>
    simp only [Op.apply, Sqi.updateJob]
    split
    · exact .updateJobs (fun _ => ⟨rfl, rfl⟩) fun _ => rfl
    · rfl
  | _ => first | exact h.elim | exact absurd trivial hr

lemma Op.levels {op : Op} (h : op.WorkerSide) (db : DB) : Levels db (op.apply db) := by
  by_cases ht : op.Tallies
  · cases op with
    | leaseTask req => exact leaseTask_levels req
    | recordTaskFailure => exact (recordFailure_levels ..).1
    | _ => exact ht.elim
  · exact (Op.workSide h ht db).levels

/-! ## The job row -/

def Job.Shifted (j j' : Job) : Prop :=
  j'.id = j.id ∧ j'.failedAttempts ≤ j.failedAttempts ∧ (j'.status = j.status ∨
    (¬ j.status.IsTerminal ∧ ¬ j'.status.IsTerminal ∧ j'.status ≠ .blocked))

structure JobRows (db db' : DB) : Prop where
  steps : db'.steps = db.steps
  edges : db'.jobDependencies = db.jobDependencies
  tasks : db'.tasks = db.tasks
  attempts : db'.attempts = db.attempts
  claims : db'.claims = db.claims
  jobs : Forall₂ Job.Shifted db.jobs db'.jobs

namespace JobRows
variable {db db' : DB}

@[refl] lemma refl (db : DB) : JobRows db db :=
  ⟨rfl, rfl, rfl, rfl, rfl, forall₂_refl (fun _ => ⟨rfl, le_rfl, .inl rfl⟩) _⟩
lemma updateJobs {p : Job → Prop} [DecidablePred p] {f : Job → Job}
    (hf : ∀ j, p j → j.Shifted (f j)) : JobRows db (db.updateJobs p f) :=
  ⟨rfl, rfl, rfl, rfl, rfl, forall₂_update (fun _ => ⟨rfl, le_rfl, .inl rfl⟩) hf⟩

lemma sameKeys (h : JobRows db db') : SameKeys db db' where
  jobs := map_eq_of_forall₂ _ (fun _ _ e => e.1) h.jobs
  edges := h.edges
  steps := by rw [h.steps]
  tasks := by rw [h.tasks]
  attempts := by rw [h.attempts]

end JobRows

def Op.OnJobRow : Op → Prop
  | .releaseBlockedJob .. | .promoteJobRunning .. | .demoteStalledJob .. | .pauseJob ..
  | .parkJob .. | .resumeJob .. => True
  | _ => False

lemma Op.jobRows {op : Op} (h : op.OnJobRow) (db : DB) : JobRows db (op.apply db) := by
  cases op with
  | releaseBlockedJob id =>
    simp only [Op.apply, Sqi.releaseBlockedJob]
    split
    · rfl
    · refine .updateJobs fun j hj => ⟨rfl, le_rfl, .inr ?_⟩
      simp [hj.2.1, JobStatus.IsTerminal]
  | promoteJobRunning id now =>
    refine .updateJobs fun j hj => ⟨rfl, le_rfl, .inr ?_⟩
    simp [hj.2, JobStatus.IsTerminal]
  | demoteStalledJob id =>
    refine .updateJobs fun j hj => ⟨rfl, le_rfl, .inr ?_⟩
    simp [hj.2.1, JobStatus.IsTerminal]
  | pauseJob id =>
    simp only [Op.apply, Sqi.pauseJob]
    split
    · rfl
    split
    · refine .updateJobs fun j hj => ⟨rfl, le_rfl, .inr ?_⟩
      rcases hj.2 with e | e <;> simp [e, JobStatus.IsTerminal]
    · rfl
  | parkJob id reason =>
    refine .updateJobs fun j hj => ⟨rfl, le_rfl, .inr ⟨hj.2, ?_⟩⟩
    simp [JobStatus.IsTerminal]
  | resumeJob id =>
    refine .updateJobs fun j hj => ⟨rfl, ?_, .inr ?_⟩
    · dsimp only
      split <;> omega
    · simp [hj.2, JobStatus.IsTerminal]
  | _ => exact h.elim

end Sqi

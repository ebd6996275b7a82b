import Sqi.Store.Wellformed

/-! The retention sweep (`DeleteTerminalJobsBefore`). -/

namespace Sqi
open List Table Transition

structure TaskLog where
  id : ID
  taskID : ID
deriving DecidableEq

structure Retained where
  db : DB
  logs : List TaskLog
  updatedAt : ID → Time

/-! ## The statements -/

def expired (cutoff : Time) (includeFailed : Bool) (s : Retained) (j : Job) : Prop :=
  (j.status = .completed ∨ j.status = .canceled ∨ includeFailed = true ∧ j.status = .failed) ∧
    j.completedAt.getD (s.updatedAt j.id) < cutoff ∧
    ¬ ∃ e ∈ s.db.jobDependencies, e.dependsOnJobID = j.id ∧
      ∃ d ∈ s.db.jobs, d.id = e.jobID ∧ ¬ d.status.IsTerminal
deriving Decidable

def selectExpiredJobs (cutoff : Time) (includeFailed : Bool) (s : Retained) : List ID :=
  (s.db.jobs.filter fun j => expired cutoff includeFailed s j).map Job.id

def claimOfJob (db : DB) (jobID : ID) (c : UsageClaim) : Prop :=
  ∃ a ∈ db.attempts, a.id = c.taskAttemptID ∧ attemptOfJob db jobID a
deriving Decidable

def logOfJob (db : DB) (jobID : ID) (l : TaskLog) : Prop :=
  ∃ t ∈ db.tasks, t.jobID = jobID ∧ t.id = l.taskID
deriving Decidable

def sqlDeleteJobCheckouts (id : ID) (s : Retained) : Retained :=
  { s with db := { s.db with claims := s.db.claims.filter fun c => ¬ claimOfJob s.db id c } }
def sqlDeleteJobTaskLogs (id : ID) (s : Retained) : Retained :=
  { s with logs := s.logs.filter fun l => ¬ logOfJob s.db id l }
def sqlDeleteJobAttempts (id : ID) (s : Retained) : Retained :=
  { s with db := { s.db with attempts := s.db.attempts.filter fun a => ¬ attemptOfJob s.db id a } }
def sqlDeleteJobTasks (id : ID) (s : Retained) : Retained :=
  { s with db := { s.db with tasks := s.db.tasks.filter fun t => t.jobID ≠ id } }
def sqlDeleteJobSteps (id : ID) (s : Retained) : Retained :=
  { s with db := { s.db with steps := s.db.steps.filter fun t => t.jobID ≠ id } }
def sqlDeleteJobDependencies (id : ID) (s : Retained) : Retained :=
  { s with db := { s.db with jobDependencies := s.db.jobDependencies.filter fun e => e.jobID ≠ id } }
def sqlDeleteJobRow (id : ID) (s : Retained) : Retained :=
  { s with db := { s.db with jobs := s.db.jobs.filter fun j => j.id ≠ id } }
def deleteJobCascade (id : ID) (s : Retained) : Retained :=
  sqlDeleteJobRow id (sqlDeleteJobDependencies id (sqlDeleteJobSteps id (sqlDeleteJobTasks id
    (sqlDeleteJobAttempts id (sqlDeleteJobTaskLogs id (sqlDeleteJobCheckouts id s))))))
def purgeExpiredJob (cutoff : Time) (includeFailed : Bool) (id : ID) (s : Retained) : Bool × Retained :=
  if id ∈ selectExpiredJobs cutoff includeFailed s then (true, deleteJobCascade id s) else (false, s)

inductive RetentionStep where
  /-- Any other transaction; what it stamps as `updated_at` is up to it. -/
  | op (o : Op) (updatedAt : ID → Time)
  /-- `task_logs` has a foreign key on the task. -/
  | appendLog (l : TaskLog)
  | purge (cutoff : Time) (includeFailed : Bool) (id : ID)

def RetentionStep.next : RetentionStep → Retained → Retained
  | .op o updatedAt, s => { s with db := o.apply s.db, updatedAt }
  | .appendLog l, s => if ∃ t ∈ s.db.tasks, t.id = l.taskID then { s with logs := s.logs ++ [l] } else s
  | .purge cutoff includeFailed id, s => (purgeExpiredJob cutoff includeFailed id s).2

def retention : System Retained RetentionStep where
  init := ⟨DB.empty, [], fun _ => 0⟩
  enabled h s
    | .purge cutoff includeFailed id => ∃ s', Visited h s s' ∧ id ∈ selectExpiredJobs cutoff includeFailed s'
    | _ => True
  next := RetentionStep.next

/-! ## What a purge removes -/

lemma keyed_filter {α β : Type} {key : α → β} {rows : List α} (h : Keyed key rows) (p : α → Bool) :
    Keyed key (rows.filter p) :=
  h.sublist (filter_sublist.map key)

variable {s : Retained} {id other : ID}

/-- The store without the rows of job `id`. -/
def remaining (id : ID) (s : Retained) : Retained :=
  { s with
    logs := s.logs.filter fun l => ¬ logOfJob s.db id l
    db := { s.db with
      jobs := s.db.jobs.filter fun j => j.id ≠ id
      steps := s.db.steps.filter fun t => t.jobID ≠ id
      tasks := s.db.tasks.filter fun t => t.jobID ≠ id
      attempts := s.db.attempts.filter fun a => ¬ attemptOfJob s.db id a
      claims := s.db.claims.filter fun c => ¬ claimOfJob s.db id c
      jobDependencies := s.db.jobDependencies.filter fun e => e.jobID ≠ id } }

/-- The cascade goes from the leaves up, so every statement still finds the rows it joins. -/
lemma deleteJobCascade_eq (id : ID) (s : Retained) : deleteJobCascade id s = remaining id s := by
  simp only [deleteJobCascade, sqlDeleteJobRow, sqlDeleteJobDependencies, sqlDeleteJobSteps, sqlDeleteJobTasks,
    sqlDeleteJobAttempts, sqlDeleteJobTaskLogs, sqlDeleteJobCheckouts, remaining, attemptOfJob, logOfJob]
  rfl

lemma remaining_wf (wf : WF s.db) (id : ID) : WF (remaining id s).db where
  jobs_keyed := keyed_filter wf.jobs_keyed _
  steps_keyed := keyed_filter wf.steps_keyed _
  tasks_keyed := keyed_filter wf.tasks_keyed _
  attempts_keyed := keyed_filter wf.attempts_keyed _
  names t ht t' ht' := wf.names t (mem_of_mem_filter ht) t' (mem_of_mem_filter ht')
  step_job t ht := by
    obtain ⟨hmem, hne⟩ := mem_filter.mp ht
    obtain ⟨j, hj, e⟩ := wf.step_job t hmem
    exact ⟨j, mem_filter.mpr ⟨hj, e ▸ hne⟩, e⟩
  job_step j hj := by
    obtain ⟨hmem, hne⟩ := mem_filter.mp hj
    obtain ⟨t, ht, e⟩ := wf.job_step j hmem
    exact ⟨t, mem_filter.mpr ⟨ht, e ▸ hne⟩, e⟩
  task_step t ht := by
    obtain ⟨hmem, hne⟩ := mem_filter.mp ht
    obtain ⟨u, hu, e, ej⟩ := wf.task_step t hmem
    exact ⟨u, mem_filter.mpr ⟨hu, ej ▸ hne⟩, e, ej⟩
  step_task u hu := by
    obtain ⟨hmem, hne⟩ := mem_filter.mp hu
    obtain ⟨t, ht, e⟩ := wf.step_task u hmem
    exact ⟨t, mem_filter.mpr ⟨ht, wf.task_jobID ht hmem e ▸ hne⟩, e⟩
  deps_declared u hu d hd := by
    obtain ⟨hmem, hne⟩ := mem_filter.mp hu
    obtain ⟨u', hu', ej, en⟩ := wf.deps_declared u hmem d hd
    exact ⟨u', mem_filter.mpr ⟨hu', ej ▸ hne⟩, ej, en⟩
  attempt_task a ha := by
    obtain ⟨hmem, hne⟩ := mem_filter.mp ha
    obtain ⟨t, ht, e⟩ := wf.attempt_task a hmem
    refine ⟨t, mem_filter.mpr ⟨ht, decide_eq_true fun ej => ?_⟩, e⟩
    exact of_decide_eq_true hne ⟨t, ht, e, ej⟩
  edge_job e he := by
    obtain ⟨hmem, hne⟩ := mem_filter.mp he
    obtain ⟨j, hj, ej⟩ := wf.edge_job e hmem
    exact ⟨j, mem_filter.mpr ⟨hj, ej ▸ hne⟩, ej⟩

lemma retention_wf {h : List (Retained × RetentionStep)} (run : Run retention h s) : WF s.db := by
  refine run.safe (P := fun s => WF s.db) WF.empty fun h s l _ wf _ => ?_
  cases l with
  | op o => exact o.wf wf
  | appendLog l =>
    simp only [retention, RetentionStep.next]
    split <;> exact wf
  | purge cutoff includeFailed id =>
    simp only [retention, RetentionStep.next, purgeExpiredJob, deleteJobCascade_eq]
    split
    · exact remaining_wf wf id
    · exact wf

/-! ## The rows of a job -/

inductive JobRow where
  | job (j : Job)
  | step (t : Step)
  | task (t : Task)
  | attempt (a : TaskAttempt)
  | claim (c : UsageClaim)
  | log (l : TaskLog)
  | dependency (e : JobDependency)

def Retained.Has (s : Retained) : JobRow → Prop
  | .job j => j ∈ s.db.jobs
  | .step t => t ∈ s.db.steps
  | .task t => t ∈ s.db.tasks
  | .attempt a => a ∈ s.db.attempts
  | .claim c => c ∈ s.db.claims
  | .log l => l ∈ s.logs
  | .dependency e => e ∈ s.db.jobDependencies

def Retained.OfJob (s : Retained) (id : ID) : JobRow → Prop
  | .job j => j.id = id
  | .step t => t.jobID = id
  | .task t => t.jobID = id
  | .attempt a => attemptOfJob s.db id a
  | .claim c => claimOfJob s.db id c
  | .log l => logOfJob s.db id l
  | .dependency e => e.jobID = id

lemma attemptOfJob_unique (wf : WF s.db) {a : TaskAttempt}
    (h : attemptOfJob s.db id a) (h' : attemptOfJob s.db other a) : id = other := by
  obtain ⟨t, ht, e, rfl⟩ := h
  obtain ⟨t', ht', e', rfl⟩ := h'
  rw [wf.tasks_keyed.eq_of_mem ht ht' (e.trans e'.symm)]

lemma ofJob_unique (wf : WF s.db) {r : JobRow} (h : s.OfJob id r) (h' : s.OfJob other r) : id = other := by
  cases r with
  | job | step | task | dependency => exact h.symm.trans h'
  | attempt a => exact attemptOfJob_unique wf h h'
  | claim c =>
    obtain ⟨a, ha, e, hj⟩ := h
    obtain ⟨a', ha', e', hj'⟩ := h'
    obtain rfl := wf.attempts_keyed.eq_of_mem ha ha' (e.trans e'.symm)
    exact attemptOfJob_unique wf hj hj'
  | log l =>
    obtain ⟨t, ht, rfl, e⟩ := h
    obtain ⟨t', ht', rfl, e'⟩ := h'
    rw [wf.tasks_keyed.eq_of_mem ht ht' (e.trans e'.symm)]

lemma remaining_has (s : Retained) (id : ID) (r : JobRow) :
    (remaining id s).Has r ↔ s.Has r ∧ ¬ s.OfJob id r := by
  cases r <;> exact mem_filter.trans (and_congr_right fun _ => decide_eq_true_iff)

/-- The sweep deletes a job that is still terminal, old and free of dependents, or nothing. -/
theorem retention_sweep {h : List (Retained × RetentionStep)} (run : Run retention h s)
    (cutoff : Time) (includeFailed : Bool) (id : ID) :
    purgeExpiredJob cutoff includeFailed id s = (false, s) ∨
      ∃ s', purgeExpiredJob cutoff includeFailed id s = (true, s') ∧
        (∃ j ∈ s.db.jobs, j.id = id ∧ j.status.IsTerminal ∧
          (j.status = .failed → includeFailed = true) ∧ j.completedAt.getD (s.updatedAt id) < cutoff) ∧
        (∀ e ∈ s.db.jobDependencies, e.dependsOnJobID = id →
          ∀ d ∈ s.db.jobs, d.id = e.jobID → d.status.IsTerminal) ∧
        (∀ r, s'.Has r ↔ s.Has r ∧ ¬ s.OfJob id r) ∧
        (∀ other, other ≠ id → ∀ r, s.Has r → s.OfJob other r → s'.Has r) ∧
        s' = { s with
          logs := s'.logs
          db := { s.db with
            jobs := s'.db.jobs, steps := s'.db.steps, tasks := s'.db.tasks, attempts := s'.db.attempts
            claims := s'.db.claims, jobDependencies := s'.db.jobDependencies } } := by
  rw [purgeExpiredJob, deleteJobCascade_eq]
  split
  swap
  · exact .inl rfl
  · rename_i listed
    obtain ⟨j, hj, rfl⟩ := mem_map.mp listed
    obtain ⟨hmem, hexp⟩ := mem_filter.mp hj
    obtain ⟨hstatus, hold, hfree⟩ := of_decide_eq_true hexp
    have wf := retention_wf run
    refine .inr ⟨_, rfl, ⟨j, hmem, rfl, ?_, ?_, hold⟩, ?_, remaining_has s _, ?_, rfl⟩
    · rcases hstatus with e | e | ⟨_, e⟩ <;> rw [e] <;> decide
    · rcases hstatus with e | e | ⟨hi, _⟩
      · simp [e]
      · simp [e]
      · exact fun _ => hi
    · intro e he hup d hd hdown
      by_contra hlive
      exact hfree ⟨e, he, hup, d, hd, hdown, hlive⟩
    · intro other hne r hr hother
      exact (remaining_has s _ r).mpr ⟨hr, fun hown => hne (ofJob_unique wf hother hown)⟩

def dependentPlan : SubmissionPlan :=
  ⟨2, 1, 1, noRetry, [1], [⟨20, "publish", [], [200]⟩], by decide, by decide, by decide, by decide⟩
def canceledAtFive : List RetentionStep :=
  (smallSetup ++ [Op.submit dependentPlan true, .cancelJobExecution 2 "" 5, .cancelJobExecution 1 "" 5]).map
    (.op · fun _ => 5)

/-- Job 2, which waits for job 1, is canceled as well. -/
theorem retention_sweep_canceled : ∃ s j, j ∈ s.db.jobs ∧ j.id = 1 ∧ j.status.IsTerminal ∧
    (∃ e ∈ s.db.jobDependencies, e.dependsOnJobID = 1) ∧
    (purgeExpiredJob 10 false 1 s).1 = true := by
  have run := Run.start.exec (show retention.Permits canceledAtFive [] _ from
    ⟨trivial, trivial, trivial, trivial, trivial, trivial, trivial, trivial⟩)
  have edge : ∃ e ∈ (retention.exec canceledAtFive [] retention.init).2.db.jobDependencies, e.dependsOnJobID = 1 := by
    decide +kernel
  rcases retention_sweep run 10 false 1 with kept | ⟨_, gone, ⟨j, hj, hid, hterm, _⟩, _⟩
  · exact absurd (congrArg Prod.fst kept) (by decide +kernel)
  · exact ⟨_, j, hj, hid, hterm, edge, congrArg Prod.fst gone⟩

end Sqi

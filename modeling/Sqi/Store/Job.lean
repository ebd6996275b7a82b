import Sqi.Store.Attempt

/-! Steps and jobs: finalization, release and cancel of pending steps, job cancel,
retry, and the job row's own transitions (`finalize.go`, `job.go`, `RetryTasks`
of `task.go`, `CancelJobExecution` of `attemptclose.go`). -/

namespace Sqi
open List Table

/-! ## Finalization -/

def stepHasNoOpenTask (db : DB) (stepID : ID) : Prop :=
  ∀ t ∈ db.tasks, t.stepID = stepID → t.status.IsTerminal
deriving Decidable

def stepOutcome (db : DB) (stepID : ID) : StepStatus :=
  if ∃ t ∈ db.tasks, t.stepID = stepID ∧ t.status = .failed then .failed
  else if ∃ t ∈ db.tasks, t.stepID = stepID ∧ t.status = .canceled then .canceled
  else .completed

lemma stepOutcome_isTerminal (db : DB) (stepID : ID) : (stepOutcome db stepID).IsTerminal := by
  unfold stepOutcome
  split_ifs <;> simp [StepStatus.IsTerminal]

def sqlFinalizeStep (id : ID) (db : DB) : DB :=
  db.updateSteps (fun s => s.id = id ∧ ¬ s.status.IsTerminal ∧ stepHasNoOpenTask db s.id)
    (fun s => { s with status := stepOutcome db s.id })

def finalizeStep (id : ID) (db : DB) : Except StoreError (Option StepStatus × Bool) × DB :=
  match db.step? id with
  | none => (.error .notFound, db)
  | some s =>
    if s.status.IsTerminal then (.ok (some s.status, false), db)
    else if stepHasNoOpenTask db id then (.ok (some (stepOutcome db id), true), sqlFinalizeStep id db)
    else (.ok (none, false), db)

def jobHasNoOpenStep (db : DB) (jobID : ID) : Prop :=
  ∀ s ∈ db.steps, s.jobID = jobID → s.status.IsTerminal
deriving Decidable

def jobOutcome (db : DB) (jobID : ID) : JobStatus :=
  if ∃ s ∈ db.steps, s.jobID = jobID ∧ s.status = .failed then .failed
  else if ∃ s ∈ db.steps, s.jobID = jobID ∧ s.status = .canceled then .canceled
  else .completed

lemma jobOutcome_isTerminal (db : DB) (jobID : ID) : (jobOutcome db jobID).IsTerminal := by
  unfold jobOutcome
  split_ifs <;> simp [JobStatus.IsTerminal]

def sqlFinalizeJob (id : ID) (now : Time) (db : DB) : DB :=
  db.updateJobs (fun j => j.id = id ∧ ¬ j.status.IsTerminal ∧ jobHasNoOpenStep db j.id)
    (fun j => { j with status := jobOutcome db j.id, completedAt := some now })

def finalizeJob (id : ID) (now : Time) (db : DB) : Except StoreError (Option JobStatus × Bool) × DB :=
  match db.job? id with
  | none => (.error .notFound, db)
  | some j =>
    if j.status.IsTerminal then (.ok (some j.status, false), db)
    else if jobHasNoOpenStep db id then (.ok (some (jobOutcome db id), true), sqlFinalizeJob id now db)
    else (.ok (none, false), db)

/-! ## Releasing and canceling a pending step -/

def sqlTransitionStepPendingTasks (target : TaskStatus) (reason : String) (stepID : ID) (db : DB) : DB :=
  db.updateTasks (fun t => t.stepID = stepID ∧ t.status = .pending)
    (fun t => { t with
      status := target
      unschedulableReason := ""
      failureReason := stampReason reason t.failureReason })

def sqlGuardStepPending (target : StepStatus) (id : ID) (db : DB) : DB :=
  db.updateSteps (fun s => s.id = id ∧ s.status = .pending) (fun s => { s with status := target })

def anyUpstreamUnsuccessful (db : DB) (jobID : ID) (dependsOn : List String) : Prop :=
  ∃ s ∈ db.steps, s.jobID = jobID ∧ s.status.Unsuccessful ∧ s.name ∈ dependsOn
deriving Decidable

def movePendingStep (id : ID) (stepTo : StepStatus) (taskTo : TaskStatus) (reason : String)
    (db : DB) : Except StoreError Bool × DB :=
  match db.step? id with
  | none => (.error .notFound, db)
  | some s =>
    if stepTo = .canceled ∧ ¬ anyUpstreamUnsuccessful db s.jobID s.dependsOn then (.ok false, db)
    else if s.status ≠ .pending then (.ok false, db)
    else (.ok true, sqlTransitionStepPendingTasks taskTo reason id (sqlGuardStepPending stepTo id db))

def releaseStep (id : ID) (db : DB) : Except StoreError Bool × DB :=
  movePendingStep id .ready .ready "" db
def cancelPendingStep (id : ID) (reason : String) (db : DB) : Except StoreError Bool × DB :=
  movePendingStep id .canceled .canceled reason db

def transitionedTasks (target : TaskStatus) (reason : String) (stepID : ID) (db : DB) : List Task :=
  returning (fun t => t.stepID = stepID ∧ t.status = .pending)
    (fun t => { t with
      status := target
      unschedulableReason := ""
      failureReason := stampReason reason t.failureReason }) db.tasks

def cancelPendingStepTasks (id : ID) (reason : String) (db : DB) : Except StoreError (Bool × List Task) × DB :=
  let (r, db') := cancelPendingStep id reason db
  (r.map fun moved => (moved, if moved then transitionedTasks .canceled reason id db else []), db')

/-! ## Job cancel -/

def sqlCancelJobTasks (reason : String) (jobID : ID) (db : DB) : DB :=
  db.updateTasks (fun t => t.jobID = jobID ∧ ¬ t.status.IsTerminal)
    (fun t => { t with
      status := .canceled
      assignedWorkerID := none
      assignedAt := none
      unschedulableReason := ""
      failureReason := stampReason reason t.failureReason })

def attemptOfJob (db : DB) (jobID : ID) (a : TaskAttempt) : Prop :=
  ∃ t ∈ db.tasks, t.id = a.taskID ∧ t.jobID = jobID
deriving Decidable

def sqlCancelJobAttempts (now : Time) (jobID : ID) (db : DB) : DB :=
  db.updateAttempts (fun a => a.status = .running ∧ attemptOfJob db jobID a)
    (fun a => { a with status := .canceled, endedAt := some now })

def closedJobClaim (db : DB) (jobID : ID) (c : UsageClaim) : Prop :=
  c.releasedAt = none ∧
    ∃ a ∈ db.attempts, a.id = c.taskAttemptID ∧ a.status ≠ .running ∧ attemptOfJob db jobID a
deriving Decidable

def sqlReleaseClosedJobClaims (now : Time) (jobID : ID) (db : DB) : DB :=
  db.updateClaims (closedJobClaim db jobID) (fun c => { c with releasedAt := some now })
def cancelStepOutcome (db : DB) (s : Step) : StepStatus :=
  if s.status = .pending then .canceled
  else if ∀ t ∈ db.tasks, t.stepID ≠ s.id then .canceled
  else stepOutcome db s.id

def sqlCancelJobFinalizeSteps (jobID : ID) (db : DB) : DB :=
  db.updateSteps (fun s => s.jobID = jobID ∧ ¬ s.status.IsTerminal ∧ stepHasNoOpenTask db s.id)
    (fun s => { s with status := cancelStepOutcome db s })
def sqlCancelJobStatus (now : Time) (jobID : ID) (db : DB) : DB :=
  db.updateJobs (fun j => j.id = jobID ∧ ¬ j.status.IsTerminal)
    (fun j => { j with status := .canceled, completedAt := some now })

def cancelJobExecution (jobID : ID) (reason : String) (now : Time) (db : DB) : List Task × DB :=
  (db.tasks.filter (fun t => t.jobID = jobID ∧ t.status.InFlight), sqlCancelJobStatus now jobID
      (sqlCancelJobFinalizeSteps jobID
        (sqlReleaseClosedJobClaims now jobID
          (sqlCancelJobAttempts now jobID (sqlCancelJobTasks reason jobID db)))))

def retryMatches (jobID : ID) (taskIDs : Option (List ID)) (t : Task) : Prop :=
  t.jobID = jobID ∧ t.status.Unsuccessful ∧ ∀ ids ∈ taskIDs, t.id ∈ ids
deriving Decidable

def revivedStatus (db : DB) (stepID : ID) : TaskStatus :=
  if ∃ s ∈ db.steps, s.id = stepID ∧ (s.status = .ready ∨ s.status = .running) then .ready
  else .pending

def reviveTask (db : DB) (t : Task) : Task :=
  { t with
    status := revivedStatus db t.stepID
    unschedulableReason := ""
    failedAttempts := 0
    retryAfter := none
    failureReason := "" }

def sqlRetryTasks (jobID : ID) (taskIDs : Option (List ID)) (db : DB) : DB :=
  db.updateTasks (retryMatches jobID taskIDs) (reviveTask db)
def sqlRetryResetSteps (jobID : ID) (db : DB) : DB :=
  db.updateSteps (fun s => s.jobID = jobID ∧ s.status.Unsuccessful ∧
      ∃ t ∈ db.tasks, t.stepID = s.id ∧ t.status = .pending)
    (fun s => { s with status := .pending })

def retryResets (j : Job) : Prop :=
  j.status.Unsuccessful ∨ (j.status = .paused ∧ j.parkReason ≠ "")
deriving Decidable

def sqlRetryResetJob (jobID : ID) (db : DB) : DB :=
  db.updateJobs (fun j => j.id = jobID ∧ retryResets j)
    (fun j => { j with
      status := .pending
      completedAt := none
      failedAttempts := 0
      parkReason := "" })

def retryTasks (jobID : ID) (taskIDs : Option (List ID)) (db : DB) : List Task × DB :=
  if taskIDs = some [] then ([], db)
  else
    let revived := returning (retryMatches jobID taskIDs) (reviveTask db) db.tasks
    if revived = [] then ([], db)
    else (revived, sqlRetryResetJob jobID (sqlRetryResetSteps jobID (sqlRetryTasks jobID taskIDs db)))

lemma retryTasks_cases (jobID : ID) (taskIDs : Option (List ID)) (db : DB) :
    ((¬ ∃ t ∈ db.tasks, retryMatches jobID taskIDs t) ∧
      (retryTasks jobID taskIDs db).1 = [] ∧ (retryTasks jobID taskIDs db).2 = db) ∨
    ((∃ t ∈ db.tasks, retryMatches jobID taskIDs t) ∧ (retryTasks jobID taskIDs db).1 ≠ [] ∧
      (retryTasks jobID taskIDs db).2 =
        sqlRetryResetJob jobID (sqlRetryResetSteps jobID (sqlRetryTasks jobID taskIDs db))) := by
  unfold retryTasks
  split
  · rename_i hnone
    refine .inl ⟨?_, rfl, rfl⟩
    rintro ⟨t, _, ht⟩
    simpa using ht.2.2 [] hnone
  · dsimp only
    split
    · rename_i hnil
      refine .inl ⟨?_, rfl, rfl⟩
      rintro ⟨t, ht, hm⟩
      have hmem : t ∈ db.tasks.filter fun t => retryMatches jobID taskIDs t := mem_filter.mpr ⟨ht, decide_eq_true hm⟩
      rw [map_eq_nil_iff.mp hnil] at hmem
      cases hmem
    · rename_i hne
      refine .inr ⟨?_, hne, rfl⟩
      obtain ⟨t, ht⟩ := exists_mem_of_ne_nil _ (mt map_eq_nil_iff.mpr hne)
      simp only [mem_filter, decide_eq_true_eq] at ht
      exact ⟨t, ht⟩

/-! ## Blocked jobs -/

def upstreamsCompleted (db : DB) (jobID : ID) : Prop :=
  ∀ e ∈ db.jobDependencies, e.jobID = jobID → ∃ u ∈ db.jobs, u.id = e.dependsOnJobID ∧ u.status = .completed
deriving Decidable

def releaseBlockedJob (id : ID) (db : DB) : Except StoreError Bool × DB :=
  match db.job? id with
  | none => (.error .notFound, db)
  | some j =>
    (.ok (j.status = .blocked ∧ upstreamsCompleted db id),
      db.updateJobs (fun j => j.id = id ∧ j.status = .blocked ∧ upstreamsCompleted db j.id)
        (fun j => { j with status := .pending }))

def sqlCancelBlockedJobRow (id : ID) (now : Time) (db : DB) : DB :=
  db.updateJobs (fun j => j.id = id ∧ j.status = .blocked)
    (fun j => { j with status := .canceled, completedAt := some now })
def sqlCancelJobOpenSteps (jobID : ID) (db : DB) : DB :=
  db.updateSteps (fun s => s.jobID = jobID ∧ ¬ s.status.IsTerminal)
    (fun s => { s with status := .canceled })

def sqlCancelJobPendingTasks (reason : String) (jobID : ID) (db : DB) : DB :=
  db.updateTasks (fun t => t.jobID = jobID ∧ t.status = .pending)
    (fun t => { t with
      status := .canceled
      unschedulableReason := ""
      failureReason := stampReason reason t.failureReason })

def cancelBlockedJob (id : ID) (reason : String) (now : Time) (db : DB) :
    Except StoreError Bool × DB :=
  match db.job? id with
  | none => (.error .notFound, db)
  | some j =>
    if j.status ≠ .blocked then (.ok false, db)
    else (.ok true, sqlCancelJobPendingTasks reason id
        (sqlCancelJobOpenSteps id (sqlCancelBlockedJobRow id now db)))

/-! ## The job row's own transitions -/

def promoteJobRunning (id : ID) (now : Time) (db : DB) : Bool × DB :=
  (decide (∃ j ∈ db.jobs, j.id = id ∧ j.status = .pending),
    db.updateJobs (fun j => j.id = id ∧ j.status = .pending)
      (fun j => { j with status := .running, startedAt := j.startedAt.or (some now) }))

def stalledJob (db : DB) (j : Job) : Prop :=
  j.status = .running ∧ (∀ t ∈ db.tasks, t.jobID = j.id → ¬ t.status.InFlight) ∧
    ∃ t ∈ db.tasks, t.jobID = j.id ∧ (t.status = .ready ∨ t.status = .pending)
deriving Decidable

def demoteStalledJob (id : ID) (db : DB) : Bool × DB :=
  (decide (∃ j ∈ db.jobs, j.id = id ∧ stalledJob db j),
    db.updateJobs (fun j => j.id = id ∧ stalledJob db j) (fun j => { j with status := .pending }))

def pauseJob (id : ID) (db : DB) : Except StoreError Unit × DB :=
  match db.job? id with
  | none => (.error .notFound, db)
  | some j =>
    if j.status = .pending ∨ j.status = .running then
      (.ok (), db.updateJobs (fun j => j.id = id ∧ (j.status = .pending ∨ j.status = .running))
        (fun j => { j with status := .paused }))
    else (.error .conflict, db)

def jobExists (db : DB) (id : ID) : Except StoreError Unit :=
  match db.job? id with
  | none => .error .notFound
  | some _ => .ok ()
def parkJob (id : ID) (reason : String) (db : DB) : Except StoreError Unit × DB :=
  (jobExists db id, db.updateJobs (fun j => j.id = id ∧ ¬ j.status.IsTerminal)
      (fun j => { j with status := .paused, parkReason := reason }))

def resumeJob (id : ID) (db : DB) : Except StoreError Unit × DB :=
  (jobExists db id, db.updateJobs (fun j => j.id = id ∧ j.status = .paused)
      (fun j => { j with
        status := .pending
        failedAttempts := if j.parkReason ≠ "" then 0 else j.failedAttempts
        parkReason := "" }))

def updateJob (id farmID queueID : ID) (retry : RetryOverrides) (db : DB) :
    Except StoreError Unit × DB :=
  if (∃ f ∈ db.farms, f.id = farmID) ∧ ∃ q ∈ db.queues, q.id = queueID then
    (jobExists db id, db.updateJobs (fun j => j.id = id)
        (fun j => { j with farmID := farmID, queueID := queueID, retry := retry }))
  else (.error .constraint, db)

/-! ## The ways a transaction ends -/

section
variable {R : DB → Prop} {db : DB} {id : ID} {now : Time} {reason : String}

lemma finalizeStep_of (same : R db) (written : R (sqlFinalizeStep id db)) : R (finalizeStep id db).2 := by
  unfold finalizeStep
  repeat' split
  all_goals first | exact same | exact written

lemma finalizeJob_of (same : R db) (written : R (sqlFinalizeJob id now db)) :
    R (finalizeJob id now db).2 := by
  unfold finalizeJob
  repeat' split
  all_goals first | exact same | exact written

lemma moveStep_of {stepTo : StepStatus} {taskTo : TaskStatus} (same : R db)
    (moved : ∀ s, db.step? id = some s → s.status = .pending →
      R (sqlTransitionStepPendingTasks taskTo reason id (sqlGuardStepPending stepTo id db))) :
    R (movePendingStep id stepTo taskTo reason db).2 := by
  unfold movePendingStep
  split
  · exact same
  split
  · exact same
  split
  · exact same
  · exact moved _ ‹_› (not_not.mp ‹_›)

lemma cancelBlocked_of (same : R db)
    (canceled : ∀ j, db.job? id = some j → j.status = .blocked → R (sqlCancelJobPendingTasks reason id
      (sqlCancelJobOpenSteps id (sqlCancelBlockedJobRow id now db)))) :
    R (cancelBlockedJob id reason now db).2 := by
  unfold cancelBlockedJob
  split
  · exact same
  split
  · exact same
  · exact canceled _ ‹_› (not_not.mp ‹_›)

lemma retryTasks_of {taskIDs : Option (List ID)} (same : R db)
    (revived : (∃ t ∈ db.tasks, retryMatches id taskIDs t) →
      R (sqlRetryResetJob id (sqlRetryResetSteps id (sqlRetryTasks id taskIDs db)))) :
    R (retryTasks id taskIDs db).2 := by
  rcases retryTasks_cases id taskIDs db with ⟨_, _, e⟩ | ⟨hm, _, e⟩ <;> rw [e]
  · exact same
  · exact revived hm

end
end Sqi

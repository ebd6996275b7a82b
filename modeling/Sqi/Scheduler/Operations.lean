import Sqi.Scheduler.Reports

/-! The operations of the scheduler, each run to completion before the next one: reports, retry
(`retry.go`), cancels (`cancellation.go`), the sweep over blocked jobs (`jobdeps.go`), the start-up
repairs (`scheduler.go`), and the submission with its reads (`openjd/submit.go`). -/

namespace Sqi
open Table Program Transition

def retry (now : Time) (jobID : ID) (taskIDs : Option (List ID)) : Sched Nat := do
  let revived ← .lift (retryTasks jobID taskIDs)
  if revived = [] then pure 0
  else
    let _ ← resolveDependencies jobID
    let _ ← cancelDependents jobID
    checkJobCompletion now jobID
    pure revived.length

def retryJob (now : Time) (jobID : ID) : Sched Nat := retry now jobID none
def retryTask (now : Time) (taskID : ID) : Sched Unit := do
  let task ← fetch (·.task? taskID)
  let _ ← retry now task.jobID (some [taskID])
def cancelJob (now : Time) (jobID : ID) : Sched Unit := do
  let _ ← (.lift (cancelJobExecution jobID failureReasonCanceledByUser now) : Sched (List Task))
def cancelTask (now : Time) (taskID : ID) : Sched Unit := do
  let (prior, canceled) ← .tx (cancelTaskExecution taskID failureReasonCanceledByUser now)
  if canceled then .quiet (checkStepCompletion now prior.stepID prior.jobID)

def sweepBlockedJobs (now : Time) : Sched Unit := do
  let blocked ← .read listBlockedJobs
  .each (fun j => .quiet (reconcileBlockedJob (reconcileDependents now) now j.id)) blocked

def stuckStep (db : DB) (s : Step) : Prop :=
  ¬ s.status.IsTerminal ∧ (∃ j ∈ db.jobs, j.id = s.jobID ∧ ¬ j.status.IsTerminal) ∧
    (∃ t ∈ db.tasks, t.stepID = s.id) ∧ stepHasNoOpenTask db s.id
deriving Decidable

def listStuckSteps (db : DB) : List Step :=
  (db.steps.filter fun s => stuckStep db s).insertionSort (·.jobID ≤ ·.jobID)
def reconcileStuckSteps (now : Time) : Sched Unit := do
  let steps ← .read listStuckSteps
  .each (fun s => .quiet (checkStepCompletion now s.id s.jobID)) steps

def pendingStepsJob (db : DB) (j : Job) : Prop :=
  ¬ j.status.IsTerminal ∧ j.status ≠ .blocked ∧ ∃ s ∈ db.steps, s.jobID = j.id ∧ s.status = .pending
deriving Decidable

def listJobIDsWithPendingSteps (db : DB) : List ID :=
  ((db.jobs.filter fun j => pendingStepsJob db j).map (·.id)).insertionSort (· ≤ ·)

def reconcilePendingJob (now : Time) (jobID : ID) : Sched Unit := do
  propagateStepDependencies jobID .completed
  propagateStepDependencies jobID .failed
  let closed ← .read fun db => decide (jobHasNoOpenStep db jobID)
  if closed then checkJobCompletion now jobID

def reconcilePendingSteps (now : Time) : Sched Unit := do
  let ids ← .read listJobIDsWithPendingSteps
  .each (fun id => .quiet (reconcilePendingJob now id)) ids

inductive SubmitError where
  | dependsOnNotFound (id : ID)
  | dependsOnOtherFarm (id : ID)
  | dependsOnTerminated (id : ID) (status : JobStatus)
  | store (e : StoreError)
  deriving DecidableEq

def readUpstreams (db : DB) (farmID : ID) : List ID → Except SubmitError Bool
  | [] => .ok false
  | id :: ids =>
    match db.job? id with
    | none => .error (.dependsOnNotFound id)
    | some up =>
      if up.farmID ≠ farmID then .error (.dependsOnOtherFarm id)
      else if up.status.Unsuccessful then .error (.dependsOnTerminated id up.status)
      else
        match readUpstreams db farmID ids with
        | .error e => .error e
        | .ok blocked => .ok (decide (up.status ≠ .completed) || blocked)

def submitJob (p : SubmissionPlan) (db : DB) : Except SubmitError Unit × DB :=
  match readUpstreams db p.farmID p.dependsOn with
  | .error e => (.error e, db)
  | .ok blocked =>
    match createJobSubmission (buildSubmission p blocked) db with
    | (.error e, db') => (.error (.store e), db')
    | (.ok _, db') => (.ok (), db')

def Op.Standalone : Op → Prop
  | .saveFarm .. | .saveQueue .. | .saveUsagePool .. | .registerWorker ..
  | .updateWorkerHeartbeat .. | .setWorkerDisabled .. | .leaseTask .. | .reclaimTaskAttempt ..
  | .reclaimStaleBatch .. | .offlineStaleWorker .. | .offlineWorker .. | .demoteStalledJob ..
  | .pauseJob .. | .resumeJob .. | .updateJob .. => True
  | _ => False

inductive Call where
  | single (op : Op)
  | submit (p : SubmissionPlan)
  | taskStatus (now : Time) (subjectWorkerID : ID) (m : TaskStatusMsg)
  | cancelTask (now : Time) (taskID : ID)
  | cancelJob (now : Time) (jobID : ID)
  | retryTask (now : Time) (taskID : ID)
  | retryJob (now : Time) (jobID : ID)
  | reconcileDependents (now : Time) (upstreamJobID : ID)
  | sweepBlockedJobs (now : Time)
  | reconcileStuckSteps (now : Time)
  | reconcilePendingSteps (now : Time)

def Call.run (defaults : RetryPolicy) : Call → DB → DB
  | .single op, db => op.apply db
  | .submit p, db => (submitJob p db).2
  | .taskStatus now w m, db => (processTaskStatus defaults now w m db).2
  | .cancelTask now t, db => (Sqi.cancelTask now t db).2
  | .cancelJob now j, db => (Sqi.cancelJob now j db).2
  | .retryTask now t, db => (Sqi.retryTask now t db).2
  | .retryJob now j, db => (Sqi.retryJob now j db).2
  | .reconcileDependents now up, db => (Sqi.reconcileDependents now up db).2
  | .sweepBlockedJobs now, db => (Sqi.sweepBlockedJobs now db).2
  | .reconcileStuckSteps now, db => (Sqi.reconcileStuckSteps now db).2
  | .reconcilePendingSteps now, db => (Sqi.reconcilePendingSteps now db).2

def Call.enabled : Call → Prop
  | .single op => op.Standalone
  | _ => True
def schedulerSystem (defaults : RetryPolicy) : System DB Call where
  init := DB.empty
  enabled := fun _ _ c => c.enabled
  next := Call.run defaults

end Sqi

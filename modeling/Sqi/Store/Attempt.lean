import Sqi.Store.Types

/-! Attempts and usage claims: the statements that close an attempt and release its claims, and the store
operations built from them (`attemptclose.go`, `attemptreport.go`, the failure half of `task.go`). -/

namespace Sqi
open Table

def failureReasonCanceledByUser : String := "canceled by user"
def failureReasonUpstreamFailed : String := "canceled: upstream step failed"
def failureReasonWorkerOffline : String := "worker went offline"
def failureReasonWorkerShutdown : String := "worker shut down"
def failureReasonWorkerRestarted : String := "worker restarted"
def coalesceText (new old : String) : String := if new = "" then old else new
def stampReason (reason old : String) : String := if old = "" then reason else old

def maxAttemptNumber (db : DB) (taskID : ID) : Nat :=
  ((db.attempts.filter (·.taskID = taskID)).map (·.attemptNumber)).foldr max 0

def isLatestAttempt (db : DB) (attemptID taskID : ID) : Prop :=
  ∃ a ∈ db.attempts, a.id = attemptID ∧ a.taskID = taskID ∧ a.attemptNumber = maxAttemptNumber db taskID
deriving Decidable

def liveAttempt (db : DB) (attemptID : ID) (t : Task) : Prop :=
  t.status.InFlight ∧ ∃ a ∈ db.attempts, a.id = attemptID ∧ a.taskID = t.id ∧
    a.status = .running ∧ a.attemptNumber = maxAttemptNumber db t.id
deriving Decidable

structure AttemptCompletion where
  attemptID : ID
  taskID : ID
  taskStatus : TaskStatus
  attemptStatus : AttemptStatus
  exitCode : Option Int
  sessionID : String
  message : String
  failureReason : String
  endedAt : Time
  deriving DecidableEq

def sqlCloseRunningAttempt (c : AttemptCompletion) (db : DB) : DB :=
  db.updateAttempts (fun a => a.id = c.attemptID ∧ a.status = .running)
      (fun a => { a with
        status := c.attemptStatus
        exitCode := c.exitCode
        endedAt := some c.endedAt
        sessionID := coalesceText c.sessionID a.sessionID
        message := coalesceText c.message a.message })

def sqlCloseAttemptAsFailed (attemptID : ID) (exitCode : Option Int) (sessionID message : String)
    (at_ : Time) (db : DB) : DB :=
  db.updateAttempts (fun a => a.id = attemptID ∧ a.status = .running)
      (fun a => { a with
        status := .failed
        endedAt := some at_
        exitCode := exitCode.or a.exitCode
        sessionID := coalesceText sessionID a.sessionID
        message := coalesceText message a.message })

def sqlReleaseAttemptClaims (now : Time) (attemptID : ID) (db : DB) : DB :=
  db.updateClaims (fun c => c.taskAttemptID = attemptID ∧ c.releasedAt = none)
      (fun c => { c with releasedAt := some now })

def sqlCloseTasksRunningAttempts (status : AttemptStatus) (now : Time) (message : String)
    (taskIDs : List ID) (db : DB) : DB :=
  db.updateAttempts (fun a => a.status = .running ∧ a.taskID ∈ taskIDs)
      (fun a => { a with
        status := status
        endedAt := some now
        message := coalesceText message a.message })

def closedTasksClaim (db : DB) (taskIDs : List ID) (c : UsageClaim) : Prop :=
  c.releasedAt = none ∧ ∃ a ∈ db.attempts, a.id = c.taskAttemptID ∧ a.status ≠ .running ∧ a.taskID ∈ taskIDs
deriving Decidable

def sqlReleaseClosedTasksClaims (now : Time) (taskIDs : List ID) (db : DB) : DB :=
  db.updateClaims (closedTasksClaim db taskIDs) (fun c => { c with releasedAt := some now })
def casWriteTaskStatus (id : ID) (observed target : TaskStatus) (db : DB) : DB :=
  db.updateTasks (fun t => t.id = id ∧ t.status = observed)
      (fun t => { t with status := target, unschedulableReason := "" })
def sqlSetTaskFailureReason (reason : String) (id : ID) (db : DB) : DB :=
  db.updateTasks (fun t => t.id = id)
      (fun t => { t with failureReason := reason })

def reclaimTask (t : Task) : Task :=
  { t with
    status := .ready
    assignedWorkerID := none
    assignedAt := none
    unschedulableReason := "" }

def closeTasksAttempts (taskIDs : List ID) (status : AttemptStatus) (message : String) (now : Time)
    (db : DB) : DB :=
  if taskIDs = [] then db
  else sqlReleaseClosedTasksClaims now taskIDs
    (sqlCloseTasksRunningAttempts status now message taskIDs db)

def closeAttemptAndRelease (c : AttemptCompletion) (now : Time) (db : DB) : DB :=
  sqlReleaseAttemptClaims now c.attemptID (sqlCloseRunningAttempt c db)

/-! ## CompleteTaskAttempt -/

inductive CompletionResult where
  | applied
  | rejected
  deriving DecidableEq

inductive CasResult where
  | applied
  | same
  | rejected
  deriving DecidableEq

def casTaskStatus (t : Task) (target : TaskStatus) (db : DB) : CasResult × DB :=
  if t.status = target then (.same, db)
  else if t.status.validTaskTransition target then (.applied, casWriteTaskStatus t.id t.status target db)
  else (.rejected, db)

def applyCompletion (c : AttemptCompletion) (t : Task) (db : DB) : CompletionResult × DB :=
  if ¬ isLatestAttempt db c.attemptID c.taskID then (.rejected, db)
  else if t.status ≠ c.taskStatus ∧ ¬ t.status.InFlight then (.rejected, db)
  else
    match casTaskStatus t c.taskStatus db with
    | (.rejected, db') => (.rejected, db')
    | (_, db') =>
      (.applied,
        if c.failureReason ≠ "" then sqlSetTaskFailureReason c.failureReason c.taskID db' else db')

def completeTaskAttempt (c : AttemptCompletion) (now : Time) (db : DB) :
    Except StoreError CompletionResult × DB :=
  match db.task? c.taskID with
  | none => (.error .notFound, db)
  | some t =>
    let r := applyCompletion c t (closeAttemptAndRelease c now db)
    (.ok r.1, r.2)

def sqlCancelOneTask (reason : String) (taskID : ID) (db : DB) : DB :=
  db.updateTasks (fun t => t.id = taskID ∧ ¬ t.status.IsTerminal)
      (fun t => { t with
        status := .canceled
        unschedulableReason := ""
        failureReason := stampReason reason t.failureReason })

def cancelTaskExecution (taskID : ID) (reason : String) (now : Time) (db : DB) :
    Except StoreError (Task × Bool) × DB :=
  match db.task? taskID with
  | none => (.error .notFound, db)
  | some prior =>
    if prior.status.IsTerminal then (.ok (prior, false), db)
    else (.ok (prior, true), closeTasksAttempts [taskID] .canceled "" now (sqlCancelOneTask reason taskID db))

/-! ## Worker reports -/

def sqlSetRunningAttemptSession (sessionID : String) (attemptID : ID) (db : DB) : DB :=
  db.updateAttempts (fun a => a.id = attemptID ∧ a.status = .running)
      (fun a => { a with sessionID := sessionID })

def startTaskAttempt (attemptID taskID : ID) (sessionID : String) (db : DB) :
    Except StoreError Bool × DB :=
  match db.task? taskID with
  | none => (.error .notFound, db)
  | some t =>
    if ¬ liveAttempt db attemptID t then (.ok false, db)
    else
      let db₁ := if t.status = .assigned then casWriteTaskStatus taskID .assigned .running db else db
      (.ok true,
        if sessionID ≠ "" then sqlSetRunningAttemptSession sessionID attemptID db₁ else db₁)

structure AttemptProgress where
  attemptID : ID
  taskID : ID
  progress : Option Int
  statusText : String
  at_ : Time
  deriving DecidableEq

inductive ProgressOutcome where
  | recorded
  | notLive
  | taskAssigned
  | outOfOrder
  deriving DecidableEq

def progressMatches (p : AttemptProgress) (a : TaskAttempt) : Prop :=
  a.id = p.attemptID ∧ a.status = .running ∧ (a.progressAt = none ∨ ∃ stored ∈ a.progressAt, stored < p.at_)
deriving Decidable

def sqlRecordAttemptProgress (p : AttemptProgress) (db : DB) : DB :=
  db.updateAttempts (progressMatches p)
      (fun a => { a with
        progress := p.progress
        statusText := p.statusText
        progressAt := some p.at_ })

def recordAttemptProgress (p : AttemptProgress) (db : DB) :
    Except StoreError ProgressOutcome × DB :=
  match db.task? p.taskID with
  | none => (.error .notFound, db)
  | some t =>
    if ¬ liveAttempt db p.attemptID t then (.ok .notLive, db)
    else if t.status = .assigned then (.ok .taskAssigned, db)
    else if ∃ a ∈ db.attempts, progressMatches p a then
      (.ok .recorded, sqlRecordAttemptProgress p db)
    else (.ok .outOfOrder, db)

def sqlReclaimOneTask (taskID : ID) (db : DB) : DB :=
  db.updateTasks (fun t => t.id = taskID ∧ t.status.InFlight) reclaimTask

def reclaimTaskAttempt (attemptID taskID : ID) (now : Time) (db : DB) :
    Except StoreError Bool × DB :=
  match db.task? taskID with
  | none => (.error .notFound, db)
  | some t =>
    if ¬ liveAttempt db attemptID t then (.ok false, db)
    else (.ok true, closeTasksAttempts [taskID] .failed failureReasonWorkerShutdown now
        (sqlReclaimOneTask taskID db))

def staleAssigned (cutoff : Time) (t : Task) : Prop :=
  t.status = .assigned ∧ ∃ since ∈ t.assignedAt, since < cutoff
deriving Decidable

def reclaimStaleBatch (batch : List ID) (cutoff now : Time) (db : DB) : List Task × DB :=
  let reclaimed := returning (fun t => t.id ∈ batch ∧ staleAssigned cutoff t) reclaimTask db.tasks
  if reclaimed = [] then ([], db)
  else (reclaimed, closeTasksAttempts (reclaimed.map (·.id)) .failed "" now
      (db.updateTasks (fun t => t.id ∈ batch ∧ staleAssigned cutoff t) reclaimTask))

def reclaimWorkerTasks (workerID : ID) (message : String) (now : Time) (db : DB) : List Task × DB :=
  let reclaimed :=
    returning (fun t => t.assignedWorkerID = some workerID ∧ t.status.InFlight) reclaimTask db.tasks
  (reclaimed, closeTasksAttempts (reclaimed.map (·.id)) .failed message now
      (db.updateTasks (fun t => t.assignedWorkerID = some workerID ∧ t.status.InFlight) reclaimTask))

structure FailureRecord where
  taskFailed : Nat
  jobFailed : Nat
  firstClose : Bool
  deriving DecidableEq

def sqlRecordTaskFailure (taskID : ID) (db : DB) : DB :=
  db.updateTasks (fun t => t.id = taskID)
      (fun t => { t with failedAttempts := t.failedAttempts + 1 })
def sqlIncrementJobFailure (jobID : ID) (db : DB) : DB :=
  db.updateJobs (fun j => j.id = jobID)
      (fun j => { j with failedAttempts := j.failedAttempts + 1 })

def recordTaskFailure (attemptID taskID : ID) (exitCode : Option Int) (sessionID message : String)
    (at_ now : Time) (db : DB) : Except StoreError FailureRecord × DB :=
  match db.task? taskID with
  | none => (.error .notFound, db)
  | some t =>
    match db.job? t.jobID with
    | none => (.error .notFound, db)
    | some j =>
      let db₁ := sqlReleaseAttemptClaims now attemptID
        (sqlCloseAttemptAsFailed attemptID exitCode sessionID message at_ db)
      if ∃ a ∈ db.attempts, a.id = attemptID ∧ a.status = .running then
        (.ok ⟨t.failedAttempts + 1, j.failedAttempts + 1, true⟩,
          sqlIncrementJobFailure t.jobID (sqlRecordTaskFailure taskID db₁))
      else (.ok ⟨t.failedAttempts, j.failedAttempts, false⟩, db₁)

def requeueMatches (db : DB) (taskID attemptID : ID) (t : Task) : Prop :=
  t.id = taskID ∧ t.status.InFlight ∧ isLatestAttempt db attemptID taskID
deriving Decidable

def requeueTaskForRetry (taskID attemptID : ID) (retryAfter : Time) (db : DB) : Bool × DB :=
  (decide (∃ t ∈ db.tasks, requeueMatches db taskID attemptID t),
    db.updateTasks (requeueMatches db taskID attemptID)
        (fun t => { t with
          status := .ready
          assignedWorkerID := none
          assignedAt := none
          retryAfter := some retryAfter
          failureReason := "" }))

/-! ## The ways a transaction ends

A property of the state holds after a transaction if it holds after each of the
writes the transaction can end with. -/

section
variable {R : DB → Prop} {db : DB} {now : Time}

lemma complete_of {c : AttemptCompletion} (same : R db)
    (closed : R (closeAttemptAndRelease c now db))
    (moved : ∀ t, db.task? c.taskID = some t → t.status.InFlight →
    isLatestAttempt (closeAttemptAndRelease c now db) c.attemptID c.taskID →
    R (casWriteTaskStatus t.id t.status c.taskStatus (closeAttemptAndRelease c now db)))
    (stamped : ∀ d, R d → R (sqlSetTaskFailureReason c.failureReason c.taskID d)) :
    R (completeTaskAttempt c now db).2 := by
  unfold completeTaskAttempt
  split
  · exact same
  rename_i t ht
  dsimp only [applyCompletion]
  split
  · exact closed
  rename_i hl
  split
  · exact closed
  rename_i hflight
  have cas : R (casTaskStatus t c.taskStatus (closeAttemptAndRelease c now db)).2 := by
    unfold casTaskStatus
    split
    · exact closed
    rename_i hne
    split
    · exact moved t ht (by_contra fun hn => hflight ⟨hne, hn⟩) (not_not.mp hl)
    · exact closed
  split
  · rename_i heq
    rwa [heq] at cas
  rename_i heq
  rw [heq] at cas
  dsimp only
  split
  · exact stamped _ cas
  · exact cas

lemma cancelTask_of {taskID : ID} {reason : String} (same : R db)
    (canceled : R (closeTasksAttempts [taskID] .canceled "" now (sqlCancelOneTask reason taskID db))) :
    R (cancelTaskExecution taskID reason now db).2 := by
  unfold cancelTaskExecution
  repeat' split
  all_goals first | exact same | exact canceled

lemma recordFailure_of {attemptID taskID : ID} {exitCode : Option Int} {sessionID message : String}
    {at_ : Time} (same : R db)
    (closed : R (sqlReleaseAttemptClaims now attemptID
    (sqlCloseAttemptAsFailed attemptID exitCode sessionID message at_ db)))
    (counted : ∀ jobID d, R d → R (sqlIncrementJobFailure jobID (sqlRecordTaskFailure taskID d))) :
    R (recordTaskFailure attemptID taskID exitCode sessionID message at_ now db).2 := by
  unfold recordTaskFailure
  split
  · exact same
  split
  · exact same
  dsimp only
  split
  · exact counted _ _ closed
  · exact closed

end
end Sqi

import Sqi.Lib.Text
import Sqi.Scheduler.Cascade

/-! Worker reports: `processTaskStatus` with every handler behind it (`taskstatus.go`, `failure.go`,
`retrypolicy.go`). -/

namespace Sqi
open Table Program GoText

def second : Int := 1000000000

structure RetryPolicy where
  maxAttempts : Int
  retryDelay : Int
  failureLimit : Int
  deriving DecidableEq

def coalesceInt (fallback : Int) (vals : List (Option Int)) : Int :=
  (vals.findSome? fun v => v).getD fallback

def resolveRetryPolicy (job : Job) (queue : Queue) (farm : Farm) (fallback : RetryPolicy) :
    RetryPolicy where
  maxAttempts := max 1 (coalesceInt fallback.maxAttempts
    [job.retry.maxAttempts, queue.retry.maxAttempts, farm.retry.maxAttempts])
  retryDelay := second * max 0 (coalesceInt (fallback.retryDelay.tdiv second)
    [job.retry.retryDelaySeconds, queue.retry.retryDelaySeconds, farm.retry.retryDelaySeconds])
  failureLimit := max 0 (coalesceInt fallback.failureLimit
    [job.retry.failureLimit, queue.retry.failureLimit, farm.retry.failureLimit])

def isControl (r : Char) : Prop := r.val ≤ 0x1F ∨ (0x7F ≤ r.val ∧ r.val ≤ 0x9F)
deriving Decidable

def maxStatusTextBytes : Nat := 1024

def sanitizeRunes : List (Option Char) → List Char → List Char
  | [], b => b
  | none :: rs, b => sanitizeRunes rs b
  | some r :: rs, b =>
    let blank := r = '\t' ∨ r = '\n' ∨ r = '\r'
    let r' := if blank then ' ' else r
    if ¬ blank ∧ isControl r then sanitizeRunes rs b
    else if b = [] ∧ isSpace r' then sanitizeRunes rs b
    else if (b.map Char.utf8Size).sum + r'.utf8Size > maxStatusTextBytes then b
    else sanitizeRunes rs (r' :: b)

def sanitizeStatusText (s : String) : String :=
  String.ofList ((sanitizeRunes (s.toList.map some) []).dropWhile fun r => isSpace r).reverse

inductive ReportedStatus where
  | running
  | succeeded
  | failed
  | canceled
  | unknown (text : String)
  deriving DecidableEq

structure TaskStatusMsg where
  taskID : ID
  attemptID : ID
  status : ReportedStatus
  exitCode : Option Int
  sessionID : String
  at_ : Option Time
  lastProgress : Option Int
  message : String
  deriving DecidableEq

def messageWorkerShutdown : String := "worker_shutdown"
def TaskStatusMsg.reportedAt (m : TaskStatusMsg) (now : Time) : Time := m.at_.getD now

def failureReasonOrFallback (msg : String) (exitCode : Option Int) (outcome : Outcome) : String :=
  if msg ≠ "" then msg
  else if outcome = .failed then
    match exitCode with
    | some code => "failed (exit " ++ toString code ++ ")"
    | none => "failed"
  else ""

def terminalReport (m : TaskStatusMsg) (outcome : Outcome) (at_ : Time) : TerminalReport where
  attemptID := m.attemptID
  taskID := m.taskID
  outcome := outcome
  exitCode := m.exitCode
  sessionID := m.sessionID
  message := m.message
  failureReason :=
    if outcome = .failed ∨ outcome = .canceled then
      failureReasonOrFallback m.message m.exitCode outcome
    else ""
  endedAt := at_

def fetch {α : Type} (f : DB → Option α) : Sched α := do
  match ← .read f with
  | none => .fail .notFound
  | some a => pure a

lemma fetch_some {α : Type} {f : DB → Option α} {db : DB} {a : α} (h : f db = some a) :
    fetch f db = (.ok a, db) := by
  rw [fetch, Prog.read_bind, h]
  rfl
lemma fetch_none {α : Type} {f : DB → Option α} {db : DB} (h : f db = none) :
    fetch f db = (.error .notFound, db) := by
  rw [fetch, Prog.read_bind, h]
  rfl

def handleTaskTerminal (now : Time) (m : TaskStatusMsg) (outcome : Outcome) (at_ : Time) :
    Sched Unit := do
  let res ← .tx (completeTaskAttempt (terminalReport m outcome at_).completion now)
  let task ← fetch (·.task? m.taskID)
  match res with
  | .rejected => .fail .invalidTransition
  | .applied => checkStepCompletion now task.stepID task.jobID

def snapshotProgress (now : Time) (m : TaskStatusMsg) : AttemptProgress where
  attemptID := m.attemptID
  taskID := m.taskID
  progress := m.lastProgress
  statusText := sanitizeStatusText m.message
  at_ := m.reportedAt now

def handleRunningSnapshot (p : AttemptProgress) : Sched Bool := fun db =>
  match recordAttemptProgress p db with
  | (.error .notFound, db') => (.ok true, db')
  | (.error e, db') => (.error e, db')
  | (.ok .taskAssigned, db') => (.ok false, db')
  | (.ok _, db') => (.ok true, db')

def startReported (now : Time) (m : TaskStatusMsg) (snap : Option AttemptProgress) : Sched Unit := do
  let started ← .tx (startTaskAttempt m.attemptID m.taskID m.sessionID)
  if started then
    match ← .read (·.task? m.taskID) with
    | none => pure ()
    | some task => do
      match snap with
      | none => pure ()
      | some p => .quiet (.tx (recordAttemptProgress p))
      .quiet (.lift (promoteJobRunning task.jobID now) : Sched Bool)

def handleTaskRunning (now : Time) (m : TaskStatusMsg) : Sched Unit := do
  if m.lastProgress ≠ none ∨ m.message ≠ "" then
    let p := snapshotProgress now m
    let done ← handleRunningSnapshot p
    if done then pure () else startReported now m (some p)
  else startReported now m none

def failureReportStillCurrent (db : DB) (taskID attemptID : ID) : Prop :=
  (∃ a ∈ db.attempts, a.id = attemptID ∧ a.status = .failed) ∧ isLatestAttempt db attemptID taskID
deriving Decidable

def settleFailure (now : Time) (m : TaskStatusMsg) (jobID : ID) (policy : RetryPolicy)
    (r : FailureRecord) (at_ : Time) : Sched Unit := do
  if ¬ (0 < policy.failureLimit ∧ policy.failureLimit ≤ (r.jobFailed : Int)) ∧
      (r.taskFailed : Int) < policy.maxAttempts then
    let _ ← (.lift (requeueTaskForRetry m.taskID m.attemptID (at_ + policy.retryDelay.toNat)) :
      Sched Bool)
  else
    if 0 < policy.failureLimit ∧ policy.failureLimit ≤ (r.jobFailed : Int) then
      .tx (parkJob jobID (parkedReason policy.failureLimit))
    handleTaskTerminal now m .failed at_

def handleTaskFailed (defaults : RetryPolicy) (now : Time) (m : TaskStatusMsg) (at_ : Time) :
    Sched Unit := do
  if m.message = messageWorkerShutdown then
    let _ ← .tx (reclaimTaskAttempt m.attemptID m.taskID now)
  else
    let task ← fetch (·.task? m.taskID)
    let job ← fetch (·.job? task.jobID)
    let queue ← fetch (·.queue? job.queueID)
    let farm ← fetch (·.farm? job.farmID)
    let r ← .tx (recordTaskFailure m.attemptID m.taskID m.exitCode m.sessionID m.message at_ now)
    let current ← .read fun db =>
      decide (r.firstClose = true ∨ failureReportStillCurrent db m.taskID m.attemptID)
    if current then
      settleFailure now m task.jobID (resolveRetryPolicy job queue farm defaults) r at_

/-- The switch of `processTaskStatus` on the reported status. -/
def handleTaskStatus (defaults : RetryPolicy) (now : Time) (m : TaskStatusMsg) : Sched Unit :=
  match m.status with
  | .running => handleTaskRunning now m
  | .succeeded => handleTaskTerminal now m .succeeded (m.reportedAt now)
  | .failed => handleTaskFailed defaults now m (m.reportedAt now)
  | .canceled => handleTaskTerminal now m .canceled (m.reportedAt now)
  | .unknown _ => pure ()

def processTaskStatus (defaults : RetryPolicy) (now : Time) (subjectWorkerID : ID)
    (m : TaskStatusMsg) : Sched Unit := do
  match ← .read (·.attempt? m.attemptID) with
  | none => pure ()
  | some attempt =>
    if attempt.taskID ≠ m.taskID then pure ()
    else if subjectWorkerID ≠ attempt.workerID then pure ()
    else handleTaskStatus defaults now m

end Sqi

import Sqi.Lib.Run
import Sqi.Store.Lease
import Sqi.Store.Submission
import Sqi.Store.Worker

/-! The store under concurrent callers: one labelled step for each transaction, taken in any order. -/

namespace Sqi
open Table Transition

inductive Outcome where
  | succeeded
  | failed
  | canceled
  deriving DecidableEq

def Outcome.taskStatus : Outcome → TaskStatus
  | .succeeded => .succeeded
  | .failed => .failed
  | .canceled => .canceled
def Outcome.attemptStatus : Outcome → AttemptStatus
  | .succeeded => .succeeded
  | .failed => .failed
  | .canceled => .canceled

structure TerminalReport where
  attemptID : ID
  taskID : ID
  outcome : Outcome
  exitCode : Option Int
  sessionID : String
  message : String
  failureReason : String
  endedAt : Time
  deriving DecidableEq

def TerminalReport.completion (r : TerminalReport) : AttemptCompletion :=
  { attemptID := r.attemptID, taskID := r.taskID
    taskStatus := r.outcome.taskStatus, attemptStatus := r.outcome.attemptStatus
    exitCode := r.exitCode, sessionID := r.sessionID, message := r.message
    failureReason := r.failureReason, endedAt := r.endedAt }

def saveRow {α : Type} (key : α → ID) (r : α) (rows : List α) : List α :=
  if ∃ r' ∈ rows, key r' = key r then update (fun r' => key r' = key r) (fun _ => r) rows
  else rows ++ [r]

inductive Op where
  | saveFarm (f : Farm)
  | saveQueue (q : Queue)
  | saveUsagePool (p : UsagePool)
  | registerWorker (w : Worker) (now : Time)
  | updateWorkerHeartbeat (id : ID) (at_ : Time) (brokerAt : Option Time)
  | setWorkerDisabled (id : ID) (disabled : Bool)
  | submit (p : SubmissionPlan) (blocked : Bool)
  | leaseTask (req : LeaseRequest)
  | startTaskAttempt (attemptID taskID : ID) (sessionID : String)
  | recordAttemptProgress (p : AttemptProgress)
  | completeTaskAttempt (r : TerminalReport) (now : Time)
  | recordTaskFailure (attemptID taskID : ID) (exitCode : Option Int) (sessionID message : String)
      (at_ now : Time)
  | requeueTaskForRetry (taskID attemptID : ID) (retryAfter : Time)
  | reclaimTaskAttempt (attemptID taskID : ID) (now : Time)
  | reclaimStaleBatch (batch : List ID) (cutoff now : Time)
  | offlineStaleWorker (id : ID) (cutoff now : Time)
  | offlineWorker (id : ID) (instanceID : String) (now : Time)
  | cancelTaskExecution (taskID : ID) (reason : String) (now : Time)
  | cancelJobExecution (jobID : ID) (reason : String) (now : Time)
  | retryTasks (jobID : ID) (taskIDs : Option (List ID))
  | finalizeStep (id : ID)
  | finalizeJob (id : ID) (now : Time)
  | releaseStep (id : ID)
  | cancelPendingStep (id : ID) (reason : String)
  | releaseBlockedJob (id : ID)
  | cancelBlockedJob (id : ID) (reason : String) (now : Time)
  | promoteJobRunning (id : ID) (now : Time)
  | demoteStalledJob (id : ID)
  | pauseJob (id : ID)
  | parkJob (id : ID) (reason : String)
  | resumeJob (id : ID)
  | updateJob (id farmID queueID : ID) (retry : RetryOverrides)

def Op.apply : Op → DB → DB
  | .saveFarm f, db => { db with farms := saveRow (·.id) f db.farms }
  | .saveQueue q, db => { db with queues := saveRow (·.id) q db.queues }
  | .saveUsagePool p, db => { db with pools := saveRow (·.id) p db.pools }
  | .registerWorker w now, db => (Sqi.registerWorker w now db).2
  | .updateWorkerHeartbeat id t brokerAt, db => (Sqi.updateWorkerHeartbeat id t brokerAt db).2
  | .setWorkerDisabled id disabled, db => (Sqi.setWorkerDisabled id disabled db).2
  | .submit p blocked, db => (createJobSubmission (buildSubmission p blocked) db).2
  | .leaseTask req, db => (Sqi.leaseTask req db).2
  | .startTaskAttempt a t sessionID, db => (Sqi.startTaskAttempt a t sessionID db).2
  | .recordAttemptProgress p, db => (Sqi.recordAttemptProgress p db).2
  | .completeTaskAttempt r now, db => (Sqi.completeTaskAttempt r.completion now db).2
  | .recordTaskFailure a t exitCode sessionID message at_ now, db =>
    (Sqi.recordTaskFailure a t exitCode sessionID message at_ now db).2
  | .requeueTaskForRetry t a retryAfter, db => (Sqi.requeueTaskForRetry t a retryAfter db).2
  | .reclaimTaskAttempt a t now, db => (Sqi.reclaimTaskAttempt a t now db).2
  | .reclaimStaleBatch batch cutoff now, db => (Sqi.reclaimStaleBatch batch cutoff now db).2
  | .offlineStaleWorker id cutoff now, db => (Sqi.offlineStaleWorker id cutoff now db).2
  | .offlineWorker id instanceID now, db => (Sqi.offlineWorker id instanceID now db).2
  | .cancelTaskExecution t reason now, db => (Sqi.cancelTaskExecution t reason now db).2
  | .cancelJobExecution j reason now, db => (Sqi.cancelJobExecution j reason now db).2
  | .retryTasks j taskIDs, db => (Sqi.retryTasks j taskIDs db).2
  | .finalizeStep id, db => (Sqi.finalizeStep id db).2
  | .finalizeJob id now, db => (Sqi.finalizeJob id now db).2
  | .releaseStep id, db => (Sqi.releaseStep id db).2
  | .cancelPendingStep id reason, db => (Sqi.cancelPendingStep id reason db).2
  | .releaseBlockedJob id, db => (Sqi.releaseBlockedJob id db).2
  | .cancelBlockedJob id reason now, db => (Sqi.cancelBlockedJob id reason now db).2
  | .promoteJobRunning id now, db => (Sqi.promoteJobRunning id now db).2
  | .demoteStalledJob id, db => (Sqi.demoteStalledJob id db).2
  | .pauseJob id, db => (Sqi.pauseJob id db).2
  | .parkJob id reason, db => (Sqi.parkJob id reason db).2
  | .resumeJob id, db => (Sqi.resumeJob id db).2
  | .updateJob id farmID queueID retry, db => (Sqi.updateJob id farmID queueID retry db).2

abbrev History := List (DB × Op)

/-! ## What the scheduler saw -/

def listSteps (db : DB) (jobID : ID) : List Step := db.steps.filter (·.jobID = jobID)
def stepStatusByName (steps : List Step) (name : String) : Option StepStatus :=
  ((steps.filter (·.name = name)).getLast?).map (·.status)

def allDepsCompleted (deps : List String) (statusByName : String → Option StepStatus) : Prop :=
  ∀ name ∈ deps, statusByName name = some .completed
deriving Decidable

def releasable (steps : List Step) (s : Step) : Prop :=
  s.status = .pending ∧ allDepsCompleted s.dependsOn (stepStatusByName steps)
deriving Decidable

def ResolveCalled (h : History) (db : DB) (jobID : ID) : Prop :=
  (∃ σ id changed, (σ, Op.finalizeStep id) ∈ h ∧ (finalizeStep id σ).1 = .ok (some .completed, changed) ∧
    ∃ s ∈ σ.steps, s.id = id ∧ s.jobID = jobID) ∨
  (∃ σ ids, (σ, Op.retryTasks jobID ids) ∈ h ∧ (retryTasks jobID ids σ).1 ≠ []) ∨
  (∃ σ, (σ, Op.releaseBlockedJob jobID) ∈ h ∧ (releaseBlockedJob jobID σ).1 = .ok true) ∨
  ∃ σ, Visited h db σ ∧ ∃ j ∈ σ.jobs, j.id = jobID ∧ ¬ j.status.IsTerminal ∧ j.status ≠ .blocked

def ReleaseDecided (h : History) (db : DB) (stepID : ID) : Prop :=
  ∃ σ, Visited h db σ ∧ ∃ s ∈ σ.steps, s.id = stepID ∧ releasable (listSteps σ s.jobID) s ∧
    ResolveCalled h db s.jobID
def DependenciesRead (h : History) (db : DB) (p : SubmissionPlan) (blocked : Bool) : Prop :=
  ∃ read : ID → JobStatus, (∀ up ∈ p.dependsOn, ¬ (read up).Unsuccessful ∧
      ∃ σ, Visited h db σ ∧ ∃ j ∈ σ.jobs, j.id = up ∧ j.farmID = p.farmID ∧ j.status = read up) ∧
    (blocked = true ↔ ∃ up ∈ p.dependsOn, read up ≠ .completed)
def AttemptRead (h : History) (db : DB) (attemptID taskID : ID) : Prop :=
  ∃ σ, Visited h db σ ∧ ∃ a ∈ σ.attempts, a.id = attemptID ∧ a.taskID = taskID
def FailureRecorded (h : History) (attemptID taskID : ID) : Prop :=
  ∃ σ exitCode sessionID message at_ now r,
    (σ, Op.recordTaskFailure attemptID taskID exitCode sessionID message at_ now) ∈ h ∧
    (recordTaskFailure attemptID taskID exitCode sessionID message at_ now σ).1 = .ok r
def parkedReason (failureLimit : Int) : String :=
  "failure limit reached (" ++ toString failureLimit ++ ")"

def ParkDecided (h : History) (jobID : ID) (reason : String) : Prop :=
  ∃ σ attemptID taskID exitCode sessionID message at_ now r failureLimit,
    (σ, Op.recordTaskFailure attemptID taskID exitCode sessionID message at_ now) ∈ h ∧
    (recordTaskFailure attemptID taskID exitCode sessionID message at_ now σ).1 = .ok r ∧
    (∃ t ∈ σ.tasks, t.id = taskID ∧ t.jobID = jobID) ∧
    0 < failureLimit ∧ failureLimit ≤ (r.jobFailed : Int) ∧ reason = parkedReason failureLimit

def Op.enabled (h : History) (db : DB) : Op → Prop
  | .submit p blocked => DependenciesRead h db p blocked
  | .completeTaskAttempt r _ => AttemptRead h db r.attemptID r.taskID ∧
    (r.outcome = .failed → FailureRecorded h r.attemptID r.taskID)
  | .recordTaskFailure a t .. => AttemptRead h db a t
  | .requeueTaskForRetry t a _ => FailureRecorded h a t
  | .releaseStep id => ReleaseDecided h db id
  | .parkJob id reason => ParkDecided h id reason
  | _ => True

def storeSystem : System DB Op where
  init := DB.empty
  enabled := fun h db op => op.enabled h db
  next := Op.apply

abbrev StoreRun (h : History) (db : DB) : Prop := Run storeSystem h db

/-! ## A small farm

One farm, queue and licence pool, and a job whose second step waits for its
first. The witnesses of the run theorems start from it. -/

def noRetry : RetryOverrides := ⟨none, none, none⟩

def smallPlan : SubmissionPlan where
  jobID := 1
  farmID := 1
  queueID := 1
  retry := noRetry
  dependsOn := []
  steps := [⟨10, "build", [], [100, 101]⟩, ⟨11, "render", ["build"], [110]⟩]
  steps_ne := by decide
  tasks_ne := by decide
  names_nodup := by decide
  deps_declared := by decide

def smallSetup : List Op :=
  [.saveFarm ⟨1, 0, noRetry⟩, .saveQueue ⟨1, false, 4, noRetry⟩, .saveUsagePool ⟨1, "licences", 2⟩,
    .submit smallPlan false]
def smallLease (taskID attemptID : ID) : Op :=
  .leaseTask ⟨taskID, 5, attemptID, 50, [⟨attemptID, 1, "licences"⟩]⟩

lemma dependenciesRead_nil {h : History} {db : DB} {p : SubmissionPlan} (hp : p.dependsOn = []) :
    DependenciesRead h db p false :=
  ⟨fun _ => .completed, by simp [hp], by simp [hp]⟩

lemma smallSetup_permits (ops : List Op)
    (h : storeSystem.Permits ops (storeSystem.exec smallSetup [] DB.empty).1
      (storeSystem.exec smallSetup [] DB.empty).2) :
    storeSystem.Permits (smallSetup ++ ops) [] DB.empty :=
  ⟨trivial, trivial, trivial, dependenciesRead_nil rfl, h⟩

def smallSuccess (taskID attemptID : ID) : Op :=
  .completeTaskAttempt ⟨attemptID, taskID, .succeeded, some 0, "s", "", "", 60⟩ 60
def smallBuild : List Op :=
  smallSetup ++ [smallLease 100 1000, smallLease 101 1001, smallSuccess 100 1000,
    smallSuccess 101 1001, .finalizeStep 10, .releaseStep 11]

lemma smallBuild_permits (ops : List Op)
    (h : storeSystem.Permits ops (storeSystem.exec smallBuild [] DB.empty).1
      (storeSystem.exec smallBuild [] DB.empty).2) :
    storeSystem.Permits (smallBuild ++ ops) [] DB.empty := by
  rw [smallBuild, List.append_assoc]
  refine smallSetup_permits _ ⟨trivial, trivial, ⟨?_, nofun⟩, ⟨?_, nofun⟩, trivial, ?_, h⟩
  · exact ⟨_, .now, by decide⟩
  · exact ⟨_, .now, by decide⟩
  -- the finalize answered "completed", so the steps were listed again
  refine ⟨_, .now, ⟨11, 1, "render", ["build"], .pending⟩, by decide, rfl, by decide, .inl ?_⟩
  exact ⟨_, 10, true, List.mem_cons_self, by decide, ⟨10, 1, "build", [], .ready⟩, by decide, rfl, rfl⟩

end Sqi

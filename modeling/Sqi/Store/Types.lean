import Mathlib.Tactic.Simps.Basic
import Sqi.Lib.Table

/-! The rows of the store and their statuses. -/

namespace Sqi
open List

abbrev ID := Nat
abbrev Time := Nat

inductive TaskStatus where
  | pending | ready | assigned | running | succeeded | failed | canceled
  deriving DecidableEq

inductive StepStatus where
  | pending | ready | running | completed | failed | canceled
  deriving DecidableEq

inductive JobStatus where
  | pending | running | paused | blocked | completed | failed | canceled
  deriving DecidableEq

inductive AttemptStatus where
  | running | succeeded | failed | canceled
  deriving DecidableEq

inductive WorkerStatus where
  | online | offline
  deriving DecidableEq

namespace TaskStatus

def IsTerminal (s : TaskStatus) : Prop := s = succeeded ∨ s = failed ∨ s = canceled
deriving Decidable

def InFlight (s : TaskStatus) : Prop := s = assigned ∨ s = running
deriving Decidable

def Unsuccessful (s : TaskStatus) : Prop := s = failed ∨ s = canceled
deriving Decidable

def validTaskTransition : TaskStatus → TaskStatus → Bool
  | pending, ready | pending, canceled => true
  | ready, assigned | ready, canceled => true
  | assigned, running | assigned, ready | assigned, canceled
  | assigned, succeeded | assigned, failed => true
  | running, succeeded | running, failed | running, ready | running, canceled => true
  | _, _ => false

end TaskStatus
namespace StepStatus

def IsTerminal (s : StepStatus) : Prop := s = completed ∨ s = failed ∨ s = canceled
deriving Decidable

def Unsuccessful (s : StepStatus) : Prop := s = failed ∨ s = canceled
deriving Decidable

lemma Unsuccessful.isTerminal {s : StepStatus} (h : s.Unsuccessful) : s.IsTerminal := Or.inr h

end StepStatus
namespace JobStatus

def IsTerminal (s : JobStatus) : Prop := s = completed ∨ s = failed ∨ s = canceled
deriving Decidable

def Unsuccessful (s : JobStatus) : Prop := s = failed ∨ s = canceled
deriving Decidable

end JobStatus

structure RetryOverrides where
  maxAttempts : Option Int
  retryDelaySeconds : Option Int
  failureLimit : Option Int
  deriving DecidableEq

structure Farm where
  id : ID
  /-- 0 is unlimited. -/
  maxConcurrentTasks : Int
  retry : RetryOverrides
  deriving DecidableEq

structure Queue where
  id : ID
  paused : Bool
  maxConcurrentTasks : Int
  retry : RetryOverrides
  deriving DecidableEq

structure UsagePool where
  id : ID
  name : String
  maxConcurrent : Int
  deriving DecidableEq

structure Worker where
  id : ID
  status : WorkerStatus
  disabled : Bool
  lastHeartbeatAt : Option Time
  instanceID : String
  registrationBrokerAt : Option Time
  heartbeatBrokerAt : Option Time
  deriving DecidableEq

structure Job where
  id : ID
  farmID : ID
  queueID : ID
  status : JobStatus
  failedAttempts : Nat
  /-- `''` unless the job was parked at its failure limit. -/
  parkReason : String
  startedAt : Option Time
  completedAt : Option Time
  retry : RetryOverrides
  deriving DecidableEq

structure Step where
  id : ID
  jobID : ID
  name : String
  dependsOn : List String
  status : StepStatus
  deriving DecidableEq

structure Task where
  id : ID
  jobID : ID
  stepID : ID
  status : TaskStatus
  assignedWorkerID : Option ID
  assignedAt : Option Time
  failedAttempts : Nat
  retryAfter : Option Time
  failureReason : String
  unschedulableReason : String
  deriving DecidableEq

structure TaskAttempt where
  id : ID
  taskID : ID
  workerID : ID
  attemptNumber : Nat
  status : AttemptStatus
  sessionID : String
  exitCode : Option Int
  message : String
  progress : Option Int
  statusText : String
  progressAt : Option Time
  createdAt : Time
  endedAt : Option Time
  deriving DecidableEq

structure UsageClaim where
  id : ID
  poolID : ID
  taskAttemptID : ID
  releasedAt : Option Time
  deriving DecidableEq

structure JobDependency where
  jobID : ID
  dependsOnJobID : ID
  deriving DecidableEq

structure DB where
  farms : List Farm
  queues : List Queue
  pools : List UsagePool
  workers : List Worker
  jobs : List Job
  jobDependencies : List JobDependency
  steps : List Step
  tasks : List Task
  attempts : List TaskAttempt
  claims : List UsageClaim
  deriving DecidableEq

def DB.empty : DB := ⟨[], [], [], [], [], [], [], [], [], []⟩

inductive StoreError where
  | notFound
  | conflict
  | constraint
  | staleRegistration
  | invalidTransition
  | dependencyUnsatisfiable (upstreamID : ID) (status : Option JobStatus)
  deriving DecidableEq

namespace DB

section
variable (db : DB)

/-! One guarded `UPDATE` on each table. -/

@[simps] def updateWorkers (p : Worker → Prop) [DecidablePred p] (f : Worker → Worker) : DB :=
  { db with workers := Table.update p f db.workers }
@[simps] def updateJobs (p : Job → Prop) [DecidablePred p] (f : Job → Job) : DB :=
  { db with jobs := Table.update p f db.jobs }
@[simps] def updateSteps (p : Step → Prop) [DecidablePred p] (f : Step → Step) : DB :=
  { db with steps := Table.update p f db.steps }
@[simps] def updateTasks (p : Task → Prop) [DecidablePred p] (f : Task → Task) : DB :=
  { db with tasks := Table.update p f db.tasks }
@[simps] def updateAttempts (p : TaskAttempt → Prop) [DecidablePred p]
    (f : TaskAttempt → TaskAttempt) : DB :=
  { db with attempts := Table.update p f db.attempts }
@[simps] def updateClaims (p : UsageClaim → Prop) [DecidablePred p]
    (f : UsageClaim → UsageClaim) : DB :=
  { db with claims := Table.update p f db.claims }

end

def task? (db : DB) (id : ID) : Option Task := db.tasks.find? (·.id = id)
def job? (db : DB) (id : ID) : Option Job := db.jobs.find? (·.id = id)
def step? (db : DB) (id : ID) : Option Step := db.steps.find? (·.id = id)
def attempt? (db : DB) (id : ID) : Option TaskAttempt := db.attempts.find? (·.id = id)

variable {id : ID} {db : DB}

lemma task?_some {t : Task} (h : db.task? id = some t) : t ∈ db.tasks ∧ t.id = id :=
  ⟨mem_of_find?_eq_some h, by simpa using find?_some h⟩
lemma job?_some {j : Job} (h : db.job? id = some j) : j ∈ db.jobs ∧ j.id = id :=
  ⟨mem_of_find?_eq_some h, by simpa using find?_some h⟩
lemma step?_some {s : Step} (h : db.step? id = some s) : s ∈ db.steps ∧ s.id = id :=
  ⟨mem_of_find?_eq_some h, by simpa using find?_some h⟩
lemma attempt?_some {a : TaskAttempt} (h : db.attempt? id = some a) : a ∈ db.attempts ∧ a.id = id :=
  ⟨mem_of_find?_eq_some h, by simpa using find?_some h⟩

end DB
end Sqi

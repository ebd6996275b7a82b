import Mathlib.Logic.Function.Basic
import Sqi.Lib.Program
import Sqi.Store.System

/-! What the scheduler does after a step or a job ends: release or cancel the steps behind it, finalize the
job, release or cancel the jobs behind it (`openjd/deps.go`, `checkStepCompletion` and
`checkJobCompletion` of `taskstatus.go`, `jobdeps.go`). -/

namespace Sqi
open Function Program Table

abbrev Sched := Prog StoreError DB

/-! ## Steps of one job -/

def releaseSteps (statusByName : String → Option StepStatus) : List Step → Nat → Sched Nat
  | [], promoted => pure promoted
  | s :: steps, promoted =>
    if s.status = .pending ∧ allDepsCompleted s.dependsOn statusByName then do
      let released ← .tx (releaseStep s.id)
      releaseSteps statusByName steps (if released then promoted + 1 else promoted)
    else releaseSteps statusByName steps promoted

def resolveDependencies (jobID : ID) : Sched Nat := do
  let steps ← .read (listSteps · jobID)
  releaseSteps (stepStatusByName steps) steps 0

def anyDepUnsuccessful (deps : List String) (statusByName : String → Option StepStatus) : Prop :=
  ∃ name ∈ deps, ∃ s ∈ statusByName name, s.Unsuccessful
deriving Decidable

structure CancelState where
  statusByName : String → Option StepStatus
  progressed : Bool
  canceled : Nat

def doomed (statusByName : String → Option StepStatus) (s : Step) : Prop :=
  statusByName s.name = some .pending ∧ anyDepUnsuccessful s.dependsOn statusByName
deriving Decidable

def cancelPass : List Step → CancelState → List Task → Sched (CancelState × List Task)
  | [], c, tasks => pure (c, tasks)
  | s :: steps, c, tasks =>
    if doomed c.statusByName s then do
      let (canceledStep, canceledTasks) ← .tx (cancelPendingStepTasks s.id failureReasonUpstreamFailed)
      cancelPass steps
        { statusByName := update c.statusByName s.name (some .canceled)
          progressed := true
          canceled := if canceledStep then c.canceled + 1 else c.canceled }
        (tasks ++ canceledTasks)
    else cancelPass steps c tasks

def cancelPasses (steps : List Step) : Nat → CancelState → List Task → Sched (Option (Nat × List Task))
  | 0, _, _ => pure none
  | fuel + 1, c, tasks => do
    let (c', tasks') ← cancelPass steps { c with progressed := false } tasks
    if c'.progressed then cancelPasses steps fuel c' tasks' else pure (some (c'.canceled, tasks'))

def cancelDependentsTasks (jobID : ID) : Sched (Option (Nat × List Task)) := do
  let steps ← .read (listSteps · jobID)
  cancelPasses steps (steps.length + 1) ⟨stepStatusByName steps, false, 0⟩ []

/-- The caller that only counts the steps. -/
def cancelDependents (jobID : ID) : Sched Nat := do
  match ← cancelDependentsTasks jobID with
  | some (canceled, _) => pure canceled
  | none => pure 0

def propagateStepDependencies (jobID : ID) (newStepStatus : StepStatus) : Sched Unit := do
  if newStepStatus = .completed then
    let _ ← resolveDependencies jobID
  else
    let _ ← cancelDependents jobID

/-! ## Jobs behind a job -/

def listDependents (db : DB) (upstreamJobID : ID) : List ID :=
  ((db.jobDependencies.filter (·.dependsOnJobID = upstreamJobID)).map (·.jobID)).insertionSort (· ≤ ·)
def listJobDependencyIDs (db : DB) (jobID : ID) : List ID :=
  ((db.jobDependencies.filter (·.jobID = jobID)).map (·.dependsOnJobID)).insertionSort (· ≤ ·)
def listBlockedJobs (db : DB) : List Job := db.jobs.filter (·.status = .blocked)

inductive Verdict where
  | cancel
  | release
  | wait
  deriving DecidableEq

def upstreamVote (db : DB) (id : ID) : Verdict :=
  match db.job? id with
  | none => .cancel
  | some up =>
    if up.status = .completed then .release
    else if up.status.Unsuccessful then .cancel
    else .wait

def upstreamVerdict (db : DB) : List ID → Bool → Verdict
  | [], allCompleted => if allCompleted then .release else .wait
  | id :: ids, allCompleted =>
    match upstreamVote db id with
    | .cancel => .cancel
    | .release => upstreamVerdict db ids allCompleted
    | .wait => upstreamVerdict db ids false

def blockedVerdict (db : DB) (jobID : ID) : Verdict :=
  match db.job? jobID with
  | none => .wait
  | some j =>
    if j.status ≠ .blocked then .wait
    else upstreamVerdict db (listJobDependencyIDs db jobID) true

def releaseAndResolve (jobID : ID) : Sched Unit := do
  let released ← .tx (releaseBlockedJob jobID)
  if released then
    let _ ← resolveDependencies jobID

def reconcileBlockedJob (reconcile : ID → Sched Unit) (now : Time) (jobID : ID) : Sched Unit := do
  match ← .read (blockedVerdict · jobID) with
  | .wait => pure ()
  | .release => releaseAndResolve jobID
  | .cancel =>
    let _ ← .tx (cancelBlockedJob jobID failureReasonUpstreamFailed now)
    reconcile jobID

def reconcileNested (now : Time) : Nat → ID → Sched Unit
  | 0, _ => pure ()
  | fuel + 1, upstreamJobID => do
    let dependents ← .read (listDependents · upstreamJobID)
    .each (reconcileBlockedJob (reconcileNested now fuel) now) dependents

def reconcileDependents (now : Time) (upstreamJobID : ID) : Sched Unit := do
  let blocked ← .read listBlockedJobs
  reconcileNested now (blocked.length + 1) upstreamJobID

def checkJobCompletion (now : Time) (jobID : ID) : Sched Unit := do
  let (status, _) ← .tx (finalizeJob jobID now)
  match status with
  | none => pure ()
  | some _ => .quiet (reconcileDependents now jobID)

def checkStepCompletion (now : Time) (stepID jobID : ID) : Sched Unit := do
  let (status, _) ← .tx (finalizeStep stepID)
  match status with
  | none => pure ()
  | some status => do
    propagateStepDependencies jobID status
    checkJobCompletion now jobID

end Sqi

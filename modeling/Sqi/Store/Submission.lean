import Mathlib.Data.List.Sort
import Sqi.Store.Job

/-! Submission: the rows one accepted template becomes (`buildStepWithTasks`, `Submit`) and the single
transaction that writes them (`CreateJobSubmission`). -/

namespace Sqi
open Table

structure StepPlan where
  stepID : ID
  name : String
  dependsOn : List String
  /-- One id for each element of the parameter-space expansion. -/
  taskIDs : List ID
  deriving DecidableEq

structure SubmissionPlan where
  jobID : ID
  farmID : ID
  queueID : ID
  retry : RetryOverrides
  /-- The upstream jobs, as the request lists them. -/
  dependsOn : List ID
  steps : List StepPlan
  steps_ne : steps ≠ []
  tasks_ne : ∀ s ∈ steps, s.taskIDs ≠ []
  names_nodup : (steps.map (·.name)).Nodup
  deps_declared : ∀ s ∈ steps, ∀ d ∈ s.dependsOn, ∃ s' ∈ steps, s'.name = d

def initialStepStatus (holdPending : Bool) (s : StepPlan) : StepStatus :=
  if holdPending ∨ s.dependsOn ≠ [] then .pending else .ready
def initialTaskStatus (holdPending : Bool) (s : StepPlan) : TaskStatus :=
  if initialStepStatus holdPending s = .pending then .pending else .ready
def buildStep (jobID : ID) (holdPending : Bool) (s : StepPlan) : Step :=
  ⟨s.stepID, jobID, s.name, s.dependsOn, initialStepStatus holdPending s⟩

def buildTask (jobID : ID) (holdPending : Bool) (s : StepPlan) (taskID : ID) : Task :=
  { id := taskID, jobID := jobID, stepID := s.stepID
    status := initialTaskStatus holdPending s
    assignedWorkerID := none, assignedAt := none
    failedAttempts := 0, retryAfter := none
    failureReason := "", unschedulableReason := "" }

structure JobSubmission where
  job : Job
  dependsOn : List ID
  steps : List Step
  tasks : List Task

def buildSubmission (p : SubmissionPlan) (blocked : Bool) : JobSubmission where
  job :=
    { id := p.jobID, farmID := p.farmID, queueID := p.queueID
      status := if blocked then .blocked else .pending
      failedAttempts := 0, parkReason := ""
      startedAt := none, completedAt := none, retry := p.retry }
  dependsOn := p.dependsOn
  steps := p.steps.map (buildStep p.jobID blocked)
  tasks := p.steps.flatMap fun s => s.taskIDs.map (buildTask p.jobID blocked s)

def checkUpstreams (db : DB) (upstreams : List ID) : Option StoreError :=
  (upstreams.insertionSort (· ≤ ·)).findSome? fun up =>
    match db.job? up with
    | none => some (.dependencyUnsatisfiable up none)
    | some j =>
      if j.status.Unsuccessful then some (.dependencyUnsatisfiable up (some j.status)) else none

def jobInsertable (j : Job) (db : DB) : Prop :=
  (∀ j' ∈ db.jobs, j'.id ≠ j.id) ∧ (∃ f ∈ db.farms, f.id = j.farmID) ∧ ∃ q ∈ db.queues, q.id = j.queueID
deriving Decidable

def rowsInsertable (sub : JobSubmission) (db : DB) : Prop :=
  ((db.steps ++ sub.steps).map (·.id)).Nodup ∧ (sub.steps.map (·.name)).Nodup ∧
    ((db.tasks ++ sub.tasks).map (·.id)).Nodup
deriving Decidable

def insertJobDependencies (jobID : ID) : List ID → List JobDependency → List JobDependency
  | [], edges => edges
  | up :: ups, edges =>
    insertJobDependencies jobID ups
      (if ⟨jobID, up⟩ ∈ edges then edges else edges ++ [⟨jobID, up⟩])

def createJobSubmission (sub : JobSubmission) (db : DB) : Except StoreError Unit × DB :=
  if ¬ jobInsertable sub.job db then (.error .constraint, db)
  else
    match checkUpstreams { db with jobs := db.jobs ++ [sub.job] } sub.dependsOn with
    | some e => (.error e, db)
    | none =>
      if ¬ rowsInsertable sub db then (.error .constraint, db)
      else (.ok (), { db with
        jobs := db.jobs ++ [sub.job]
        jobDependencies := insertJobDependencies sub.job.id sub.dependsOn db.jobDependencies
        steps := db.steps ++ sub.steps
        tasks := db.tasks ++ sub.tasks })

/-! ## What a submission does -/

def submittedState (sub : JobSubmission) (db : DB) : DB :=
  { db with
    jobs := db.jobs ++ [sub.job]
    jobDependencies := insertJobDependencies sub.job.id sub.dependsOn db.jobDependencies
    steps := db.steps ++ sub.steps
    tasks := db.tasks ++ sub.tasks }

lemma submission_cases (sub : JobSubmission) (db : DB) : (createJobSubmission sub db).2 = db ∨
    (jobInsertable sub.job db ∧ rowsInsertable sub db ∧ (createJobSubmission sub db).2 = submittedState sub db) := by
  unfold createJobSubmission
  split
  · exact .inl rfl
  rename_i hjob
  split
  · exact .inl rfl
  split
  · exact .inl rfl
  · rename_i hrows
    exact .inr ⟨not_not.mp hjob, not_not.mp hrows, rfl⟩

lemma submission_of {R : DB → Prop} {sub : JobSubmission} {db : DB} (h0 : R db)
    (h : jobInsertable sub.job db → rowsInsertable sub db → R (submittedState sub db)) :
    R (createJobSubmission sub db).2 := by
  rcases submission_cases sub db with e | ⟨hjob, hrows, e⟩ <;> rw [e]
  · exact h0
  · exact h hjob hrows

lemma mem_insertDeps {jobID : ID} {ups : List ID} {edges : List JobDependency}
    {e : JobDependency} :
    e ∈ insertJobDependencies jobID ups edges ↔ e ∈ edges ∨ ∃ up ∈ ups, e = ⟨jobID, up⟩ := by
  induction ups generalizing edges with
  | nil => simp [insertJobDependencies]
  | cons up ups ih =>
    rw [insertJobDependencies, ih]
    split
    · rename_i hmem
      grind
    · simp [or_assoc]

section
variable {p : SubmissionPlan} {blocked : Bool}

lemma mem_newSteps {s : Step} :
    s ∈ (buildSubmission p blocked).steps ↔ ∃ sp ∈ p.steps, buildStep p.jobID blocked sp = s := by
  simp [buildSubmission]
lemma mem_newTasks {t : Task} : t ∈ (buildSubmission p blocked).tasks ↔
      ∃ sp ∈ p.steps, ∃ id ∈ sp.taskIDs, buildTask p.jobID blocked sp id = t := by
  simp [buildSubmission]

end
end Sqi

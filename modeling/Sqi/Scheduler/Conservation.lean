import Sqi.Scheduler.LeaseReply

/-! The window of ready tasks a lease request looks at (`ListReadyTasks`), and what it may miss. -/

namespace Sqi
open List Table

/-! ## The ready list -/

/-- The columns `sqlListReadyTasks` orders by, each of the row its name says. -/
structure ReadyOrder where
  priority : ID → Int
  jobCreatedAt : ID → Time
  stepOrder : ID → Int
  createdAt : ID → Time

def ReadyOrder.key (o : ReadyOrder) (t : Task) : List Int :=
  [-o.priority t.jobID, o.jobCreatedAt t.jobID, o.stepOrder t.stepID, o.createdAt t.id]
def ReadyOrder.before (o : ReadyOrder) (t u : Task) : Bool := (o.key t).lex (o.key u)

def leasable (farm : Option ID) (now : Time) (db : DB) (t : Task) : Prop :=
  t.status = .ready ∧ backoffElapsed now t ∧ ∃ j ∈ db.jobs, j.id = t.jobID ∧ (∀ f ∈ farm, j.farmID = f) ∧
    j.status.Leasable ∧ ∃ q ∈ db.queues, q.id = j.queueID ∧ q.paused = false
deriving Decidable

/-- An answer of `sqlListReadyTasks`: rows with equal keys come in any order. -/
def ListsReady (o : ReadyOrder) (farm : Option ID) (now : Time) (limit : Nat) (db : DB)
    (candidates : List Task) : Prop :=
  ∃ all : List Task, all.Perm (db.tasks.filter fun t => leasable farm now db t) ∧
    all.Pairwise (fun t u => o.before u t = false) ∧
    candidates = all.take limit

variable {candidates : List Task} {t : Task} {db : DB}

lemma ListsReady.mem {o : ReadyOrder} {farm : Option ID} {now : Time} {limit : Nat}
    (h : ListsReady o farm now limit db candidates) (ht : t ∈ candidates) : t ∈ db.tasks ∧ leasable farm now db t := by
  obtain ⟨all, hperm, -, rfl⟩ := h
  simpa using hperm.mem_iff.mp (mem_of_mem_take ht)

variable {cores : CoreColumn} {w : LeaseWorker}

end Sqi

import Mathlib.Data.List.Sort
import Sqi.Store.Attempt

/-! `LeaseTask` (`lease.go`): the guarded ready → assigned write, the capacity
re-counts that include it, the running attempt and its usage claims, committed
together or not at all. -/

namespace Sqi
open Table

structure UsagePoolClaim where
  claimID : ID
  poolID : ID
  poolName : String
  deriving DecidableEq

structure LeaseRequest where
  taskID : ID
  workerID : ID
  attemptID : ID
  now : Time
  claims : List UsagePoolClaim
  deriving DecidableEq

inductive LeaseOutcome where
  | leased
  | lost
  | queueFull
  | farmFull
  | poolFull (fullPool : String)
  deriving DecidableEq

structure LeaseScope where
  jobID : ID
  queueID : ID
  farmID : ID
  queueCap : Int
  farmCap : Int
  deriving DecidableEq

def DB.queue? (db : DB) (id : ID) : Option Queue := db.queues.find? (·.id = id)
def DB.farm? (db : DB) (id : ID) : Option Farm := db.farms.find? (·.id = id)
def DB.pool? (db : DB) (id : ID) : Option UsagePool := db.pools.find? (·.id = id)
def readLeaseScope (db : DB) (taskID : ID) : Option LeaseScope :=
  (db.task? taskID).bind fun t => (db.job? t.jobID).bind fun j =>
    (db.queue? j.queueID).bind fun q => (db.farm? j.farmID).map fun f =>
      ⟨t.jobID, j.queueID, j.farmID, q.maxConcurrentTasks, f.maxConcurrentTasks⟩

def JobStatus.Leasable (s : JobStatus) : Prop := s ≠ .paused ∧ ¬ s.IsTerminal
deriving Decidable

def backoffElapsed (now : Time) (t : Task) : Prop := ∀ until_ ∈ t.retryAfter, until_ ≤ now
deriving Decidable

def leaseMatches (db : DB) (scope : LeaseScope) (req : LeaseRequest) (t : Task) : Prop :=
  t.id = req.taskID ∧ t.status = .ready ∧ backoffElapsed req.now t ∧
  (∃ j ∈ db.jobs, j.id = t.jobID ∧ j.queueID = scope.queueID ∧ j.farmID = scope.farmID ∧
    j.status.Leasable ∧ ∃ q ∈ db.queues, q.id = j.queueID ∧ q.paused = false) ∧
  ∀ w ∈ db.workers, w.id = req.workerID → w.disabled = false
deriving Decidable

def assignTask (req : LeaseRequest) (t : Task) : Task :=
  { t with
    status := .assigned
    assignedWorkerID := some req.workerID
    assignedAt := some req.now
    unschedulableReason := "" }

def leaseTaskRow (scope : LeaseScope) (req : LeaseRequest) (db : DB) : DB :=
  db.updateTasks (leaseMatches db scope req) (assignTask req)
def activeWhere (db : DB) (p : Job → Prop) (t : Task) : Prop :=
  t.status.InFlight ∧ ∃ j ∈ db.jobs, j.id = t.jobID ∧ p j

instance (db : DB) (p : Job → Prop) [DecidablePred p] : DecidablePred (activeWhere db p) :=
  fun _ => inferInstanceAs (Decidable (_ ∧ _))

def countActiveTasksInQueue (db : DB) (queueID : ID) : Nat :=
  db.tasks.countP fun t => activeWhere db (·.queueID = queueID) t
def countActiveTasksInFarm (db : DB) (farmID : ID) : Nat :=
  db.tasks.countP fun t => activeWhere db (·.farmID = farmID) t

def overCap (capped : Prop) [Decidable capped] (cap : Option Int) (active : Nat) :
    Except StoreError Bool :=
  if ¬ capped then .ok false
  else match cap with
    | none => .error .notFound
    | some c => .ok (decide (0 < c ∧ c < (active : Int)))

def full (scope : LeaseScope) (db : DB) : Except StoreError (Option LeaseOutcome) :=
  match overCap (0 < scope.queueCap) ((db.queue? scope.queueID).map (·.maxConcurrentTasks))
      (countActiveTasksInQueue db scope.queueID) with
  | .error e => .error e
  | .ok true => .ok (some .queueFull)
  | .ok false =>
    match overCap (0 < scope.farmCap) ((db.farm? scope.farmID).map (·.maxConcurrentTasks))
        (countActiveTasksInFarm db scope.farmID) with
    | .error e => .error e
    | .ok true => .ok (some .farmFull)
    | .ok false => .ok none

def leaseAttempt (req : LeaseRequest) (db : DB) : TaskAttempt :=
  { id := req.attemptID, taskID := req.taskID, workerID := req.workerID
    attemptNumber := maxAttemptNumber db req.taskID + 1
    status := .running, sessionID := "", exitCode := none, message := ""
    progress := none, statusText := "", progressAt := none
    createdAt := req.now, endedAt := none }

def insertLeaseAttempt (req : LeaseRequest) (db : DB) : Except StoreError DB :=
  if ∃ a ∈ db.attempts, a.id = req.attemptID then .error .constraint
  else .ok { db with attempts := db.attempts ++ [leaseAttempt req db] }
def activeClaimCount (db : DB) (poolID : ID) : Nat :=
  db.claims.countP fun c => c.poolID = poolID ∧ c.releasedAt = none
def leaseClaim (attemptID : ID) (c : UsagePoolClaim) : UsageClaim :=
  ⟨c.claimID, c.poolID, attemptID, none⟩

def claimInsertable (attemptID : ID) (c : UsagePoolClaim) (db : DB) : Prop :=
  ∀ d ∈ db.claims, d.id ≠ c.claimID ∧ ¬ (d.taskAttemptID = attemptID ∧ d.poolID = c.poolID)
deriving Decidable

def claimPool (attemptID : ID) (c : UsagePoolClaim) (db : DB) :
    Except StoreError (Option LeaseOutcome × DB) :=
  match db.pool? c.poolID with
  | none => .ok (some (.poolFull c.poolName), db)
  | some pool =>
    if 0 < pool.maxConcurrent ∧ pool.maxConcurrent ≤ (activeClaimCount db c.poolID : Int) then
      .ok (some (.poolFull pool.name), db)
    else if claimInsertable attemptID c db then
      .ok (none, { db with claims := db.claims ++ [leaseClaim attemptID c] })
    else .error .constraint

def claimPools (attemptID : ID) : List UsagePoolClaim → DB → Except StoreError (LeaseOutcome × DB)
  | [], db => .ok (.leased, db)
  | c :: cs, db =>
    match claimPool attemptID c db with
    | .error e => .error e
    | .ok (some outcome, db') => .ok (outcome, db')
    | .ok (none, db') => claimPools attemptID cs db'

def sortedClaims (req : LeaseRequest) : List UsagePoolClaim :=
  req.claims.insertionSort (·.poolID ≤ ·.poolID)

def leaseTx (req : LeaseRequest) (db : DB) : Except StoreError (LeaseOutcome × DB) :=
  match readLeaseScope db req.taskID with
  | none => .ok (.lost, db)
  | some scope =>
    if ¬ ∃ t ∈ db.tasks, leaseMatches db scope req t then .ok (.lost, db)
    else
      match full scope (leaseTaskRow scope req db) with
      | .error e => .error e
      | .ok (some outcome) => .ok (outcome, leaseTaskRow scope req db)
      | .ok none =>
        match insertLeaseAttempt req (leaseTaskRow scope req db) with
        | .error e => .error e
        | .ok db' => claimPools req.attemptID (sortedClaims req) db'

def leaseTask (req : LeaseRequest) (db : DB) : Except StoreError LeaseOutcome × DB :=
  match leaseTx req db with
  | .error e => (.error e, db)
  | .ok (.leased, db') => (.ok .leased, db')
  | .ok (outcome, _) => (.ok outcome, db)

/-! ## What a lease does -/

variable {db : DB} {attemptID : ID}

lemma claimPool_ok {c : UsagePoolClaim} {r : Option LeaseOutcome × DB}
    (h : claimPool attemptID c db = .ok r) :
    (∃ name, r.1 = some (.poolFull name)) ∨
    (claimInsertable attemptID c db ∧
    r = (none, { db with claims := db.claims ++ [leaseClaim attemptID c] })) := by
  unfold claimPool at h
  split at h
  · cases h
    exact .inl ⟨_, rfl⟩
  split at h
  · cases h
    exact .inl ⟨_, rfl⟩
  split at h
  · cases h
    exact .inr ⟨‹_›, rfl⟩
  · cases h

lemma claimPools_leased {cs : List UsagePoolClaim} {db' : DB}
    (h : claimPools attemptID cs db = .ok (.leased, db')) :
    db' = { db with claims := db.claims ++ cs.map (leaseClaim attemptID) } := by
  induction cs generalizing db with
  | nil =>
    cases h
    simp
  | cons c cs ih =>
    unfold claimPools at h
    split at h
    · cases h
    · rename_i outcome db1 hc
      rcases claimPool_ok hc with ⟨name, hn⟩ | ⟨_, hr⟩
      · simp_all
      · simp at hr
    · rename_i db1 hc
      rcases claimPool_ok hc with ⟨name, hn⟩ | ⟨_, hr⟩
      · simp at hn
      · cases hr
        rw [ih h]
        simp

lemma full_ne_leased {scope : LeaseScope} : full scope db ≠ .ok (some .leased) := by
  unfold full
  split
  · simp
  · simp
  · split <;> simp

def leasedState (scope : LeaseScope) (req : LeaseRequest) (db : DB) : DB :=
  { leaseTaskRow scope req db with
    attempts := db.attempts ++ [leaseAttempt req db]
    claims := db.claims ++ (sortedClaims req).map (leaseClaim req.attemptID) }

lemma leaseTask_cases (req : LeaseRequest) (db : DB) :
    ((leaseTask req db).1 ≠ .ok .leased ∧ (leaseTask req db).2 = db) ∨
    ∃ scope, readLeaseScope db req.taskID = some scope ∧ (∃ t ∈ db.tasks, leaseMatches db scope req t) ∧
      full scope (leaseTaskRow scope req db) = .ok none ∧ (∀ a ∈ db.attempts, a.id ≠ req.attemptID) ∧
      (leaseTask req db).1 = .ok .leased ∧ (leaseTask req db).2 = leasedState scope req db := by
  unfold leaseTask
  split
  · exact .inl ⟨by simp, rfl⟩
  · rename_i db' h
    right
    unfold leaseTx at h
    split at h
    · cases h
    rename_i scope hscope
    split at h
    · cases h
    rename_i hmatch
    split at h
    · cases h
    · rename_i outcome hfull
      cases h
      exact absurd hfull full_ne_leased
    rename_i hfull
    split at h
    · cases h
    rename_i db2 hins
    unfold insertLeaseAttempt at hins
    split at hins
    · cases hins
    rename_i hfresh
    cases hins
    refine ⟨scope, hscope, not_not.mp hmatch, hfull, ?_, rfl, claimPools_leased h⟩
    intro a ha e
    exact hfresh ⟨a, ha, e⟩
  · rename_i outcome db' hne h
    refine .inl ⟨?_, rfl⟩
    rintro ⟨⟩
    exact hne rfl

lemma leaseTask_of {R : DB → Prop} {req : LeaseRequest} (h0 : R db)
    (h : ∀ scope, (∃ t ∈ db.tasks, leaseMatches db scope req t) → (∀ a ∈ db.attempts, a.id ≠ req.attemptID) →
    R (leasedState scope req db)) : R (leaseTask req db).2 := by
  rcases leaseTask_cases req db with ⟨_, e⟩ | ⟨scope, _, hmatch, _, hfresh, _, e⟩ <;> rw [e]
  · exact h0
  · exact h scope hmatch hfresh

end Sqi

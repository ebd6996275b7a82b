import Mathlib.Logic.Function.Basic
import Sqi.Concurrency.Quiet
import Sqi.Lib.Lock

/-! `LeaseTask` statement by statement, among other transactions. -/

namespace Sqi
open Function RowLock Table Transition

/-! ## Caps of queues and farms -/

inductive Level where
  | queue
  | farm
  deriving DecidableEq

def Job.rowID : Level → Job → ID
  | .queue, j => j.queueID
  | .farm, j => j.farmID
def LeaseScope.rowID : Level → LeaseScope → ID
  | .queue, sc => sc.queueID
  | .farm, sc => sc.farmID
def LeaseScope.cap : Level → LeaseScope → Int
  | .queue, sc => sc.queueCap
  | .farm, sc => sc.farmCap
def DB.cap? (db : DB) : Level → ID → Option Int
  | .queue, id => (db.queue? id).map (·.maxConcurrentTasks)
  | .farm, id => (db.farm? id).map (·.maxConcurrentTasks)
def countActiveTasks (db : DB) : Level → ID → Nat
  | .queue, id => countActiveTasksInQueue db id
  | .farm, id => countActiveTasksInFarm db id
def Level.full : Level → LeaseOutcome
  | .queue => .queueFull
  | .farm => .farmFull

/-! ## Rows and anchors -/

inductive LeaseRow where
  | worker (id : ID)
  | job (id : ID)
  | capacity (v : Level) (id : ID)
  | pool (id : ID)
  | task (id : ID)
  | attempt (id : ID)
  | claim (id : ID)
  deriving DecidableEq

def LeaseRow.Present (db : DB) : LeaseRow → Prop
  | .worker id => ∃ w ∈ db.workers, w.id = id
  | .job id => (db.job? id).isSome
  | .capacity v id => (db.cap? v id).isSome
  | .pool id => (db.pool? id).isSome
  | .task id => (db.task? id).isSome
  | .attempt id => (db.attempt? id).isSome
  | .claim id => ∃ c ∈ db.claims, c.id = id

def LeaseRow.Unchanged (db db' : DB) : LeaseRow → Prop
  | .worker id => db'.workers.find? (·.id = id) = db.workers.find? (·.id = id)
  | .job id => db'.job? id = db.job? id
  | .capacity .queue id => db'.queue? id = db.queue? id
  | .capacity .farm id => db'.farm? id = db.farm? id
  | .pool id => db'.pool? id = db.pool? id
  | .task id => db'.task? id = db.task? id
  | .attempt id => db'.attempt? id = db.attempt? id
  | .claim id => db'.claims.find? (·.id = id) = db.claims.find? (·.id = id)

instance (db : DB) : DecidablePred (LeaseRow.Present db) := fun r => by
  cases r <;> simp only [LeaseRow.Present] <;> infer_instance
instance (db db' : DB) : DecidablePred (LeaseRow.Unchanged db db') := fun r => by
  unfold LeaseRow.Unchanged
  split <;> infer_instance

def LeaseScope.anchors (sc : LeaseScope) (req : LeaseRequest) : List (LeaseRow × Mode) :=
  [(.worker req.workerID, .share), (.job sc.jobID, .share)]
    ++ (if 0 < sc.queueCap then [(.capacity .queue sc.queueID, .exclusive)] else [])
    ++ (if 0 < sc.farmCap then [(.capacity .farm sc.farmID, .exclusive)] else [])
    ++ (sortedClaims req).map fun c => (.pool c.poolID, .exclusive)

/-! ## Open leases -/

inductive LeasePC where
  | readScope
  | lockAnchors (sc : LeaseScope) (todo : List (LeaseRow × Mode))
  | writeTask (sc : LeaseScope)
  | recount (sc : LeaseScope) (v : Level)
  | insertAttempt (sc : LeaseScope)
  | claimPools (sc : LeaseScope) (a : TaskAttempt) (written : List UsageClaim)
      (todo : List UsagePoolClaim)
  | commit (sc : LeaseScope) (a : TaskAttempt) (written : List UsageClaim)
  | returned (result : Except StoreError LeaseOutcome)

structure LeaseTx where
  req : LeaseRequest
  pc : LeasePC

def Level.next (sc : LeaseScope) : Level → LeasePC
  | .queue => .recount sc .farm
  | .farm => .insertAttempt sc
def LeasePC.written? : LeasePC → Option LeaseScope
  | .recount sc _ | .insertAttempt sc | .claimPools sc .. | .commit sc .. => some sc
  | _ => none
def LeasePC.Open : LeasePC → Prop
  | .returned _ => False
  | _ => True

instance : DecidablePred LeasePC.Open := fun pc => by
  cases pc <;> simp only [LeasePC.Open] <;> infer_instance

def LeasePC.attempts : LeasePC → List TaskAttempt
  | .claimPools _ a .. | .commit _ a _ => [a]
  | _ => []
def LeasePC.claims : LeasePC → List UsageClaim
  | .claimPools _ _ written _ | .commit _ _ written => written
  | _ => []

def LeaseTx.view (tx : LeaseTx) (db : DB) : DB :=
  { db with
    tasks := if tx.pc.written?.isSome then
        update (fun t => t.id = tx.req.taskID) (assignTask tx.req) db.tasks
      else db.tasks
    attempts := db.attempts ++ tx.pc.attempts
    claims := db.claims ++ tx.pc.claims }

structure LeaseState where
  db : DB
  locks : Locks ID LeaseRow
  txs : ID → Option LeaseTx

namespace LeaseState
variable (s : LeaseState) (id : ID)

def goto (tx : LeaseTx) (pc : LeasePC) : LeaseState :=
  { s with txs := update s.txs id (some { tx with pc := pc }) }
def lock (row : LeaseRow) (mode : Mode) : LeaseState :=
  { s with locks := acquire s.locks id row mode }
def finish (tx : LeaseTx) (result : Except StoreError LeaseOutcome) : LeaseState :=
  { s with
    locks := release s.locks id
    txs := update s.txs id (some { tx with pc := .returned result }) }

end LeaseState

def leaseStmt (id : ID) (tx : LeaseTx) (s : LeaseState) : LeaseState :=
  let view := tx.view s.db
  match tx.pc with
  | .readScope =>
    match readLeaseScope s.db tx.req.taskID with
    | none => s.finish id tx (.ok .lost)
    | some sc => s.goto id tx (.lockAnchors sc (sc.anchors tx.req))
  | .lockAnchors sc [] => s.goto id tx (.writeTask sc)
  | .lockAnchors sc ((row, mode) :: todo) =>
    -- a missing row locks nothing
    (if row.Present s.db then s.lock id row mode else s).goto id tx (.lockAnchors sc todo)
  | .writeTask sc =>
    if ∃ t ∈ s.db.tasks, leaseMatches s.db sc tx.req t then
      (s.lock id (.task tx.req.taskID) .exclusive).goto id tx (.recount sc .queue)
    else s.finish id tx (.ok .lost)
  | .recount sc v =>
    match overCap (0 < sc.cap v) (s.db.cap? v (sc.rowID v)) (countActiveTasks view v (sc.rowID v)) with
    | .error e => s.finish id tx (.error e)
    | .ok true => s.finish id tx (.ok v.full)
    | .ok false => s.goto id tx (v.next sc)
  | .insertAttempt sc =>
    match insertLeaseAttempt tx.req view with
    | .error e => s.finish id tx (.error e)
    | .ok _ => (s.lock id (.attempt tx.req.attemptID) .exclusive).goto id tx
        (.claimPools sc (leaseAttempt tx.req view) [] (sortedClaims tx.req))
  | .claimPools sc a written [] => s.goto id tx (.commit sc a written)
  | .claimPools sc a written (c :: todo) =>
    match claimPool tx.req.attemptID c view with
    | .error e => s.finish id tx (.error e)
    | .ok (some outcome, _) => s.finish id tx (.ok outcome)
    | .ok (none, _) => (s.lock id (.claim c.claimID) .exclusive).goto id tx
        (.claimPools sc a (written ++ [leaseClaim tx.req.attemptID c]) todo)
  | .commit .. => { s.finish id tx (.ok .leased) with db := view }
  | .returned _ => s

def leaseStmtReady (id : ID) (tx : LeaseTx) (s : LeaseState) : Prop :=
  match tx.pc with
  | .lockAnchors _ ((row, mode) :: _) => row.Present s.db → Grants s.locks id row mode
  | .writeTask sc => (∃ t ∈ s.db.tasks, leaseMatches s.db sc tx.req t) →
      Grants s.locks id (.task tx.req.taskID) .exclusive
  | .insertAttempt _ => Grants s.locks id (.attempt tx.req.attemptID) .exclusive
  | .claimPools _ _ _ (c :: _) => Grants s.locks id (.claim c.claimID) .exclusive
  | .returned _ => False
  | _ => True

instance (id : ID) (tx : LeaseTx) (s : LeaseState) : Decidable (leaseStmtReady id tx s) := by
  unfold leaseStmtReady
  split <;> infer_instance

/-! ## The system -/

inductive LeaseLabel where
  /-- `LeaseTask` is called and its transaction begins. -/
  | call (id : ID) (req : LeaseRequest)
  | stmt (id : ID)
  /-- The database aborts the transaction, or its connection breaks. -/
  | abort (id : ID)
  /-- Any other transaction commits. -/
  | other (op : Op)

def LeaseLabel.apply : LeaseLabel → LeaseState → LeaseState
  | .call id req, s => { s with txs := update s.txs id (some ⟨req, .readScope⟩) }
  | .stmt id, s =>
    match s.txs id with
    | some tx => leaseStmt id tx s
    | none => s
  | .abort id, s =>
    { s with locks := release s.locks id, txs := update s.txs id none }
  | .other op, s => { s with db := op.apply s.db }

def Op.IsLease : Op → Prop
  | .leaseTask _ => True
  | _ => False

instance : DecidablePred Op.IsLease := fun op => by
  cases op <;> simp only [Op.IsLease] <;> infer_instance

def LeaseLabel.enabled (s : LeaseState) : LeaseLabel → Prop
  | .call id req => s.txs id = none ∧ ∀ c ∈ req.claims, (s.db.pool? c.poolID).isSome
  | .stmt id => ∃ tx, s.txs id = some tx ∧ leaseStmtReady id tx s
  | .abort id => ∃ tx, s.txs id = some tx ∧ tx.pc.Open
  | .other op => ¬ op.IsLease ∧ ∀ l ∈ s.locks, l.row.Unchanged s.db (op.apply s.db)

instance (s : LeaseState) : DecidablePred (LeaseLabel.enabled s)
  | .call id req =>
    decidable_of_iff ((s.txs id).isNone ∧ ∀ c ∈ req.claims, (s.db.pool? c.poolID).isSome)
      (by simp [LeaseLabel.enabled])
  | .stmt id =>
    match h : s.txs id with
    | some tx => decidable_of_iff (leaseStmtReady id tx s) (by simp [LeaseLabel.enabled, h])
    | none => isFalse (by simp [LeaseLabel.enabled, h])
  | .abort id =>
    match h : s.txs id with
    | some tx => decidable_of_iff tx.pc.Open (by simp [LeaseLabel.enabled, h])
    | none => isFalse (by simp [LeaseLabel.enabled, h])
  | .other op => inferInstanceAs (Decidable (_ ∧ _))

def leaseSystem : System LeaseState LeaseLabel where
  init := ⟨DB.empty, [], fun _ => none⟩
  enabled := fun _ s l => l.enabled s
  next := LeaseLabel.apply

instance (h : List (LeaseState × LeaseLabel)) (s : LeaseState) (l : LeaseLabel) :
    Decidable (leaseSystem.enabled h s l) := inferInstanceAs (Decidable (l.enabled s))

abbrev LeaseHistory := List (LeaseState × LeaseLabel)
abbrev LeaseRun (h : LeaseHistory) (s : LeaseState) : Prop := Run leaseSystem h s

end Sqi

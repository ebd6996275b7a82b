import Sqi.Concurrency.Lease
import Sqi.OpenJD.HostRequirements

/-! `selectLeaseBatch` (`lease.go`): what a worker's cores let it take. -/

namespace Sqi
open Table Transition GoText

structure LeaseWorker where
  id : ID
  cpuCount : Int
  deriving DecidableEq

def LeaseWorker.full (w : LeaseWorker) : Int := if w.cpuCount ≤ 0 then 1 else w.cpuCount

abbrev CoreColumn := ID → Option Int

def requiredCores (rules : CoreRules) (amounts : ID → List StepAmountRequirement) : CoreColumn :=
  fun id => requiredCoresFromAmounts rules (amounts id)
def fullMachineCost (cores : CoreColumn) (t : Task) (w : LeaseWorker) : Int :=
  match cores t.id with
  | some n => if n < 1 then 1 else n
  | none => if 0 < w.cpuCount then w.cpuCount else 1

def committedBy (workerID : ID) (t : Task) : Prop :=
  t.assignedWorkerID = some workerID ∧ t.status.InFlight
deriving Decidable

def committedCores (cores : CoreColumn) (workerID : ID) (fullMachineCost : Int) (db : DB) : Int :=
  ((db.tasks.filter fun t => committedBy workerID t).map
    fun t => (cores t.id).getD fullMachineCost).sum

structure LeaseAnswers where
  gates : Except StoreError Bool
  attemptID : ID
  now : Time
  claims : List UsagePoolClaim
  payload : Except StoreError Unit

inductive LeaseTry where
  | leased (cost : Int)
  | skipped
  | failed
  deriving DecidableEq

def leaseRequest (t : Task) (w : LeaseWorker) (a : LeaseAnswers) : LeaseRequest :=
  ⟨t.id, w.id, a.attemptID, a.now, a.claims⟩

def tryLeaseTask (cores : CoreColumn) (t : Task) (w : LeaseWorker) (free : Int) (a : LeaseAnswers)
    (db : DB) : LeaseTry × DB :=
  let cost := fullMachineCost cores t w
  if free < cost then (.skipped, db)
  else
    match a.gates with
    | .error _ => (.failed, db)
    | .ok false => (.skipped, db)
    | .ok true =>
      match leaseTask (leaseRequest t w a) db with
      | (.error _, db') => (.failed, db')
      | (.ok .leased, db') =>
        -- The lease is committed even if the assignment cannot be built.
        match a.payload with
        | .ok () => (.leased cost, db')
        | .error _ => (.failed, db')
      | (.ok _, db') => (.skipped, db')

structure LeaseBatch where
  worker : LeaseWorker
  free : Int
  candidates : Option (List Task)

structure LeaseFarm where
  db : DB
  batches : ID → Option LeaseBatch

inductive LeaseStep where
  /-- Any transaction that leases nothing. -/
  | op (o : Op)
  /-- A request takes the worker's lease lock and reads the committed cores. -/
  | request (w : LeaseWorker)
  /-- It lists the ready tasks. -/
  | list (workerID : ID) (candidates : List Task)
  /-- It tries its next candidate. -/
  | tryNext (workerID : ID) (a : LeaseAnswers)
  /-- It returns, at the end or on an error of a read. -/
  | reply (workerID : ID)

def LeaseFarm.setBatch (s : LeaseFarm) (workerID : ID) (b : Option LeaseBatch) : LeaseFarm :=
  { s with batches := Function.update s.batches workerID b }
def LeaseFarm.request (cores : CoreColumn) (s : LeaseFarm) (w : LeaseWorker) : LeaseFarm :=
  let free := w.full - committedCores cores w.id w.full s.db
  if free ≤ 0 then s else s.setBatch w.id (some ⟨w, free, none⟩)

def LeaseFarm.tryNext (cores : CoreColumn) (s : LeaseFarm) (workerID : ID) (a : LeaseAnswers) :
    LeaseFarm :=
  match s.batches workerID with
  | some ⟨w, free, some (t :: rest)⟩ =>
    if free ≤ 0 then s.setBatch workerID none
    else
      let r := tryLeaseTask cores t w free a s.db
      let s' : LeaseFarm := { s with db := r.2 }
      match r.1 with
      | .leased cost => s'.setBatch workerID (some ⟨w, free - cost, some rest⟩)
      | .skipped => s'.setBatch workerID (some ⟨w, free, some rest⟩)
      | .failed => s'.setBatch workerID none
  | _ => s

def LeaseStep.next (cores : CoreColumn) : LeaseStep → LeaseFarm → LeaseFarm
  | .op o, s => { s with db := o.apply s.db }
  | .request w, s => s.request cores w
  | .list workerID candidates, s =>
    match s.batches workerID with
    | some b => s.setBatch workerID (some { b with candidates := some candidates })
    | none => s
  | .tryNext workerID a, s => s.tryNext cores workerID a
  | .reply workerID, s => s.setBatch workerID none

def LeaseStep.Enabled (s : LeaseFarm) : LeaseStep → Prop
  | .op o => ¬ o.IsLease
  | .request w => s.batches w.id = none
  | .list workerID candidates =>
    (∃ b, s.batches workerID = some b ∧ b.candidates = none) ∧
      ∀ t ∈ candidates, t ∈ s.db.tasks ∧ t.status = .ready
  | _ => True

instance (s : LeaseFarm) : DecidablePred (LeaseStep.Enabled s)
  | .op _ => inferInstanceAs (Decidable (¬ _))
  | .request _ => inferInstanceAs (Decidable (_ = none))
  | .list .. => inferInstanceAs (Decidable ((∃ _, _ ∧ _) ∧ _))
  | .tryNext .. | .reply _ => isTrue trivial

def leaseFarm (cores : CoreColumn) : System LeaseFarm LeaseStep where
  init := { db := DB.empty, batches := fun _ => none }
  enabled := fun _ s l => l.Enabled s
  next := LeaseStep.next cores

instance (cores : CoreColumn) (h : List (LeaseFarm × LeaseStep)) (s : LeaseFarm) (l : LeaseStep) :
    Decidable ((leaseFarm cores).enabled h s l) :=
  inferInstanceAs (Decidable (l.Enabled s))

end Sqi

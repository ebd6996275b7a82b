import Mathlib.Logic.Function.Basic
import Sqi.Lib.Lock
import Sqi.Lib.Run
import Sqi.Store.Types

/-! Leadership and the write fence, statement by statement. -/

namespace Sqi
open Function RowLock Transition

structure ServerLease where
  holder : Option String
  epoch : Nat
  expiresUS : Int
  deriving DecidableEq

structure FenceContext where
  leaderEpoch : Option Nat
  unfenced : Bool
  deriving DecidableEq

def withLeaderEpoch (leaderEpoch : Option Nat) : FenceContext := ⟨leaderEpoch, false⟩
def unfenced (ctx : FenceContext) : FenceContext := { ctx with unfenced := true }
def fenceEpoch (ctx : FenceContext) : Option Nat :=
  if ctx.unfenced then none else ctx.leaderEpoch
def leaseTTLMicros (ttl : Int) : Option Int :=
  if ttl.tdiv 1000 ≤ 0 then none else some (ttl.tdiv 1000)

def ServerLease.Free (l : ServerLease) (now : Int) : Prop := l.holder = none ∨ l.expiresUS < now

instance (l : ServerLease) (now : Int) : Decidable (l.Free now) := by
  unfold ServerLease.Free; infer_instance

def sqlAcquireLease (holder : String) (ttlUS now : Int) (l : ServerLease) : Option ServerLease :=
  if l.Free now then some ⟨some holder, l.epoch + 1, now + ttlUS⟩ else none
def sqlRenewLease (ttlUS : Int) (holder : String) (epoch : Nat) (now : Int) (l : ServerLease) :
    ServerLease :=
  if l.holder = some holder ∧ l.epoch = epoch then { l with expiresUS := now + ttlUS } else l
def sqlReleaseLease (holder : String) (epoch : Nat) (l : ServerLease) : ServerLease :=
  if l.holder = some holder ∧ l.epoch = epoch then { l with holder := none } else l

/-! ## Transactions and steps -/

inductive FenceRow where
  | serverLease
  | serverEpoch
  deriving DecidableEq

inductive FenceWork where
  /-- Any write of the store; it touches neither of the two rows. -/
  | write
  /-- `AcquireLeadership` before its first statement. -/
  | acquire (holder : String) (ttlUS : Int)
  /-- `server_lease` is updated. -/
  | taken (row : ServerLease)
  /-- `server_epoch` is updated as well. -/
  | published (row : ServerLease)
  deriving DecidableEq

structure FenceTx where
  ctx : FenceContext
  work : FenceWork
  /-- `checkFence` let it through. -/
  checked : Bool
  deriving DecidableEq

structure FenceState where
  lease : ServerLease
  epoch : Nat
  locks : Locks ID FenceRow
  txs : ID → Option FenceTx

def FenceState.init : FenceState := ⟨⟨none, 0, 0⟩, 0, [], fun _ => none⟩
def FenceState.put (s : FenceState) (id : ID) (tx : FenceTx) : FenceState :=
  { s with txs := update s.txs id (some tx) }
def FenceState.lock (s : FenceState) (id : ID) (row : FenceRow) (mode : Mode) : FenceState :=
  { s with locks := acquire s.locks id row mode }
def FenceState.close (s : FenceState) (id : ID) : FenceState :=
  { s with locks := release s.locks id, txs := update s.txs id none }

inductive FenceOp where
  | beginTx (id : ID) (leaderEpoch : Option Nat)
  | acquireLeadership (id : ID) (leaderEpoch : Option Nat) (holder : String) (ttl : Int)
  | acquireLease (id : ID) (now : Int)
  | setFenceEpoch (id : ID)
  | checkFence (id : ID)
  | commit (id : ID)
  | rollback (id : ID)
  | renewLeadership (holder : String) (epoch : Nat) (ttl now : Int)
  | releaseLeadership (holder : String) (epoch : Nat)
  deriving DecidableEq

def acquireLease (id : ID) (now : Int) (s : FenceState) : FenceState :=
  match s.txs id with
  | some ⟨ctx, .acquire holder ttlUS, checked⟩ =>
    match sqlAcquireLease holder ttlUS now s.lease with
    | some row => (s.lock id .serverLease .exclusive).put id ⟨ctx, .taken row, checked⟩
    | none => s.close id
  | _ => s

def setFenceEpoch (id : ID) (s : FenceState) : FenceState :=
  match s.txs id with
  | some ⟨ctx, .taken row, checked⟩ =>
    (s.lock id .serverEpoch .exclusive).put id ⟨ctx, .published row, checked⟩
  | _ => s

def checkFence (id : ID) (s : FenceState) : FenceState :=
  match s.txs id with
  | some tx =>
    match fenceEpoch tx.ctx with
    | none => s.put id { tx with checked := true }
    | some e =>
      if s.epoch = e then (s.lock id .serverEpoch .share).put id { tx with checked := true }
      else s.close id
  | none => s

def commitTx (id : ID) (s : FenceState) : FenceState :=
  match s.txs id with
  | some ⟨_, .published row, _⟩ => { s.close id with lease := row, epoch := row.epoch }
  | some _ => s.close id
  | none => s

def FenceOp.apply : FenceOp → FenceState → FenceState
  | .beginTx id leaderEpoch, s => s.put id ⟨withLeaderEpoch leaderEpoch, .write, false⟩
  | .acquireLeadership id leaderEpoch holder ttl, s =>
    match leaseTTLMicros ttl with
    | some ttlUS => s.put id ⟨unfenced (withLeaderEpoch leaderEpoch), .acquire holder ttlUS, false⟩
    | none => s
  | .acquireLease id now, s => Sqi.acquireLease id now s
  | .setFenceEpoch id, s => Sqi.setFenceEpoch id s
  | .checkFence id, s => Sqi.checkFence id s
  | .commit id, s => commitTx id s
  | .rollback id, s => s.close id
  | .renewLeadership holder epoch ttl now, s =>
    match leaseTTLMicros ttl with
    | some ttlUS => { s with lease := sqlRenewLease ttlUS holder epoch now s.lease }
    | none => s
  | .releaseLeadership holder epoch, s => { s with lease := sqlReleaseLease holder epoch s.lease }

def FenceWork.Done : FenceWork → Prop
  | .write | .published _ => True
  | .acquire .. | .taken _ => False

instance (w : FenceWork) : Decidable w.Done := by
  cases w <;> simp only [FenceWork.Done] <;> infer_instance

def FenceOp.enabled (s : FenceState) : FenceOp → Prop
  | .beginTx id _ | .acquireLeadership id .. => s.txs id = none ∧ ∀ l ∈ s.locks, l.tx ≠ id
  | .acquireLease id now => ∃ ctx holder ttlUS,
    s.txs id = some ⟨ctx, .acquire holder ttlUS, false⟩ ∧
    (s.lease.Free now → Grants s.locks id .serverLease .exclusive)
  | .setFenceEpoch id => ∃ ctx row, s.txs id = some ⟨ctx, .taken row, false⟩ ∧
    Grants s.locks id .serverEpoch .exclusive
  | .checkFence id => ∃ tx, s.txs id = some tx ∧ tx.work.Done ∧ tx.checked = false ∧
    (fenceEpoch tx.ctx = some s.epoch → Grants s.locks id .serverEpoch .share)
  | .commit id => ∃ tx, s.txs id = some tx ∧ tx.checked
  | .rollback id => ∃ tx, s.txs id = some tx
  | .renewLeadership holder epoch _ _ | .releaseLeadership holder epoch =>
    s.lease.holder = some holder ∧ s.lease.epoch = epoch → ∀ l ∈ s.locks, l.row ≠ .serverLease

def fenceSystem : System FenceState FenceOp where
  init := FenceState.init
  enabled := fun _ s op => op.enabled s
  next := FenceOp.apply

abbrev FenceRun (h : List (FenceState × FenceOp)) (s : FenceState) : Prop := Run fenceSystem h s

end Sqi

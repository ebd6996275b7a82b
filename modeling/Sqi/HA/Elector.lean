import Mathlib.Data.Fin.Basic
import Sqi.Lib.Calls
import Sqi.Lib.Run

/-! The electors of a group of servers and the lease row they share (`elector.go`, `leadership.go`). -/

namespace Sqi.HA
open Transition

/-! ## The lease row -/

abbrev Epoch := Nat

structure LeaseRow (n : Nat) where
  holder : Option (Fin n)
  epoch : Epoch
  expiresUS : Int
  deriving DecidableEq

def LeaseRow.acquire {n : Nat} (row : LeaseRow n) (holder : Fin n) (ttlUS nowUS : Int) :
    Option Epoch × LeaseRow n :=
  if row.holder = none ∨ row.expiresUS < nowUS then
    (some (row.epoch + 1), ⟨some holder, row.epoch + 1, nowUS + ttlUS⟩)
  else (none, row)

def LeaseRow.renew {n : Nat} (row : LeaseRow n) (holder : Fin n) (epoch : Epoch) (ttlUS nowUS : Int) :
    Bool × LeaseRow n :=
  if row.holder = some holder ∧ row.epoch = epoch then (true, { row with expiresUS := nowUS + ttlUS })
  else (false, row)
def LeaseRow.release {n : Nat} (row : LeaseRow n) (holder : Fin n) (epoch : Epoch) : LeaseRow n :=
  if row.holder = some holder ∧ row.epoch = epoch then { row with holder := none } else row

inductive Stmt where
  | acquire
  | renew (epoch : Epoch)
  | release (epoch : Epoch)
  deriving DecidableEq

inductive Answer where
  | won (epoch : Epoch)
  | held
  | renewed (ok : Bool)
  | released
  /-- `LeaseTTLMicros` refuses a lease shorter than a microsecond. -/
  | refusedTTL
  deriving DecidableEq

abbrev Request (n : Nat) := Calls.Request (Fin n) Stmt Answer

inductive Reason where
  | renewRefused
  | deadline
  | fenced
  | guardLost
  | brokerLost
  | promotion
  deriving DecidableEq

structure Holding where
  epoch : Epoch
  validUntil : Option Int
  nextRenew : Option Int
  inFlight : Option (Nat × Int)
  deriving DecidableEq

inductive Phase where
  | idle
  | campaigning
  /-- In `tryAcquire`, waiting for the answer to a request sent at `t0`. -/
  | acquiring (request : Nat) (t0 : Int)
  /-- In `tryAcquire`, about to record the win. -/
  | winning (epoch : Epoch) (t0 : Int)
  | holding (h : Holding)
  /-- In `settle`, in the release the broker-loss rule makes before it records
  the loss. -/
  | steppingDown (epoch : Epoch)
  deriving DecidableEq

structure Elector where
  epoch : Epoch
  won : Epoch
  authAt : Int
  downSince : Option Int
  lost : Option Reason
  phase : Phase
  deriving DecidableEq

def Elector.new : Elector := ⟨0, 0, 0, none, none, .idle⟩
def Elector.markLost (e : Elector) (r : Reason) : Elector :=
  match e.lost with
  | some _ => e
  | none => { e with lost := some r, epoch := 0 }

def Elector.observeBroker (e : Elector) (up : Bool) (now : Int) : Option Int × Elector :=
  if up then (none, { e with downSince := none })
  else
    let since := e.downSince.getD now
    (some (now - since), { e with downSince := some since })

structure ServerMember where
  instanceID : Nat
  brokerOKUS : Option Int
  deriving DecidableEq

def ServerMember.brokerSeenWithin (m : ServerMember) (nowUS ttl : Int) : Bool :=
  match m.brokerOKUS with
  | none => false
  | some okUS => nowUS - okUS ≤ ttl / 1000
def standbyHasBroker (members : List ServerMember) (self : Nat) (nowUS ttl : Int) : Bool :=
  members.any fun m => m.instanceID ≠ self && m.brokerSeenWithin nowUS ttl

structure BrokerSight where
  up : Bool
  members : Option (List ServerMember × Int)
  deriving DecidableEq

def Elector.brokerLost (e : Elector) (self : Nat) (ttl now : Int) (sight : BrokerSight) :
    Bool × Elector :=
  match e.observeBroker sight.up now with
  | (none, e') => (false, e')
  | (some downFor, e') =>
    if downFor ≤ ttl then (false, e')
    else
      match sight.members with
      | none => (false, e')
      | some (members, nowUS) => (standbyHasBroker members self nowUS ttl, e')

def Before (now : Int) : Option Int → Prop
  | none => False
  | some t => now < t
def After (v : Int) : Option Int → Prop
  | none => True
  | some t => t < v

instance (now : Int) : DecidablePred (Before now)
  | none => isFalse id
  | some _ => inferInstanceAs (Decidable (_ < _))
instance (v : Int) : DecidablePred (After v)
  | none => isTrue trivial
  | some _ => inferInstanceAs (Decidable (_ < _))

structure Group (n : Nat) where
  leaseTTL : Fin n → Int
  leaseTTL_pos : ∀ i, 0 < leaseTTL i
  clock : Fin n → Int
  dbClock : Int

namespace Group
variable {n : Nat} (g : Group n) (i : Fin n)

def renewInterval : Int := g.leaseTTL i / 3
def validity : Int := g.leaseTTL i * 4 / 5
def retryInterval : Int := g.leaseTTL i / 10
def ttlUS : Int := g.leaseTTL i / 1000

end Group

structure Cluster (n : Nat) where
  now : Nat
  row : LeaseRow n
  requests : List (Request n)
  electors : Fin n → Elector

namespace Cluster
variable {n : Nat} (g : Group n) (s : Cluster n) (i : Fin n)

def clockNow : Int := g.clock i + s.now
def nowUS : Int := (g.dbClock + s.now) / 1000
def answer (k : Nat) : Option Answer := Calls.answer s.requests k
def setElector (e : Elector) : Cluster n := { s with electors := Function.update s.electors i e }
def send (stmt : Stmt) : Cluster n := { s with requests := Calls.send s.requests i stmt }

def authorized : Prop :=
  (s.electors i).epoch ≠ 0 ∧ s.clockNow g i < (s.electors i).authAt + g.validity i
deriving Decidable

def runStmt (row : LeaseRow n) : Stmt → Answer × LeaseRow n
  | .acquire =>
    if g.ttlUS i ≤ 0 then (.refusedTTL, row)
    else
      match row.acquire i (g.ttlUS i) (s.nowUS g) with
      | (some epoch, row') => (.won epoch, row')
      | (none, row') => (.held, row')
  | .renew epoch =>
    if g.ttlUS i ≤ 0 then (.refusedTTL, row)
    else
      let r := row.renew i epoch (g.ttlUS i) (s.nowUS g)
      (.renewed r.1, r.2)
  | .release epoch => (.released, row.release i epoch)

def exec (k : Nat) : Cluster n :=
  match s.requests[k]? with
  | some ⟨sender, stmt, none⟩ =>
    let r := s.runStmt g sender s.row stmt
    { s with row := r.2, requests := Calls.reply s.requests k sender stmt r.1 }
  | _ => s

/-! ### Moments of an elector -/

def campaign (up : Bool) : Cluster n :=
  let e := s.electors i
  if e.phase = .idle ∨ e.phase = .campaigning then
    let e' := (e.observeBroker up (s.clockNow g i)).2
    if up then
      (s.send i .acquire).setElector i
        { e' with phase := .acquiring s.requests.length (s.clockNow g i) }
    else s.setElector i { e' with phase := .campaigning }
  else s

def acquired (answered : Bool) : Cluster n :=
  let e := s.electors i
  match e.phase with
  | .acquiring k t0 =>
    if answered then
      match s.answer k with
      | none => s
      | some (.won epoch) =>
        if s.clockNow g i < t0 + g.validity i then
          s.setElector i { e with phase := .winning epoch t0 }
        else (s.send i (.release epoch)).setElector i { e with phase := .campaigning }
      | some _ => s.setElector i { e with phase := .campaigning }
    else s.setElector i { e with phase := .campaigning }
  | _ => s

def recordWin : Cluster n :=
  let e := s.electors i
  match e.phase with
  | .winning epoch t0 =>
    s.setElector i { e with epoch := epoch, won := epoch, authAt := t0, phase := .idle }
  | _ => s

def startHolding (e : Elector) (epoch : Epoch) : Holding :=
  if epoch ≠ 0 ∧ epoch = e.epoch then
    ⟨epoch, some (e.authAt + g.validity i), some (e.authAt + g.renewInterval i), none⟩
  else ⟨epoch, none, none, none⟩

def hold (epoch : Epoch) : Cluster n :=
  let e := s.electors i
  if e.phase = .idle ∧ e.lost = none then
    s.setElector i { e with phase := .holding (startHolding g i e epoch) }
  else s

def renew : Cluster n :=
  let e := s.electors i
  let now := s.clockNow g i
  match e.phase with
  | .holding h =>
    if Before now h.validUntil ∧ h.inFlight = none ∧ ¬ Before now h.nextRenew then
      (s.send i (.renew h.epoch)).setElector i
        { e with phase := .holding { h with inFlight := some (s.requests.length, now) } }
    else s
  | _ => s

def deadline : Cluster n :=
  let e := s.electors i
  match e.phase with
  | .holding h =>
    if Before (s.clockNow g i) h.validUntil then s
    else s.setElector i { e.markLost .deadline with phase := .idle }
  | _ => s

def extend (e : Elector) (h : Holding) (t0 : Int) : Elector × Holding :=
  let h' := { h with inFlight := none, nextRenew := some (t0 + g.renewInterval i) }
  if After (t0 + g.validity i) h.validUntil then
    ({ e with authAt := t0 }, { h' with validUntil := some (t0 + g.validity i) })
  else (e, h')

def settle (sight : Option BrokerSight) : Cluster n :=
  let e := s.electors i
  match e.phase with
  | .holding h =>
    match h.inFlight with
    | none => s
    | some (k, t0) =>
      match sight with
      | none =>
        let h' := { h with inFlight := none, nextRenew := some (t0 + g.retryInterval i) }
        s.setElector i { e with phase := .holding h' }
      | some sight =>
        match s.answer k with
        | some (.renewed true) =>
          let observed := e.brokerLost i (g.leaseTTL i) t0 sight
          let r := extend g i observed.2 h t0
          if observed.1 then
            (s.send i (.release h.epoch)).setElector i { r.1 with phase := .steppingDown h.epoch }
          else s.setElector i { r.1 with phase := .holding r.2 }
        | some (.renewed false) => s.setElector i { e.markLost .renewRefused with phase := .idle }
        | _ => s
  | _ => s

def stepDown : Cluster n :=
  let e := s.electors i
  match e.phase with
  | .steppingDown _ => s.setElector i { e.markLost .brokerLost with phase := .idle }
  | _ => s

def leave : Cluster n :=
  let e := s.electors i
  match e.phase with
  | .campaigning | .acquiring .. | .holding _ => s.setElector i { e with phase := .idle }
  | _ => s

def lose (r : Reason) : Cluster n := s.setElector i ((s.electors i).markLost r)
def release : Cluster n :=
  let e := s.electors i
  let s' := s.setElector i { e with epoch := 0, won := 0 }
  if e.won = 0 then s' else s'.send i (.release e.won)
def upsertSelf (up : Bool) : Cluster n :=
  s.setElector i ((s.electors i).observeBroker up (s.clockNow g i)).2

end Cluster

inductive Step (n : Nat) where
  | tick (d : Nat)
  | exec (k : Nat)
  | campaign (i : Fin n) (up : Bool)
  | acquired (i : Fin n) (answered : Bool)
  | recordWin (i : Fin n)
  | hold (i : Fin n) (epoch : Epoch)
  | renew (i : Fin n)
  | deadline (i : Fin n)
  | settle (i : Fin n) (sight : Option BrokerSight)
  | stepDown (i : Fin n)
  | leave (i : Fin n)
  | lose (i : Fin n) (r : Reason)
  | release (i : Fin n)
  | upsertSelf (i : Fin n) (up : Bool)

def Step.next {n : Nat} (g : Group n) : Step n → Cluster n → Cluster n
  | .tick d, s => { s with now := s.now + d }
  | .exec k, s => s.exec g k
  | .campaign i up, s => s.campaign g i up
  | .acquired i answered, s => s.acquired g i answered
  | .recordWin i, s => s.recordWin i
  | .hold i epoch, s => s.hold g i epoch
  | .renew i, s => s.renew g i
  | .deadline i, s => s.deadline g i
  | .settle i sight, s => s.settle g i sight
  | .stepDown i, s => s.stepDown i
  | .leave i, s => s.leave i
  | .lose i r, s => s.lose i r
  | .release i, s => s.release i
  | .upsertSelf i up, s => s.upsertSelf g i up

def electors {n : Nat} (g : Group n) : System (Cluster n) (Step n) where
  init := { now := 0, row := ⟨none, 0, 0⟩, requests := [], electors := fun _ => .new }
  enabled := fun _ _ _ => True
  next := Step.next g

instance {n : Nat} (g : Group n) (h : List (Cluster n × Step n)) (s : Cluster n) (l : Step n) :
    Decidable ((electors g).enabled h s l) := isTrue trivial

end Sqi.HA

import Mathlib.Data.Fin.Basic
import Sqi.Lib.Calls
import Sqi.Lib.KeyLog
import Sqi.Lib.Run

/-! The broker account guard (`guard.go`). -/

namespace Sqi.Bus
open Function KeyLog Transition

inductive Stmt where
  | create
  | update (rev : Nat)
  | get
  | delete (rev : Nat)
  /-- `bucketLastSeq`. -/
  | lastSeq
  deriving DecidableEq

inductive Answer (n : Nat) where
  | written (rev : Nat)
  /-- `isWrongRevision`. -/
  | refused
  | entry (e : Option (Fin n × Nat))
  | deleted
  | seq (q : Nat)
  deriving DecidableEq

abbrev GuardKey (n : Nat) := Key (Fin n)

def runStmt {n : Nat} (key : GuardKey n) (i : Fin n) : Stmt → Answer n × GuardKey n
  | .create =>
    match key.create i with
    | some key' => (.written key'.seq, key')
    | none => (.refused, key)
  | .update rev =>
    match key.update i rev with
    | some key' => (.written key'.seq, key')
    | none => (.refused, key)
  | .get => (.entry (key.value?.map fun j => (j, key.seq)), key)
  | .delete rev =>
    match key.delete rev with
    | some key' => (.deleted, key')
    | none => (.refused, key)
  | .lastSeq => (.seq key.seq, key)

inductive Take where
  | create
  | readHolder
  /-- The compare-and-set over a member's key. -/
  | overwrite
  /-- `watchGuardKey`, for a key last seen at `rev`. -/
  | watch (rev : Nat)
  /-- `retakeStaleGuardKey`. -/
  | readStale (rev : Nat)
  | writeStale
  deriving DecidableEq

inductive Stage where
  /-- Taking the key, with `rounds` rounds left after this one. -/
  | take (rounds : Nat) (t : Take)
  | refresh
  | reconcile
  /-- `retakeExpired`. -/
  | lastSeq
  | retake
  /-- `deleteOwnKey`. -/
  | delete
  | readOwn
  | deleteAgain
  deriving DecidableEq

inductive Phase where
  | idle
  | holding
  | lost
  | waiting (stage : Stage) (request : Nat)
  deriving DecidableEq

structure Instance where
  phase : Phase
  revision : Nat
  deriving DecidableEq

def guardTakeRounds : Nat := 3

structure Account (n : Nat) where
  key : GuardKey n
  requests : List (Calls.Request (Fin n) Stmt (Answer n))
  instances : Fin n → Instance

namespace Account
variable {n : Nat} (s : Account n) (i : Fin n)

def holder : Option (Fin n) := s.key.value?
def answer (k : Nat) : Option (Answer n) := Calls.answer s.requests k
def setPhase (p : Phase) : Account n :=
  { s with instances := update s.instances i { s.instances i with phase := p } }

def call (stage : Stage) (stmt : Stmt) : Account n :=
  { s with
    requests := Calls.send s.requests i stmt
    instances := update s.instances i
      { s.instances i with phase := .waiting stage s.requests.length } }

def hold (rev : Nat) : Account n :=
  { s with instances := update s.instances i ⟨.holding, rev⟩ }

def exec (k : Nat) : Account n :=
  match s.requests[k]? with
  | some ⟨sender, stmt, none⟩ =>
    let r := runStmt s.key sender stmt
    { s with key := r.2, requests := Calls.reply s.requests k sender stmt r.1 }
  | _ => s

def expire : Account n := { s with key := s.key.expire }

/-! ### Taking the key -/

def acquire : Account n :=
  match (s.instances i).phase with
  | .idle => s.call i (.take (guardTakeRounds - 1) .create) .create
  | _ => s
def nextRound : Nat → Account n
  | 0 => s.setPhase i .idle
  | rounds + 1 => s.call i (.take rounds .create) .create

def takeAnswered (memberAware : Bool) (isMember : Fin n → Bool) (late : Bool) (rounds : Nat) :
    Take → Answer n → Account n
  | .create, .written rev => s.hold i rev
  | .create, .refused => s.call i (.take rounds .readHolder) .get
  | .readHolder, .entry none => s.call i (.take rounds .create) .create
  | .readHolder, .entry (some (j, rev)) =>
    -- an earlier Create of this instance that timed out had committed
    if j = i then s.hold i rev
    else if memberAware then
      if isMember j then s.call i (.take rounds .overwrite) (.update rev)
      else s.call i (.take rounds (.watch rev)) .get
    else s.setPhase i .idle
  | .overwrite, .written rev => s.hold i rev
  | .overwrite, .refused => s.nextRound i rounds
  | .watch rev, .entry none => s.call i (.take rounds (.readStale rev)) .get
  | .watch rev, .entry (some (j, rev')) =>
    if rev' ≠ rev then
      if j = i ∨ isMember j then s.nextRound i rounds else s.setPhase i .idle
    else if late then s.call i (.take rounds (.readStale rev)) .get
    else s.call i (.take rounds (.watch rev)) .get
  | .readStale _, .entry none => s.call i (.take rounds .writeStale) .create
  | .readStale rev, .entry (some (_, rev')) =>
    if rev' ≠ rev then s.nextRound i rounds else s.call i (.take rounds .writeStale) (.update rev)
  | .writeStale, .written rev => s.hold i rev
  | .writeStale, .refused => s.nextRound i rounds
  | _, _ => s

def takeFailed (retry late : Bool) (rounds : Nat) : Take → Account n
  | .create | .readHolder | .overwrite =>
    if retry then s.call i (.take rounds .create) .create else s.setPhase i .idle
  | .watch rev =>
    if !retry then s.setPhase i .idle
    else if late then s.call i (.take rounds (.readStale rev)) .get
    else s.call i (.take rounds (.watch rev)) .get
  | .readStale _ | .writeStale => s.setPhase i .idle

def refresh : Account n :=
  match (s.instances i).phase with
  | .holding => s.call i .refresh (.update (s.instances i).revision)
  | _ => s
def refreshedBy : Stage → Answer n → Option Nat
  | .refresh, .written rev | .retake, .written rev => some rev
  | .reconcile, .entry (some (j, rev)) => if j = i then some rev else none
  | _, _ => none

def guardAnswered : Stage → Answer n → Account n
  | .refresh, .refused => s.call i .reconcile .get
  | .reconcile, .entry none => s.call i .lastSeq .lastSeq
  | .reconcile, .entry (some _) => s.setPhase i .lost
  | .lastSeq, .seq q =>
    if q ≠ (s.instances i).revision then s.setPhase i .lost else s.call i .retake .create
  | .retake, .refused => s.setPhase i .holding
  | _, _ => s

def release : Account n :=
  match (s.instances i).phase with
  | .holding => s.call i .delete (.delete (s.instances i).revision)
  | .lost => s.setPhase i .idle
  | _ => s

def releaseAnswered : Stage → Answer n → Account n
  | .delete, .deleted => s.setPhase i .idle
  | .delete, .refused => s.call i .readOwn .get
  | .readOwn, .entry (some (j, rev)) =>
    if j = i then s.call i .deleteAgain (.delete rev) else s.setPhase i .idle
  | .readOwn, .entry none => s.setPhase i .idle
  | .deleteAgain, _ => s.setPhase i .idle
  | _, _ => s

/-! ### Answers and errors -/

def refreshed : Option Nat :=
  match (s.instances i).phase with
  | .waiting stage k => (s.answer k).bind (refreshedBy i stage)
  | _ => none

def answered (memberAware : Bool) (isMember : Fin n → Bool) (late : Bool) : Account n :=
  match s.refreshed i with
  | some rev => s.hold i rev
  | none =>
    match (s.instances i).phase with
    | .waiting stage k =>
      match s.answer k, stage with
      | none, _ => s
      | some a, .take rounds t => s.takeAnswered i memberAware isMember late rounds t a
      | some a, .refresh | some a, .reconcile | some a, .lastSeq | some a, .retake =>
        s.guardAnswered i stage a
      | some a, .delete | some a, .readOwn | some a, .deleteAgain => s.releaseAnswered i stage a
    | _ => s

def failed (retry late : Bool) : Account n :=
  match (s.instances i).phase with
  | .waiting (.take rounds t) _ => s.takeFailed i retry late rounds t
  | .waiting .refresh _ | .waiting .reconcile _ | .waiting .lastSeq _ | .waiting .retake _ =>
    s.setPhase i .holding
  | .waiting .delete _ | .waiting .readOwn _ | .waiting .deleteAgain _ => s.setPhase i .idle
  | _ => s

end Account

inductive Step (n : Nat) where
  | exec (k : Nat)
  | expire
  | acquire (i : Fin n)
  | refresh (i : Fin n)
  | release (i : Fin n)
  | answered (i : Fin n) (isMember : Fin n → Bool) (late : Bool)
  | failed (i : Fin n) (retry late : Bool)

def Step.next {n : Nat} (memberAware : Fin n → Bool) : Step n → Account n → Account n
  | .exec k, s => s.exec k
  | .expire, s => s.expire
  | .acquire i, s => s.acquire i
  | .refresh i, s => s.refresh i
  | .release i, s => s.release i
  | .answered i isMember late, s => s.answered i (memberAware i) isMember late
  | .failed i retry late, s => s.failed i retry late

def account {n : Nat} (memberAware : Fin n → Bool) : System (Account n) (Step n) where
  init := { key := ⟨[], false⟩, requests := [], instances := fun _ => ⟨.idle, 0⟩ }
  enabled := fun _ _ _ => True
  next := Step.next memberAware

instance {n : Nat} (memberAware : Fin n → Bool) (h : List (Account n × Step n)) (s : Account n)
    (l : Step n) : Decidable ((account memberAware).enabled h s l) := isTrue trivial

end Sqi.Bus

import Sqi.Store.Attempt

/-! Worker rows: registration, heartbeats, the disabled flag and the two ways a
worker goes offline, each of which reclaims the tasks it holds (`worker.go`,
`offlineWorker` of `attemptclose.go`). -/

namespace Sqi
open Table

def staleRegistration (stored incoming : Worker) : Prop :=
  ∃ old ∈ stored.registrationBrokerAt, ∃ new ∈ incoming.registrationBrokerAt, new < old
deriving Decidable

def upsertWorker (w stored : Worker) : Worker :=
  { stored with
    status := w.status
    lastHeartbeatAt := w.lastHeartbeatAt
    instanceID := coalesceText w.instanceID stored.instanceID
    registrationBrokerAt := w.registrationBrokerAt.or stored.registrationBrokerAt }

def registerWorker (w : Worker) (now : Time) (db : DB) : Except StoreError (List Task) × DB :=
  match db.workers.find? (·.id = w.id) with
  | none =>
    (.ok [], { db with
      workers := db.workers ++ [{ w with disabled := false, heartbeatBrokerAt := none }] })
  | some stored =>
    if staleRegistration stored w then (.error .staleRegistration, db)
    else
      let db₁ := db.updateWorkers (fun v => v.id = w.id) (upsertWorker w)
      if stored.instanceID ≠ "" ∧ w.instanceID ≠ "" ∧ stored.instanceID ≠ w.instanceID then
        let r := reclaimWorkerTasks w.id failureReasonWorkerRestarted now db₁
        (.ok r.1, r.2)
      else (.ok [], db₁)

def heartbeatMatches (brokerAt : Option Time) (v : Worker) : Prop :=
  ∀ stored ∈ v.heartbeatBrokerAt, ∀ new ∈ brokerAt, stored ≤ new
deriving Decidable

def updateWorkerHeartbeat (id : ID) (at_ : Time) (brokerAt : Option Time) (db : DB) :
    Except StoreError Unit × DB :=
  if ∃ v ∈ db.workers, v.id = id then
    (.ok (), db.updateWorkers (fun v => v.id = id ∧ heartbeatMatches brokerAt v)
      (fun v => { v with
        lastHeartbeatAt := some at_
        heartbeatBrokerAt := brokerAt.or v.heartbeatBrokerAt }))
  else (.error .notFound, db)

def setWorkerDisabled (id : ID) (disabled : Bool) (db : DB) : Except StoreError Unit × DB :=
  if ∃ v ∈ db.workers, v.id = id then
    (.ok (), db.updateWorkers (fun v => v.id = id) (fun v => { v with disabled := disabled }))
  else (.error .notFound, db)

def offlineWorkerIf (mark : Worker → Prop) [DecidablePred mark] (id : ID) (now : Time) (db : DB) :
    (List Task × Bool) × DB :=
  if ∃ v ∈ db.workers, v.id = id ∧ mark v then
    let r := reclaimWorkerTasks id failureReasonWorkerOffline now
      (db.updateWorkers (fun v => v.id = id ∧ mark v) (fun v => { v with status := .offline }))
    ((r.1, true), r.2)
  else (([], false), db)

def staleHeartbeat (cutoff : Time) (v : Worker) : Prop :=
  v.status = .online ∧ ∃ beat ∈ v.lastHeartbeatAt, beat < cutoff
deriving Decidable

def offlineStaleWorker (id : ID) (cutoff now : Time) (db : DB) : (List Task × Bool) × DB :=
  offlineWorkerIf (staleHeartbeat cutoff) id now db
def offlineWorker (id : ID) (instanceID : String) (now : Time) (db : DB) :
    (List Task × Bool) × DB :=
  offlineWorkerIf (fun v => instanceID = "" ∨ v.instanceID = "" ∨ v.instanceID = instanceID)
    id now db

end Sqi

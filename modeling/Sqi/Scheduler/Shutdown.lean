import Sqi.Scheduler.Reports

/-! A worker that shuts down says so twice: a `worker_shutdown` failure for each attempt it drops
(`handleTaskShutdown`) and its deregister (`offlineWorker`). The two travel apart and either may arrive
first. -/

namespace Sqi
open List Table Program Prog

lemma not_inFlight_reclaimTask (t : Task) : ¬ (reclaimTask t).status.InFlight := by
  simp [reclaimTask, TaskStatus.InFlight]

structure Standing where
  id : ID
  taskID : ID
  workerID : ID
  attemptNumber : Nat
  status : AttemptStatus
  deriving DecidableEq

def TaskAttempt.standing (a : TaskAttempt) : Standing :=
  ⟨a.id, a.taskID, a.workerID, a.attemptNumber, a.status⟩

structure Holdings where
  tasks : List Task
  jobs : List Job
  attempts : List Standing
  /-- The claims not yet released. -/
  claims : List UsageClaim
  deriving DecidableEq

def DB.holdings (db : DB) : Holdings where
  tasks := db.tasks
  jobs := db.jobs
  attempts := db.attempts.map TaskAttempt.standing
  claims := db.claims.filter (·.releasedAt = none)

namespace Holdings

def claimedFor (h : Holdings) (ids : List ID) (c : UsageClaim) : Prop :=
  ∃ a ∈ h.attempts, a.id = c.taskAttemptID ∧ a.taskID ∈ ids
deriving Decidable

def reclaim (ids : List ID) (h : Holdings) : Holdings where
  tasks := update (fun t => t.id ∈ ids ∧ t.status.InFlight) reclaimTask h.tasks
  jobs := h.jobs
  attempts := update (fun a => a.status = .running ∧ a.taskID ∈ ids)
    (fun a => { a with status := .failed }) h.attempts
  claims := h.claims.filter fun c => ¬ h.claimedFor ids c

def held (workerID : ID) (h : Holdings) : List ID :=
  (h.tasks.filter fun t => t.assignedWorkerID = some workerID ∧ t.status.InFlight).map (·.id)

structure Live (h : Holdings) (workerID attemptID taskID : ID) : Prop where
  own : ∃ a, h.attempts.find? (·.id = attemptID) = some a ∧ a.taskID = taskID ∧ a.workerID = workerID
  inFlight : ∃ t, h.tasks.find? (·.id = taskID) = some t ∧ t.status.InFlight
  latest : ∃ a ∈ h.attempts, a.id = attemptID ∧ a.taskID = taskID ∧ a.status = .running ∧
    a.attemptNumber = ((h.attempts.filter (·.taskID = taskID)).map (·.attemptNumber)).foldr max 0

section
variable {h : Holdings} {ids more : List ID} {workerID attemptID taskID id : ID}

lemma reclaim_congr (e : ∀ id, id ∈ ids ↔ id ∈ more) : h.reclaim ids = h.reclaim more := by
  have htasks : (h.reclaim ids).tasks = (h.reclaim more).tasks := update_congr fun t _ => and_congr_left fun _ => e t.id
  have hattempts : (h.reclaim ids).attempts = (h.reclaim more).attempts :=
    update_congr fun a _ => and_congr_right fun _ => e a.taskID
  have hclaims : (h.reclaim ids).claims = (h.reclaim more).claims := by
    refine filter_congr fun c _ => decide_eq_decide.mpr ?_
    simp only [claimedFor, e]
  calc h.reclaim ids
      = ⟨(h.reclaim ids).tasks, h.jobs, (h.reclaim ids).attempts, (h.reclaim ids).claims⟩ := rfl
    _ = h.reclaim more := by rw [htasks, hattempts, hclaims]; rfl

lemma claimedFor_reclaim (c : UsageClaim) : (h.reclaim ids).claimedFor more c ↔ h.claimedFor more c := by
  refine exists_mem_update.trans ?_
  refine exists_congr fun a => and_congr_right fun _ => ?_
  split <;> rfl
lemma claimedFor_append (c : UsageClaim) :
    h.claimedFor (ids ++ more) c ↔ h.claimedFor ids c ∨ h.claimedFor more c := by
  simp only [claimedFor, mem_append, and_or_left, exists_or]

lemma reclaim_reclaim : (h.reclaim ids).reclaim more = h.reclaim (ids ++ more) := by
  have htasks : ((h.reclaim ids).reclaim more).tasks = (h.reclaim (ids ++ more)).tasks := by
    refine (update_update fun t _ ready => ?_).trans (update_congr fun t _ => ?_)
    · exact not_inFlight_reclaimTask t ready.2
    · rw [mem_append, or_and_right]
  have hattempts : ((h.reclaim ids).reclaim more).attempts = (h.reclaim (ids ++ more)).attempts := by
    refine (update_update fun a _ running => ?_).trans (update_congr fun a _ => ?_)
    · exact nomatch running.1
    · rw [mem_append, and_or_left]
  have hclaims : ((h.reclaim ids).reclaim more).claims = (h.reclaim (ids ++ more)).claims := by
    refine (filter_filter ..).trans (filter_congr fun c _ => ?_)
    rw [← Bool.decide_and, decide_eq_decide, claimedFor_reclaim, claimedFor_append, not_or, and_comm]
  calc (h.reclaim ids).reclaim more
      = ⟨((h.reclaim ids).reclaim more).tasks, h.jobs, ((h.reclaim ids).reclaim more).attempts,
          ((h.reclaim ids).reclaim more).claims⟩ := rfl
    _ = h.reclaim (ids ++ more) := by rw [htasks, hattempts, hclaims]; rfl

lemma mem_held : id ∈ h.held workerID ↔
    ∃ t ∈ h.tasks, (t.assignedWorkerID = some workerID ∧ t.status.InFlight) ∧ t.id = id := by
  simp [held, and_assoc]

lemma mem_held_reclaim : id ∈ (h.reclaim ids).held workerID ↔ id ∈ h.held workerID ∧ id ∉ ids := by
  rw [mem_held, mem_held]
  refine exists_mem_update.trans ?_
  constructor
  · rintro ⟨t, ht, hold, rfl⟩
    by_cases hp : t.id ∈ ids ∧ t.status.InFlight
    · rw [if_pos hp] at hold
      exact absurd hold.2 (not_inFlight_reclaimTask t)
    · rw [if_neg hp] at hold ⊢
      exact ⟨⟨t, ht, hold, rfl⟩, fun hid => hp ⟨hid, hold.2⟩⟩
  · rintro ⟨⟨t, ht, hold, rfl⟩, hid⟩
    exact ⟨t, ht, by rw [if_neg fun hp => hid hp.1]; exact ⟨hold, rfl⟩⟩

lemma numbers_reclaim : ((h.reclaim ids).attempts.filter (·.taskID = taskID)).map (·.attemptNumber) =
      (h.attempts.filter (·.taskID = taskID)).map (·.attemptNumber) :=
  map_filter_update _ (fun _ _ => Iff.rfl) fun _ _ => rfl

lemma own_reclaim : (∃ a, (h.reclaim ids).attempts.find? (·.id = attemptID) = some a ∧ a.taskID = taskID ∧
      a.workerID = workerID) ↔
    ∃ a, h.attempts.find? (·.id = attemptID) = some a ∧ a.taskID = taskID ∧ a.workerID = workerID := by
  simp only [reclaim]
  rw [find?_update_key (f := fun a : Standing => { a with status := .failed }) fun _ _ => rfl]
  cases h.attempts.find? (·.id = attemptID) with
  | none => simp
  | some a =>
    simp only [Option.map_some, Option.some.injEq, exists_eq_left']
    split <;> rfl

lemma inFlight_reclaim : (∃ t, (h.reclaim ids).tasks.find? (·.id = taskID) = some t ∧ t.status.InFlight) ↔
    (∃ t, h.tasks.find? (·.id = taskID) = some t ∧ t.status.InFlight) ∧ taskID ∉ ids := by
  simp only [reclaim]
  rw [find?_update_key (f := reclaimTask) fun _ _ => rfl]
  cases hfind : h.tasks.find? (·.id = taskID) with
  | none => simp
  | some t =>
    have hid : t.id = taskID := by simpa using find?_some hfind
    simp only [Option.map_some, Option.some.injEq, exists_eq_left', hid]
    by_cases hp : taskID ∈ ids ∧ t.status.InFlight
    · rw [if_pos hp]
      exact iff_of_false (not_inFlight_reclaimTask t) fun h => h.2 hp.1
    · rw [if_neg hp]
      exact ⟨fun hf => ⟨hf, fun hid => hp ⟨hid, hf⟩⟩, And.left⟩

lemma live_reclaim : (h.reclaim ids).Live workerID attemptID taskID ↔
    h.Live workerID attemptID taskID ∧ taskID ∉ ids := by
  constructor
  · rintro ⟨own, flight, latest⟩
    obtain ⟨flight, hout⟩ := inFlight_reclaim.mp flight
    rw [numbers_reclaim] at latest
    obtain ⟨a, ha, hlatest⟩ := exists_mem_update.mp latest
    refine ⟨⟨own_reclaim.mp own, flight, a, ha, ?_⟩, hout⟩
    by_cases hp : a.status = .running ∧ a.taskID ∈ ids
    · rw [if_pos hp] at hlatest
      exact nomatch hlatest.2.2.1
    · rwa [if_neg hp] at hlatest
  · rintro ⟨⟨own, flight, a, ha, hlatest⟩, hout⟩
    refine ⟨own_reclaim.mpr own, inFlight_reclaim.mpr ⟨flight, hout⟩, ?_⟩
    rw [numbers_reclaim]
    refine exists_mem_update.mpr ⟨a, ha, ?_⟩
    rwa [if_neg fun hp => hout (hlatest.2.1 ▸ hp.2)]

end
end Holdings

/-! ## The store's transactions on holdings -/

section
variable {db : DB} {ids : List ID} {workerID : ID}

lemma closeTasks_eq (status : AttemptStatus) (message : String) (now : Time) :
    closeTasksAttempts ids status message now db = sqlReleaseClosedTasksClaims now ids
      (sqlCloseTasksRunningAttempts status now message ids db) := by
  unfold closeTasksAttempts
  split
  case isTrue hnil =>
    subst hnil
    have hattempts : sqlCloseTasksRunningAttempts status now message [] db = db := by
      rw [sqlCloseTasksRunningAttempts, DB.updateAttempts, update_eq_self fun a _ h => nomatch h.2]
    have hclaims : sqlReleaseClosedTasksClaims now [] db = db := by
      rw [sqlReleaseClosedTasksClaims, DB.updateClaims, update_eq_self fun c _ h => ?_]
      obtain ⟨_, _, _, _, _, hmem⟩ := h
      exact nomatch hmem
    rw [hattempts, hclaims]
  case isFalse => rfl

lemma closedTasksClaim_iff (now : Time) (message : String) (c : UsageClaim) :
    closedTasksClaim (sqlCloseTasksRunningAttempts .failed now message ids db) ids c ↔
      c.releasedAt = none ∧ db.holdings.claimedFor ids c := by
  simp only [Holdings.claimedFor, DB.holdings, TaskAttempt.standing, mem_map, exists_exists_and_eq_and]
  refine and_congr_right fun _ => exists_mem_update.trans ?_
  refine exists_congr fun a => and_congr_right fun _ => ?_
  by_cases hp : a.status = .running ∧ a.taskID ∈ ids
  · rw [if_pos hp]
    simp
  · rw [if_neg hp]
    exact ⟨fun ⟨hid, _, hmem⟩ => ⟨hid, hmem⟩, fun ⟨hid, hmem⟩ => ⟨hid, fun hr => hp ⟨hr, hmem⟩, hmem⟩⟩

lemma holdings_closeTasksAttempts {p : Task → Prop} [DecidablePred p]
    (hp : ∀ t ∈ db.tasks, p t ↔ t.id ∈ ids ∧ t.status.InFlight) (message : String) (now : Time) :
    (closeTasksAttempts ids .failed message now (db.updateTasks p reclaimTask)).holdings = db.holdings.reclaim ids := by
  have htasks : update p reclaimTask db.tasks = (db.holdings.reclaim ids).tasks := update_congr hp
  have hattempts : (sqlCloseTasksRunningAttempts .failed now message ids db).attempts.map
      TaskAttempt.standing = (db.holdings.reclaim ids).attempts :=
    map_update_comm _ (fun _ => Iff.rfl) fun _ _ => rfl
  have hclaims : (sqlReleaseClosedTasksClaims now ids
      (sqlCloseTasksRunningAttempts .failed now message ids db)).claims.filter (·.releasedAt = none) =
        (db.holdings.reclaim ids).claims := by
    refine (filter_update_out (fun c _ => by simp) _).trans ?_
    refine Eq.trans (filter_congr fun c _ => ?_) (filter_filter ..).symm
    rw [← Bool.decide_and, decide_eq_decide, closedTasksClaim_iff]
    tauto
  rw [closeTasks_eq]
  -- the statements on attempts and claims do not read the task table
  calc _ = (⟨update p reclaimTask db.tasks, db.jobs,
          (sqlCloseTasksRunningAttempts .failed now message ids db).attempts.map TaskAttempt.standing,
          (sqlReleaseClosedTasksClaims now ids (sqlCloseTasksRunningAttempts .failed now message ids
            db)).claims.filter (·.releasedAt = none)⟩ : Holdings) := rfl
    _ = db.holdings.reclaim ids := by rw [htasks, hattempts, hclaims]; rfl

lemma holdings_reclaimWorkerTasks (keyed : Keyed (·.id) db.tasks) (workerID : ID) (message : String)
    (now : Time) : (reclaimWorkerTasks workerID message now db).2.holdings =
      db.holdings.reclaim (db.holdings.held workerID) := by
  have hids : (returning (fun t => t.assignedWorkerID = some workerID ∧ t.status.InFlight) reclaimTask
      db.tasks).map (·.id) = db.holdings.held workerID := map_map ..
  rw [reclaimWorkerTasks, hids]
  refine holdings_closeTasksAttempts (fun t ht => ?_) _ _
  constructor
  · intro hold
    exact ⟨Holdings.mem_held.mpr ⟨t, ht, hold, rfl⟩, hold.2⟩
  rintro ⟨hheld, hflight⟩
  -- the id is the row's own, so the row the worker holds is this one
  obtain ⟨u, hu, hold, hid⟩ := Holdings.mem_held.mp hheld
  rwa [keyed.eq_of_mem hu ht hid] at hold

lemma holdings_offlineWorkerIf (keyed : Keyed (·.id) db.tasks) (mark : Worker → Prop)
    [DecidablePred mark] (hmark : ∃ v ∈ db.workers, v.id = workerID ∧ mark v)
    (now : Time) : (offlineWorkerIf mark workerID now db).2.holdings =
    db.holdings.reclaim (db.holdings.held workerID) := by
  rw [offlineWorkerIf, if_pos hmark]
  refine (holdings_reclaimWorkerTasks ?_ workerID _ now).trans rfl
  exact keyed

lemma live_holdings {attemptID taskID : ID} : db.holdings.Live workerID attemptID taskID ↔
    (∃ a, db.attempt? attemptID = some a ∧ a.taskID = taskID ∧ a.workerID = workerID) ∧
    ∃ t, db.task? taskID = some t ∧ liveAttempt db attemptID t := by
  have hown : db.holdings.attempts.find? (·.id = attemptID) =
      (db.attempt? attemptID).map TaskAttempt.standing := find?_map ..
  have hmax : (((db.holdings.attempts.filter (·.taskID = taskID)).map (·.attemptNumber)).foldr max 0) =
      maxAttemptNumber db taskID := by
    simp only [DB.holdings, filter_map, map_map]
    rfl
  constructor
  · rintro ⟨⟨s, hs, htask, hworker⟩, ⟨t, ht, hflight⟩, s', hs', hlatest⟩
    rw [hown] at hs
    obtain ⟨a, ha, rfl⟩ := Option.map_eq_some_iff.mp hs
    obtain ⟨a', ha', rfl⟩ := mem_map.mp hs'
    rw [hmax] at hlatest
    refine ⟨⟨a, ha, htask, hworker⟩, t, ht, hflight, a', ha', ?_⟩
    rw [(DB.task?_some ht).2]
    exact hlatest
  · rintro ⟨⟨a, ha, htask, hworker⟩, t, ht, hflight, a', ha', hlatest⟩
    rw [(DB.task?_some ht).2] at hlatest
    refine ⟨⟨a.standing, ?_, htask, hworker⟩, ⟨t, ht, hflight⟩, a'.standing, mem_map_of_mem ha', ?_⟩
    · rw [hown, ha]
      rfl
    · rw [hmax]
      exact hlatest

end

section
variable {db : DB} {m : TaskStatusMsg} {workerID : ID}

lemma taskFailed_shutdown (hm : m.message = messageWorkerShutdown) (defaults : RetryPolicy)
    (now at_ : Time) : (handleTaskFailed defaults now m at_ db).2 =
      (reclaimTaskAttempt m.attemptID m.taskID now db).2 := by
  rw [handleTaskFailed, if_pos hm]
  cases hr : reclaimTaskAttempt m.attemptID m.taskID now db with
  | mk result db' =>
    cases result with
    | ok _ => rw [tx_bind_ok hr]; rfl
    | error _ => rw [tx_bind_error hr]

section
variable (hs : m.status = .failed)
include hs

section
variable (hm : m.message = messageWorkerShutdown)
include hm

lemma shutdown_live
    (live : db.holdings.Live workerID m.attemptID m.taskID) (defaults : RetryPolicy) (now : Time) :
    (processTaskStatus defaults now workerID m db).2 =
      closeTasksAttempts [m.taskID] .failed failureReasonWorkerShutdown now
        (sqlReclaimOneTask m.taskID db) := by
  obtain ⟨⟨a, ha, htask, hworker⟩, t, ht, hlive⟩ := live_holdings.mp live
  rw [processTaskStatus, read_bind, ha]
  dsimp only
  rw [if_neg (not_not.mpr htask), if_neg (not_not.mpr hworker.symm), handleTaskStatus, hs]
  refine (taskFailed_shutdown hm ..).trans ?_
  rw [reclaimTaskAttempt, ht]
  dsimp only
  rw [if_neg (not_not.mpr hlive)]

lemma shutdown_not_live
    (dead : ¬ db.holdings.Live workerID m.attemptID m.taskID) (defaults : RetryPolicy) (now : Time) :
    (processTaskStatus defaults now workerID m db).2 = db := by
  rw [live_holdings] at dead
  rw [processTaskStatus, read_bind]
  cases ha : db.attempt? m.attemptID with
  | none => rfl
  | some a =>
    dsimp only
    by_cases htask : a.taskID = m.taskID
    swap
    · rw [if_pos htask]; rfl
    rw [if_neg (not_not.mpr htask)]
    by_cases hworker : workerID = a.workerID
    swap
    · rw [if_pos hworker]; rfl
    rw [if_neg (not_not.mpr hworker), handleTaskStatus, hs]
    refine (taskFailed_shutdown hm ..).trans ?_
    unfold reclaimTaskAttempt
    cases ht : db.task? m.taskID with
    | none => rfl
    | some t =>
      dsimp only
      rw [if_pos fun hlive => dead ⟨⟨a, ha, htask, hworker.symm⟩, t, ht, hlive⟩]

lemma holdings_shutdown_live
    (live : db.holdings.Live workerID m.attemptID m.taskID) (defaults : RetryPolicy) (now : Time) :
    (processTaskStatus defaults now workerID m db).2.holdings = db.holdings.reclaim [m.taskID] := by
  rw [shutdown_live hs hm live]
  refine holdings_closeTasksAttempts (fun t _ => ?_) _ _
  rw [mem_singleton]

lemma shutdown_workers
    (defaults : RetryPolicy) (now : Time) :
    (processTaskStatus defaults now workerID m db).2.workers = db.workers := by
  by_cases live : db.holdings.Live workerID m.attemptID m.taskID
  · rw [shutdown_live hs hm live, closeTasks_eq]
    rfl
  · rw [shutdown_not_live hs hm live]

end
end

lemma shutdown_tasks_keyed (keyed : Keyed (·.id) db.tasks) (hs : m.status = .failed)
    (hm : m.message = messageWorkerShutdown) (defaults : RetryPolicy) (workerID : ID) (now : Time) :
    Keyed (·.id) (processTaskStatus defaults now workerID m db).2.tasks := by
  by_cases live : db.holdings.Live workerID m.attemptID m.taskID
  · rw [shutdown_live hs hm live, closeTasks_eq]
    refine (congrArg Nodup ?_).mpr keyed
    exact map_update (f := reclaimTask) Task.id fun _ _ => rfl
  · rwa [shutdown_not_live hs hm live]

/-- A worker's shutdown report and its offline transition, under whatever
guard takes it offline, leave the same holdings in either order. -/
theorem shutdown_report_offline_comm (keyed : Keyed (·.id) db.tasks) (hs : m.status = .failed)
    (hm : m.message = messageWorkerShutdown) (defaults : RetryPolicy) (mark : Worker → Prop)
    [DecidablePred mark] (workerID : ID) (now₁ now₂ now₃ now₄ : Time) :
    (offlineWorkerIf mark workerID now₂ (processTaskStatus defaults now₁ workerID m db).2).2.holdings =
      (processTaskStatus defaults now₄ workerID m (offlineWorkerIf mark workerID now₃ db).2).2.holdings := by
  by_cases hmark : ∃ v ∈ db.workers, v.id = workerID ∧ mark v
  case neg =>
    -- the worker is not taken offline in either order
    have hmark' : ¬ ∃ v ∈ (processTaskStatus defaults now₁ workerID m db).2.workers,
        v.id = workerID ∧ mark v := by
      rwa [shutdown_workers hs hm]
    rw [offlineWorkerIf, if_neg hmark', offlineWorkerIf, if_neg hmark]
    by_cases live : db.holdings.Live workerID m.attemptID m.taskID
    · rw [holdings_shutdown_live hs hm live, holdings_shutdown_live hs hm live]
    · rw [shutdown_not_live hs hm live, shutdown_not_live hs hm live]
  case pos =>
    have hmark' : ∃ v ∈ (processTaskStatus defaults now₁ workerID m db).2.workers,
        v.id = workerID ∧ mark v := by
      rwa [shutdown_workers hs hm]
    have keyed' := shutdown_tasks_keyed keyed hs hm defaults workerID now₁
    have offline := holdings_offlineWorkerIf keyed mark hmark now₃
    have after : (offlineWorkerIf mark workerID now₃ db).2.holdings.Live workerID m.attemptID m.taskID ↔
        db.holdings.Live workerID m.attemptID m.taskID ∧ m.taskID ∉ db.holdings.held workerID := by
      rw [offline, Holdings.live_reclaim]
    rw [holdings_offlineWorkerIf keyed' mark hmark']
    by_cases live : db.holdings.Live workerID m.attemptID m.taskID
    case neg =>
      rw [shutdown_not_live hs hm live, shutdown_not_live hs hm fun l => live (after.mp l).1, offline]
    case pos =>
      rw [holdings_shutdown_live hs hm live, Holdings.reclaim_reclaim]
      by_cases hheld : m.taskID ∈ db.holdings.held workerID
      · -- the offline transition takes the task along and leaves nothing to the report
        rw [shutdown_not_live hs hm fun l => (after.mp l).2 hheld, offline]
        refine Holdings.reclaim_congr fun id => ?_
        rw [mem_append, mem_singleton, Holdings.mem_held_reclaim, mem_singleton]
        constructor
        · rintro (rfl | ⟨hid, _⟩)
          · exact hheld
          · exact hid
        intro hid
        by_cases e : id = m.taskID
        · exact .inl e
        · exact .inr ⟨hid, e⟩
      · -- the task is in other hands: each event reclaims its own
        rw [holdings_shutdown_live hs hm (after.mpr ⟨live, hheld⟩), offline, Holdings.reclaim_reclaim]
        refine Holdings.reclaim_congr fun id => ?_
        rw [mem_append, mem_append, mem_singleton, Holdings.mem_held_reclaim, mem_singleton, or_comm]
        refine or_congr_left (and_iff_left_of_imp ?_)
        rintro hid rfl
        exact hheld hid

def busyWorkerDB : DB := { DB.empty with
  workers := [⟨1, .online, false, some 5, "i", none, none⟩]
  tasks := [⟨10, 1, 1, .running, some 1, some 3, 0, none, "", ""⟩,
    ⟨11, 1, 1, .assigned, some 1, some 4, 0, none, "", ""⟩]
  attempts := [⟨20, 10, 1, 1, .running, "", none, "", none, "", none, 3, none⟩,
    ⟨21, 11, 1, 1, .running, "", none, "", none, "", none, 4, none⟩]
  claims := [⟨30, 1, 20, none⟩, ⟨31, 1, 21, none⟩] }

def shutdownMsg : TaskStatusMsg := ⟨10, 20, .failed, none, "", none, none, messageWorkerShutdown⟩

theorem shutdown_report_offline_comm_two :
    (offlineStaleWorker 1 6 7 (processTaskStatus ⟨0, 0, 0⟩ 6 1 shutdownMsg busyWorkerDB).2).2.holdings =
      (processTaskStatus ⟨0, 0, 0⟩ 9 1 shutdownMsg (offlineStaleWorker 1 6 8 busyWorkerDB).2).2.holdings ∧
    (offlineStaleWorker 1 6 8 busyWorkerDB).2.holdings.claims = [] := by
  have keyed : Keyed (·.id) busyWorkerDB.tasks := by
    unfold Keyed
    decide
  exact ⟨shutdown_report_offline_comm keyed rfl rfl .., by decide +kernel⟩

end
end Sqi

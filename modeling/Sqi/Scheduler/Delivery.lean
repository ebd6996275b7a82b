import Sqi.Invariant.Attempts
import Sqi.Scheduler.Reconcile
import Sqi.Scheduler.Reports

/-! Delivering a report. -/

namespace Sqi
open Option Program Table Transition Prog

/-! ## Attempts that are over -/

def Shut (db : DB) (attemptID : ID) : Prop :=
  (∀ a ∈ db.attempts, a.id = attemptID → a.status ≠ .running) ∧
    ∀ c ∈ db.claims, c.taskAttemptID = attemptID → c.releasedAt ≠ none

section
variable {db db' : DB} {attemptID : ID}

lemma Shut.congr (h : Shut db attemptID) (ha : db'.attempts = db.attempts)
    (hc : db'.claims = db.claims) : Shut db' attemptID := by
  unfold Shut
  rw [ha, hc]
  exact h

lemma AttemptInv.shut (inv : AttemptInv db)
    (h : ∀ a ∈ db.attempts, a.id = attemptID → a.status ≠ .running) : Shut db attemptID := by
  refine ⟨h, fun c hc e hnone => ?_⟩
  obtain ⟨a, ha, hid, hr⟩ := inv.claim_running c hc hnone
  exact h a ha (hid.trans e) hr

lemma AttemptInv.shut_of_not_latest (inv : AttemptInv db) (wf : WF db) {a : TaskAttempt}
    (ha : a ∈ db.attempts) (hl : ¬ isLatestAttempt db a.id a.taskID) : Shut db a.id := by
  refine inv.shut fun b hb e hr => hl ?_
  rw [wf.attempts_keyed.eq_of_mem hb ha e] at hr
  exact ⟨a, ha, rfl, rfl, inv.running_latest a ha hr⟩

lemma releaseClaims_released (now : Time) (db : DB) :
    ∀ c ∈ (sqlReleaseAttemptClaims now attemptID db).claims, c.taskAttemptID = attemptID → c.releasedAt ≠ none :=
  forall_update (fun _ _ _ _ => by simp) fun _ _ h e hn => h ⟨e, hn⟩
lemma closeRelease_shut (c : AttemptCompletion) (hc : c.attemptStatus ≠ .running)
    (now : Time) (db : DB) : Shut (closeAttemptAndRelease c now db) c.attemptID :=
  ⟨closeRelease_closed hc now, releaseClaims_released now _⟩

lemma Shut.release (h : Shut db attemptID) (now : Time) : sqlReleaseAttemptClaims now attemptID db = db := by
  have claims : update (fun c : UsageClaim => c.taskAttemptID = attemptID ∧ c.releasedAt = none)
      (fun c => { c with releasedAt := some now }) db.claims = db.claims :=
    update_eq_self fun c hc hp => absurd hp.2 (h.2 c hc hp.1)
  rw [sqlReleaseAttemptClaims, DB.updateClaims, claims]

lemma Shut.closeAttemptAndRelease {c : AttemptCompletion} (h : Shut db c.attemptID) (now : Time) :
    closeAttemptAndRelease c now db = db := by
  have close : sqlCloseRunningAttempt c db = db := by
    rw [sqlCloseRunningAttempt, DB.updateAttempts, update_eq_self fun a ha hp => absurd hp.2 (h.1 a ha hp.1)]
  rw [Sqi.closeAttemptAndRelease, close, h.release now]

lemma Shut.closeAsFailed (h : Shut db attemptID) (exitCode : Option Int) (sessionID message : String)
    (at_ : Time) : sqlCloseAttemptAsFailed attemptID exitCode sessionID message at_ db = db := by
  rw [sqlCloseAttemptAsFailed, DB.updateAttempts, update_eq_self fun a ha hp => absurd hp.2 (h.1 a ha hp.1)]
lemma Shut.not_live (h : Shut db attemptID) (t : Task) : ¬ liveAttempt db attemptID t :=
  fun ⟨_, a, ha, hid, _, hr, _⟩ => h.1 a ha hid hr

end

section
variable {db : DB} {attemptID taskID : ID} {t : Task} {m : TaskStatusMsg}

lemma handleTaskRunning_dead (ht : db.task? m.taskID = some t)
    (h : ¬ liveAttempt db m.attemptID t) (now : Time) : (handleTaskRunning now m db).2 = db := by
  have hstart : startTaskAttempt m.attemptID m.taskID m.sessionID db = (.ok false, db) := by
    simp [startTaskAttempt, ht, h]
  unfold handleTaskRunning
  split
  · have hsnap : handleRunningSnapshot (snapshotProgress now m) db = (.ok true, db) := by
      simp [handleRunningSnapshot, recordAttemptProgress, snapshotProgress, ht, h]
    rw [bind_ok hsnap]
    rfl
  · rw [startReported, tx_bind_ok hstart]
    rfl

lemma terminal_stale (h : Shut db m.attemptID)
    (ht : db.task? m.taskID = some t) (hl : ¬ isLatestAttempt db m.attemptID m.taskID)
    (now : Time) (outcome : Outcome) (at_ : Time) : (handleTaskTerminal now m outcome at_ db).2 = db := by
  have hclose : closeAttemptAndRelease (terminalReport m outcome at_).completion now db = db :=
    Shut.closeAttemptAndRelease h now
  have hrej : completeTaskAttempt (terminalReport m outcome at_).completion now db = (.ok .rejected, db) := by
    simp only [completeTaskAttempt, TerminalReport.completion, terminalReport] at hclose ⊢
    simp [ht, hclose, applyCompletion, hl]
  rw [handleTaskTerminal, tx_bind_ok hrej, bind_ok (fetch_some ht)]
  rfl

lemma reclaim_shut (h : Shut db attemptID) (ht : db.task? taskID = some t)
    (now : Time) : reclaimTaskAttempt attemptID taskID now db = (.ok false, db) := by
  simp [reclaimTaskAttempt, ht, h.not_live t]

lemma recordFailure_shut (h : Shut db attemptID) (ht : db.task? taskID = some t)
    {j : Job} (hj : db.job? t.jobID = some j) (exitCode : Option Int) (sessionID message : String)
    (at_ now : Time) : recordTaskFailure attemptID taskID exitCode sessionID message at_ now db =
    (.ok ⟨t.failedAttempts, j.failedAttempts, false⟩, db) := by
  have hrun : ¬ ∃ a ∈ db.attempts, a.id = attemptID ∧ a.status = .running := fun ⟨a, ha, hid, hr⟩ => h.1 a ha hid hr
  simp only [recordTaskFailure, ht, hj, h.closeAsFailed, h.release, if_neg hrun]

end

/-! ## Applied completions -/

def completedTask (c : AttemptCompletion) (t : Task) : Task :=
  { t with
    status := c.taskStatus
    unschedulableReason := if t.status = c.taskStatus then t.unschedulableReason else ""
    failureReason := coalesceText c.failureReason t.failureReason }

structure Delivered (c : AttemptCompletion) (t : Task) (db : DB) : Prop where
  shut : Shut db c.attemptID
  latest : isLatestAttempt db c.attemptID c.taskID
  task : t ∈ db.tasks
  id : t.id = c.taskID
  status : t.status = c.taskStatus
  reason : c.failureReason ≠ "" → t.failureReason = c.failureReason

section
variable {db db' : DB} {c : AttemptCompletion} {t : Task}

lemma isLatestAttempt_congr (h : db'.attempts = db.attempts) {attemptID taskID : ID}
    (hl : isLatestAttempt db attemptID taskID) : isLatestAttempt db' attemptID taskID := by
  unfold isLatestAttempt maxAttemptNumber at *
  rwa [h]

lemma stamp_completedTask {f : Task → Task} (hid : ∀ u, (f u).id = u.id)
    (hreason : ∀ u, (f u).failureReason = u.failureReason)
    (hf : ∀ u ∈ db.tasks, u.id = c.taskID → completedTask c u =
      { f u with failureReason := coalesceText c.failureReason u.failureReason }) :
    (if c.failureReason ≠ "" then sqlSetTaskFailureReason c.failureReason c.taskID
        (db.updateTasks (fun u => u.id = c.taskID) f)
      else db.updateTasks (fun u => u.id = c.taskID) f) =
    db.updateTasks (fun u => u.id = c.taskID) (completedTask c) := by
  by_cases hr : c.failureReason = ""
  · rw [if_neg (not_not.mpr hr)]
    simp only [DB.updateTasks]
    rw [update_congr_right fun u hu e => ?_]
    rw [hf u hu e, coalesceText, if_pos hr, ← hreason u]
  · rw [if_pos hr]
    simp only [sqlSetTaskFailureReason, DB.updateTasks]
    rw [update_comp fun u e => (hid u).trans e, update_congr_right fun u hu e => ?_]
    rw [hf u hu e, coalesceText, if_neg hr]

lemma applyCompletion_cases (wf : WF db) (ht : t ∈ db.tasks) (hid : t.id = c.taskID) :
    applyCompletion c t db = (.rejected, db) ∨
    (isLatestAttempt db c.attemptID c.taskID ∧ (t.status = c.taskStatus ∨ t.status.InFlight) ∧
      applyCompletion c t db = (.applied, db.updateTasks (fun u => u.id = c.taskID) (completedTask c))) := by
  unfold applyCompletion
  by_cases hl : isLatestAttempt db c.attemptID c.taskID
  swap
  · exact .inl (by rw [if_pos hl])
  rw [if_neg (not_not.mpr hl)]
  by_cases hst : t.status ≠ c.taskStatus ∧ ¬ t.status.InFlight
  · exact .inl (by rw [if_pos hst])
  rw [if_neg hst]
  have only : ∀ u ∈ db.tasks, u.id = c.taskID → u = t := fun u hu e =>
    wf.tasks_keyed.eq_of_mem hu ht (e.trans hid.symm)
  unfold casTaskStatus
  by_cases hs : t.status = c.taskStatus
  · refine .inr ⟨hl, .inl hs, ?_⟩
    have same : db.updateTasks (fun u => u.id = c.taskID) (fun u => u) = db := by
      simp only [DB.updateTasks, update_eq_self fun _ _ _ => rfl]
    have hstamp : _ = db.updateTasks (fun u => u.id = c.taskID) (completedTask c) :=
      stamp_completedTask (f := fun u => u) (fun _ => rfl) (fun _ => rfl) fun u hu e => by
        have hus : u.status = c.taskStatus := only u hu e ▸ hs
        rw [completedTask, if_pos hus, ← hus]
    rw [same] at hstamp
    rw [if_pos hs]
    exact Prod.ext rfl hstamp
  · have hf : t.status.InFlight := by
      by_contra hn
      exact hst ⟨hs, hn⟩
    rw [if_neg hs]
    by_cases hv : t.status.validTaskTransition c.taskStatus
    · rw [if_pos hv]
      refine .inr ⟨hl, .inr hf, Prod.ext rfl ?_⟩
      have cas : casWriteTaskStatus t.id t.status c.taskStatus db = db.updateTasks (fun u => u.id = c.taskID)
            (fun u => { u with status := c.taskStatus, unschedulableReason := "" }) := by
        have guard : ∀ u ∈ db.tasks, (u.id = t.id ∧ u.status = t.status) ↔ u.id = c.taskID := fun u hu => by
          rw [hid]
          exact ⟨fun h => h.1, fun e => ⟨e, only u hu e ▸ rfl⟩⟩
        simp only [casWriteTaskStatus, DB.updateTasks, update_congr guard]
      dsimp only
      rw [cas]
      refine stamp_completedTask (fun _ => rfl) (fun _ => rfl) fun u hu e => ?_
      have hus : u.status ≠ c.taskStatus := only u hu e ▸ hs
      rw [completedTask, if_neg hus]
    · exact .inl (by rw [if_neg hv])

lemma complete_cases (wf : WF db) (ht : t ∈ db.tasks) (hid : t.id = c.taskID)
    (hc : c.attemptStatus ≠ .running) (now : Time) :
    (applyCompletion c t (closeAttemptAndRelease c now db) = (.rejected, closeAttemptAndRelease c now db) ∧
      completeTaskAttempt c now db = (.ok .rejected, closeAttemptAndRelease c now db)) ∨
    (completeTaskAttempt c now db = (.ok .applied, (closeAttemptAndRelease c now db).updateTasks
        (fun u => u.id = c.taskID) (completedTask c)) ∧ (t.status = c.taskStatus ∨ t.status.InFlight) ∧
      Delivered c (completedTask c t) ((closeAttemptAndRelease c now db).updateTasks
        (fun u => u.id = c.taskID) (completedTask c))) := by
  have wf0 : WF (closeAttemptAndRelease c now db) := wf.of_sameKeys (closeRelease_workSide c now).sameKeys
  have hfind : db.task? c.taskID = some t := hid ▸ wf.task?_eq ht
  rcases applyCompletion_cases (c := c) wf0 ht hid with heq | ⟨hl, hst, heq⟩
  · refine .inl ⟨heq, ?_⟩
    simp only [completeTaskAttempt, hfind, heq]
  refine .inr ⟨?_, hst, ?_⟩
  · simp only [completeTaskAttempt, hfind, heq]
  · refine ⟨(closeRelease_shut c hc now db).congr rfl rfl, isLatestAttempt_congr rfl hl,
      mem_update.mpr ⟨t, ht, if_pos hid⟩, hid, rfl, fun hr => ?_⟩
    simp [completedTask, coalesceText, hr]

lemma Delivered.complete (h : Delivered c t db) (wf : WF db) (now : Time) :
    completeTaskAttempt c now db = (.ok .applied, db) := by
  have hfind : db.task? c.taskID = some t := h.id ▸ wf.task?_eq h.task
  have hreason : sqlSetTaskFailureReason c.failureReason c.taskID db = db ∨ c.failureReason = "" := by
    refine or_iff_not_imp_right.mpr fun hr => ?_
    rw [sqlSetTaskFailureReason, DB.updateTasks, update_eq_self fun u hu e => ?_]
    rw [wf.tasks_keyed.eq_of_mem hu h.task (e.trans h.id.symm), ← h.reason hr]
  simp only [completeTaskAttempt, hfind, h.shut.closeAttemptAndRelease, applyCompletion, casTaskStatus,
    h.latest, h.status]
  rcases hreason with hr | hr <;> simp [hr]

lemma Delivered.within (h : Delivered c t db) {touched : ID → Prop} (w : Within touched db db')
    (hc : c.taskStatus ≠ .pending) : Delivered c t db' where
  shut := h.shut.congr w.attempts_eq w.claims_eq
  latest := isLatestAttempt_congr w.attempts_eq h.latest
  task := w.mem_task h.task (h.status ▸ hc)
  id := h.id
  status := h.status
  reason := h.reason

end

/-! ## Terminal reports -/

def TaskStatusMsg.completion (m : TaskStatusMsg) (outcome : Outcome) (at_ : Time) : AttemptCompletion :=
  (terminalReport m outcome at_).completion

section
variable {db : DB} {m : TaskStatusMsg} {t : Task} {outcome : Outcome} {at_ now : Time} {db1 : DB}

lemma terminal_rejected
    (h : completeTaskAttempt (m.completion outcome at_) now db = (.ok .rejected, db1))
    (ht : db1.task? m.taskID = some t) :
    handleTaskTerminal now m outcome at_ db = (.error .invalidTransition, db1) :=
  (tx_bind_ok h).trans (bind_ok (fetch_some ht))

lemma terminal_applied
    (h : completeTaskAttempt (m.completion outcome at_) now db = (.ok .applied, db1))
    (ht : db1.task? m.taskID = some t) :
    handleTaskTerminal now m outcome at_ db = checkStepCompletion now t.stepID t.jobID db1 :=
  (tx_bind_ok h).trans (bind_ok (fetch_some ht))

lemma terminal_cases (wf : WF db) (ht : t ∈ db.tasks) (hid : t.id = m.taskID) (now : Time)
    (outcome : Outcome) (at_ : Time) :
    (applyCompletion (m.completion outcome at_) t (closeAttemptAndRelease (m.completion outcome at_) now db) =
        (.rejected, closeAttemptAndRelease (m.completion outcome at_) now db) ∧
      handleTaskTerminal now m outcome at_ db =
        (.error .invalidTransition, closeAttemptAndRelease (m.completion outcome at_) now db)) ∨
    ((t.status = outcome.taskStatus ∨ t.status.InFlight) ∧ ∃ db1, WF db1 ∧
      db1 = (closeAttemptAndRelease (m.completion outcome at_) now db).updateTasks
        (fun u => u.id = m.taskID) (completedTask (m.completion outcome at_)) ∧
      Delivered (m.completion outcome at_) (completedTask (m.completion outcome at_) t) db1 ∧
      handleTaskTerminal now m outcome at_ db = checkStepCompletion now t.stepID t.jobID db1) := by
  rcases complete_cases (c := m.completion outcome at_) wf ht hid outcome.attemptStatus_ne_running now with
    ⟨hrej, heq⟩ | ⟨heq, hst, hd⟩
  · exact .inl ⟨hrej, terminal_rejected heq (hid ▸ wf.task?_eq ht)⟩
  have wf1 : WF (completeTaskAttempt (m.completion outcome at_) now db).2 :=
    wf.of_sameKeys (complete_workSide outcome.taskStatus_ne_pending now).sameKeys
  rw [heq] at wf1
  have hfind := wf1.task?_eq hd.task
  rw [hd.id] at hfind
  have hrun := terminal_applied heq hfind
  exact .inr ⟨hst, _, wf1, rfl, hd, hrun⟩

lemma terminal_again (wf : WF db) (ht : t ∈ db.tasks) (hid : t.id = m.taskID)
    (now now' : Time) (outcome : Outcome) (at_ at' : Time) :
    (handleTaskTerminal now' m outcome at' (handleTaskTerminal now m outcome at_ db).2).2 =
      (handleTaskTerminal now m outcome at_ db).2 := by
  rcases terminal_cases wf ht hid now outcome at_ with
    ⟨hrej, heq⟩ | ⟨_, db1, wf1, _, hd, heq⟩
  · rw [heq]
    have hshut := closeRelease_shut (m.completion outcome at_) outcome.attemptStatus_ne_running now db
    have hclose := Shut.closeAttemptAndRelease (c := m.completion outcome at') hshut now'
    -- the task row is as it was, so the second completion is refused too
    have hfind : (closeAttemptAndRelease (m.completion outcome at_) now db).task? m.taskID = some t :=
      hid ▸ wf.task?_eq ht
    generalize closeAttemptAndRelease (m.completion outcome at_) now db = db0 at *
    have hrej' : applyCompletion (m.completion outcome at') t db0 = (.rejected, db0) := hrej
    have hfind' : db0.task? (m.completion outcome at').taskID = some t := hfind
    have hcomplete : completeTaskAttempt (m.completion outcome at') now' db0 = (.ok .rejected, db0) := by
      simp only [completeTaskAttempt, hfind', hclose, hrej']
    rw [terminal_rejected hcomplete hfind]
  · rw [heq]
    obtain ⟨s, hs, es, ej⟩ := wf1.task_step _ hd.task
    change s.id = t.stepID at es
    change s.jobID = t.jobID at ej
    rw [← es, ← ej]
    have within := stepCompletion_within wf1 hs now
    have hagain := stepCompletion_again wf1 hs now now'
    generalize (checkStepCompletion now s.id s.jobID db1).2 = db2 at *
    have h := hd.within within outcome.taskStatus_ne_pending
    have hd2 : Delivered (m.completion outcome at') _ _ := ⟨h.shut, h.latest, h.task, h.id, h.status, h.reason⟩
    have wf2 := within.wf wf1
    have hfind := wf2.task?_eq hd2.task
    rw [hd2.id] at hfind
    have hrun := terminal_applied (hd2.complete wf2 now') hfind
    rw [hrun]
    change (checkStepCompletion now' t.stepID t.jobID db2).2 = db2
    rw [← es, ← ej, hagain]

end

/-! ## Running reports -/

def Tracked (db : DB) (attemptID taskID : ID) (at_ : Time) : Prop :=
  ∃ t, db.task? taskID = some t ∧ t.status = .running ∧ liveAttempt db attemptID t ∧
    ∀ a ∈ db.attempts, a.id = attemptID → a.status = .running → ∃ stored ∈ a.progressAt, at_ ≤ stored
def Started (db : DB) (attemptID taskID : ID) (sessionID : String) : Prop :=
  ∃ t, db.task? taskID = some t ∧ t.status = .running ∧ liveAttempt db attemptID t ∧
    (sessionID ≠ "" → ∀ a ∈ db.attempts, a.id = attemptID → a.status = .running → a.sessionID = sessionID)

section
variable {db db' : DB} {attemptID taskID : ID} {t t' : Task} {p : AttemptProgress} {m : TaskStatusMsg}
  {at_ : Time}

lemma liveAttempt_of (h : List.Forall₂ (fun a a' : TaskAttempt => a'.key = a.key ∧ a'.status = a.status)
    db.attempts db'.attempts) (hid : t'.id = t.id) (hf : t'.status.InFlight)
    (hl : liveAttempt db attemptID t) : liveAttempt db' attemptID t' := by
  obtain ⟨_, a, ha, e, et, hr, hn⟩ := hl
  obtain ⟨a', ha', hk, hs⟩ := of_mem_left h ha
  have hmax := maxAttemptNumber_congr (map_eq_of_forall₂ _ (fun _ _ k => k.1) h) t.id
  simp only [TaskAttempt.key, Prod.mk.injEq] at hk
  exact ⟨hf, a', ha', hk.1.trans e, by rw [hk.2.1, et, hid], hs.trans hr, by rw [hk.2.2.2, hn, hid, hmax]⟩

lemma progress_tracked (ht : db.task? p.taskID = some t)
    (hr : t.status = .running) (hl : liveAttempt db p.attemptID t) :
    Tracked (recordAttemptProgress p db).2 p.attemptID p.taskID p.at_ ∧
    ((recordAttemptProgress p db).1 = .ok .recorded ∨ (recordAttemptProgress p db).1 = .ok .outOfOrder) := by
  have hna : ¬ t.status = .assigned := by simp [hr]
  simp only [recordAttemptProgress, ht, hl, not_true_eq_false, if_false, hna]
  by_cases hm : ∃ a ∈ db.attempts, progressMatches p a
  · rw [if_pos hm]
    refine ⟨⟨t, ht, hr, liveAttempt_of (forall₂_update (fun _ => ⟨rfl, rfl⟩) fun _ _ => ⟨rfl, rfl⟩) rfl
      hl.1 hl, ?_⟩, .inl rfl⟩
    refine forall_mem_update.mpr fun a ha => ?_
    split
    · exact fun _ _ => ⟨p.at_, rfl, Nat.le_refl _⟩
    rename_i hn
    intro e hrun
    cases hp : a.progressAt with
    | none => exact absurd ⟨e, hrun, .inl hp⟩ hn
    | some stored => refine ⟨stored, rfl, Nat.le_of_not_lt fun hlt => hn ⟨e, hrun, .inr ⟨stored, hp, hlt⟩⟩⟩
  · rw [if_neg hm]
    refine ⟨⟨t, ht, hr, hl, fun a ha e hrun => ?_⟩, .inr rfl⟩
    cases hp : a.progressAt with
    | none => exact absurd ⟨a, ha, e, hrun, .inl hp⟩ hm
    | some stored =>
      exact ⟨stored, rfl, Nat.le_of_not_lt fun hlt => hm ⟨a, ha, e, hrun, .inr ⟨stored, hp, hlt⟩⟩⟩

lemma Tracked.record (h : Tracked db p.attemptID p.taskID at_) :
    recordAttemptProgress p db = (.ok .outOfOrder, db) ∨
    at_ < p.at_ ∧ recordAttemptProgress p db = (.ok .recorded, sqlRecordAttemptProgress p db) := by
  obtain ⟨t, ht, hr, hl, hstored⟩ := h
  have hna : ¬ t.status = .assigned := by simp [hr]
  simp only [recordAttemptProgress, ht, hl, not_true_eq_false, if_false, hna]
  by_cases hm : ∃ a ∈ db.attempts, progressMatches p a
  · rw [if_pos hm]
    refine .inr ⟨?_, rfl⟩
    obtain ⟨a, ha, e, hrun, hnone | ⟨stored, hs, hlt⟩⟩ := hm
    · obtain ⟨stored, hs, _⟩ := hstored a ha e hrun
      rw [hnone] at hs
      cases hs
    obtain ⟨stored', hs', hle⟩ := hstored a ha e hrun
    rw [hs] at hs'
    cases hs'
    exact Nat.lt_of_le_of_lt hle hlt
  · rw [if_neg hm]
    exact .inl rfl

lemma startTaskAttempt_live (wf : WF db) (ht : t ∈ db.tasks) (hl : liveAttempt db attemptID t)
    (sessionID : String) : ∃ t1 db1, startTaskAttempt attemptID t.id sessionID db = (.ok true, db1) ∧
      db1.task? t.id = some t1 ∧ t1.jobID = t.jobID ∧ Started db1 attemptID t.id sessionID := by
  -- the task first, then the session
  obtain ⟨t1, d, hd, htask, ejob, hrun, hattempts⟩ : ∃ t1 d,
      (if t.status = .assigned then casWriteTaskStatus t.id .assigned .running db else db) = d ∧
      d.task? t.id = some t1 ∧ t1.jobID = t.jobID ∧ t1.status = .running ∧ d.attempts = db.attempts := by
    by_cases ha : t.status = .assigned
    · refine ⟨{ t with status := .running, unschedulableReason := "" }, _, if_pos ha, ?_, rfl, rfl, rfl⟩
      have wf' : WF (casWriteTaskStatus t.id .assigned .running db) := wf.of_sameKeys (.updateTasks fun _ => rfl)
      exact wf'.task?_eq (mem_update.mpr ⟨t, ht, if_pos ⟨rfl, ha⟩⟩)
    · exact ⟨t, db, if_neg ha, wf.task?_eq ht, rfl, hl.1.resolve_left ha, rfl⟩
  have eid : t1.id = t.id := (DB.task?_some htask).2
  have hstart : startTaskAttempt attemptID t.id sessionID db =
      (.ok true, if sessionID ≠ "" then sqlSetRunningAttemptSession sessionID attemptID d else d) := by
    simp only [startTaskAttempt, wf.task?_eq ht, hl, not_true_eq_false, if_false, hd]
  by_cases hsession : sessionID = ""
  · rw [if_neg (not_not.mpr hsession)] at hstart
    refine ⟨t1, d, hstart, htask, ejob, t1, htask, hrun, ?_, fun hs => absurd hsession hs⟩
    exact liveAttempt_of (hattempts ▸ forall₂_refl (fun _ => ⟨rfl, rfl⟩) _) eid (.inr hrun) hl
  rw [if_pos hsession] at hstart
  refine ⟨t1, _, hstart, htask, ejob, t1, htask, hrun, liveAttempt_of ?_ eid (.inr hrun) hl, fun _ => ?_⟩
  · rw [← hattempts]
    exact forall₂_update (fun _ => ⟨rfl, rfl⟩) fun _ _ => ⟨rfl, rfl⟩
  exact forall_update (fun _ _ _ _ _ => rfl) fun _ _ hn e hr => absurd ⟨e, hr⟩ hn

lemma Started.start {sessionID : String} (h : Started db attemptID taskID sessionID) :
    startTaskAttempt attemptID taskID sessionID db = (.ok true, db) := by
  obtain ⟨t, ht, hr, hl, hsession⟩ := h
  have hna : ¬ t.status = .assigned := by simp [hr]
  have same : sessionID ≠ "" → sqlSetRunningAttemptSession sessionID attemptID db = db := fun hs => by
    rw [sqlSetRunningAttemptSession, DB.updateAttempts, update_eq_self fun a ha hp => ?_]
    rw [← hsession hs a ha hp.1 hp.2]
  simp only [startTaskAttempt, ht, hl, not_true_eq_false, if_false, hna]
  by_cases hs : sessionID = ""
  · rw [if_neg (not_not.mpr hs)]
  · rw [if_pos hs, same hs]

lemma promoteJobRunning_again (id : ID) (now now' : Time) (db : DB) :
    (promoteJobRunning id now' (promoteJobRunning id now db).2).2 = (promoteJobRunning id now db).2 := by
  have jobs : update (fun j : Job => j.id = id ∧ j.status = .pending)
      (fun j => { j with status := .running, startedAt := j.startedAt.or (some now') })
      (promoteJobRunning id now db).2.jobs = (promoteJobRunning id now db).2.jobs := by
    refine update_eq_self fun j' hj' hp => ?_
    obtain ⟨j, hj, rfl⟩ := mem_update.mp hj'
    split at hp
    · cases hp.2
    · rename_i hn
      exact absurd hp hn
  simp only [promoteJobRunning, DB.updateJobs] at jobs ⊢
  rw [jobs]

lemma Tracked.handleTaskRunning
    (h : Tracked db m.attemptID m.taskID at_) (hsnap : m.lastProgress ≠ none ∨ m.message ≠ "")
    (now : Time) : (handleTaskRunning now m db).2 = db ∨ at_ < m.reportedAt now ∧
    (handleTaskRunning now m db).2 = sqlRecordAttemptProgress (snapshotProgress now m) db := by
  have run : ∀ {outcome db'}, recordAttemptProgress (snapshotProgress now m) db = (.ok outcome, db') →
      outcome ≠ .taskAssigned → (Sqi.handleTaskRunning now m db).2 = db' := by
    intro outcome db' hrec hne
    have hdone : handleRunningSnapshot (snapshotProgress now m) db = (.ok true, db') := by
      simp only [handleRunningSnapshot, hrec]
    rw [Sqi.handleTaskRunning, if_pos hsnap, bind_ok hdone]
    rfl
  rcases Tracked.record (p := snapshotProgress now m) h with hrec | ⟨hlt, hrec⟩
  · exact .inl (run hrec (by simp))
  · exact .inr ⟨hlt, run hrec (by simp)⟩

lemma handleTaskRunning_again (wf : WF db) (ht : t ∈ db.tasks) (hid : t.id = m.taskID) (now now' : Time) :
    (handleTaskRunning now' m (handleTaskRunning now m db).2).2 = (handleTaskRunning now m db).2 ∨
    ((m.lastProgress ≠ none ∨ m.message ≠ "") ∧ m.reportedAt now < m.reportedAt now') ∧
    (handleTaskRunning now' m (handleTaskRunning now m db).2).2 =
    sqlRecordAttemptProgress (snapshotProgress now' m) (handleTaskRunning now m db).2 := by
  have hfind : db.task? m.taskID = some t := hid ▸ wf.task?_eq ht
  by_cases hl : liveAttempt db m.attemptID t
  swap
  · rw [handleTaskRunning_dead hfind hl now]
    exact .inl (handleTaskRunning_dead hfind hl now')
  obtain ⟨t1, db1, hstart, htask, ejob, hstarted⟩ := startTaskAttempt_live wf ht hl m.sessionID
  rw [hid] at hstart htask hstarted
  by_cases hsnap : m.lastProgress ≠ none ∨ m.message ≠ ""
  swap
  · -- no snapshot: the start and the promotion find themselves done
    have run : ∀ {d d' : DB} (n : Time), startTaskAttempt m.attemptID m.taskID m.sessionID d = (.ok true, d') →
        d'.task? m.taskID = some t1 →
        (Sqi.handleTaskRunning n m d).2 = (promoteJobRunning t1.jobID n d').2 := by
      intro d d' n hs hf
      rw [Sqi.handleTaskRunning, if_neg hsnap, startReported, tx_bind_ok hs, if_pos rfl, read_bind, hf]
      rfl
    have honce := run now hstart htask
    rw [honce]
    have hstarted' : Started (promoteJobRunning t1.jobID now db1).2 m.attemptID m.taskID m.sessionID := hstarted
    exact .inl ((run now' hstarted'.start htask).trans (promoteJobRunning_again ..))
  · by_cases ha : t.status = .assigned
    · -- the snapshot came before the start
      have hassigned : handleRunningSnapshot (snapshotProgress now m) db = (.ok false, db) := by
        simp [handleRunningSnapshot, recordAttemptProgress, snapshotProgress, hfind, hl, ha]
      obtain ⟨t2, ht2, hr2, hl2, _⟩ := hstarted
      have htracked := (progress_tracked (p := snapshotProgress now m) ht2 hr2 hl2).1
      have honce : (Sqi.handleTaskRunning now m db).2 = (promoteJobRunning t1.jobID now
          (recordAttemptProgress (snapshotProgress now m) db1).2).2 := by
        rw [Sqi.handleTaskRunning, if_pos hsnap, bind_ok hassigned]
        simp only [Bool.false_eq_true, if_false]
        rw [startReported, tx_bind_ok hstart, if_pos rfl, read_bind, htask]
        rfl
      rw [honce]
      have htracked' : Tracked (promoteJobRunning t1.jobID now
        (recordAttemptProgress (snapshotProgress now m) db1).2).2 m.attemptID m.taskID
        (m.reportedAt now) := htracked
      exact (htracked'.handleTaskRunning hsnap now').imp_right fun h => ⟨⟨hsnap, h.1⟩, h.2⟩
    · obtain ⟨htracked, hout⟩ := progress_tracked (p := snapshotProgress now m) hfind
        (hl.1.resolve_left ha) hl
      have hdone : handleRunningSnapshot (snapshotProgress now m) db =
          (.ok true, (recordAttemptProgress (snapshotProgress now m) db).2) := by
        unfold handleRunningSnapshot
        generalize recordAttemptProgress (snapshotProgress now m) db = r at hout ⊢
        obtain ⟨_, db'⟩ := r
        rcases hout with rfl | rfl <;> rfl
      have honce : (Sqi.handleTaskRunning now m db).2 = (recordAttemptProgress (snapshotProgress now m) db).2 := by
        rw [Sqi.handleTaskRunning, if_pos hsnap, bind_ok hdone]
        rfl
      rw [honce]
      have htracked' : Tracked (recordAttemptProgress (snapshotProgress now m) db).2 m.attemptID m.taskID
        (m.reportedAt now) := htracked
      exact (htracked'.handleTaskRunning hsnap now').imp_right fun h => ⟨⟨hsnap, h.1⟩, h.2⟩

end

/-! ## Failure reports -/

def Job.limits (j : Job) : ID × ID × RetryOverrides × Nat := (j.queueID, j.farmID, j.retry, j.failedAttempts)

structure SameReport (taskID : ID) (db db' : DB) : Prop where
  attempts : db'.attempts = db.attempts
  claims : db'.claims = db.claims
  queues : db'.queues = db.queues
  farms : db'.farms = db.farms
  task : ∀ t, db.task? taskID = some t →
    ∃ t', db'.task? taskID = some t' ∧ t'.jobID = t.jobID ∧ t'.failedAttempts = t.failedAttempts
  job : ∀ id j, db.job? id = some j → ∃ j', db'.job? id = some j' ∧ j'.limits = j.limits

section
variable {db db' db'' : DB} {taskID : ID} {m : TaskStatusMsg} {t : Task} {j : Job} {jobID : ID}
  {touched : ID → Prop} {r : FailureRecord} {reason : String} {a : TaskAttempt} {db1 : DB}

lemma SameReport.refl (db : DB) : SameReport taskID db db :=
  ⟨rfl, rfl, rfl, rfl, fun t ht => ⟨t, ht, rfl, rfl⟩, fun _ j hj => ⟨j, hj, rfl⟩⟩

lemma SameReport.trans (h1 : SameReport taskID db db') (h2 : SameReport taskID db' db'') :
    SameReport taskID db db'' where
  attempts := h2.attempts.trans h1.attempts
  claims := h2.claims.trans h1.claims
  queues := h2.queues.trans h1.queues
  farms := h2.farms.trans h1.farms
  task := fun t ht => by
    obtain ⟨t', ht', e, ef⟩ := h1.task t ht
    obtain ⟨t'', ht'', e', ef'⟩ := h2.task t' ht'
    exact ⟨t'', ht'', e'.trans e, ef'.trans ef⟩
  job := fun id j hj => by
    obtain ⟨j', hj', e⟩ := h1.job id j hj
    obtain ⟨j'', hj'', e'⟩ := h2.job id j' hj'
    exact ⟨j'', hj'', e'.trans e⟩

lemma SameReport.updateTasks {p : Task → Prop} [DecidablePred p] {f : Task → Task} (wf : WF db)
    (hkey : ∀ t, (f t).key = t.key) (hf : ∀ t, (f t).failedAttempts = t.failedAttempts) :
    SameReport taskID db (db.updateTasks p f) := by
  refine { (SameReport.refl db : SameReport taskID db db) with task := fun t ht => ?_ }
  have wf' : WF (db.updateTasks p f) := wf.of_sameKeys (.updateTasks hkey)
  obtain ⟨hmem, rfl⟩ := DB.task?_some ht
  have hrow : (if p t then f t else t) ∈ (db.updateTasks p f).tasks := mem_update.mpr ⟨t, hmem, rfl⟩
  have hk : (if p t then f t else t).key = t.key := by split <;> simp [hkey]
  simp only [Task.key, Prod.mk.injEq] at hk
  refine ⟨_, hk.1 ▸ wf'.task?_eq hrow, hk.2.1, ?_⟩
  split <;> simp [hf]

lemma SameReport.updateJobs {p : Job → Prop} [DecidablePred p] {f : Job → Job} (wf : WF db)
    (hid : ∀ j, (f j).id = j.id) (hf : ∀ j, (f j).limits = j.limits) :
    SameReport taskID db (db.updateJobs p f) := by
  refine { (SameReport.refl db : SameReport taskID db db) with job := fun id j hj => ?_ }
  have wf' : WF (db.updateJobs p f) := wf.of_sameKeys (.updateJobs hid)
  obtain ⟨hmem, rfl⟩ := DB.job?_some hj
  have hrow : (if p j then f j else j) ∈ (db.updateJobs p f).jobs := mem_update.mpr ⟨j, hmem, rfl⟩
  have hk : (if p j then f j else j).id = j.id := by split <;> simp [hid]
  refine ⟨_, hk ▸ wf'.job?_eq hrow, ?_⟩
  split <;> simp [hf]

lemma Within.sameReport (h : Within touched db db') (wf : WF db)
    (ht : db.task? taskID = some t) (hp : t.status ≠ .pending) : SameReport taskID db db' where
  attempts := h.attempts_eq
  claims := h.claims_eq
  queues := (congrArg DB.queues h.rest :)
  farms := (congrArg DB.farms h.rest :)
  task := fun t' ht' => by
    obtain rfl : t = t' := some.inj (ht.symm.trans ht')
    obtain ⟨hmem, rfl⟩ := DB.task?_some ht
    exact ⟨t, (h.wf wf).task?_eq (h.mem_task hmem hp), rfl, rfl⟩
  job := fun id j hj => by
    obtain ⟨hmem, rfl⟩ := DB.job?_some hj
    obtain ⟨j', hj', hk, _⟩ := of_mem_left h.jobs hmem
    simp only [Job.fixed, Prod.mk.injEq] at hk
    refine ⟨j', hk.1 ▸ (h.wf wf).job?_eq hj', ?_⟩
    simp only [Job.limits, hk]

lemma requeue_again (attemptID : ID) (retryAfter retryAfter' : Time) :
    (requeueTaskForRetry taskID attemptID retryAfter' (requeueTaskForRetry taskID attemptID retryAfter db).2).2 =
      (requeueTaskForRetry taskID attemptID retryAfter db).2 := by
  have tasks : ∀ u ∈ (requeueTaskForRetry taskID attemptID retryAfter db).2.tasks,
      ¬ requeueMatches (requeueTaskForRetry taskID attemptID retryAfter db).2 taskID attemptID u := by
    refine forall_update (fun u _ _ hu => ?_) fun u _ hn hu => ?_
    · -- a task just requeued is ready
      rcases hu.2.1 with hs | hs <;> cases hs
    · exact hn ⟨hu.1, hu.2.1, isLatestAttempt_congr rfl hu.2.2⟩
  generalize (requeueTaskForRetry taskID attemptID retryAfter db).2 = db' at *
  simp only [requeueTaskForRetry, DB.updateTasks]
  rw [update_eq_self fun u hu hp => absurd hp (tasks u hu)]

def Parked (db : DB) (jobID : ID) (reason : String) : Prop :=
  ∀ j ∈ db.jobs, j.id = jobID → j.status.IsTerminal ∨ (j.status = .paused ∧ j.parkReason = reason)

lemma parkJob_parked (jobID : ID) (reason : String) (db : DB) :
    Parked (parkJob jobID reason db).2 jobID reason := by
  exact forall_update (fun _ _ _ _ => .inr ⟨rfl, rfl⟩) fun _ _ hn e =>
    .inl (by_contra fun ht => hn ⟨e, ht⟩)

lemma Parked.parkJob (h : Parked db jobID reason) : (parkJob jobID reason db).2 = db := by
  simp only [Sqi.parkJob, DB.updateJobs]
  rw [update_eq_self fun j hj hp => ?_]
  obtain ⟨hs, hr⟩ := (h j hj hp.1).resolve_left hp.2
  rw [← hs, ← hr]

lemma Parked.within (h : Parked db jobID reason) (w : Within touched db db') : Parked db' jobID reason := by
  intro j' hj' e
  obtain ⟨j, hj, hk⟩ := of_mem_right w.jobs hj'
  have hfixed := hk.1
  simp only [Job.fixed, Prod.mk.injEq] at hfixed
  rcases h j hj (hfixed.1.symm.trans e) with ht | ⟨hs, hr⟩
  · exact .inl (hk.of_terminal ht ▸ ht)
  rcases hk.2 with rfl | ⟨_, ht | hb⟩
  · exact .inr ⟨hs, hr⟩
  · exact .inl ht
  · rw [hs] at hb
    cases hb

lemma terminal_sameReport (wf : WF db) (shut : Shut db m.attemptID) (ht : t ∈ db.tasks)
    (hid : t.id = m.taskID) (now : Time) (outcome : Outcome) (at_ : Time) :
    SameReport m.taskID db (handleTaskTerminal now m outcome at_ db).2 ∧
      WF (handleTaskTerminal now m outcome at_ db).2 ∧ ∀ jobID reason, Parked db jobID reason →
        Parked (handleTaskTerminal now m outcome at_ db).2 jobID reason := by
  have hclose := Shut.closeAttemptAndRelease (c := m.completion outcome at_) shut now
  rcases terminal_cases wf ht hid now outcome at_ with
    ⟨_, heq⟩ | ⟨_, db1, wf1, hdb1, hd, heq⟩
  · rw [heq, hclose]
    exact ⟨.refl db, wf, fun _ _ h => h⟩
  rw [heq]
  rw [hclose] at hdb1
  have same1 : SameReport m.taskID db db1 := hdb1 ▸ SameReport.updateTasks wf (fun _ => rfl) fun _ => rfl
  have hfind := wf1.task?_eq hd.task
  rw [hd.id] at hfind
  obtain ⟨s, hs, es, ej⟩ := wf1.task_step _ hd.task
  change s.id = t.stepID at es
  change s.jobID = t.jobID at ej
  rw [← es, ← ej]
  have within := stepCompletion_within wf1 hs now
  refine ⟨same1.trans (within.sameReport wf1 hfind outcome.taskStatus_ne_pending), within.wf wf1, ?_⟩
  intro jobID reason h
  have h1 : Parked db1 jobID reason := by
    rw [hdb1]
    exact h
  exact h1.within within

/-- The job's failures have reached its limit. -/
abbrev RetryPolicy.parks (policy : RetryPolicy) (failed : Nat) : Prop :=
  0 < policy.failureLimit ∧ policy.failureLimit ≤ (failed : Int)

lemma settleFailure_final {policy : RetryPolicy} (hjob : ∃ j ∈ db.jobs, j.id = jobID)
    (hret : ¬ (¬ policy.parks r.jobFailed ∧
    (r.taskFailed : Int) < policy.maxAttempts))
    (hdb1 : db1 = if policy.parks r.jobFailed
    then (parkJob jobID (parkedReason policy.failureLimit) db).2 else db) (now at_ : Time) :
    settleFailure now m jobID policy r at_ db = handleTaskTerminal now m .failed at_ db1 := by
  rw [settleFailure, if_neg hret]
  by_cases hlim : policy.parks r.jobFailed
  · rw [if_pos hlim] at hdb1 ⊢
    obtain ⟨j, hj, e⟩ := hjob
    have hex : jobExists db jobID = .ok () := by
      have hsome : (db.job? jobID).isSome := List.find?_isSome.mpr ⟨j, hj, by simpa using e⟩
      obtain ⟨j', hj'⟩ := isSome_iff_exists.mp hsome
      simp only [jobExists, hj']
    have hpark : parkJob jobID (parkedReason policy.failureLimit) db = (.ok (), db1) := Prod.ext hex hdb1.symm
    exact tx_bind_ok hpark
  · rw [if_neg hlim] at hdb1 ⊢
    rw [hdb1]

lemma settleFailure_again (wf : WF db) (shut : Shut db m.attemptID) (ht : t ∈ db.tasks)
    (hid : t.id = m.taskID) (hjob : ∃ j ∈ db.jobs, j.id = jobID) (policy : RetryPolicy)
    (r : FailureRecord) (now at_ : Time) :
    SameReport m.taskID db (settleFailure now m jobID policy r at_ db).2 ∧
    ∀ r' : FailureRecord, r'.taskFailed = r.taskFailed → r'.jobFailed = r.jobFailed → ∀ now' at',
    (settleFailure now' m jobID policy r' at' (settleFailure now m jobID policy r at_ db).2).2 =
    (settleFailure now m jobID policy r at_ db).2 := by
  by_cases hret : ¬ policy.parks r.jobFailed ∧ (r.taskFailed : Int) < policy.maxAttempts
  · have run : ∀ (d : DB) (r' : FailureRecord) (n a : Time), r'.taskFailed = r.taskFailed →
        r'.jobFailed = r.jobFailed → (settleFailure n m jobID policy r' a d).2 =
          (requeueTaskForRetry m.taskID m.attemptID (a + policy.retryDelay.toNat) d).2 := by
      intro d r' n a et ej
      rw [← et, ← ej] at hret
      rw [settleFailure, if_pos hret]
      rfl
    rw [run db r now at_ rfl rfl]
    refine ⟨.updateTasks wf (fun _ => rfl) fun _ => rfl, fun r' et ej now' at' => ?_⟩
    rw [run _ r' now' at' et ej]
    exact requeue_again ..
  · obtain ⟨db1, hdb1⟩ : ∃ d, d = if policy.parks r.jobFailed
      then (parkJob jobID (parkedReason policy.failureLimit) db).2 else db := ⟨_, rfl⟩
    rw [settleFailure_final hjob hret hdb1 now at_]
    -- the job row is the only one parking writes
    have hpark : SameReport m.taskID db db1 ∧ WF db1 ∧ db1.tasks = db.tasks ∧ db1.steps = db.steps ∧
        (policy.parks r.jobFailed → Parked db1 jobID (parkedReason policy.failureLimit)) := by
      split at hdb1
      · rw [hdb1]
        exact ⟨.updateJobs wf (fun _ => rfl) fun _ => rfl, wf.of_sameKeys (.updateJobs fun _ => rfl), rfl,
          rfl, fun _ => parkJob_parked _ _ db⟩
      · rename_i hlim
        rw [hdb1]
        exact ⟨.refl db, wf, rfl, rfl, fun h => absurd h hlim⟩
    obtain ⟨same1, wf1, htasks, _, hparked⟩ := hpark
    have ht1 : t ∈ db1.tasks := htasks ▸ ht
    have shut1 : Shut db1 m.attemptID := shut.congr same1.attempts same1.claims
    obtain ⟨same2, wf2, hkeep⟩ := terminal_sameReport wf1 shut1 ht1 hid now .failed at_
    have hagain := terminal_again wf1 ht1 hid now
    refine ⟨same1.trans same2, fun r' et ej now' at' => ?_⟩
    have hjob2 : ∃ j ∈ (handleTaskTerminal now m .failed at_ db1).2.jobs, j.id = jobID := by
      obtain ⟨j, hj, e⟩ := hjob
      obtain ⟨j', hj', _⟩ := (same1.trans same2).job jobID j (e ▸ wf.job?_eq hj)
      exact ⟨j', DB.job?_some hj'⟩
    rw [← et, ← ej] at hret
    rw [← ej] at hparked
    rw [settleFailure_final hjob2 hret rfl now' at']
    have hsame : (if policy.parks r'.jobFailed then
        (parkJob jobID (parkedReason policy.failureLimit) (handleTaskTerminal now m .failed at_ db1).2).2
        else (handleTaskTerminal now m .failed at_ db1).2) = (handleTaskTerminal now m .failed at_ db1).2 := by
      split
      · rename_i hlim
        exact (hkeep _ _ (hparked hlim)).parkJob
      · rfl
    rw [hsame]
    exact hagain now' .failed at_ at'

lemma taskFailed_eq (defaults : RetryPolicy) {now at_ : Time} {q : Queue} {f : Farm}
    (hmsg : m.message ≠ messageWorkerShutdown)
    (ht : db.task? m.taskID = some t) (hj : db.job? t.jobID = some j)
    (hq : db.queue? j.queueID = some q) (hf : db.farm? j.farmID = some f)
    (hrec : recordTaskFailure m.attemptID m.taskID m.exitCode m.sessionID m.message at_ now db =
    (.ok r, db1)) :
    (handleTaskFailed defaults now m at_ db).2 =
    if r.firstClose = true ∨ failureReportStillCurrent db1 m.taskID m.attemptID then
    (settleFailure now m t.jobID (resolveRetryPolicy j q f defaults) r at_ db1).2
    else db1 := by
  rw [handleTaskFailed, if_neg hmsg, bind_ok (fetch_some ht), bind_ok (fetch_some hj),
    bind_ok (fetch_some hq), bind_ok (fetch_some hf), tx_bind_ok hrec, read_bind]
  by_cases hc : r.firstClose = true ∨ failureReportStillCurrent db1 m.taskID m.attemptID
  · rw [if_pos hc, if_pos (decide_eq_true hc)]
  · rw [if_neg hc, if_neg (by simpa using hc)]
    rfl

lemma taskFailed_missing {defaults : RetryPolicy} {now at_ : Time}
    (hmsg : m.message ≠ messageWorkerShutdown) (ht : db.task? m.taskID = some t)
    (hj : db.job? t.jobID = some j) (h : db.queue? j.queueID = none ∨ db.farm? j.farmID = none) :
    (handleTaskFailed defaults now m at_ db).2 = db := by
  rw [handleTaskFailed, if_neg hmsg, bind_ok (fetch_some ht), bind_ok (fetch_some hj)]
  cases hq : db.queue? j.queueID with
  | none => rw [bind_error (fetch_none hq)]
  | some q =>
    have hf := h.resolve_left (by simp [hq])
    rw [bind_ok (fetch_some hq), bind_error (fetch_none hf)]

lemma recordFailure_known (wf : WF db) (inv : AttemptInv db)
    (ha : a ∈ db.attempts) (ht : t ∈ db.tasks) (et : a.taskID = t.id) (hj : j ∈ db.jobs)
    (ej : j.id = t.jobID) (exitCode : Option Int) (sessionID message : String) (at_ now : Time) :
    (Shut db a.id ∧ recordTaskFailure a.id t.id exitCode sessionID message at_ now db =
    (.ok ⟨t.failedAttempts, j.failedAttempts, false⟩, db)) ∨
    ∃ db1, recordTaskFailure a.id t.id exitCode sessionID message at_ now db =
    (.ok ⟨t.failedAttempts + 1, j.failedAttempts + 1, true⟩, db1) ∧ WF db1 ∧ Shut db1 a.id ∧
    failureReportStillCurrent db1 t.id a.id ∧ db1.queues = db.queues ∧ db1.farms = db.farms ∧
    db1.task? t.id = some { t with failedAttempts := t.failedAttempts + 1 } ∧
      db1.job? t.jobID = some { j with failedAttempts := j.failedAttempts + 1 } := by
  have hfind := wf.task?_eq ht
  have hjob : db.job? t.jobID = some j := ej ▸ wf.job?_eq hj
  by_cases hrun : a.status = .running
  swap
  · have shut : Shut db a.id := inv.shut fun b hb e hr => by
      rw [wf.attempts_keyed.eq_of_mem hb ha e] at hr
      exact hrun hr
    exact .inl ⟨shut, recordFailure_shut shut hfind hjob ..⟩
  have hex : ∃ b ∈ db.attempts, b.id = a.id ∧ b.status = .running := ⟨a, ha, rfl, hrun⟩
  have hkeys : SameKeys db (recordTaskFailure a.id t.id exitCode sessionID message at_ now db).2 :=
    (recordFailure_levels ..).2
  have heq : recordTaskFailure a.id t.id exitCode sessionID message at_ now db =
      (.ok ⟨t.failedAttempts + 1, j.failedAttempts + 1, true⟩,
        sqlIncrementJobFailure t.jobID (sqlRecordTaskFailure t.id (sqlReleaseAttemptClaims now a.id
          (sqlCloseAttemptAsFailed a.id exitCode sessionID message at_ db)))) := by
    simp only [recordTaskFailure, hfind, hjob, if_pos hex]
  rw [heq] at hkeys
  have wf1 := wf.of_sameKeys hkeys
  refine .inr ⟨_, heq, wf1, ⟨?_, ?_⟩, ⟨?_, ?_⟩, rfl, rfl, ?_, ?_⟩
  · exact forall_update (fun _ _ _ _ => by simp) fun _ _ hn e hr => hn ⟨e, hr⟩
  · exact releaseClaims_released now _
  · exact ⟨_, mem_update.mpr ⟨a, ha, rfl⟩, by rw [if_pos ⟨rfl, hrun⟩]; exact ⟨rfl, rfl⟩⟩
  · obtain ⟨a', ha', hk⟩ := hkeys.attempt ha
    refine ⟨a', ha', hk.1, hk.2.1.trans et, ?_⟩
    rw [hk.2.2.2, maxAttemptNumber_congr hkeys.attempts, inv.running_latest a ha hrun, et]
  · exact wf1.task?_eq (mem_update.mpr ⟨t, ht, if_pos rfl⟩)
  · exact ej ▸ wf1.job?_eq (mem_update.mpr ⟨j, hj, if_pos ej⟩)

lemma reclaim_again (wf : WF db) (ht : t ∈ db.tasks) (attemptID : ID) (now now' : Time) :
    (reclaimTaskAttempt attemptID t.id now' (reclaimTaskAttempt attemptID t.id now db).2).2 =
      (reclaimTaskAttempt attemptID t.id now db).2 := by
  by_cases hl : liveAttempt db attemptID t
  swap
  · have dead : ∀ n, reclaimTaskAttempt attemptID t.id n db = (.ok false, db) := fun n => by
      simp [reclaimTaskAttempt, wf.task?_eq ht, hl]
    rw [dead now, dead now']
  have heq : reclaimTaskAttempt attemptID t.id now db = (.ok true,
      closeTasksAttempts [t.id] .failed failureReasonWorkerShutdown now (sqlReclaimOneTask t.id db)) := by
    simp [reclaimTaskAttempt, wf.task?_eq ht, hl]
  have wf' : WF (reclaimTaskAttempt attemptID t.id now db).2 := Op.wf (.reclaimTaskAttempt attemptID t.id now) wf
  rw [heq] at wf' ⊢
  dsimp only at wf' ⊢
  -- no attempt of the task runs any more
  have closed : ∀ b ∈ (closeTasksAttempts [t.id] .failed failureReasonWorkerShutdown now
      (sqlReclaimOneTask t.id db)).attempts, b.taskID = t.id → b.status ≠ .running := by
    rw [closeTasksAttempts, if_neg (by simp)]
    exact forall_update (fun _ _ _ _ => by simp) fun _ _ hn e hr => hn ⟨hr, by simp [e]⟩
  have hrow : reclaimTask t ∈ (closeTasksAttempts [t.id] .failed failureReasonWorkerShutdown now
      (sqlReclaimOneTask t.id db)).tasks := by
    rw [closeTasksAttempts, if_neg (by simp)]
    exact mem_update.mpr ⟨t, ht, if_pos ⟨rfl, hl.1⟩⟩
  have hfind := wf'.task?_eq hrow
  generalize closeTasksAttempts [t.id] .failed failureReasonWorkerShutdown now
    (sqlReclaimOneTask t.id db) = db' at *
  have hdead : ¬ liveAttempt db' attemptID (reclaimTask t) := by
    rintro ⟨_, b, hb, _, e, hr, _⟩
    exact closed b hb e hr
  change db'.task? t.id = some (reclaimTask t) at hfind
  simp [reclaimTaskAttempt, hfind, hdead]

lemma taskFailed_again (wf : WF db) (inv : AttemptInv db)
    (ha : a ∈ db.attempts) (ea : a.id = m.attemptID) (ht : t ∈ db.tasks) (hid : t.id = m.taskID)
    (et : a.taskID = t.id) (defaults : RetryPolicy) (now now' at_ at' : Time) :
    (handleTaskFailed defaults now' m at' (handleTaskFailed defaults now m at_ db).2).2 =
    (handleTaskFailed defaults now m at_ db).2 := by
  by_cases hmsg : m.message = messageWorkerShutdown
  · have run : ∀ (d : DB) n x, (handleTaskFailed defaults n m x d).2 =
        (reclaimTaskAttempt m.attemptID m.taskID n d).2 := by
      intro d n x
      rw [handleTaskFailed, if_pos hmsg]
      cases hr : reclaimTaskAttempt m.attemptID m.taskID n d with
      | mk r d' =>
        cases r with
        | ok b => exact congrArg Prod.snd (tx_bind_ok hr)
        | error e => exact congrArg Prod.snd (tx_bind_error hr)
    rw [run, run, ← hid]
    exact reclaim_again wf ht ..
  obtain ⟨j, hj, ej⟩ := wf.task_job ht
  have hfind : db.task? m.taskID = some t := hid ▸ wf.task?_eq ht
  have hjob : db.job? t.jobID = some j := ej ▸ wf.job?_eq hj
  by_cases hmiss : db.queue? j.queueID = none ∨ db.farm? j.farmID = none
  · rw [taskFailed_missing hmsg hfind hjob hmiss, taskFailed_missing hmsg hfind hjob hmiss]
  obtain ⟨q, hq⟩ := ne_none_iff_exists'.mp fun h => hmiss (.inl h)
  obtain ⟨f, hf⟩ := ne_none_iff_exists'.mp fun h => hmiss (.inr h)
  -- after the close both deliveries go on from the same record
  have second : ∀ (d : DB) (u : Task) (k : Job) (r : FailureRecord), WF d → Shut d m.attemptID →
      failureReportStillCurrent d m.taskID m.attemptID → d.queues = db.queues → d.farms = db.farms →
      d.task? m.taskID = some u → u.jobID = t.jobID → u.failedAttempts = r.taskFailed →
      d.job? t.jobID = some k → k.limits = (j.queueID, j.farmID, j.retry, r.jobFailed) →
      (handleTaskFailed defaults now' m at' (settleFailure now m t.jobID
        (resolveRetryPolicy j q f defaults) r at_ d).2).2 =
        (settleFailure now m t.jobID (resolveRetryPolicy j q f defaults) r at_ d).2 := by
    intro d u k r wfd shut current hqs hfs hu euj eut hk hlimits
    obtain ⟨hu', eu'⟩ := DB.task?_some hu
    obtain ⟨same, hagain⟩ := settleFailure_again wfd shut hu' eu' ⟨k, DB.job?_some hk⟩
      (resolveRetryPolicy j q f defaults) r now at_
    generalize (settleFailure now m t.jobID (resolveRetryPolicy j q f defaults) r at_ d).2 = d' at *
    obtain ⟨u', hu'', euj', eut'⟩ := same.task u hu
    obtain ⟨k', hk', hlimits'⟩ := same.job t.jobID k hk
    have hlim := hlimits'.trans hlimits
    simp only [Job.limits, Prod.mk.injEq] at hlim
    have hk'' : d'.job? u'.jobID = some k' := by rw [euj', euj, hk']
    have hq' : d'.queue? k'.queueID = some q := by
      rw [DB.queue?, same.queues, hqs, hlim.1]
      exact hq
    have hf' : d'.farm? k'.farmID = some f := by
      rw [DB.farm?, same.farms, hfs, hlim.2.1]
      exact hf
    have shut' := shut.congr same.attempts same.claims
    rw [taskFailed_eq defaults hmsg hu'' hk'' hq' hf' (recordFailure_shut shut' hu'' hk'' ..)]
    have current' : failureReportStillCurrent d' m.taskID m.attemptID := by
      obtain ⟨hfailed, hl⟩ := current
      rw [← same.attempts] at hfailed
      exact ⟨hfailed, isLatestAttempt_congr same.attempts hl⟩
    have hpolicy : resolveRetryPolicy k' q f defaults = resolveRetryPolicy j q f defaults := by
      simp only [resolveRetryPolicy, hlim.2.2.1]
    rw [if_pos (.inr current'), hpolicy, euj', euj]
    exact hagain _ (eut'.trans eut) hlim.2.2.2 now' at'
  rcases recordFailure_known wf inv ha ht et hj ej m.exitCode m.sessionID m.message at_ now with
    ⟨shut, hrec⟩ | ⟨db1, hrec, wf1, shut, current, hqs, hfs, hu, hk⟩
  · rw [ea] at shut
    rw [ea, hid] at hrec
    have honce := taskFailed_eq defaults hmsg hfind hjob hq hf hrec
    by_cases hc : failureReportStillCurrent db m.taskID m.attemptID
    · rw [if_pos (.inr hc)] at honce
      rw [honce]
      exact second db t j _ wf shut hc rfl rfl hfind rfl rfl hjob rfl
    have hnot : ¬ (false = true ∨ failureReportStillCurrent db m.taskID m.attemptID) := by simp [hc]
    rw [if_neg hnot] at honce
    rw [honce, taskFailed_eq defaults hmsg hfind hjob hq hf (recordFailure_shut shut hfind hjob ..), if_neg hnot]
  · rw [ea] at shut
    rw [ea, hid] at hrec current
    rw [hid] at hu
    have honce := taskFailed_eq defaults hmsg hfind hjob hq hf hrec
    rw [if_pos (.inl rfl)] at honce
    rw [honce]
    exact second db1 _ _ _ wf1 shut current hqs hfs hu rfl rfl hk rfl

end

/-! ## Any report -/

def TaskAttempt.withoutSnapshot (a : TaskAttempt) : TaskAttempt :=
  { a with progress := none, statusText := "", progressAt := none }
def DB.withoutSnapshots (db : DB) : DB := { db with attempts := db.attempts.map (·.withoutSnapshot) }

section
variable {db : DB} {m : TaskStatusMsg} {a : TaskAttempt}

lemma sqlProgress_withoutSnapshots (p : AttemptProgress) (db : DB) :
    (sqlRecordAttemptProgress p db).withoutSnapshots = db.withoutSnapshots := by
  have attempts : (sqlRecordAttemptProgress p db).attempts.map (·.withoutSnapshot) =
      db.attempts.map (·.withoutSnapshot) := map_update _ fun _ _ => rfl
  simp only [DB.withoutSnapshots, attempts]
  rfl

lemma taskStatus_cases (defaults : RetryPolicy) (w : ID) (m : TaskStatusMsg) (db : DB) :
    (∀ now, processTaskStatus defaults now w m db = (.ok (), db)) ∨
    (∃ a ∈ db.attempts, a.id = m.attemptID ∧ a.taskID = m.taskID ∧ a.workerID = w) ∧
      ∀ now, processTaskStatus defaults now w m db = handleTaskStatus defaults now m db := by
  simp only [processTaskStatus, read_bind]
  cases ha : db.attempt? m.attemptID with
  | none => exact .inl fun _ => rfl
  | some a =>
    dsimp only
    by_cases ht : a.taskID = m.taskID
    swap
    · exact .inl fun _ => by rw [if_pos ht]; rfl
    simp only [if_neg (not_not.mpr ht)]
    by_cases hw : w = a.workerID
    swap
    · exact .inl fun _ => by rw [if_pos hw]; rfl
    simp only [if_neg (not_not.mpr hw)]
    obtain ⟨hmem, e⟩ := DB.attempt?_some ha
    exact .inr ⟨⟨a, hmem, e, ht, hw.symm⟩, fun _ => trivial⟩

lemma handleTaskStatus_stale (wf : WF db) (inv : AttemptInv db) (ha : a ∈ db.attempts)
    (ea : a.id = m.attemptID) (et : a.taskID = m.taskID)
    (hl : ¬ isLatestAttempt db m.attemptID m.taskID) (defaults : RetryPolicy) (now : Time) :
    (handleTaskStatus defaults now m db).2 = db := by
  obtain ⟨t, ht, hid⟩ := wf.attempt_task a ha
  have hfind : db.task? m.taskID = some t := by
    rw [← et, ← hid]
    exact wf.task?_eq ht
  have shut : Shut db m.attemptID := ea ▸ inv.shut_of_not_latest wf ha (by rwa [ea, et])
  unfold handleTaskStatus
  cases hs : m.status with
  | running => exact handleTaskRunning_dead hfind (shut.not_live t) now
  | succeeded | canceled => exact terminal_stale shut hfind hl ..
  | unknown _ => rfl
  | failed =>
    dsimp only
    by_cases hmsg : m.message = messageWorkerShutdown
    · rw [handleTaskFailed, if_pos hmsg, tx_bind_ok (reclaim_shut shut hfind now)]
      rfl
    obtain ⟨j, hj, ej⟩ := wf.task_job ht
    have hjob : db.job? t.jobID = some j := ej ▸ wf.job?_eq hj
    by_cases hmiss : db.queue? j.queueID = none ∨ db.farm? j.farmID = none
    · exact taskFailed_missing hmsg hfind hjob hmiss
    obtain ⟨q, hq⟩ := ne_none_iff_exists'.mp fun h => hmiss (.inl h)
    obtain ⟨f, hf⟩ := ne_none_iff_exists'.mp fun h => hmiss (.inr h)
    rw [taskFailed_eq defaults hmsg hfind hjob hq hf (recordFailure_shut shut hfind hjob ..), if_neg]
    rintro (h | h)
    · cases h
    · exact hl h.2

lemma handleTaskStatus_again (wf : WF db) (inv : AttemptInv db) (ha : a ∈ db.attempts)
    (ea : a.id = m.attemptID) (et : a.taskID = m.taskID) (defaults : RetryPolicy) (now now' : Time) :
    (handleTaskStatus defaults now' m (handleTaskStatus defaults now m db).2).2 =
    (handleTaskStatus defaults now m db).2 ∨
    ((m.status = .running ∧ (m.lastProgress ≠ none ∨ m.message ≠ "") ∧ m.at_ = none) ∧
    (handleTaskStatus defaults now' m (handleTaskStatus defaults now m db).2).2 =
    sqlRecordAttemptProgress (snapshotProgress now' m) (handleTaskStatus defaults now m db).2) := by
  obtain ⟨t, ht, hid⟩ := wf.attempt_task a ha
  have hid' : t.id = m.taskID := hid.trans et
  unfold handleTaskStatus
  cases hs : m.status with
  | running =>
    refine (handleTaskRunning_again wf ht hid' now now').imp_right fun ⟨⟨hsnap, hlt⟩, heq⟩ => ⟨⟨rfl, hsnap, ?_⟩, heq⟩
    -- a message with a time of its own has the same one both times
    by_contra hat
    obtain ⟨x, hx⟩ := ne_none_iff_exists'.mp hat
    simp only [TaskStatusMsg.reportedAt, hx, getD_some] at hlt
    exact Nat.lt_irrefl _ hlt
  | succeeded | canceled => exact .inl (terminal_again wf ht hid' ..)
  | failed => exact .inl (taskFailed_again wf inv ha ea ht hid' hid.symm ..)
  | unknown _ => exact .inl rfl

/-- A stale or foreign report changes nothing, and neither does a second delivery. -/
theorem taskStatus_inert_and_idempotent {h : History} (run : StoreRun h db) (defaults : RetryPolicy)
    (w : ID) (m : TaskStatusMsg) :
    ((¬ isLatestAttempt db m.attemptID m.taskID ∨ ∀ a ∈ db.attempts, a.id = m.attemptID → a.workerID ≠ w) →
      ∀ now, (processTaskStatus defaults now w m db).2 = db) ∧
    ∀ now now', ((m.status = .running → (m.lastProgress ≠ none ∨ m.message ≠ "") → m.at_ ≠ none) →
        (processTaskStatus defaults now' w m (processTaskStatus defaults now w m db).2).2 =
          (processTaskStatus defaults now w m db).2) ∧
      (processTaskStatus defaults now' w m (processTaskStatus defaults now w m db).2).2.withoutSnapshots =
        (processTaskStatus defaults now w m db).2.withoutSnapshots := by
  have wf := wf_run run
  have inv := attemptInv_run run
  constructor
  · intro hstale now
    rcases taskStatus_cases defaults w m db with heq | ⟨⟨a, ha, ea, et, ew⟩, heq⟩
    · rw [heq]
    rw [heq]
    rcases hstale with hl | hforeign
    · exact handleTaskStatus_stale wf inv ha ea et hl defaults now
    · exact absurd ew (hforeign a ha ea)
  intro now now'
  rcases taskStatus_cases defaults w m db with heq | ⟨⟨a, ha, ea, et, _⟩, heq⟩
  · rw [heq, heq]
    exact ⟨fun _ => rfl, rfl⟩
  rw [heq]
  rcases taskStatus_cases defaults w m (handleTaskStatus defaults now m db).2 with heq' | ⟨_, heq'⟩
  · rw [heq']
    exact ⟨fun _ => rfl, rfl⟩
  rw [heq']
  rcases handleTaskStatus_again wf inv ha ea et defaults now now' with htwice | ⟨⟨hs, hsnap, hat⟩, htwice⟩
  · exact ⟨fun _ => htwice, by rw [htwice]⟩
  · refine ⟨fun hstamped => absurd hat (hstamped hs hsnap), ?_⟩
    rw [htwice, sqlProgress_withoutSnapshots]

end

def smallStart : List Op := smallSetup ++ [smallLease 100 1000, .startTaskAttempt 1000 100 "s"]

lemma smallStart_run : StoreRun (storeSystem.exec smallStart [] DB.empty).1
    (storeSystem.exec smallStart [] DB.empty).2 :=
  Run.start.exec (smallSetup_permits _ ⟨trivial, trivial, trivial⟩)

def smallSnapshot (at_ : Option Time) : TaskStatusMsg :=
  ⟨100, 1000, .running, none, "s", at_, some 5, ""⟩

theorem taskStatus_inert_and_idempotent_smallStart :
    (processTaskStatus ⟨1, 0, 0⟩ 80 5 (smallSnapshot (some 65)) (processTaskStatus ⟨1, 0, 0⟩ 70 5
      (smallSnapshot (some 65)) (storeSystem.exec smallStart [] DB.empty).2).2).2 =
    (processTaskStatus ⟨1, 0, 0⟩ 70 5 (smallSnapshot (some 65))
      (storeSystem.exec smallStart [] DB.empty).2).2 :=
  ((taskStatus_inert_and_idempotent smallStart_run ⟨1, 0, 0⟩ 5 (smallSnapshot (some 65))).2 70 80).1
    (by decide)

/-- Without a time of its own the second delivery is a new snapshot. -/
theorem unstamped_snapshot_moves : ∃ h db, StoreRun h db ∧
    (processTaskStatus ⟨1, 0, 0⟩ 80 5 (smallSnapshot none)
      (processTaskStatus ⟨1, 0, 0⟩ 70 5 (smallSnapshot none) db).2).2.attempts ≠
    (processTaskStatus ⟨1, 0, 0⟩ 70 5 (smallSnapshot none) db).2.attempts :=
  ⟨_, _, smallStart_run, by decide +kernel⟩

end Sqi

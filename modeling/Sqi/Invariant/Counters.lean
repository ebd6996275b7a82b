import Sqi.Invariant.Attempts

/-! The failure counters of tasks and jobs over every interleaving. -/

namespace Sqi
open List Table Transition

lemma recordFailure_cases (attemptID taskID : ID) (exitCode : Option Int)
    (sessionID message : String) (at_ now : Time) (db : DB) :
    let r := recordTaskFailure attemptID taskID exitCode sessionID message at_ now db
    let closed := sqlReleaseAttemptClaims now attemptID
      (sqlCloseAttemptAsFailed attemptID exitCode sessionID message at_ db)
    (((db.task? taskID = none ∨ ∃ t, db.task? taskID = some t ∧ db.job? t.jobID = none) ∧
        r.1 = .error .notFound ∧ r.2 = db) ∨
      ∃ t j, db.task? taskID = some t ∧ db.job? t.jobID = some j ∧
        (((∃ a ∈ db.attempts, a.id = attemptID ∧ a.status = .running) ∧
            r.1 = .ok ⟨t.failedAttempts + 1, j.failedAttempts + 1, true⟩ ∧
            r.2 = sqlIncrementJobFailure t.jobID (sqlRecordTaskFailure taskID closed)) ∨
          ((∀ a ∈ db.attempts, a.id = attemptID → a.status ≠ .running) ∧
            r.1 = .ok ⟨t.failedAttempts, j.failedAttempts, false⟩ ∧ r.2 = closed))) := by
  intro r closed
  unfold r recordTaskFailure
  split
  · rename_i ht
    exact .inl ⟨.inl ht, rfl, rfl⟩
  rename_i t ht
  split
  · rename_i hj
    exact .inl ⟨.inr ⟨t, ht, hj⟩, rfl, rfl⟩
  rename_i j hj
  refine .inr ⟨t, j, ht, hj, ?_⟩
  dsimp only
  split
  · rename_i hrun
    exact .inl ⟨hrun, rfl, rfl⟩
  · rename_i hrun
    exact .inr ⟨fun a ha e hr => hrun ⟨a, ha, e, hr⟩, rfl, rfl⟩

/-! ## Transactions that count nothing -/

structure NoRise (db db' : DB) : Prop where
  tasks : ∀ t ∈ db.tasks, ∀ t' ∈ db'.tasks, t'.id = t.id → t'.failedAttempts ≤ t.failedAttempts
  jobs : ∀ j ∈ db.jobs, ∀ j' ∈ db'.jobs, j'.id = j.id → j'.failedAttempts ≤ j.failedAttempts

def Task.NoRise (t t' : Task) : Prop := t'.id = t.id ∧ t'.failedAttempts ≤ t.failedAttempts
def Job.NoRise (j j' : Job) : Prop := j'.id = j.id ∧ j'.failedAttempts ≤ j.failedAttempts

namespace NoRise
variable {db db' : DB}

lemma of_rows (wf : WF db) (ht : Forall₂ Task.NoRise db.tasks db'.tasks)
    (hj : Forall₂ Job.NoRise db.jobs db'.jobs) : NoRise db db' where
  tasks := by
    intro t ht1 t' ht' e
    obtain ⟨t0, ht0, e0, hle⟩ := of_mem_right ht ht'
    have : t0 = t := wf.tasks_keyed.eq_of_mem ht0 ht1 (e0.symm.trans e)
    exact this ▸ hle
  jobs := by
    intro j hj1 j' hj' e
    obtain ⟨j0, hj0, e0, hle⟩ := of_mem_right hj hj'
    have : j0 = j := wf.jobs_keyed.eq_of_mem hj0 hj1 (e0.symm.trans e)
    exact this ▸ hle

lemma of_counters (wf : WF db) (ht : db'.tasks.map Task.counter = db.tasks.map Task.counter)
    (hj : db'.jobs.map Job.counter = db.jobs.map Job.counter) : NoRise db db' where
  tasks := by
    intro t ht1 t' ht' e
    obtain ⟨t0, ht0, hc⟩ := exists_key_of_mem ht.symm ht'
    obtain ⟨e0, hc⟩ := Prod.mk.inj hc
    have : t0 = t := wf.tasks_keyed.eq_of_mem ht0 ht1 (e0.trans e)
    exact (this ▸ hc).ge
  jobs := by
    intro j hj1 j' hj' e
    obtain ⟨j0, hj0, hc⟩ := exists_key_of_mem hj.symm hj'
    obtain ⟨e0, hc⟩ := Prod.mk.inj hc
    have : j0 = j := wf.jobs_keyed.eq_of_mem hj0 hj1 (e0.trans e)
    exact (this ▸ hc).ge

end NoRise
section
variable {db : DB}

lemma leaseTask_noRise (wf : WF db) (req : LeaseRequest) : NoRise db (leaseTask req db).2 :=
  leaseTask_of (.of_counters wf rfl rfl) fun _ _ _ => .of_counters wf (map_update _ fun _ _ => rfl) rfl
lemma JobRows.noRise {db' : DB} (wf : WF db) (h : JobRows db db') : NoRise db db' :=
  .of_rows wf (h.tasks ▸ forall₂_refl (fun _ => ⟨rfl, le_rfl⟩) _)
    (h.jobs.imp fun _ _ s => ⟨s.1, s.2.1⟩)

lemma submission_noRise (wf : WF db) (sub : JobSubmission) :
    NoRise db (createJobSubmission sub db).2 := by
  refine submission_of (.of_counters wf rfl rfl) fun hjob hrows => ?_
  constructor
  · intro t ht t' ht' e
    have : t' = t := inj_on_of_nodup_map hrows.2.2 ht' (mem_append_left _ ht) e
    rw [this]
  intro j hj j' hj' e
  rcases mem_append.mp hj' with hj' | hj'
  · rw [wf.jobs_keyed.eq_of_mem hj' hj e]
  · rw [mem_singleton.mp hj'] at e
    exact absurd e.symm (hjob.1 j hj)

end

def Op.FailureReport (attemptID : ID) (op : Op) : Prop :=
  ∃ taskID exitCode sessionID message at_ now,
    op = .recordTaskFailure attemptID taskID exitCode sessionID message at_ now

lemma Op.noRise {op : Op} (hf : ∀ attemptID, ¬ op.FailureReport attemptID) {db : DB} (wf : WF db) :
    NoRise db (op.apply db) := by
  by_cases ht : op.Tallies
  · cases op with
    | leaseTask req => exact leaseTask_noRise wf req
    | recordTaskFailure => exact absurd ⟨_, _, _, _, _, _, rfl⟩ (hf _)
    | _ => exact ht.elim
  by_cases hw : op.WorkerSide
  · have work := Op.workSide hw ht db
    exact .of_counters wf work.taskCounters work.jobCounters
  by_cases hj : op.OnJobRow
  · exact (Op.jobRows hj db).noRise wf
  have same : NoRise db db := .of_counters wf rfl rfl
  cases op with
  | submit => exact submission_noRise wf _
  | cancelJobExecution => exact .of_counters wf (map_update _ fun _ _ => rfl) (map_update _ fun _ _ => rfl)
  | retryTasks =>
    -- a retry only resets
    exact retryTasks_of same fun _ =>
      .of_rows wf (forall₂_update (fun _ => ⟨rfl, le_rfl⟩) fun _ _ => ⟨rfl, Nat.zero_le _⟩)
        (forall₂_update (fun _ => ⟨rfl, le_rfl⟩) fun _ _ => ⟨rfl, Nat.zero_le _⟩)
  | finalizeStep => exact finalizeStep_of same (.of_counters wf rfl rfl)
  | finalizeJob => exact finalizeJob_of same (.of_counters wf rfl (map_update _ fun _ _ => rfl))
  | releaseStep | cancelPendingStep =>
    exact moveStep_of same fun _ _ _ => .of_counters wf (map_update _ fun _ _ => rfl) rfl
  | cancelBlockedJob =>
    exact cancelBlocked_of same fun _ _ _ =>
      .of_counters wf (map_update _ fun _ _ => rfl) (map_update _ fun _ _ => rfl)
  | _ => first | exact absurd trivial hw | exact absurd trivial hj

/-! ## Every run -/

def CounterRises (e : DB × Op) : Prop := ¬ NoRise e.1 (e.2.apply e.1)
def ClosesAttempt (attemptID : ID) (e : DB × Op) : Prop :=
  (∃ a ∈ e.1.attempts, a.id = attemptID ∧ a.status = .running) ∧
    ∀ a ∈ (e.2.apply e.1).attempts, a.id = attemptID → a.status ≠ .running
def CountedFor (attemptID : ID) (e : DB × Op) : Prop := e.2.FailureReport attemptID ∧ CounterRises e

def CountsOnce (a : TaskAttempt) (db db' : DB) : Prop :=
  ∃ t ∈ db.tasks, t.id = a.taskID ∧ (∃ j ∈ db.jobs, j.id = t.jobID) ∧ db'.tasks.map Task.counter =
      db.tasks.map (fun u => (u.id, u.failedAttempts + if u.id = t.id then 1 else 0)) ∧
    db'.jobs.map Job.counter =
      db.jobs.map (fun j => (j.id, j.failedAttempts + if j.id = t.jobID then 1 else 0))

lemma CountsOnce.rises {a : TaskAttempt} {db db' : DB} (h : CountsOnce a db db') : ¬ NoRise db db' := by
  obtain ⟨t, ht, _, _, htasks, _⟩ := h
  intro hn
  have hmem : (t.id, t.failedAttempts + 1) ∈ db'.tasks.map Task.counter := by
    rw [htasks]
    exact mem_map.mpr ⟨t, ht, by simp⟩
  obtain ⟨t', ht', hc⟩ := mem_map.mp hmem
  obtain ⟨e, hc⟩ := Prod.mk.inj hc
  have := hn.tasks t ht t' ht' e
  omega

section
variable {h : History} {db : DB} {attemptID taskID : ID} {exitCode : Option Int}
  {sessionID message : String} {at_ now : Time}

lemma recordFailure_noRise_of_closed (wf : WF db)
    (hc : ∀ a ∈ db.attempts, a.id = attemptID → a.status ≠ .running) :
    NoRise db (recordTaskFailure attemptID taskID exitCode sessionID message at_ now db).2 := by
  rcases recordFailure_cases attemptID taskID exitCode sessionID message at_ now db with
    ⟨_, _, e⟩ | ⟨t, j, _, _, ⟨⟨a, ha, hid, hr⟩, _⟩ | ⟨_, _, e⟩⟩
  · rw [e]
    exact .of_counters wf rfl rfl
  · exact absurd hr (hc a ha hid)
  · rw [e]
    exact .of_counters wf rfl rfl

lemma recordFailure_counts (exitCode : Option Int) (sessionID message : String)
    (at_ now : Time) (wf : WF db) {a : TaskAttempt} (ha : a ∈ db.attempts)
    (hid : a.id = attemptID) (htask : a.taskID = taskID) (hr : a.status = .running) :
    CountsOnce a db (recordTaskFailure attemptID taskID exitCode sessionID message at_ now db).2 ∧
    ∀ b ∈ (recordTaskFailure attemptID taskID exitCode sessionID message at_ now db).2.attempts,
      b.id = attemptID → b.status ≠ .running := by
  obtain ⟨t, ht, et⟩ := wf.attempt_task a ha
  obtain ⟨j, hj, ej⟩ := wf.task_job ht
  have hid' : t.id = taskID := et.trans htask
  have htask? : db.task? taskID = some t := hid' ▸ wf.task?_eq ht
  have hjob? : db.job? t.jobID = some j := ej ▸ wf.job?_eq hj
  rcases recordFailure_cases attemptID taskID exitCode sessionID message at_ now db with
    ⟨hnone, _, _⟩ | ⟨t1, j1, ht1, _, ⟨_, hok, e⟩ | ⟨hc, _, _⟩⟩
  · simp [htask?, hjob?] at hnone
  · obtain rfl : t = t1 := by simpa [htask?] using ht1
    refine ⟨⟨t, ht, et, ⟨j, hj, ej⟩, ?_, ?_⟩, recordFailure_closed hok⟩
    · rw [e, ← hid']
      simp only [sqlIncrementJobFailure, sqlRecordTaskFailure, DB.updateJobs_tasks,
        DB.updateTasks_tasks, update, map_map]
      refine map_congr_left fun u _ => ?_
      by_cases h : u.id = t.id <;> simp [Task.counter, h]
    · rw [e]
      simp only [sqlIncrementJobFailure, DB.updateJobs_jobs, update, map_map]
      refine map_congr_left fun k _ => ?_
      by_cases h : k.id = t.jobID <;> simp [Job.counter, h]
  · exact absurd hr (hc a ha hid)

end

structure FailureAccounting (h : History) : Prop where
  /-- Nothing but a failure report raises a counter. -/
  rise_is_report : ∀ e ∈ h, CounterRises e → ∃ attemptID, e.2.FailureReport attemptID
  /-- A failure report counts exactly when it is what closes the attempt. -/
  counted_iff_closes : ∀ e ∈ h, ∀ attemptID, e.2.FailureReport attemptID →
    (CounterRises e ↔ ClosesAttempt attemptID e)
  both_together : ∀ e ∈ h, ∀ attemptID, CountedFor attemptID e →
    ∃ a ∈ e.1.attempts, a.id = attemptID ∧ CountsOnce a e.1 (e.2.apply e.1)
  at_most_once : ∀ attemptID,
    h.Pairwise fun later earlier => ¬ (CountedFor attemptID earlier ∧ CountedFor attemptID later)
  /-- The terminal half of a failure report finds the attempt closed by the other. -/
  completion_closes_none : ∀ e ∈ h, ∀ r now, e.2 = .completeTaskAttempt r now →
    r.outcome = .failed → ¬ ClosesAttempt r.attemptID e
  /-- Whatever closed the attempt first, no later report counts. -/
  never_after_close : ∀ attemptID,
    h.Pairwise fun later earlier => ClosesAttempt attemptID earlier → ¬ CountedFor attemptID later

section
variable {h : History} {db : DB} {op : Op} {attemptID : ID}

lemma failureReport_step (run : StoreRun h db) (he : op.enabled h db) (hop : op.FailureReport attemptID) :
    (CounterRises (db, op) ↔ ClosesAttempt attemptID (db, op)) ∧
    (CounterRises (db, op) →
    ∃ a ∈ db.attempts, a.id = attemptID ∧ CountsOnce a db (op.apply db)) := by
  have wf := wf_run run
  obtain ⟨taskID, exitCode, sessionID, message, at_, now, rfl⟩ := hop
  obtain ⟨a, ha, hid, htask⟩ := AttemptRead.now run he
  by_cases hr : a.status = .running
  · have counts := recordFailure_counts exitCode sessionID message at_ now wf ha hid htask hr
    exact ⟨⟨fun _ => ⟨⟨a, ha, hid, hr⟩, counts.2⟩, fun _ => counts.1.rises⟩, fun _ => ⟨a, ha, hid, counts.1⟩⟩
  have hclosed : ∀ b ∈ db.attempts, b.id = attemptID → b.status ≠ .running := by
    intro b hb e
    rwa [wf.attempts_keyed.eq_of_mem hb ha (e.trans hid.symm)]
  have still : ¬ CounterRises
      (db, .recordTaskFailure attemptID taskID exitCode sessionID message at_ now) :=
    not_not.mpr (recordFailure_noRise_of_closed wf hclosed)
  refine ⟨⟨fun hc => absurd hc still, ?_⟩, fun hc => absurd hc still⟩
  rintro ⟨⟨b, hb, e, hrb⟩, _⟩
  exact absurd hrb (hclosed b hb e)

lemma attemptClosed_of_closesAttempt (hc : ClosesAttempt attemptID (db, op)) :
    AttemptClosed attemptID (op.apply db) := by
  obtain ⟨⟨a, ha, e, _⟩, hall⟩ := hc
  obtain ⟨a', ha', e', _⟩ := Op.attempt_stays op ⟨a, ha, e, rfl⟩
  exact ⟨⟨a', ha', e'⟩, hall⟩

end

lemma closesAttempt_run {h : History} {db : DB} (run : StoreRun h db) (attemptID : ID) :
    (∀ e ∈ h, ClosesAttempt attemptID e → AttemptClosed attemptID db) ∧
    h.Pairwise fun later earlier => ClosesAttempt attemptID earlier → ¬ ClosesAttempt attemptID later := by
  refine run.invariant (P := fun h db => (∀ e ∈ h, ClosesAttempt attemptID e →
    AttemptClosed attemptID db) ∧ h.Pairwise fun later earlier =>
      ClosesAttempt attemptID earlier → ¬ ClosesAttempt attemptID later) ⟨by simp, .nil⟩ ?_
  intro h db op run ⟨hclosed, hpair⟩ he
  obtain ⟨inv, hrec⟩ := attempt_run run
  refine ⟨?_, .cons ?_ hpair⟩
  · intro e hmem hc
    rcases mem_cons.mp hmem with rfl | hmem
    · exact attemptClosed_of_closesAttempt hc
    · exact Op.attemptClosed inv he hrec (hclosed e hmem hc)
  · intro e hmem hc hnew
    obtain ⟨⟨a, ha, hid, hr⟩, _⟩ := hnew
    exact (hclosed e hmem hc).2 a ha hid hr

/-- Exactly-once failure accounting, over every interleaving. -/
theorem failures_counted_once {h : History} {db : DB} (run : StoreRun h db) :
    FailureAccounting h := by
  have step : ∀ e ∈ h, ∀ attemptID, e.2.FailureReport attemptID →
      (CounterRises e ↔ ClosesAttempt attemptID e) ∧
      (CounterRises e → ∃ a ∈ e.1.attempts, a.id = attemptID ∧ CountsOnce a e.1 (e.2.apply e.1)) := by
    intro e hmem attemptID hop
    obtain ⟨h', run', he⟩ := run.at_entry hmem
    exact failureReport_step run' he hop
  have counted : ∀ e ∈ h, ∀ attemptID, CountedFor attemptID e → ClosesAttempt attemptID e :=
    fun e hmem attemptID hc => (step e hmem attemptID hc.1).1.mp hc.2
  have never : ∀ attemptID, h.Pairwise fun later earlier =>
      ClosesAttempt attemptID earlier → ¬ CountedFor attemptID later := fun attemptID =>
    (closesAttempt_run run attemptID).2.imp_of_mem
      fun hlater _ hne hc hcount => hne hc (counted _ hlater attemptID hcount)
  constructor
  case rise_is_report =>
    intro e hmem hrise
    by_contra hno
    obtain ⟨h', run', _⟩ := run.at_entry hmem
    exact hrise (Op.noRise (fun attemptID hr => hno ⟨attemptID, hr⟩) (wf_run run'))
  case counted_iff_closes => exact fun e hmem attemptID hop => (step e hmem attemptID hop).1
  case both_together => exact fun e hmem attemptID hc => (step e hmem attemptID hc.1).2 hc.2
  case completion_closes_none =>
    rintro ⟨σ, _⟩ hmem r now rfl hfailed ⟨⟨a, ha, hid, hr⟩, _⟩
    obtain ⟨h', run', he⟩ := run.at_entry hmem
    exact ((attempt_run run').2 r.attemptID r.taskID (he.2 hfailed)).2 a ha hid hr
  case at_most_once =>
    exact fun attemptID => (never attemptID).imp_of_mem
      fun _ hearlier hne ⟨h₁, h₂⟩ => hne (counted _ hearlier attemptID h₁) h₂
  case never_after_close => exact never

def failTwice : List Op :=
  smallSetup ++ [.registerWorker ⟨5, .online, false, some 40, "", none, none⟩ 40,
    smallLease 100 1000, .recordTaskFailure 1000 100 (some 1) "s" "boom" 60 60,
    .recordTaskFailure 1000 100 (some 1) "s" "boom" 60 61, .requeueTaskForRetry 100 1000 30,
    smallLease 100 1001, .offlineStaleWorker 5 70 80,
    .recordTaskFailure 1001 100 (some 1) "s" "boom" 75 90]

lemma failTwice_permits : storeSystem.Permits failTwice [] DB.empty := by
  refine smallSetup_permits _ ⟨trivial, trivial, ?_, ?_, ?_, trivial, trivial, ?_, trivial⟩
  · exact ⟨_, .now, by decide⟩
  · exact ⟨_, .now, by decide⟩
  · exact ⟨_, _, _, _, _, _, _, mem_cons_self, rfl⟩
  · exact ⟨_, .now, by decide⟩

theorem failures_counted_once_failTwice :
    let r := storeSystem.exec failTwice [] DB.empty
    r.2.tasks.map Task.counter = [(100, 1), (101, 0), (110, 0)] ∧
      r.2.jobs.map Job.counter = [(1, 1)] ∧ FailureAccounting r.1 :=
  ⟨by decide, by decide, failures_counted_once (Run.start.exec failTwice_permits)⟩

end Sqi

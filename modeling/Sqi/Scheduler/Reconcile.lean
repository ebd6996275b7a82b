import Sqi.Scheduler.Moves

/-! Jobs behind a job, and the completion checks as a whole. -/

namespace Sqi
open List Table Program Prog

section
variable {db : DB}

lemma finalizeStep_within (wf : WF db) {s : Step} (hs : s ∈ db.steps) :
    Within (· = s.jobID) db (finalizeStep s.id db).2 := by
  simp only [finalizeStep, wf.step?_eq hs]
  split
  · rfl
  split
  · refine .updateSteps (fun _ => rfl) fun u hu h => ⟨?_, h.2.1⟩
    rw [wf.steps_keyed.eq_of_mem hu hs h.1]
  · rfl

lemma finalizeJob_within (id : ID) (now : Time) : Within (· = id) db (finalizeJob id now db).2 := by
  unfold finalizeJob
  split
  · rfl
  split
  · rfl
  split
  · exact .updateJobs (fun j h => ⟨rfl, .inr ⟨h.2.1, .inl (jobOutcome_isTerminal db j.id)⟩⟩)
      fun j _ h => h.1
  · rfl

lemma releaseBlockedJob_within (id : ID) : Within (· = id) db (releaseBlockedJob id db).2 := by
  unfold releaseBlockedJob
  split
  · rfl
  · refine .updateJobs (fun j h => ⟨rfl, .inr ⟨?_, .inr h.2.1⟩⟩) fun j _ h => h.1
    simp [h.2.1, JobStatus.IsTerminal]

lemma cancelBlocked_within (id : ID) (reason : String) (now : Time) :
    Within (· = id) db (cancelBlockedJob id reason now db).2 := by
  unfold cancelBlockedJob
  split
  · rfl
  split
  · rfl
  have job : Within (· = id) db (sqlCancelBlockedJobRow id now db) := by
    refine .updateJobs (fun j h => ⟨rfl, .inr ⟨?_, .inr h.2⟩⟩) fun j _ h => h.1
    simp [h.2, JobStatus.IsTerminal]
  have steps : ∀ d : DB, Within (· = id) d (sqlCancelJobOpenSteps id d) :=
    fun _ => .updateSteps (fun _ => rfl) fun _ _ h => h
  have tasks : ∀ d : DB, Within (· = id) d (sqlCancelJobPendingTasks reason id d) :=
    fun _ => .updateTasks (fun _ => rfl) fun _ _ h => h
  exact (job.trans (steps _)).trans (tasks _)

end

def Blocked (db : DB) (id : ID) : Prop := ∃ j ∈ db.jobs, j.id = id ∧ j.status = .blocked
def blockedCount (db : DB) : Nat := (listBlockedJobs db).length

section
variable {db db' : DB} {touched : ID → Prop}

lemma Within.blocked_before (h : Within touched db db') {id : ID} (hb : Blocked db' id) : Blocked db id := by
  obtain ⟨j', hj', e, hst⟩ := hb
  obtain ⟨j, hj, hk⟩ := of_mem_right h.jobs hj'
  have hid : j'.id = j.id := congrArg Prod.fst hk.1
  exact ⟨j, hj, hid.symm.trans e, hk.blocked_before hst⟩

lemma blockedCount_eq (db : DB) : blockedCount db = db.jobs.countP fun j => j.status = .blocked :=
  countP_eq_length_filter.symm

lemma Within.blockedCount_le (h : Within touched db db') (wf : WF db) :
    blockedCount db' ≤ blockedCount db := by
  rw [blockedCount_eq, blockedCount_eq]
  refine countP_le_of_keyed (h.wf wf).jobs_keyed fun j' hj' hst => ?_
  obtain ⟨j, hj, hk⟩ := of_mem_right h.jobs hj'
  exact ⟨j, hj, (congrArg Prod.fst hk.1).symm, hk.blocked_before hst⟩

variable {ids : List ID} {jobID : ID} {allCompleted : Bool} {up : ID}

lemma upstreamVerdict_congr (h : ∀ u ∈ ids, upstreamVote db' u = upstreamVote db u)
    (allCompleted : Bool) : upstreamVerdict db' ids allCompleted = upstreamVerdict db ids allCompleted := by
  induction ids generalizing allCompleted with
  | nil => rfl
  | cons u ids ih =>
    have hrest := fun b => ih (fun v hv => h v (mem_cons_of_mem _ hv)) b
    simp only [upstreamVerdict, h u mem_cons_self, hrest]

lemma mem_dependencyIDs : up ∈ listJobDependencyIDs db jobID ↔ ⟨jobID, up⟩ ∈ db.jobDependencies := by
  simp only [listJobDependencyIDs, mem_insertionSort, mem_map, mem_filter, decide_eq_true_eq]
  exact ⟨fun ⟨_, ⟨h, e⟩, e'⟩ => e ▸ e' ▸ h, fun h => ⟨_, ⟨h, rfl⟩, rfl⟩⟩
lemma mem_listDependents : jobID ∈ listDependents db up ↔ ⟨jobID, up⟩ ∈ db.jobDependencies := by
  simp only [listDependents, mem_insertionSort, mem_map, mem_filter, decide_eq_true_eq]
  exact ⟨fun ⟨_, ⟨h, e⟩, e'⟩ => e ▸ e' ▸ h, fun h => ⟨_, ⟨h, rfl⟩, rfl⟩⟩

lemma upstreamVerdict_cancel_iff :
    upstreamVerdict db ids allCompleted = .cancel ↔ ∃ u ∈ ids, upstreamVote db u = .cancel := by
  induction ids generalizing allCompleted with
  | nil => cases allCompleted <;> simp [upstreamVerdict]
  | cons v ids ih => cases hv : upstreamVote db v <;> simp [upstreamVerdict, hv, ih]

lemma upstreamVerdict_release_iff : upstreamVerdict db ids allCompleted = .release ↔
    allCompleted = true ∧ ∀ u ∈ ids, upstreamVote db u = .release := by
  induction ids generalizing allCompleted with
  | nil => cases allCompleted <;> simp [upstreamVerdict]
  | cons v ids ih => cases hv : upstreamVote db v <;> simp [upstreamVerdict, hv, ih]

lemma completed_of_vote {u : ID} (h : upstreamVote db u = .release) :
    ∃ j ∈ db.jobs, j.id = u ∧ j.status = .completed := by
  unfold upstreamVote at h
  split at h
  · cases h
  rename_i j hj
  split at h
  · exact ⟨j, (DB.job?_some hj).1, (DB.job?_some hj).2, ‹_›⟩
  · split at h <;> cases h

lemma blocked_of_verdict {v : Verdict} (hv : blockedVerdict db jobID = v) (h : v ≠ .wait) :
    ∃ j, db.job? jobID = some j ∧ j.status = .blocked ∧
      upstreamVerdict db (listJobDependencyIDs db jobID) true = v := by
  subst hv
  unfold blockedVerdict at h ⊢
  split at h
  · exact absurd rfl h
  rename_i j hj
  split at h
  · exact absurd rfl h
  · rename_i hb
    exact ⟨j, hj, not_not.mp hb, by rw [if_neg hb]⟩

lemma upstreams_of_verdict (h : blockedVerdict db jobID = .release) :
    upstreamsCompleted db jobID := by
  obtain ⟨_, _, _, hv⟩ := blocked_of_verdict h nofun
  rintro ⟨a, up⟩ he rfl
  exact completed_of_vote
    ((upstreamVerdict_release_iff.mp hv).2 up (mem_dependencyIDs.mpr he))

lemma verdict_of_not_blocked (h : ¬ Blocked db jobID) : blockedVerdict db jobID = .wait := by
  by_contra hn
  obtain ⟨j, hj, hb, _⟩ := blocked_of_verdict rfl hn
  exact h ⟨j, (DB.job?_some hj).1, (DB.job?_some hj).2, hb⟩

lemma blockedVerdict_congr (hjob : db'.job? jobID = db.job? jobID)
    (hedges : db'.jobDependencies = db.jobDependencies)
    (hvotes : ∀ u ∈ listJobDependencyIDs db jobID, upstreamVote db' u = upstreamVote db u) :
    blockedVerdict db' jobID = blockedVerdict db jobID := by
  have hids : listJobDependencyIDs db' jobID = listJobDependencyIDs db jobID := by
    simp only [listJobDependencyIDs, hedges]
  simp only [blockedVerdict, hjob, hids, upstreamVerdict_congr hvotes]

end

/-! ## One blocked job -/

section
variable {db db' : DB} {id : ID}

lemma job?_of_view (h : db'.view id = db.view id) : db'.job? id = db.job? id := by
  have hjobs : db'.jobs.filter (·.id = id) = db.jobs.filter (·.id = id) := congrArg JobView.jobs h
  simp only [DB.job?, ← head?_filter, hjobs]

lemma upstreamVote_open {u : ID} {j : Job} (hj : db.job? u = some j) (hst : ¬ j.status.IsTerminal) :
    upstreamVote db u = .wait := by
  have hc : j.status ≠ .completed := fun h => hst (.inl h)
  have hu : ¬ j.status.Unsuccessful := fun h => hst (.inr h)
  simp [upstreamVote, hj, hc, hu]

lemma Within.vote_eq (h : Within (· = id) db db') {u : ID} (hu : u ≠ id) :
    upstreamVote db' u = upstreamVote db u := by
  simp only [upstreamVote, job?_of_view (h.view u hu)]

lemma releaseAndResolve_eq (wf : WF db) (hv : blockedVerdict db id = .release) :
    releaseAndResolve id db = (.ok (), movePendingSteps (releasableIDs db id) .ready .ready ""
      (db.updateJobs (fun j => j.id = id ∧ j.status = .blocked) (fun j => { j with status := .pending }))) := by
  obtain ⟨j, hj, hb, _⟩ := blocked_of_verdict hv nofun
  have hups := upstreams_of_verdict hv
  have hrel : releaseBlockedJob id db = (.ok true, db.updateJobs (fun j => j.id = id ∧ j.status = .blocked)
      (fun j => { j with status := .pending })) := by
    refine Prod.ext (by simp [releaseBlockedJob, hj, hb, hups]) ?_
    simp only [releaseBlockedJob, hj, DB.updateJobs]
    congr 1
    exact update_congr fun j _ => ⟨fun h => ⟨h.1, h.2.1⟩, fun h => ⟨h.1, h.2, h.1 ▸ hups⟩⟩
  have wf1 : WF (db.updateJobs (fun j => j.id = id ∧ j.status = .blocked)
      (fun j => { j with status := .pending })) := by
    have within : Within (· = id) db (releaseBlockedJob id db).2 := releaseBlockedJob_within id
    rw [hrel] at within
    exact within.wf wf
  obtain ⟨n, hn⟩ := resolve_eq wf1 id
  rw [releaseAndResolve, tx_bind_ok hrel, if_pos rfl, bind_ok hn]
  rfl

lemma releaseAndResolve_spec (wf : WF db) (hv : blockedVerdict db id = .release) :
    Prog.Yields (releaseAndResolve id) db fun r db' => r = .ok () ∧ Within (· = id) db db' ∧
      (∃ j, db'.job? id = some j ∧ j.status = .pending) ∧ (db'.view id).NoReleasable := by
  obtain ⟨j, hj, hb, _⟩ := blocked_of_verdict hv nofun
  obtain ⟨hmem, hid⟩ := DB.job?_some hj
  have within1 : Within (· = id) db (db.updateJobs (fun j => j.id = id ∧ j.status = .blocked)
      (fun j => { j with status := .pending })) :=
    .updateJobs (fun j h => ⟨rfl, .inr ⟨by simp [h.2, JobStatus.IsTerminal], .inr h.2⟩⟩) fun j _ h => h.1
  have wf1 := within1.wf wf
  obtain ⟨n, hn⟩ := resolve_eq wf1 id
  have within2 := resolve_within wf1 id
  have hnone := resolve_noReleasable wf1 id
  rw [hn] at within2 hnone
  unfold Prog.Yields
  rw [releaseAndResolve_eq wf hv]
  refine ⟨rfl, within1.trans within2, ⟨{ j with status := .pending }, ?_, rfl⟩, hnone⟩
  exact hid ▸ (within2.wf wf1).job?_eq (mem_update.mpr ⟨j, hmem, if_pos ⟨hid, hb⟩⟩)

lemma cancelBlocked_spec (wf : WF db) (hb : Blocked db id) (reason : String) (now : Time) :
    ∃ db', cancelBlockedJob id reason now db = (.ok true, db') ∧ Within (· = id) db db' ∧
      (∃ j, db'.job? id = some j ∧ j.status = .canceled) ∧ blockedCount db' < blockedCount db := by
  obtain ⟨j, hj, rfl, hst⟩ := hb
  have hfind := wf.job?_eq hj
  have within : Within (· = j.id) db (cancelBlockedJob j.id reason now db).2 := cancelBlocked_within j.id reason now
  have heq : cancelBlockedJob j.id reason now db = (.ok true, sqlCancelJobPendingTasks reason j.id
      (sqlCancelJobOpenSteps j.id (sqlCancelBlockedJobRow j.id now db))) := by
    simp [cancelBlockedJob, hfind, hst]
  rw [heq] at within
  refine ⟨_, heq, within, ⟨{ j with status := .canceled, completedAt := some now }, ?_, rfl⟩, ?_⟩
  · exact (within.wf wf).job?_eq (mem_update.mpr ⟨j, hj, if_pos ⟨rfl, hst⟩⟩)
  · rw [blockedCount_eq, blockedCount_eq]
    exact countP_update_lt (fun u hu => ⟨hu.2, by simp⟩) ⟨j, hj, rfl, hst⟩

end

/-! ## Reconciling -/

structure Reconciled (db : DB) (upstreamJobID : ID) (db' : DB) : Prop where
  within : Within (Blocked db) db db'
  dependents : ∀ id ∈ listDependents db upstreamJobID, blockedVerdict db' id = .wait
  waits : ∀ id, blockedVerdict db id = .wait → blockedVerdict db' id = .wait

section
variable {db : DB} {now : Time} {reconcile : ID → Sched Unit}

lemma reconcileJob_spec (now : Time) {n : Nat} (hrec : ∀ up s, WF s → blockedCount s < n →
    Prog.Yields (reconcile up) s fun r s' => r = .ok () ∧ Reconciled s up s')
    (wf : WF db) (hn : blockedCount db ≤ n) (id : ID) :
    Prog.Yields (reconcileBlockedJob reconcile now id) db fun r db' => r = .ok () ∧
    Within (Blocked db) db db' ∧ blockedVerdict db' id = .wait ∧
    ∀ b, blockedVerdict db b = .wait → blockedVerdict db' b = .wait := by
  have edges : ∀ {db' : DB}, Within (· = id) db db' → db'.jobDependencies = db.jobDependencies :=
    fun w => w.sameKeys.edges
  cases hv : blockedVerdict db id with
  | wait =>
    have hrun : reconcileBlockedJob reconcile now id db = (.ok (), db) := by
      rw [reconcileBlockedJob, read_bind, hv]
      rfl
    unfold Prog.Yields
    rw [hrun]
    exact ⟨rfl, .refl db, hv, fun _ h => h⟩
  | release =>
    obtain ⟨j, hj, hb, _⟩ := blocked_of_verdict hv (by simp)
    have hrun : reconcileBlockedJob reconcile now id db = releaseAndResolve id db := by
      rw [reconcileBlockedJob, read_bind, hv]
    unfold Prog.Yields
    rw [hrun]
    obtain ⟨hr, within, ⟨j', hj', hst'⟩, _⟩ := releaseAndResolve_spec wf hv
    have hblocked : Blocked db id := ⟨j, (DB.job?_some hj).1, (DB.job?_some hj).2, hb⟩
    have hself : blockedVerdict (releaseAndResolve id db).2 id = .wait := by simp [blockedVerdict, hj', hst']
    refine ⟨hr, within.mono fun _ e => e ▸ hblocked, hself, fun b hwait => ?_⟩
    by_cases hbid : b = id
    · exact hbid ▸ hself
    -- blocked or pending, the job says "wait" to the jobs behind it
    rw [blockedVerdict_congr (job?_of_view (within.view b hbid)) (edges within) fun u _ => ?_, hwait]
    by_cases hu : u = id
    · subst hu
      rw [upstreamVote_open hj' (by simp [hst', JobStatus.IsTerminal]),
        upstreamVote_open hj (by simp [hb, JobStatus.IsTerminal])]
    · exact within.vote_eq hu
  | cancel =>
    obtain ⟨j, hj, hb, _⟩ := blocked_of_verdict hv (by simp)
    have hblocked : Blocked db id := ⟨j, (DB.job?_some hj).1, (DB.job?_some hj).2, hb⟩
    obtain ⟨db1, heq, within1, ⟨j1, hj1, hst1⟩, hless⟩ := cancelBlocked_spec wf hblocked failureReasonUpstreamFailed now
    have hrun : reconcileBlockedJob reconcile now id db = reconcile id db1 := by
      rw [reconcileBlockedJob, read_bind, hv]
      exact tx_bind_ok heq
    unfold Prog.Yields
    rw [hrun]
    obtain ⟨hr, res⟩ := hrec id db1 (within1.wf wf) (by omega)
    have hself : blockedVerdict db1 id = .wait := by simp [blockedVerdict, hj1, hst1]
    refine ⟨hr, ?_, res.waits id hself, fun b hwait => ?_⟩
    · exact (within1.mono fun _ e => e ▸ hblocked).trans
        (res.within.mono fun _ hb => within1.blocked_before hb)
    by_cases hbid : b = id
    · exact res.waits b (hbid ▸ hself)
    by_cases hdep : id ∈ listJobDependencyIDs db b
    · -- the nested call decides the jobs behind the canceled one
      refine res.dependents b (mem_listDependents.mpr ?_)
      rw [edges within1]
      exact mem_dependencyIDs.mp hdep
    · refine res.waits b ?_
      rw [blockedVerdict_congr (job?_of_view (within1.view b hbid)) (edges within1) fun u hu => ?_, hwait]
      exact within1.vote_eq fun e => hdep (e ▸ hu)

lemma reconcileNested_spec (now : Time) (fuel : Nat) (up : ID) (wf : WF db) (hfuel : blockedCount db < fuel) :
    Prog.Yields (reconcileNested now fuel up) db fun r db' => r = .ok () ∧ Reconciled db up db' := by
  induction fuel generalizing db up with
  | zero => omega
  | succ fuel ih =>
    have hloop : Prog.Yields (Prog.each (reconcileBlockedJob (reconcileNested now fuel) now)
        (listDependents db up)) db fun r db' => r = .ok () ∧ Within (Blocked db) db db' ∧
        (∀ id ∈ listDependents db up, blockedVerdict db' id = .wait) ∧
        ∀ id, blockedVerdict db id = .wait → blockedVerdict db' id = .wait :=
      Prog.Yields.each_settles (D := fun id s => blockedVerdict s id = .wait)
        (fun id _ s hs => ?_) (.refl db)
    · unfold Prog.Yields at hloop ⊢
      rw [reconcileNested, read_bind]
      exact ⟨hloop.1, hloop.2.1, hloop.2.2.1, hloop.2.2.2⟩
    have hle := hs.blockedCount_le wf
    refine (reconcileJob_spec now (fun up s wfs hs => ih up wfs hs) (hs.wf wf) (by omega) id).imp ?_
    rintro r s' ⟨hr, within, hself, hkeep⟩
    exact ⟨hr, hs.trans (within.mono fun _ hb => hs.blocked_before hb), hself, hkeep⟩

lemma reconcileDependents_spec (now : Time) (up : ID) (wf : WF db) :
    Prog.Yields (reconcileDependents now up) db fun r db' => r = .ok () ∧ Reconciled db up db' :=
  reconcileNested_spec now (blockedCount db + 1) up wf (Nat.lt_succ_self _)

lemma reconcileJob_congr {reconcile' : ID → Sched Unit} (wf : WF db) (id : ID)
    (h : ∀ s, WF s → blockedCount s < blockedCount db → reconcile id s = reconcile' id s) :
    reconcileBlockedJob reconcile now id db = reconcileBlockedJob reconcile' now id db := by
  rw [reconcileBlockedJob, reconcileBlockedJob, read_bind, read_bind]
  cases hv : blockedVerdict db id with
  | wait | release => rfl
  | cancel =>
    obtain ⟨j, hj, hb, _⟩ := blocked_of_verdict hv nofun
    obtain ⟨db1, heq, within1, _, hless⟩ := cancelBlocked_spec wf
      ⟨j, (DB.job?_some hj).1, (DB.job?_some hj).2, hb⟩ failureReasonUpstreamFailed now
    have run : ∀ r : ID → Sched Unit, (Prog.tx (cancelBlockedJob id failureReasonUpstreamFailed now) >>=
        fun _ => r id) db = r id db1 := fun _ => tx_bind_ok heq
    exact (run reconcile).trans ((h db1 (within1.wf wf) hless).trans (run reconcile').symm)

lemma reconcileNested_fuel {fuel fuel' : Nat} (up : ID) (wf : WF db) (h : blockedCount db < fuel)
    (h' : blockedCount db < fuel') : reconcileNested now fuel up db = reconcileNested now fuel' up db := by
  induction fuel generalizing fuel' db up with
  | zero => omega
  | succ fuel ih =>
    obtain ⟨fuel', rfl⟩ : ∃ n, fuel' = n + 1 := ⟨fuel' - 1, by omega⟩
    rw [reconcileNested, reconcileNested, read_bind, read_bind]
    refine each_congr (I := Within (Blocked db) db) (fun id _ s hs => ?_) (.refl db)
    have hle := hs.blockedCount_le wf
    have hspec := reconcileJob_spec now
      (fun up s wfs hs => reconcileNested_spec now fuel up wfs hs) (hs.wf wf) (by omega) id
    refine ⟨reconcileJob_congr (hs.wf wf) id fun s' wf' hless => ih id wf' (by omega) (by omega), ?_⟩
    exact hs.trans (hspec.2.1.mono fun _ hb => hs.blocked_before hb)

lemma reconcileDependents_rec (now : Time) (up : ID) (wf : WF db) : reconcileDependents now up db =
      Prog.each (reconcileBlockedJob (reconcileDependents now) now) (listDependents db up) db := by
  rw [reconcileDependents, read_bind, reconcileNested, read_bind]
  refine each_congr (I := Within (Blocked db) db) (fun id _ s hs => ?_) (.refl db)
  have hle := hs.blockedCount_le wf
  have hspec := reconcileJob_spec now
    (fun up s wfs hs => reconcileNested_spec now (blockedCount db) up wfs hs) (hs.wf wf) hle id
  refine ⟨reconcileJob_congr (hs.wf wf) id fun s' wf' hless => ?_, ?_⟩
  · exact reconcileNested_fuel id wf' (Nat.lt_of_lt_of_le hless hle) (Nat.lt_succ_self _)
  · exact hs.trans (hspec.2.1.mono fun _ hb => hs.blocked_before hb)

lemma reconcileDependents_again (now : Time) {up : ID} (wf : WF db)
    (h : ∀ id ∈ listDependents db up, blockedVerdict db id = .wait) :
    reconcileDependents now up db = (.ok (), db) := by
  rw [reconcileDependents_rec now up wf]
  refine each_idle fun id hid => ?_
  rw [reconcileBlockedJob, read_bind, h id hid]
  rfl

end

/-! ## The job's completion -/

section
variable {db : DB} {j : Job} {jobID : ID}

lemma finalizeJob_cases (wf : WF db) (hj : j ∈ db.jobs) (now : Time) :
    (¬ j.status.IsTerminal ∧ ¬ jobHasNoOpenStep db j.id ∧ finalizeJob j.id now db = (.ok (none, false), db)) ∨
    ∃ st changed, (finalizeJob j.id now db).1 = .ok (some st, changed) ∧
      ∃ j1 ∈ (finalizeJob j.id now db).2.jobs, j1.id = j.id ∧ j1.status.IsTerminal := by
  simp only [finalizeJob, wf.job?_eq hj]
  by_cases ht : j.status.IsTerminal
  · rw [if_pos ht]
    exact .inr ⟨j.status, false, rfl, j, hj, rfl, ht⟩
  rw [if_neg ht]
  by_cases hclosed : jobHasNoOpenStep db j.id
  · rw [if_pos hclosed]
    refine .inr ⟨_, true, rfl, _, mem_update.mpr ⟨j, hj, rfl⟩, ?_⟩
    rw [if_pos ⟨rfl, ht, hclosed⟩]
    exact ⟨rfl, jobOutcome_isTerminal db j.id⟩
  · rw [if_neg hclosed]
    exact .inl ⟨ht, hclosed, rfl⟩

lemma finalizeJob_steps (id : ID) (now : Time) : (finalizeJob id now db).2.steps = db.steps := by
  unfold finalizeJob
  split
  · rfl
  split
  · rfl
  split <;> rfl

lemma jobCompletion_cases (wf : WF db) (hj : j ∈ db.jobs) (now : Time) :
    (¬ j.status.IsTerminal ∧ ¬ jobHasNoOpenStep db j.id ∧ checkJobCompletion now j.id db = (.ok (), db)) ∨
    ∃ db', checkJobCompletion now j.id db = (.ok (), db') ∧ Reconciled (finalizeJob j.id now db).2 j.id db' ∧
      ∃ j1 ∈ (finalizeJob j.id now db).2.jobs, j1.id = j.id ∧ j1.status.IsTerminal := by
  rcases finalizeJob_cases wf hj now with ⟨ht, hopen, heq⟩ | ⟨st, changed, heq, hrow⟩
  · exact .inl ⟨ht, hopen, tx_bind_ok heq⟩
  have within : Within (· = j.id) db (finalizeJob j.id now db).2 := finalizeJob_within j.id now
  have hspec := reconcileDependents_spec now j.id (within.wf wf)
  refine .inr ⟨_, ?_, hspec.2, hrow⟩
  have heq' : finalizeJob j.id now db = (.ok (some st, changed), (finalizeJob j.id now db).2) := Prod.ext heq rfl
  exact tx_bind_ok heq'

lemma jobCompletion_decided (wf : WF db) (hj : j ∈ db.jobs) (ht : j.status.IsTerminal)
    (hdeps : ∀ id ∈ listDependents db j.id, blockedVerdict db id = .wait) (now : Time) :
    checkJobCompletion now j.id db = (.ok (), db) := by
  have heq : finalizeJob j.id now db = (.ok (some j.status, false), db) := by
    simp [finalizeJob, wf.job?_eq hj, ht]
  rw [checkJobCompletion, tx_bind_ok heq]
  change (Except.ok (), (reconcileDependents now j.id db).2) = _
  rw [reconcileDependents_again now wf hdeps]

lemma jobCompletion_within (wf : WF db) (hid : ∃ j ∈ db.jobs, j.id = jobID) (now : Time) :
    Within (fun id => id = jobID ∨ Blocked db id) db (checkJobCompletion now jobID db).2 := by
  obtain ⟨j, hj, rfl⟩ := hid
  rcases jobCompletion_cases wf hj now with ⟨_, _, heq⟩ | ⟨db', heq, res, _⟩
  · rw [heq]
  rw [heq]
  have within : Within (· = j.id) db (finalizeJob j.id now db).2 := finalizeJob_within j.id now
  exact (within.mono fun _ => .inl).trans
    (res.within.mono fun _ hb => .inr (within.blocked_before hb))

lemma jobCompletion_steps (wf : WF db) (hid : ∃ j ∈ db.jobs, j.id = jobID)
    (now : Time) : listSteps (checkJobCompletion now jobID db).2 jobID = listSteps db jobID := by
  obtain ⟨j, hj, rfl⟩ := hid
  rcases jobCompletion_cases wf hj now with ⟨_, _, heq⟩ | ⟨db', heq, res, j1, hj1, e, ht⟩
  · rw [heq]
  rw [heq]
  have within : Within (· = j.id) db (finalizeJob j.id now db).2 := finalizeJob_within j.id now
  have hnot : ¬ Blocked (finalizeJob j.id now db).2 j.id := by
    rintro ⟨j2, hj2, e2, hb⟩
    rw [(within.wf wf).jobs_keyed.eq_of_mem hj2 hj1 (e2.trans e.symm)] at hb
    simp [hb, JobStatus.IsTerminal] at ht
  have hview := congrArg JobView.steps (res.within.view j.id hnot)
  simp only [DB.view] at hview
  rw [hview]
  simp only [listSteps, finalizeJob_steps]

lemma jobCompletion_again (wf : WF db) (hid : ∃ j ∈ db.jobs, j.id = jobID)
    (now now' : Time) : checkJobCompletion now' jobID (checkJobCompletion now jobID db).2 =
    (.ok (), (checkJobCompletion now jobID db).2) := by
  have wf' := (jobCompletion_within wf hid now).wf wf
  obtain ⟨j, hj, rfl⟩ := hid
  rcases jobCompletion_cases wf hj now with ⟨ht, hopen, heq⟩ | ⟨db', heq, res, j1, hj1, e, ht⟩
  · rw [heq]
    have hnone : finalizeJob j.id now' db = (.ok (none, false), db) := by
      simp [finalizeJob, wf.job?_eq hj, ht, hopen]
    exact tx_bind_ok hnone
  · rw [heq] at wf' ⊢
    rw [← e]
    refine jobCompletion_decided wf' (res.within.mem_job hj1 ht) ht (fun id hid => ?_) now'
    refine res.dependents id ?_
    rw [e] at hid
    rw [mem_listDependents] at hid ⊢
    rwa [← res.within.sameKeys.edges]

end

/-! ## The step's completion -/

def JobView.Propagated (v : JobView) (st : StepStatus) : Prop :=
  if st = .completed then v.NoReleasable else v.NoDoomed

section
variable {db : DB} {s : Step}

section
variable (wf : WF db)
include wf

lemma finalizeStep_cases (hs : s ∈ db.steps) :
    (¬ s.status.IsTerminal ∧ ¬ stepHasNoOpenTask db s.id ∧ finalizeStep s.id db = (.ok (none, false), db)) ∨
    ∃ st changed db', finalizeStep s.id db = (.ok (some st, changed), db') ∧ st.IsTerminal ∧
      { s with status := st } ∈ db'.steps := by
  simp only [finalizeStep, wf.step?_eq hs]
  by_cases ht : s.status.IsTerminal
  · rw [if_pos ht]
    exact .inr ⟨s.status, false, db, rfl, ht, hs⟩
  rw [if_neg ht]
  by_cases hclosed : stepHasNoOpenTask db s.id
  · rw [if_pos hclosed]
    refine .inr ⟨_, true, _, rfl, stepOutcome_isTerminal db s.id, mem_update.mpr ⟨s, hs, ?_⟩⟩
    rw [if_pos ⟨rfl, ht, hclosed⟩]
  · rw [if_neg hclosed]
    exact .inl ⟨ht, hclosed, rfl⟩

lemma propagate_spec (jobID : ID) (st : StepStatus) :
    Prog.Yields (propagateStepDependencies jobID st) db fun r db' =>
      r = .ok () ∧ Within (· = jobID) db db' ∧ (db'.view jobID).Propagated st := by
  unfold propagateStepDependencies JobView.Propagated
  by_cases hst : st = .completed
  · obtain ⟨n, heq⟩ := resolve_eq wf jobID
    have within := resolve_within wf jobID
    have hnone := resolve_noReleasable wf jobID
    simp only [if_pos hst]
    unfold Prog.Yields
    rw [bind_ok heq]
    rw [heq] at within hnone
    exact ⟨rfl, within, hnone⟩
  · obtain ⟨n, ids, heq, hpending, hnone⟩ := cancelDependents_eq wf jobID
    simp only [if_neg hst]
    unfold Prog.Yields
    rw [bind_ok heq]
    exact ⟨rfl, cancelSteps_within wf fun s hs h => (hpending s hs h).1, hnone⟩

lemma propagate_again {jobID : ID} {st : StepStatus}
    (h : (db.view jobID).Propagated st) : propagateStepDependencies jobID st db = (.ok (), db) := by
  unfold propagateStepDependencies
  unfold JobView.Propagated at h
  by_cases hst : st = .completed
  · rw [if_pos hst] at h ⊢
    obtain ⟨n, heq⟩ := resolve_again wf h
    exact bind_ok heq
  · rw [if_neg hst] at h ⊢
    obtain ⟨heq, _⟩ := cancelDependents_again wf h
    exact bind_ok heq

lemma stepCompletion_cases (hs : s ∈ db.steps) (now : Time) :
    (¬ s.status.IsTerminal ∧ ¬ stepHasNoOpenTask db s.id ∧ checkStepCompletion now s.id s.jobID db = (.ok (), db)) ∨
    ∃ st db1 db2, (finalizeStep s.id db).2 = db1 ∧
      propagateStepDependencies s.jobID st db1 = (.ok (), db2) ∧ Within (· = s.jobID) db db2 ∧
      st.IsTerminal ∧ { s with status := st } ∈ db2.steps ∧ (db2.view s.jobID).Propagated st ∧
      checkStepCompletion now s.id s.jobID db = checkJobCompletion now s.jobID db2 := by
  rcases finalizeStep_cases wf hs with ⟨ht, hopen, heq⟩ | ⟨st, changed, db1, heq, ht, hrow⟩
  · exact .inl ⟨ht, hopen, tx_bind_ok heq⟩
  have within1 : Within (· = s.jobID) db (finalizeStep s.id db).2 := finalizeStep_within wf hs
  rw [heq] at within1
  obtain ⟨hr, within2, hprop⟩ := propagate_spec (within1.wf wf) s.jobID st
  refine .inr ⟨st, db1, _, congrArg Prod.snd heq, Prod.ext hr rfl, within1.trans within2, ht,
    within2.mem_step hrow ht, hprop, ?_⟩
  rw [checkStepCompletion, tx_bind_ok heq]
  exact bind_ok (Prod.ext hr rfl)

lemma stepCompletion_within (hs : s ∈ db.steps) (now : Time) :
    Within (fun id => id = s.jobID ∨ Blocked db id) db (checkStepCompletion now s.id s.jobID db).2 := by
  rcases stepCompletion_cases wf hs now with
    ⟨_, _, heq⟩ | ⟨st, _, db2, _, _, within, _, hrow, _, heq⟩
  · rw [heq]
  rw [heq]
  have wf2 := within.wf wf
  refine (within.mono fun _ => .inl).trans ?_
  exact (jobCompletion_within wf2 (wf2.step_job _ hrow) now).mono fun _ h =>
    h.imp_right within.blocked_before

lemma stepCompletion_again (hs : s ∈ db.steps) (now now' : Time) :
    checkStepCompletion now' s.id s.jobID (checkStepCompletion now s.id s.jobID db).2 =
      (.ok (), (checkStepCompletion now s.id s.jobID db).2) := by
  rcases stepCompletion_cases wf hs now with
    ⟨ht, hopen, heq⟩ | ⟨st, _, db2, _, _, within, ht, hrow, hprop, heq⟩
  · rw [heq]
    have hnone : finalizeStep s.id db = (.ok (none, false), db) := by
      simp [finalizeStep, wf.step?_eq hs, ht, hopen]
    exact tx_bind_ok hnone
  rw [heq]
  have wf2 := within.wf wf
  have hjob := wf2.step_job _ hrow
  have within' := jobCompletion_within wf2 hjob now
  have hagain := jobCompletion_again wf2 hjob now now'
  have hsteps := jobCompletion_steps wf2 hjob now
  generalize (checkJobCompletion now s.jobID db2).2 = db' at *
  have hfinal : finalizeStep s.id db' = (.ok (some st, false), db') := by
    simp [finalizeStep, (within'.wf wf2).step?_eq (within'.mem_step hrow ht), ht]
  have hprop' : (db'.view s.jobID).Propagated st := by
    -- it reads only the steps of the job
    simp only [JobView.Propagated, JobView.NoReleasable, JobView.NoDoomed, DB.view, hsteps] at hprop ⊢
    exact hprop
  rw [checkStepCompletion, tx_bind_ok hfinal]
  exact (bind_ok (propagate_again (within'.wf wf2) hprop')).trans hagain

end
end
end Sqi

import Sqi.Invariant.Blocked
import Sqi.Scheduler.Delivery
import Sqi.Scheduler.Operations

/-! No work is stranded between two operations of the scheduler. -/

namespace Sqi
open List Table Program Transition Prog

section
variable {db db' : DB} {jobID : ID}

lemma noReleasable_of_steps (wf : WF db) (wf' : WF db') (h : Forall₂ (fun s s' : Step =>
      s'.key = s.key ∧ (s'.status = .pending ∨ s'.status = .completed → s' = s)) db.steps db'.steps)
    (hn : (db.view jobID).NoReleasable) : (db'.view jobID).NoReleasable := by
  rintro s' hs' ⟨hp, hdeps⟩
  obtain ⟨hmem', ej⟩ := mem_view_steps.mp hs'
  obtain ⟨s, hs, _, hsame⟩ := of_mem_right h hmem'
  obtain rfl := hsame (.inl hp)
  refine hn s' (mem_view_steps.mpr ⟨hs, ej⟩) ⟨hp, fun name hname => ?_⟩
  obtain ⟨u', hu', euj, eun, hc⟩ := (lookupOf_byName wf' jobID name .completed).mp (hdeps name hname)
  obtain ⟨u, hu, _, hsame'⟩ := of_mem_right h hu'
  obtain rfl := hsame' (.inr hc)
  exact (lookupOf_byName wf jobID name .completed).mpr ⟨u', hu, euj, eun, hc⟩

lemma noDoomed_of_steps (h : Forall₂ (fun s s' : Step =>
      s'.key = s.key ∧ (s'.status = .pending ∨ s'.status.Unsuccessful → s' = s)) db.steps db'.steps)
    (hn : (db.view jobID).NoDoomed) : (db'.view jobID).NoDoomed := by
  intro s' hs' hp u' hu' hname hun
  obtain ⟨hmem', ej⟩ := mem_view_steps.mp hs'
  obtain ⟨humem', euj⟩ := mem_view_steps.mp hu'
  obtain ⟨s, hs, _, hsame⟩ := of_mem_right h hmem'
  obtain ⟨u, hu, _, hsame'⟩ := of_mem_right h humem'
  obtain rfl := hsame (.inl hp)
  obtain rfl := hsame' (.inr hun)
  exact hn s' (mem_view_steps.mpr ⟨hs, ej⟩) hp u' (mem_view_steps.mpr ⟨hu, euj⟩) hname hun

end

/-! ## Sound states -/

def LiveBut (but : ID → Prop) (db : DB) : Prop :=
  ∀ s ∈ db.steps, ¬ s.status.IsTerminal → ¬ but s.id → ∃ t ∈ db.tasks, t.stepID = s.id ∧ ¬ t.status.IsTerminal

structure JobSettled (db : DB) (j : Job) : Prop where
  noDoomed : (db.view j.id).NoDoomed
  gate : (db.view j.id).NoReleasable ∨ (j.status = .blocked ∧ JobWaits db j.id)

def HasOpenStep (db : DB) (jobID : ID) : Prop := ∃ s ∈ db.steps, s.jobID = jobID ∧ ¬ s.status.IsTerminal

/-- No open job is stranded, apart from steps that the operation under way still owes a check. -/
structure SoundBut (but : ID → Prop) (db : DB) : Prop where
  wf : WF db
  live : LiveBut but db
  jobs : ∀ j ∈ db.jobs, ¬ j.status.IsTerminal → HasOpenStep db j.id ∧ JobSettled db j

def Sound (db : DB) : Prop := SoundBut (fun _ => False) db

structure Repairing (but : ID → Prop) (jobID : ID) (db : DB) : Prop where
  wf : WF db
  live : LiveBut but db
  others : ∀ j ∈ db.jobs, j.id ≠ jobID → ¬ j.status.IsTerminal → HasOpenStep db j.id ∧ JobSettled db j

lemma SoundBut.repairing {but : ID → Prop} {db : DB} (h : SoundBut but db) (jobID : ID) :
    Repairing but jobID db := ⟨h.wf, h.live, fun j hj _ => h.jobs j hj⟩

section
variable {db db' : DB} {id : ID} {touched : ID → Prop}

lemma JobWaits.of_view (w : JobWaits db id) (h : db'.view id = db.view id)
    (ha : db'.attempts = db.attempts) : JobWaits db' id where
  steps := fun s hs e => by
    have hmem : s ∈ (db.view id).steps := h ▸ mem_view_steps.mpr ⟨hs, e⟩
    exact w.steps s (mem_view_steps.mp hmem).1 e
  tasks := fun t ht e => by
    have hmem : t ∈ (db.view id).tasks := h ▸ mem_view_tasks.mpr ⟨ht, e⟩
    exact w.tasks t (mem_view_tasks.mp hmem).1 e
  attempts := fun a ham t ht e ej => by
    have hmem : t ∈ (db.view id).tasks := h ▸ mem_view_tasks.mpr ⟨ht, ej⟩
    exact w.attempts a (ha ▸ ham) t (mem_view_tasks.mp hmem).1 e ej

lemma Within.settled (h : Within touched db db') {j : Job} (hj : j ∈ db'.jobs) (hn : ¬ touched j.id)
    (hjob : j ∈ db.jobs → HasOpenStep db j.id ∧ JobSettled db j) : HasOpenStep db' j.id ∧ JobSettled db' j := by
  have hview := h.view j.id hn
  have hmem : j ∈ (db.view j.id).jobs := hview ▸ mem_view_jobs.mpr ⟨hj, rfl⟩
  obtain ⟨⟨s, hs, es, hopen⟩, hsettled⟩ := hjob (mem_view_jobs.mp hmem).1
  have hs' : s ∈ (db'.view j.id).steps := hview ▸ mem_view_steps.mpr ⟨hs, es⟩
  refine ⟨⟨s, (mem_view_steps.mp hs').1, es, hopen⟩, ⟨hview ▸ hsettled.noDoomed, ?_⟩⟩
  rw [hview]
  exact hsettled.gate.imp_right fun ⟨hb, hw⟩ => ⟨hb, hw.of_view hview h.attempts_eq⟩

lemma Repairing.within {but but' : ID → Prop} (h : Repairing but id db) (w : Within (· = id) db db')
    (live : LiveBut but' db') : Repairing but' id db' :=
  ⟨w.wf h.wf, live, fun _ hj hne ht => w.settled hj hne fun hj' => h.others _ hj' hne ht⟩

end

section
variable {db : DB} {jobID : ID} {ids : List ID} {but : ID → Prop}

lemma LiveBut.release (h : LiveBut but db) : LiveBut but (movePendingSteps ids .ready .ready "" db) := by
  refine forall_mem_update.mpr fun s hs hopen hbut => ?_
  have eid : (if s.id ∈ ids ∧ s.status = .pending then { s with status := StepStatus.ready } else s).id = s.id := by
    split <;> rfl
  rw [eid] at hbut ⊢
  have hopen' : ¬ s.status.IsTerminal := by
    split at hopen
    · rename_i hq
      simp [hq.2, StepStatus.IsTerminal]
    · exact hopen
  obtain ⟨t, ht, et, hto⟩ := h s hs hopen' hbut
  refine ⟨_, mem_update.mpr ⟨t, ht, rfl⟩, ?_⟩
  split
  · exact ⟨et, by simp [moveTask, TaskStatus.IsTerminal]⟩
  · exact ⟨et, hto⟩

lemma LiveBut.cancel (h : LiveBut but db) (hids : PendingOf db jobID ids) :
    LiveBut but (cancelSteps ids db) := by
  refine forall_update (fun s _ _ hopen => ?_) fun s hs hq hopen hbut => ?_
  · simp [StepStatus.IsTerminal] at hopen
  have hnot : s.id ∉ ids := fun hmem => hq ⟨hmem, (hids s hs hmem).2⟩
  obtain ⟨t, ht, et, hto⟩ := h s hs hopen hbut
  refine ⟨t, mem_update.mpr ⟨t, ht, if_neg fun hp => hnot (et ▸ hp.1)⟩, et, hto⟩

lemma moveSteps_steps {stepTo : StepStatus} {taskTo : TaskStatus} {reason : String}
    {P : StepStatus → Prop} (hP : ¬ P stepTo) (hp : stepTo ≠ .pending) :
    Forall₂ (fun s s' : Step => s'.key = s.key ∧ (s'.status = .pending ∨ P s'.status → s' = s))
      db.steps (movePendingSteps ids stepTo taskTo reason db).steps :=
  forall₂_update (fun _ => ⟨rfl, fun _ => rfl⟩) fun _ _ => ⟨rfl, fun h => (h.elim hp hP).elim⟩

lemma JobWaits.cancelSteps (w : JobWaits db jobID) (wf : WF db) {id : ID} (hids : PendingOf db id ids) :
    JobWaits (cancelSteps ids db) jobID := by
  refine w.of_sameKeys (cancelSteps_within wf fun s hs h => (hids s hs h).1).sameKeys
    (forall_update (fun _ _ _ _ => .inr rfl) fun s hs _ => w.steps s hs)
    (forall_update (fun _ _ _ _ => .inr rfl) fun t ht _ => w.tasks t ht)

end

/-! ## The cascade -/

section
variable {db : DB} {jobID : ID} {but : ID → Prop} {s : Step}

lemma resolve_repairs (h : Repairing but jobID db) :
    Repairing but jobID (resolveDependencies jobID db).2 ∧ (resolveDependencies jobID db).2.jobs = db.jobs ∧
      ((resolveDependencies jobID db).2.view jobID).NoReleasable ∧
      ((db.view jobID).NoDoomed → ((resolveDependencies jobID db).2.view jobID).NoDoomed) ∧
      (HasOpenStep db jobID → HasOpenStep (resolveDependencies jobID db).2 jobID) := by
  have within := resolve_within h.wf jobID
  have hnone := resolve_noReleasable h.wf jobID
  obtain ⟨n, heq⟩ := resolve_eq h.wf jobID
  rw [heq] at within hnone ⊢
  refine ⟨h.within within h.live.release, rfl, hnone, noDoomed_of_steps ?_, ?_⟩
  · exact moveSteps_steps (by simp [StepStatus.Unsuccessful]) (by simp)
  rintro ⟨s, hs, e, hopen⟩
  refine ⟨_, mem_update.mpr ⟨s, hs, rfl⟩, ?_⟩
  split
  · exact ⟨e, by simp [StepStatus.IsTerminal]⟩
  · exact ⟨e, hopen⟩

lemma cancelDependents_repairs (h : Repairing but jobID db) :
    Repairing but jobID (cancelDependents jobID db).2 ∧ (cancelDependents jobID db).2.jobs = db.jobs ∧
      ((cancelDependents jobID db).2.view jobID).NoDoomed ∧
      ((db.view jobID).NoReleasable → ((cancelDependents jobID db).2.view jobID).NoReleasable) ∧
      (JobWaits db jobID → JobWaits (cancelDependents jobID db).2 jobID) := by
  have within := cancelDependents_within h.wf jobID
  obtain ⟨n, ids, heq, hids, hnone⟩ := cancelDependents_eq h.wf jobID
  rw [heq] at within ⊢
  refine ⟨h.within within (h.live.cancel hids), rfl, hnone, ?_, fun w => w.cancelSteps h.wf hids⟩
  refine noReleasable_of_steps h.wf (within.wf h.wf) ?_
  exact moveSteps_steps (P := (· = .completed)) (by simp) (by simp)

lemma finalizeStep_live (h : LiveBut (· = s.id) db) (hwf : WF db) (hs : s ∈ db.steps)
    {st : StepStatus} (ht : st.IsTerminal) (hrow : { s with status := st } ∈ (finalizeStep s.id db).2.steps) :
    LiveBut (fun _ => False) (finalizeStep s.id db).2 := by
  have within : Within (· = s.jobID) db (finalizeStep s.id db).2 := finalizeStep_within hwf hs
  have tasks : (finalizeStep s.id db).2.tasks = db.tasks := finalizeStep_of (R := fun d => d.tasks = db.tasks) rfl rfl
  intro u' hu' hopen _
  rw [tasks]
  by_cases e : u'.id = s.id
  · rw [(within.wf hwf).steps_keyed.eq_of_mem hu' hrow e] at hopen
    exact absurd ht hopen
  obtain ⟨u, hu, hk, hkeep⟩ := of_mem_right within.steps hu'
  simp only [Step.key, Prod.mk.injEq] at hk
  have hopen' : ¬ u.status.IsTerminal := fun hu => hopen (hkeep hu ▸ hu)
  rw [hk.1] at e ⊢
  exact h u hu hopen' e

lemma finalizeStep_steps {P : StepStatus → Prop}
    (hP : ∀ changed st, finalizeStep s.id db = (.ok (some st, changed), (finalizeStep s.id db).2) → ¬ P st) :
    Forall₂ (fun s s' : Step => s'.key = s.key ∧ (s'.status = .pending ∨ P s'.status → s' = s))
    db.steps (finalizeStep s.id db).2.steps := by
  have refl := forall₂_refl (R := fun s s' : Step =>
    s'.key = s.key ∧ (s'.status = .pending ∨ P s'.status → s' = s)) (fun _ => ⟨rfl, fun _ => rfl⟩) db.steps
  unfold finalizeStep at hP ⊢
  split
  · exact refl
  rename_i s0 hs0
  simp only [hs0] at hP
  split
  · exact refl
  rename_i hterm
  rw [if_neg hterm] at hP
  split
  · rename_i hclosed
    rw [if_pos hclosed] at hP
    refine forall₂_update (fun _ => ⟨rfl, fun _ => rfl⟩) fun u hu => ⟨rfl, fun h => ?_⟩
    dsimp only at h
    rw [hu.1] at h
    rcases h with h | h
    · have := stepOutcome_isTerminal db s.id
      rw [h] at this
      simp [StepStatus.IsTerminal] at this
    · exact absurd h (hP true _ rfl)
  · exact refl

lemma releaseAndResolve_sound (h : Sound db) {id : ID} (hv : blockedVerdict db id = .release) :
    Sound (releaseAndResolve id db).2 := by
  obtain ⟨j, hj, hb, _⟩ := blocked_of_verdict hv nofun
  have hups := upstreams_of_verdict hv
  have hrel : releaseBlockedJob id db = (.ok true, (releaseBlockedJob id db).2) :=
    Prod.ext (by simp [releaseBlockedJob, hj, hb, hups]) rfl
  have within : Within (· = id) db (releaseBlockedJob id db).2 := releaseBlockedJob_within id
  have rows : (releaseBlockedJob id db).2.steps = db.steps ∧ (releaseBlockedJob id db).2.tasks = db.tasks := by
    simp only [releaseBlockedJob, hj]
    exact ⟨rfl, rfl⟩
  have live : LiveBut (fun _ => False) (releaseBlockedJob id db).2 := by
    unfold LiveBut
    rw [rows.1, rows.2]
    exact h.live
  obtain ⟨rep, hjobs, hnone, hdoomed, hopen⟩ := resolve_repairs ((h.repairing id).within within live)
  have hrun : (releaseAndResolve id db).2 = (resolveDependencies id (releaseBlockedJob id db).2).2 := by
    obtain ⟨n, hn⟩ := resolve_eq (within.wf h.wf) id
    rw [releaseAndResolve, tx_bind_ok hrel, if_pos rfl, bind_ok hn, hn]
    rfl
  rw [hrun]
  refine ⟨rep.wf, rep.live, fun k hk ht => ?_⟩
  by_cases e : k.id = id
  swap
  · exact rep.others k hk e ht
  -- the job was open before, with the same steps
  obtain ⟨hmem, hid⟩ := DB.job?_some hj
  obtain ⟨hstep, hsettled⟩ := h.jobs j hmem (by simp [hb, JobStatus.IsTerminal])
  rw [hid] at hstep
  have hd := hsettled.noDoomed
  rw [hid] at hd
  subst e
  refine ⟨hopen ?_, hdoomed ?_, .inl hnone⟩
  · unfold HasOpenStep
    rw [rows.1]
    exact hstep
  · simp only [JobView.NoDoomed, DB.view, listSteps, rows.1] at hd ⊢
    exact hd

lemma cancelBlocked_sound (h : Sound db) (id : ID) (reason : String) (now : Time) :
    Sound (cancelBlockedJob id reason now db).2 := by
  by_cases hb : Blocked db id
  swap
  · have same : (cancelBlockedJob id reason now db).2 = db := by
      unfold cancelBlockedJob
      split
      · rfl
      rename_i j hj
      rw [if_pos fun hst => hb ⟨j, (DB.job?_some hj).1, (DB.job?_some hj).2, hst⟩]
    rwa [same]
  obtain ⟨db', heq, within, ⟨j', hj', hst'⟩, _⟩ := cancelBlocked_spec h.wf hb reason now
  obtain ⟨j, hj, rfl, hst⟩ := hb
  have hdb' : db' = sqlCancelJobPendingTasks reason j.id
      (sqlCancelJobOpenSteps j.id (sqlCancelBlockedJobRow j.id now db)) := by
    have hfind := h.wf.job?_eq hj
    simp only [cancelBlockedJob, hfind, hst, ne_eq, not_true_eq_false, if_false, Prod.mk.injEq, true_and] at heq
    exact heq.symm
  have live : LiveBut (fun _ => False) db' := by
    rw [hdb']
    refine forall_update (fun s _ _ hopen => ?_) fun s hs hq hopen _ => ?_
    · simp [StepStatus.IsTerminal] at hopen
    have hne : s.jobID ≠ j.id := fun e => hq ⟨e, hopen⟩
    obtain ⟨t, ht, et, hto⟩ := h.live s hs hopen id
    refine ⟨t, mem_update.mpr ⟨t, ht, if_neg fun hp => hne ?_⟩, et, hto⟩
    rw [← h.wf.task_jobID ht hs et, hp.1]
  have rep := (h.repairing j.id).within within live
  rw [heq]
  refine ⟨rep.wf, rep.live, fun k hk ht => rep.others k hk (fun e => ht ?_) ht⟩
  obtain ⟨hmem', hid'⟩ := DB.job?_some hj'
  rw [rep.wf.jobs_keyed.eq_of_mem hk hmem' (e.trans hid'.symm), hst']
  exact .inr (.inr rfl)

lemma reconcileJob_sound {reconcile : ID → Sched Unit}
    (hrec : ∀ up s, Sound s → Sound (reconcile up s).2) (h : Sound db) (now : Time) (id : ID) :
    Sound (reconcileBlockedJob reconcile now id db).2 := by
  rw [reconcileBlockedJob, read_bind]
  cases hv : blockedVerdict db id with
  | wait => exact h
  | release => exact releaseAndResolve_sound h hv
  | cancel =>
    have hs : Prog.Yields (.tx (cancelBlockedJob id failureReasonUpstreamFailed now)) db
        fun _ s => Sound s := cancelBlocked_sound h id failureReasonUpstreamFailed now
    exact hs.bind (f := fun _ => reconcile id) (Q := fun _ s => Sound s) (fun _ s => hrec id s)
      fun _ _ hs' => hs'

lemma reconcileNested_sound (now : Time) (fuel : Nat) (up : ID) (h : Sound db) :
    Sound (reconcileNested now fuel up db).2 := by
  induction fuel generalizing up db with
  | zero => exact h
  | succ fuel ih =>
    rw [reconcileNested, read_bind]
    exact Prog.Yields.each (I := Sound)
      (fun id _ s hs => reconcileJob_sound (fun up s hs => ih up hs) hs now id) h

lemma reconcileDependents_sound (now : Time) (up : ID) (h : Sound db) :
    Sound (reconcileDependents now up db).2 := reconcileNested_sound now _ up h

lemma jobCompletion_sound (h : Repairing (fun _ => False) jobID db) (hjob : ∃ j ∈ db.jobs, j.id = jobID)
    (hsettled : ∀ j ∈ db.jobs, j.id = jobID → ¬ j.status.IsTerminal → JobSettled db j) (now : Time) :
    Sound (checkJobCompletion now jobID db).2 := by
  obtain ⟨j, hj, rfl⟩ := hjob
  rcases finalizeJob_cases h.wf hj now with ⟨ht, hopen, heq⟩ | ⟨st, changed, heq, j1, hj1, e1, ht1⟩
  · have hrun : (checkJobCompletion now j.id db).2 = db := by
      rw [checkJobCompletion, tx_bind_ok heq]
      rfl
    rw [hrun]
    refine ⟨h.wf, h.live, fun k hk hkt => ?_⟩
    by_cases e : k.id = j.id
    · refine ⟨?_, hsettled k hk e hkt⟩
      simp only [jobHasNoOpenStep, not_forall] at hopen
      obtain ⟨s, hs, es, hso⟩ := hopen
      exact ⟨s, hs, es.trans e.symm, hso⟩
    · exact h.others k hk e hkt
  · have heq' : finalizeJob j.id now db = (.ok (some st, changed), (finalizeJob j.id now db).2) := Prod.ext heq rfl
    have hrun : (checkJobCompletion now j.id db).2 = (reconcileDependents now j.id (finalizeJob j.id now db).2).2 := by
      rw [checkJobCompletion, tx_bind_ok heq']
      rfl
    rw [hrun]
    apply reconcileDependents_sound
    have within : Within (· = j.id) db (finalizeJob j.id now db).2 := finalizeJob_within j.id now
    have tasks : (finalizeJob j.id now db).2.tasks = db.tasks :=
      finalizeJob_of (R := fun d => d.tasks = db.tasks) rfl rfl
    have live : LiveBut (fun _ => False) (finalizeJob j.id now db).2 := by
      unfold LiveBut
      rw [finalizeJob_steps, tasks]
      exact h.live
    have rep := h.within within live
    refine ⟨rep.wf, rep.live, fun k hk ht => rep.others k hk (fun e => ht ?_) ht⟩
    rw [rep.wf.jobs_keyed.eq_of_mem hk hj1 (e.trans e1.symm)]
    exact ht1

lemma stepCompletion_sound (hs : s ∈ db.steps) (h : SoundBut (· = s.id) db) (now : Time) :
    Sound (checkStepCompletion now s.id s.jobID db).2 := by
  rcases finalizeStep_cases h.wf hs with ⟨ht, hopen, heq⟩ | ⟨st, changed, db1, heq, ht, hrow⟩
  · have hrun : (checkStepCompletion now s.id s.jobID db).2 = db := by
      rw [checkStepCompletion, tx_bind_ok heq]
      rfl
    rw [hrun]
    refine ⟨h.wf, fun u hu huo _ => ?_, h.jobs⟩
    by_cases e : u.id = s.id
    · simp only [stepHasNoOpenTask, not_forall] at hopen
      obtain ⟨t, htm, et, hto⟩ := hopen
      exact ⟨t, htm, et.trans e.symm, hto⟩
    · exact h.live u hu huo e
  have hdb1 : (finalizeStep s.id db).2 = db1 := congrArg Prod.snd heq
  have within1 : Within (· = s.jobID) db (finalizeStep s.id db).2 := finalizeStep_within h.wf hs
  have rep1 : Repairing (fun _ => False) s.jobID db1 := by
    rw [← hdb1] at hrow ⊢
    exact (h.repairing s.jobID).within within1 (finalizeStep_live h.live h.wf hs ht hrow)
  have hjobs1 : db1.jobs = db.jobs := hdb1 ▸ finalizeStep_jobs s.id
  have hrun : checkStepCompletion now s.id s.jobID db =
      (propagateStepDependencies s.jobID st >>= fun _ => checkJobCompletion now s.jobID) db1 := by
    rw [checkStepCompletion, tx_bind_ok heq]
  -- the outcome the finalization wrote is the one propagated
  have only : ∀ changed' st', finalizeStep s.id db = (.ok (some st', changed'), (finalizeStep s.id db).2) →
      st' = st := by
    intro changed' st' heq'
    rw [heq] at heq'
    simp only [Prod.mk.injEq, Except.ok.injEq, Option.some.injEq] at heq'
    exact heq'.1.1.symm
  rw [hrun]
  by_cases hc : st = .completed
  · -- completed: nothing new is doomed, the steps behind it are released
    obtain ⟨rep2, hjobs2, hnone, hdoomed, _⟩ := resolve_repairs rep1
    obtain ⟨n, hn⟩ := resolve_eq rep1.wf s.jobID
    have hprop : propagateStepDependencies s.jobID st db1 = (.ok (), (resolveDependencies s.jobID db1).2) := by
      rw [propagateStepDependencies, if_pos hc, bind_ok hn, hn]
      rfl
    rw [bind_ok hprop]
    have hjob : ∃ j ∈ (resolveDependencies s.jobID db1).2.jobs, j.id = s.jobID := by
      rw [hjobs2, hjobs1]
      exact h.wf.step_job s hs
    refine jobCompletion_sound rep2 hjob (fun k hk e hkt => ?_) now
    rw [hjobs2, hjobs1] at hk
    have hk' := (h.jobs k hk hkt).2.noDoomed
    rw [e] at hk'
    refine ⟨e ▸ hdoomed ?_, .inl (e ▸ hnone)⟩
    rw [← hdb1]
    refine noDoomed_of_steps (finalizeStep_steps fun changed' st' heq' => ?_) hk'
    rw [only changed' st' heq', hc]
    simp [StepStatus.Unsuccessful]
  · -- failed or canceled: nothing new is releasable, the steps behind it are canceled
    obtain ⟨rep2, hjobs2, hnone, hrel, hwaits⟩ := cancelDependents_repairs rep1
    obtain ⟨n, ids, hn, _, _⟩ := cancelDependents_eq rep1.wf s.jobID
    have hprop : propagateStepDependencies s.jobID st db1 = (.ok (), (cancelDependents s.jobID db1).2) := by
      rw [propagateStepDependencies, if_neg hc, bind_ok hn, hn]
      rfl
    rw [bind_ok hprop]
    have hjob : ∃ j ∈ (cancelDependents s.jobID db1).2.jobs, j.id = s.jobID := by
      rw [hjobs2, hjobs1]
      exact h.wf.step_job s hs
    refine jobCompletion_sound rep2 hjob (fun k hk e hkt => ?_) now
    rw [hjobs2, hjobs1] at hk
    have hgate := (h.jobs k hk hkt).2.gate
    rw [e] at hgate
    refine ⟨e ▸ hnone, ?_⟩
    rw [e]
    rcases hgate with hno | ⟨hb, hw⟩
    · refine .inl (hrel ?_)
      rw [← hdb1]
      refine noReleasable_of_steps h.wf (within1.wf h.wf)
        (finalizeStep_steps (P := (· = .completed)) fun changed' st' heq' => ?_) hno
      rw [only changed' st' heq']
      exact hc
    · exact .inr ⟨hb, hwaits (hdb1 ▸ hw.finalizeStep h.wf s.id)⟩

end

/-! ## Transactions outside the cascade -/

def OpenBut (but : ID → Prop) (db db' : DB) : Prop :=
  Forall₂ (fun t t' : Task =>
    t'.key = t.key ∧ (¬ but t.stepID → ¬ t.status.IsTerminal → ¬ t'.status.IsTerminal)) db.tasks db'.tasks

section
variable {db db' db'' : DB} {but : ID → Prop}

namespace OpenBut

lemma of_eq (h : db'.tasks = db.tasks) : OpenBut but db db' := by
  unfold OpenBut
  rw [h]
  exact forall₂_refl (fun _ => ⟨rfl, fun _ h => h⟩) _
lemma updateTasks {p : Task → Prop} [DecidablePred p] {f : Task → Task} (hkey : ∀ t, (f t).key = t.key)
    (hf : ∀ t ∈ db.tasks, p t → ¬ but t.stepID → ¬ (f t).status.IsTerminal) :
    OpenBut but db (db.updateTasks p f) :=
  forall₂_update_mem (fun _ => ⟨rfl, fun _ h => h⟩) fun t ht hp => ⟨hkey t, fun hb _ => hf t ht hp hb⟩
lemma trans (h1 : OpenBut but db db') (h2 : OpenBut but db' db'') : OpenBut but db db'' :=
  forall₂_trans (fun t t' _ a b => ⟨b.1.trans a.1, fun hb ho => b.2
    (by have : t'.stepID = t.stepID := congrArg (·.2.2) a.1
        rwa [this]) (a.2 hb ho)⟩) h1 h2

end OpenBut

lemma HasOpenStep.of_steps {id id' : ID} (h : HasOpenStep db id) (hs : listSteps db' id' = listSteps db id) :
    HasOpenStep db' id' := by
  obtain ⟨s, hmem, e, hopen⟩ := h
  have hmem' : s ∈ listSteps db' id' := hs ▸ mem_listSteps.mpr ⟨hmem, e⟩
  exact ⟨s, (mem_listSteps.mp hmem').1, (mem_listSteps.mp hmem').2, hopen⟩

lemma JobSettled.of_steps {j j' : Job} (h : JobSettled db j) (hs : listSteps db' j'.id = listSteps db j.id)
    (hgate : j.status = .blocked → JobWaits db j.id →
      (db.view j.id).NoReleasable ∨ (j'.status = .blocked ∧ JobWaits db' j'.id)) : JobSettled db' j' := by
  have hsteps : (db'.view j'.id).steps = (db.view j.id).steps := hs
  have hrel : (db.view j.id).NoReleasable → (db'.view j'.id).NoReleasable := fun hn => by
    rwa [JobView.NoReleasable, hsteps]
  refine ⟨?_, ?_⟩
  · rw [JobView.NoDoomed, hsteps]
    exact h.noDoomed
  · rcases h.gate with hn | ⟨hb, hw⟩
    · exact .inl (hrel hn)
    · exact (hgate hb hw).imp_left hrel

lemma SoundBut.levels (h : Sound db) (l : Levels db db') (wf : WF db')
    (hw : ∀ id, JobWaits db id → JobWaits db' id) (ho : OpenBut but db db') : SoundBut but db' where
  wf := wf
  live := fun s hs hopen hb => by
    rw [l.steps] at hs
    obtain ⟨t, ht, et, hto⟩ := h.live s hs hopen id
    obtain ⟨t', ht', hk, hkeep⟩ := of_mem_left ho ht
    simp only [Task.key, Prod.mk.injEq] at hk
    exact ⟨t', ht', hk.2.2.trans et, hkeep (et ▸ hb) hto⟩
  jobs := fun j' hj' ht => by
    obtain ⟨j, hj, hid, hst⟩ := of_mem_right l.jobs hj'
    obtain ⟨hopen, hset⟩ := h.jobs j hj (hst ▸ ht)
    have hsteps : listSteps db' j'.id = listSteps db j.id := by simp only [listSteps, l.steps, hid]
    exact ⟨hopen.of_steps hsteps, hset.of_steps hsteps fun hb hwait => .inr ⟨hst.trans hb, hid ▸ hw j.id hwait⟩⟩

lemma SoundBut.sameKeys (h : Sound db) (l : Levels db db') (k : SameKeys db db') (ho : OpenBut but db db') :
    SoundBut but db' :=
  .levels h l (h.wf.of_sameKeys k)
    (fun _ w => w.of_sameKeys k (fun s hs => w.steps s (l.steps ▸ hs)) (w.tasks_of_levels l)) ho

lemma SoundBut.jobRows (op : Op) (h : Sound db) (hop : op.OnJobRow)
    (hkeep : ∀ j ∈ db.jobs, j.status = .blocked → JobWaits db j.id → op.jobStatus db j = .blocked) :
    Sound (op.apply db) := by
  have rows := Op.jobRows hop db
  have hsub : ∀ p blocked, op ≠ .submit p blocked := by
    rintro p blocked rfl
    exact hop
  refine ⟨op.wf h.wf, ?_, fun j' hj' ht => ?_⟩
  · unfold LiveBut
    rw [rows.steps, rows.tasks]
    exact h.live
  obtain ⟨j, hj, hid, _, hshift⟩ := of_mem_right rows.jobs hj'
  have hst := Op.jobStatus_eq hsub h.wf hj hj' hid
  have hopen : ¬ j.status.IsTerminal := hshift.elim (fun e => e ▸ ht) fun hs => hs.1
  obtain ⟨hstep, hset⟩ := h.jobs j hj hopen
  have hsteps : listSteps (op.apply db) j'.id = listSteps db j.id := by simp only [listSteps, rows.steps, hid]
  exact ⟨hstep.of_steps hsteps, hset.of_steps hsteps fun hb hw =>
    .inr ⟨hst.trans (hkeep j hj hb hw), hid ▸ hw.jobRows rows⟩⟩

lemma OpenBut.reported (but : ID → Prop) (db : DB) : Reported (OpenBut but db) where
  workers h _ := h.trans (.of_eq rfl)
  note h _ := h.trans (.of_eq rfl)
  start h _ := h.trans (.updateTasks (fun _ => rfl) fun _ _ _ _ => by simp [TaskStatus.IsTerminal])
  reclaim h _ _ := (h.trans (.updateTasks (f := reclaimTask) (fun _ => rfl) fun _ _ _ _ => by
    simp [reclaimTask, TaskStatus.IsTerminal])).trans (.of_eq (closeTasks_tasks ..))

lemma leaseTask_open (req : LeaseRequest) : OpenBut but db (leaseTask req db).2 := by
  refine leaseTask_of (.of_eq rfl) fun scope _ _ => ?_
  have assigned : OpenBut but db (leaseTaskRow scope req db) :=
    .updateTasks (fun _ => rfl) fun _ _ _ _ => by simp [assignTask, TaskStatus.IsTerminal]
  exact assigned.trans (.of_eq rfl)

lemma recordFailure_open (attemptID taskID : ID) (exitCode : Option Int) (sessionID message : String)
    (at_ now : Time) :
    OpenBut but db (recordTaskFailure attemptID taskID exitCode sessionID message at_ now db).2 :=
  recordFailure_of (.of_eq rfl) (.of_eq rfl) fun _ _ h =>
    h.trans (forall₂_update (fun _ => ⟨rfl, fun _ ho => ho⟩) fun _ _ => ⟨rfl, fun _ ho => ho⟩)

lemma SoundBut.workerSide (op : Op) (h : Sound db) (hw : op.WorkerSide) (ho : OpenBut but db (op.apply db)) :
    SoundBut but (op.apply db) :=
  .levels h (Op.levels hw db) (op.wf h.wf) (fun _ w => w.workerSide hw h.wf) ho
lemma SoundBut.reports (op : Op) (h : Sound db) (hr : op.IsReport) : Sound (op.apply db) := by
  have hw : op.WorkerSide := by cases op <;> trivial
  exact .workerSide op h hw ((OpenBut.reported _ db).apply op hr (.of_eq rfl))

lemma Op.standalone_sound {op : Op} (hop : op.Standalone) (h : Sound db) : Sound (op.apply db) := by
  by_cases hr : op.IsReport
  · exact .reports op h hr
  cases op with
  | saveFarm | saveQueue | saveUsagePool => exact .workerSide _ h trivial (.of_eq rfl)
  | leaseTask => exact .workerSide _ h trivial (leaseTask_open ..)
  | updateJob id farmID queueID retry =>
    refine .workerSide _ h trivial ?_
    simp only [Op.apply, Sqi.updateJob]
    split <;> exact .of_eq rfl
  | demoteStalledJob id =>
    refine .jobRows _ h trivial fun j _ hb _ => ?_
    have hnot : ¬ (j.id = id ∧ stalledJob db j) := fun hp => by
      have hr := hp.2.1
      rw [hb] at hr
      cases hr
    rw [Op.jobStatus, if_neg hnot, hb]
  | pauseJob id | resumeJob id =>
    refine .jobRows _ h trivial fun j _ hb _ => ?_
    simp [Op.jobStatus, hb]
  | _ => first | exact hop.elim | exact absurd trivial hr

end

/-! ## Reports and cancels -/

section
variable {db : DB} {m : TaskStatusMsg} {t : Task} {a : TaskAttempt}

lemma promoteJobRunning_sound (id : ID) (now : Time) (h : Sound db) :
    Sound (promoteJobRunning id now db).2 := by
  refine SoundBut.jobRows (.promoteJobRunning id now) h trivial fun j _ hb _ => ?_
  simp [Op.jobStatus, hb]
lemma progress_sound (p : AttemptProgress) (h : Sound db) :
    Sound (recordAttemptProgress p db).2 := SoundBut.reports (.recordAttemptProgress p) h trivial

lemma startReported_keeps (now : Time) (m : TaskStatusMsg) (snap : Option AttemptProgress) :
    Prog.Keeps Sound (startReported now m snap) := by
  refine .bind (fun s h => ?_) fun started => ?_
  · exact SoundBut.reports (.startTaskAttempt m.attemptID m.taskID m.sessionID) h trivial
  split
  swap
  · exact .pure ()
  refine .bind (.read _) fun task => ?_
  have promoted : ∀ t : Task, Prog.Keeps Sound
      (.quiet (.lift (promoteJobRunning t.jobID now) : Sched Bool)) :=
    fun t => .quiet (.lift fun _ => promoteJobRunning_sound t.jobID now)
  cases task with
  | none => exact .pure ()
  | some task =>
    cases snap with
    | none => exact promoted task
    | some p => exact .bind (.quiet fun _ => progress_sound p) fun _ => promoted task

lemma handleTaskRunning_keeps (now : Time) (m : TaskStatusMsg) :
    Prog.Keeps Sound (handleTaskRunning now m) := by
  unfold handleTaskRunning
  split
  · refine .bind (fun s h => ?_) fun done => ?_
    · have hrec := progress_sound (snapshotProgress now m) h
      unfold handleRunningSnapshot
      generalize recordAttemptProgress (snapshotProgress now m) s = r at hrec
      obtain ⟨r, s'⟩ := r
      split <;> simp_all
    · split
      · exact .pure ()
      · exact startReported_keeps now m _
  · exact startReported_keeps now m none

lemma terminal_sound (h : Sound db) (ht : t ∈ db.tasks) (hid : t.id = m.taskID)
    (now : Time) (outcome : Outcome) (at_ : Time) : Sound (handleTaskTerminal now m outcome at_ db).2 := by
  rcases complete_cases (c := m.completion outcome at_) h.wf ht hid outcome.attemptStatus_ne_running now with
    ⟨_, heq⟩ | ⟨heq, _, hd⟩
  · have w : WorkSide db (closeAttemptAndRelease (m.completion outcome at_) now db) := closeRelease_workSide ..
    rw [terminal_rejected heq (hid ▸ h.wf.task?_eq ht)]
    exact .sameKeys h w.levels w.sameKeys (.of_eq rfl)
  · have hopen : OpenBut (· = t.stepID) db
        (Op.apply (.completeTaskAttempt (terminalReport m outcome at_) now) db) := by
      have happly : Op.apply (.completeTaskAttempt (terminalReport m outcome at_) now) db =
          (closeAttemptAndRelease (m.completion outcome at_) now db).updateTasks
            (fun u => u.id = (m.completion outcome at_).taskID) (completedTask (m.completion outcome at_)) :=
        congrArg Prod.snd heq
      rw [happly]
      have closed : OpenBut (· = t.stepID) db (closeAttemptAndRelease (m.completion outcome at_) now db) := .of_eq rfl
      refine closed.trans (.updateTasks (fun _ => rfl) fun u hu e hb => ?_)
      exact absurd (congrArg Task.stepID (h.wf.tasks_keyed.eq_of_mem hu ht (e.trans hid.symm))) hb
    have h1 := SoundBut.workerSide (.completeTaskAttempt (terminalReport m outcome at_) now)
      h trivial hopen
    have happly : Op.apply (.completeTaskAttempt (terminalReport m outcome at_) now) db = _ := congrArg Prod.snd heq
    rw [happly] at h1
    have hfind := h1.wf.task?_eq hd.task
    rw [hd.id] at hfind
    rw [terminal_applied heq hfind]
    obtain ⟨s, hs, es, ej⟩ := h1.wf.task_step _ hd.task
    rw [← es, ← ej]
    have e : s.id = t.stepID := es
    exact stepCompletion_sound hs (e ▸ h1) now

lemma parkJob_sound (h : Sound db) {id : ID} (reason : String)
    (hex : ∃ a ∈ db.attempts, ∃ t ∈ db.tasks, t.id = a.taskID ∧ t.jobID = id) :
    Sound (parkJob id reason db).2 := by
  refine SoundBut.jobRows (.parkJob id reason) h trivial fun j _ hb hw => ?_
  rw [Op.jobStatus, if_neg, hb]
  rintro ⟨rfl, _⟩
  obtain ⟨a, ha, t, ht, e, ej⟩ := hex
  exact hw.attempts a ha t ht e ej

lemma settleFailure_sound (h : Sound db) (ht : t ∈ db.tasks) (hid : t.id = m.taskID)
    (ha : a ∈ db.attempts) (et : a.taskID = t.id) (now : Time) (policy : RetryPolicy)
    (r : FailureRecord) (at_ : Time) : Sound (settleFailure now m t.jobID policy r at_ db).2 := by
  by_cases hret : ¬ (0 < policy.failureLimit ∧ policy.failureLimit ≤ (r.jobFailed : Int)) ∧
      (r.taskFailed : Int) < policy.maxAttempts
  · rw [settleFailure, if_pos hret]
    exact SoundBut.workerSide (.requeueTaskForRetry m.taskID m.attemptID _) h trivial
      (.updateTasks (fun _ => rfl) fun _ _ _ _ => by simp [TaskStatus.IsTerminal])
  rw [settleFailure_final (h.wf.task_job ht) hret rfl]
  split
  · have hpark := parkJob_sound h (parkedReason policy.failureLimit) ⟨a, ha, t, ht, et.symm, rfl⟩
    exact terminal_sound hpark ht hid ..
  · exact terminal_sound h ht hid ..

lemma taskFailed_sound (h : Sound db) (ht : t ∈ db.tasks) (hid : t.id = m.taskID)
    (ha : a ∈ db.attempts) (et : a.taskID = t.id)
    (defaults : RetryPolicy) (now at_ : Time) : Sound (handleTaskFailed defaults now m at_ db).2 := by
  by_cases hmsg : m.message = messageWorkerShutdown
  · rw [handleTaskFailed, if_pos hmsg]
    refine Prog.Keeps.bind (fun s hs => ?_) (fun _ => .pure ()) db h
    exact SoundBut.reports (.reclaimTaskAttempt m.attemptID m.taskID now) hs trivial
  obtain ⟨j, hj, ej⟩ := h.wf.task_job ht
  have hfind : db.task? m.taskID = some t := hid ▸ h.wf.task?_eq ht
  have hjob : db.job? t.jobID = some j := ej ▸ h.wf.job?_eq hj
  by_cases hmiss : db.queue? j.queueID = none ∨ db.farm? j.farmID = none
  · rwa [taskFailed_missing hmsg hfind hjob hmiss]
  obtain ⟨q, hq⟩ := Option.ne_none_iff_exists'.mp fun hn => hmiss (.inl hn)
  obtain ⟨f, hf⟩ := Option.ne_none_iff_exists'.mp fun hn => hmiss (.inr hn)
  obtain ⟨r, hr⟩ : ∃ r, (recordTaskFailure m.attemptID m.taskID m.exitCode m.sessionID m.message at_ now
      db).1 = .ok r := by
    simp only [recordTaskFailure, hfind, hjob]
    split <;> exact ⟨_, rfl⟩
  have hrec : recordTaskFailure m.attemptID m.taskID m.exitCode m.sessionID m.message at_ now db =
      (.ok r, (recordTaskFailure m.attemptID m.taskID m.exitCode m.sessionID m.message at_ now db).2) :=
    Prod.ext hr rfl
  obtain ⟨levels, keys⟩ : Levels db _ ∧ SameKeys db _ :=
    recordFailure_levels m.attemptID m.taskID m.exitCode m.sessionID m.message at_ now
  have h1 : Sound (recordTaskFailure m.attemptID m.taskID m.exitCode m.sessionID m.message at_ now db).2 :=
    .sameKeys h levels keys (recordFailure_open ..)
  rw [taskFailed_eq defaults hmsg hfind hjob hq hf hrec]
  split
  · obtain ⟨t1, ht1, kt⟩ := keys.task ht
    obtain ⟨a1, ha1, ka⟩ := keys.attempt ha
    rw [← kt.2.1]
    exact settleFailure_sound h1 ht1 (kt.1.trans hid) ha1 (by rw [ka.2.1, et, kt.1]) ..
  · exact h1

lemma taskStatus_sound (h : Sound db) (defaults : RetryPolicy) (now : Time) (w : ID)
    (m : TaskStatusMsg) : Sound (processTaskStatus defaults now w m db).2 := by
  rcases taskStatus_cases defaults w m db with heq | ⟨⟨a, ha, ea, et, _⟩, heq⟩
  · rwa [heq]
  obtain ⟨t, ht, hid⟩ := h.wf.attempt_task a ha
  have hid' : t.id = m.taskID := hid.trans et
  rw [heq, handleTaskStatus]
  cases m.status with
  | running => exact handleTaskRunning_keeps now m db h
  | succeeded | canceled => exact terminal_sound h ht hid' ..
  | failed => exact taskFailed_sound h ht hid' ha hid.symm ..
  | unknown _ => exact h

lemma cancelTask_sound (h : Sound db) (now : Time) (taskID : ID) : Sound (cancelTask now taskID db).2 := by
  cases hf : db.task? taskID with
  | none =>
    have heq : cancelTaskExecution taskID failureReasonCanceledByUser now db = (.error .notFound, db) := by
      simp [cancelTaskExecution, hf]
    rw [cancelTask, tx_bind_error heq]
    exact h
  | some t =>
    obtain ⟨ht, hid⟩ := DB.task?_some hf
    by_cases hterm : t.status.IsTerminal
    · have heq : cancelTaskExecution taskID failureReasonCanceledByUser now db = (.ok (t, false), db) := by
        simp [cancelTaskExecution, hf, hterm]
      rw [cancelTask, tx_bind_ok heq]
      exact h
    · have heq : cancelTaskExecution taskID failureReasonCanceledByUser now db = (.ok (t, true),
          closeTasksAttempts [taskID] .canceled "" now (sqlCancelOneTask failureReasonCanceledByUser taskID db)) := by
        simp [cancelTaskExecution, hf, hterm]
      have happly : Op.apply (.cancelTaskExecution taskID failureReasonCanceledByUser now) db = _ :=
        congrArg Prod.snd heq
      have hopen : OpenBut (· = t.stepID) db
          (Op.apply (.cancelTaskExecution taskID failureReasonCanceledByUser now) db) := by
        rw [happly]
        have canceled : OpenBut (· = t.stepID) db (sqlCancelOneTask failureReasonCanceledByUser taskID db) :=
          .updateTasks (fun _ => rfl) fun u hu hp hb =>
            absurd (congrArg Task.stepID (h.wf.tasks_keyed.eq_of_mem hu ht (hp.1.trans hid.symm))) hb
        exact canceled.trans (.of_eq (closeTasks_tasks ..))
      have h1 := SoundBut.workerSide (.cancelTaskExecution taskID failureReasonCanceledByUser now)
        h trivial hopen
      have hw : Op.WorkerSide (.cancelTaskExecution taskID failureReasonCanceledByUser now) := trivial
      have levels := Op.levels hw db
      obtain ⟨s, hs, es, ej⟩ := h.wf.task_step t ht
      rw [← levels.steps, happly] at hs
      rw [happly] at h1
      rw [cancelTask, tx_bind_ok heq]
      dsimp only
      rw [if_pos rfl, ← es, ← ej]
      exact stepCompletion_sound hs (es ▸ h1) now

end

/-! ## Job cancels, retries, sweeps and submissions -/

section
variable {db : DB}

lemma listSteps_update (db : DB) {jobID id : ID} (hne : id ≠ jobID) {p : Step → Prop} [DecidablePred p]
    {f : Step → Step} (hp : ∀ s, p s → s.jobID = jobID) (hf : ∀ s, (f s).jobID = s.jobID) :
    (update p f db.steps).filter (fun s => decide (s.jobID = id)) = listSteps db id := by
  refine filter_update (q := fun s : Step => s.jobID = id) fun s _ hps => ?_
  have e := hp s hps
  exact ⟨fun e' => hne (e'.symm.trans e), fun e' => hne (e'.symm.trans ((hf s).trans e))⟩

section
variable (h : Sound db)
include h

lemma cancelJob_sound (now : Time) (jobID : ID) : Sound (cancelJob now jobID db).2 := by
  have hrun : (cancelJob now jobID db).2 = (cancelJobExecution jobID failureReasonCanceledByUser now db).2 := rfl
  rw [hrun]
  have hsteps : (cancelJobExecution jobID failureReasonCanceledByUser now db).2.steps = _ := cancelExecution_steps h.wf
  refine ⟨Op.wf (.cancelJobExecution jobID _ now) h.wf, ?_, fun j' hj' ht => ?_⟩
  · unfold LiveBut
    rw [hsteps]
    refine forall_update (fun s _ _ hopen => absurd (cancelStepOutcome_isTerminal _ s) hopen)
      fun s hs hq hopen _ => ?_
    have hne : s.jobID ≠ jobID := fun e => hq ⟨e, hopen⟩
    obtain ⟨t, htm, et, hto⟩ := h.live s hs hopen id
    refine ⟨t, mem_update.mpr ⟨t, htm, if_neg fun hp => hne ?_⟩, et, hto⟩
    rw [← h.wf.task_jobID htm hs et, hp.1]
  · obtain ⟨j, hj, rfl⟩ := mem_update.mp hj'
    split at ht
    · exact absurd (.inr (.inr rfl)) ht
    rename_i hq
    have hne : j.id ≠ jobID := fun e => hq ⟨e, ht⟩
    rw [if_neg hq]
    have hlist : listSteps (cancelJobExecution jobID failureReasonCanceledByUser now db).2 j.id =
        listSteps db j.id := by
      rw [listSteps, hsteps]
      exact listSteps_update _ hne (fun s hp => hp.1) fun _ => rfl
    obtain ⟨hopen, hset⟩ := h.jobs j hj ht
    exact ⟨hopen.of_steps hlist, hset.of_steps hlist fun hb hw =>
      .inr ⟨hb, hw.cancelJobExecution h.wf jobID _ now⟩⟩

lemma retryTasks_repairing (jobID : ID) (taskIDs : Option (List ID))
    (hmatch : ∃ t ∈ db.tasks, retryMatches jobID taskIDs t) :
    Repairing (fun _ => False) jobID (retryTasks jobID taskIDs db).2 := by
  rcases retryTasks_cases jobID taskIDs db with ⟨hno, _, _⟩ | ⟨_, _, e⟩
  · exact absurd hmatch hno
  have revived : ∀ t ∈ db.tasks, ¬ t.status.IsTerminal → t ∈ (sqlRetryTasks jobID taskIDs db).tasks := fun t ht hto =>
    mem_update.mpr ⟨t, ht, if_neg fun hm => hto (.inr hm.2.1)⟩
  refine ⟨Op.wf (.retryTasks jobID taskIDs) h.wf, ?_, fun j' hj' hne ht => ?_⟩
  · rw [e]
    refine forall_update (fun s _ hp _ _ => ?_) fun s hs _ hopen _ => ?_
    · obtain ⟨t, htm, et, hst⟩ := hp.2.2
      exact ⟨t, htm, et, by simp [hst, TaskStatus.IsTerminal]⟩
    · obtain ⟨t, htm, et, hto⟩ := h.live s hs hopen id
      exact ⟨t, revived t htm hto, et, hto⟩
  · have hrow := hj'
    rw [e] at hrow
    obtain ⟨j, hj, rfl⟩ := mem_update.mp hrow
    split at hne
    · rename_i hp
      exact absurd hp.1 hne
    rename_i hq
    rw [if_neg hq] at ht ⊢
    have hlist : listSteps (retryTasks jobID taskIDs db).2 j.id = listSteps db j.id := by
      rw [e]
      exact listSteps_update (sqlRetryTasks jobID taskIDs db) hne (fun s hp => hp.1) fun _ => rfl
    obtain ⟨hopen, hset⟩ := h.jobs j hj ht
    exact ⟨hopen.of_steps hlist, hset.of_steps hlist fun hb hw =>
      .inr ⟨hb, hw.retryTasks jobID taskIDs fun _ => hne.symm⟩⟩

lemma retry_sound (now : Time) (jobID : ID) (taskIDs : Option (List ID)) :
    Sound (retry now jobID taskIDs db).2 := by
  rw [retry, lift_bind]
  rcases retryTasks_cases jobID taskIDs db with ⟨_, hnil, e⟩ | ⟨hmatch, hne, _⟩
  · rw [if_pos hnil, e]
    exact h
  rw [if_neg hne]
  have rep := retryTasks_repairing h jobID taskIDs hmatch
  have hjob : ∃ j ∈ (retryTasks jobID taskIDs db).2.jobs, j.id = jobID := by
    obtain ⟨t, ht, hm⟩ := hmatch
    have keys : SameKeys db (retryTasks jobID taskIDs db).2 := Op.sameKeys (.retryTasks jobID taskIDs) not_false db
    obtain ⟨t', ht', hk⟩ := keys.task ht
    obtain ⟨j, hj, ej⟩ := rep.wf.task_job ht'
    exact ⟨j, hj, by rw [ej, hk.2.1, hm.1]⟩
  generalize (retryTasks jobID taskIDs db).2 = db1 at *
  obtain ⟨rep2, hjobs2, hnone, _, _⟩ := resolve_repairs rep
  obtain ⟨n, hn⟩ := resolve_eq rep.wf jobID
  rw [bind_ok hn]
  rw [hn] at rep2 hjobs2 hnone
  dsimp only at rep2 hjobs2 hnone
  generalize movePendingSteps (releasableIDs db1 jobID) .ready .ready "" db1 = db2 at *
  obtain ⟨rep3, hjobs3, hdoomed, hrel, _⟩ := cancelDependents_repairs rep2
  obtain ⟨n', ids, hn', _, _⟩ := cancelDependents_eq rep2.wf jobID
  rw [bind_ok hn']
  rw [hn'] at rep3 hjobs3 hdoomed hrel
  dsimp only at rep3 hjobs3 hdoomed hrel
  have hsound : Sound (checkJobCompletion now jobID (cancelSteps ids db2)).2 := by
    refine jobCompletion_sound rep3 ?_ (fun j _ ej _ => ?_) now
    · rw [hjobs3, hjobs2]
      exact hjob
    · exact ⟨ej ▸ hdoomed, .inl (ej ▸ hrel hnone)⟩
  exact Prog.Yields.bind (R := fun _ s => Sound s) (Q := fun _ s => Sound s) hsound
    (fun _ _ hs => hs) fun _ _ hs => hs

lemma retryTask_sound (now : Time) (taskID : ID) : Sound (retryTask now taskID db).2 := by
  unfold retryTask
  cases hf : db.task? taskID with
  | none =>
    rw [bind_error (fetch_none hf)]
    exact h
  | some task =>
    rw [bind_ok (fetch_some hf)]
    exact Prog.Keeps.bind (I := Sound) (fun _ hs => retry_sound hs now task.jobID (some [taskID]))
      (fun _ => .pure ()) db h

lemma resolve_sound (jobID : ID) : Sound (resolveDependencies jobID db).2 := by
  obtain ⟨rep, hjobs, hnone, hdoomed, hopen⟩ := resolve_repairs (h.repairing jobID)
  refine ⟨rep.wf, rep.live, fun j hj ht => ?_⟩
  by_cases e : j.id = jobID
  · subst e
    rw [hjobs] at hj
    obtain ⟨hstep, hset⟩ := h.jobs j hj ht
    exact ⟨hopen hstep, hdoomed hset.noDoomed, .inl hnone⟩
  · exact rep.others j hj e ht

lemma cancelDependents_sound (jobID : ID) : Sound (cancelDependents jobID db).2 := by
  by_cases hopen : ∃ j ∈ db.jobs, j.id = jobID ∧ ¬ j.status.IsTerminal
  · obtain ⟨j, hj, rfl, ht⟩ := hopen
    obtain ⟨heq, _⟩ := cancelDependents_again h.wf (h.jobs j hj ht).2.noDoomed
    rw [heq]
    exact h
  · obtain ⟨rep, hjobs, _⟩ := cancelDependents_repairs (h.repairing jobID)
    refine ⟨rep.wf, rep.live, fun j hj ht => rep.others j hj (fun e => hopen ?_) ht⟩
    exact ⟨j, hjobs ▸ hj, e, ht⟩

end

lemma propagate_keeps (jobID : ID) (st : StepStatus) :
    Prog.Keeps Sound (propagateStepDependencies jobID st) := by
  unfold propagateStepDependencies
  split
  · exact .bind (fun _ h => resolve_sound h jobID) fun _ => .pure ()
  · exact .bind (fun _ h => cancelDependents_sound h jobID) fun _ => .pure ()

lemma jobCompletion_keeps (now : Time) (jobID : ID) :
    Prog.Keeps Sound (checkJobCompletion now jobID) := by
  intro db h
  by_cases hex : ∃ j ∈ db.jobs, j.id = jobID
  · exact jobCompletion_sound (h.repairing jobID) hex (fun j hj _ ht => (h.jobs j hj ht).2) now
  have hnone : db.job? jobID = none := by
    simp only [DB.job?, find?_eq_none, decide_eq_true_eq]
    exact fun j hj e => hex ⟨j, hj, e⟩
  have heq : finalizeJob jobID now db = (.error .notFound, db) := by simp [finalizeJob, hnone]
  rw [checkJobCompletion, tx_bind_error heq]
  exact h

lemma reconcilePendingSteps_keeps (now : Time) : Prog.Keeps Sound (reconcilePendingSteps now) := by
  refine .bind (.read _) fun ids => .each (fun id => .quiet ?_) ids
  refine .bind (propagate_keeps id _) fun _ => ?_
  refine .bind (propagate_keeps id _) fun _ => .bind (.read _) fun closed => ?_
  split
  · exact jobCompletion_keeps now id
  · exact .pure ()

lemma sweepBlockedJobs_keeps (now : Time) : Prog.Keeps Sound (sweepBlockedJobs now) := by
  refine .bind (.read _) fun blocked => .each (fun j => .quiet fun s h => ?_) blocked
  exact reconcileJob_sound (fun up s hs => reconcileDependents_sound now up hs) h now j.id

lemma reconcileStuckSteps_sound (h : Sound db) (now : Time) : Sound (reconcileStuckSteps now db).2 := by
  have loop : Prog.Yields (Prog.each (fun s : Step => .quiet (checkStepCompletion now s.id s.jobID))
      (listStuckSteps db)) db fun _ db' => Sound db' ∧ SameKeys db db' := by
    refine Prog.Yields.each (I := fun db' => Sound db' ∧ SameKeys db db') (fun s hs db' hI => ?_) ⟨h, .refl db⟩
    have hmem : s ∈ db.steps := by
      simp only [listStuckSteps, mem_insertionSort] at hs
      exact mem_of_mem_filter hs
    obtain ⟨s', hs', hk⟩ := hI.2.step hmem
    rw [← hk.1, ← hk.2.1]
    have hbut : SoundBut (· = s'.id) db' := ⟨hI.1.wf, fun u hu huo _ => hI.1.live u hu huo id, hI.1.jobs⟩
    exact ⟨stepCompletion_sound hs' hbut now, hI.2.trans (stepCompletion_within hI.1.wf hs' now).sameKeys⟩
  exact loop.1

lemma initialStepStatus_cases (hold : Bool) (sp : StepPlan) :
    (initialStepStatus hold sp = .pending ∧ initialTaskStatus hold sp = .pending ∧ (hold = true ∨ sp.dependsOn ≠ [])) ∨
    (initialStepStatus hold sp = .ready ∧ initialTaskStatus hold sp = .ready) := by
  unfold initialTaskStatus initialStepStatus
  by_cases hc : hold = true ∨ sp.dependsOn ≠ []
  · simp [hc]
  · simp [hc]

lemma submittedState_sound (h : Sound db) {p : SubmissionPlan} {blocked : Bool}
    (hjob : jobInsertable (buildSubmission p blocked).job db)
    (hrows : rowsInsertable (buildSubmission p blocked) db) :
    Sound (submittedState (buildSubmission p blocked) db) := by
  have wf' := submittedState_wf hjob hrows h.wf
  have hfree : ∀ j ∈ db.jobs, j.id ≠ p.jobID := hjob.1
  -- a step of the new job is a new row, and none of those has ended
  have fresh : ∀ s ∈ (submittedState (buildSubmission p blocked) db).steps, s.jobID = p.jobID →
      ∃ sp ∈ p.steps, buildStep p.jobID blocked sp = s := fun s hs e => by
    rcases mem_append.mp hs with hs | hs
    · exact absurd e (h.wf.step_jobID_ne hfree hs)
    · exact mem_newSteps.mp hs
  have openStep : ∀ sp, ¬ (buildStep p.jobID blocked sp).status.IsTerminal := fun sp => by
    rcases initialStepStatus_cases blocked sp with ⟨e, _⟩ | ⟨e, _⟩ <;>
      simp [buildStep, e, StepStatus.IsTerminal]
  refine ⟨wf', fun s hs hopen _ => ?_, fun j hj ht => ?_⟩
  · rcases mem_append.mp hs with hs | hs
    · obtain ⟨t, htm, et, hto⟩ := h.live s hs hopen id
      exact ⟨t, mem_append_left _ htm, et, hto⟩
    obtain ⟨sp, hsp, rfl⟩ := mem_newSteps.mp hs
    obtain ⟨tid, htid⟩ := exists_mem_of_ne_nil _ (p.tasks_ne sp hsp)
    refine ⟨buildTask p.jobID blocked sp tid, mem_append_right _ (mem_newTasks.mpr ⟨sp, hsp, tid, htid, rfl⟩), rfl, ?_⟩
    rcases initialStepStatus_cases blocked sp with ⟨_, e, _⟩ | ⟨_, e⟩ <;>
      simp [buildTask, e, TaskStatus.IsTerminal]
  · rcases mem_append.mp hj with hj | hj
    · have hne := hfree j hj
      have hlist : listSteps (submittedState (buildSubmission p blocked) db) j.id = listSteps db j.id := by
        have hnil : (buildSubmission p blocked).steps.filter (fun s => decide (s.jobID = j.id)) = [] := by
          rw [filter_eq_nil_iff]
          intro s hs
          obtain ⟨sp, _, rfl⟩ := mem_newSteps.mp hs
          simp [buildStep, hne.symm]
        simp only [listSteps, submittedState, filter_append, hnil, append_nil]
      obtain ⟨hopen, hset⟩ := h.jobs j hj ht
      exact ⟨hopen.of_steps hlist, hset.of_steps hlist fun hb hw => .inr ⟨hb, hw.submitted hne⟩⟩
    · rw [mem_singleton.mp hj]
      change HasOpenStep _ p.jobID ∧ _
      obtain ⟨sp, hsp⟩ := exists_mem_of_ne_nil _ p.steps_ne
      refine ⟨⟨buildStep p.jobID blocked sp,
        mem_append_right _ (mem_newSteps.mpr ⟨sp, hsp, rfl⟩), rfl, openStep sp⟩, ?_, ?_⟩
      · intro s hs _ u hu _ hun
        obtain ⟨humem, euj⟩ := mem_view_steps.mp hu
        obtain ⟨sp', _, rfl⟩ := fresh u humem euj
        exact openStep sp' hun.isTerminal
      · cases blocked with
        | true => exact .inr ⟨rfl, submittedState_waits hjob hrows h.wf⟩
        | false =>
          refine .inl fun s hs hrel => ?_
          obtain ⟨hmem, ej⟩ := mem_view_steps.mp hs
          obtain ⟨sp', hsp', rfl⟩ := fresh s hmem ej
          -- a step that starts pending depends on a step that has not ended
          rcases initialStepStatus_cases false sp' with ⟨_, _, hdeps⟩ | ⟨e, _⟩
          · obtain ⟨d, hd⟩ := exists_mem_of_ne_nil _ (hdeps.resolve_left (by simp))
            obtain ⟨u, hu, euj, _, hc⟩ := (lookupOf_byName wf' p.jobID d .completed).mp (hrel.2 d hd)
            obtain ⟨sp'', _, rfl⟩ := fresh u hu euj
            exact openStep sp'' (.inl hc)
          · have hp := hrel.1
            rw [buildStep, e] at hp
            cases hp

lemma submitJob_sound (h : Sound db) (p : SubmissionPlan) : Sound (submitJob p db).2 := by
  unfold submitJob
  split
  · exact h
  rename_i blocked _
  have hs : Sound (createJobSubmission (buildSubmission p blocked) db).2 :=
    submission_of h fun hjob hrows => submittedState_sound h hjob hrows
  split <;> simp_all

end

/-! ## Every operation -/

lemma Call.run_sound (defaults : RetryPolicy) {c : Call} (hc : c.enabled) {db : DB} (h : Sound db) :
    Sound (c.run defaults db) := by
  cases c with
  | single op => exact Op.standalone_sound hc h
  | submit p => exact submitJob_sound h p
  | taskStatus now w m => exact taskStatus_sound h defaults now w m
  | cancelTask now t => exact cancelTask_sound h now t
  | cancelJob now j => exact cancelJob_sound h now j
  | retryTask now t => exact retryTask_sound h now t
  | retryJob now j => exact retry_sound h now j none
  | reconcileDependents now up => exact reconcileDependents_sound now up h
  | sweepBlockedJobs now => exact sweepBlockedJobs_keeps now db h
  | reconcileStuckSteps now => exact reconcileStuckSteps_sound h now
  | reconcilePendingSteps now => exact reconcilePendingSteps_keeps now db h

lemma sound_run {defaults : RetryPolicy} {h : List (DB × Call)} {db : DB}
    (run : Run (schedulerSystem defaults) h db) : Sound db := by
  refine run.safe ⟨WF.empty, ?_, ?_⟩ fun _ _ c _ hs hc => Call.run_sound defaults hc hs
  · exact fun s hs => nomatch hs
  · exact fun j hj => nomatch hj

/-- No stranded work between two operations. -/
theorem no_stranded_work {defaults : RetryPolicy} {h : List (DB × Call)} {db : DB}
    (run : Run (schedulerSystem defaults) h db) {j : Job} (hj : j ∈ db.jobs)
    (hopen : ¬ j.status.IsTerminal) (hfree : j.status ≠ .blocked) :
    (∃ s ∈ db.steps, s.jobID = j.id ∧ ¬ s.status.IsTerminal) ∧
    (∀ s ∈ db.steps, s.jobID = j.id → s.status = .ready →
      ∃ t ∈ db.tasks, t.stepID = s.id ∧ ¬ t.status.IsTerminal) ∧
    ∀ s ∈ db.steps, s.jobID = j.id → s.status = .pending →
      (∃ u ∈ db.steps, u.jobID = j.id ∧ u.name ∈ s.dependsOn ∧ u.status ≠ .completed) ∧
      ∀ u ∈ db.steps, u.jobID = j.id → u.name ∈ s.dependsOn → ¬ u.status.Unsuccessful := by
  have sound := sound_run run
  obtain ⟨hstep, hset⟩ := sound.jobs j hj hopen
  refine ⟨hstep, fun s hs _ hr => ?_, fun s hs es hp => ⟨?_, fun u hu eu hname => ?_⟩⟩
  · exact sound.live s hs (by simp [hr, StepStatus.IsTerminal]) id
  · have hno := hset.gate.resolve_right fun hb => hfree hb.1
    by_contra hall
    simp only [not_exists, not_and, not_not] at hall
    refine hno s (mem_view_steps.mpr ⟨hs, es⟩) ⟨hp, fun name hname => ?_⟩
    obtain ⟨u, hu, euj, eun⟩ := sound.wf.deps_declared s hs name hname
    refine (lookupOf_byName sound.wf j.id name .completed).mpr ⟨u, hu, euj.trans es, eun, ?_⟩
    exact hall u hu (euj.trans es) (eun ▸ hname)
  · exact hset.noDoomed s (mem_view_steps.mpr ⟨hs, es⟩) hp u (mem_view_steps.mpr ⟨hu, eu⟩) hname

def smallCalls : List Call :=
  [.single (.saveFarm ⟨1, 0, noRetry⟩), .single (.saveQueue ⟨1, false, 4, noRetry⟩),
    .single (.saveUsagePool ⟨1, "licences", 2⟩), .submit smallPlan, .single (smallLease 100 1000),
    .taskStatus 60 5 ⟨100, 1000, .succeeded, some 0, "s", some 60, none, ""⟩]

theorem no_stranded_work_smallCalls :
    ∃ u ∈ ((schedulerSystem ⟨1, 0, 0⟩).exec smallCalls [] DB.empty).2.steps, u.jobID = 1 ∧
      u.name ∈ ["build"] ∧ u.status ≠ .completed :=
  (no_stranded_work (Run.start.exec
      (show (schedulerSystem ⟨1, 0, 0⟩).Permits smallCalls [] DB.empty from
        ⟨trivial, trivial, trivial, trivial, trivial, trivial, trivial⟩))
    (j := ⟨1, 1, 1, .pending, 0, "", none, none, noRetry⟩) (by decide +kernel) (by decide) (by decide)).2.2
    ⟨11, 1, "render", ["build"], .pending⟩ (by decide +kernel) rfl rfl |>.1

end Sqi

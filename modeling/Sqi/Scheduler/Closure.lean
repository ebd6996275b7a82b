import Sqi.Scheduler.Reconcile

/-! What the cascades come to. -/

namespace Sqi
open List Table Program Prog

/-! ## The steps of a job -/

section
variable {db : DB} {jobID : ID} {ids : List ID} {s : Step}

lemma Settles.complete (wf : WF db) (h : Settles db jobID ids)
    (hnone : ((cancelSteps ids db).view jobID).NoDoomed) (hs : Stranded db jobID s) :
    s.id ∈ ids := by
  -- a row as the cancels leave it
  have left : ∀ r ∈ (db.view jobID).steps, r.id ∉ ids → r ∈ ((cancelSteps ids db).view jobID).steps :=
    fun r hr hid => mem_view_steps.mpr
      ⟨mem_update.mpr ⟨r, (mem_view_steps.mp hr).1, if_neg fun h => hid h.1⟩, (mem_view_steps.mp hr).2⟩
  induction hs with
  | @failed s u hs hp hu hname hst =>
    by_contra hid
    refine hnone s (left s hs hid) hp u (left u hu fun hmem => ?_) hname hst
    -- what is canceled was pending
    have hpending := (h.stranded.row wf (mem_view_steps.mp hu).1 hmem).pending
    rw [hpending] at hst
    exact absurd hst (by decide)
  | @behind s u hs hp hname hu ih =>
    by_contra hid
    have canceled : ({ u with status := .canceled } : Step) ∈ ((cancelSteps ids db).view jobID).steps :=
      mem_view_steps.mpr ⟨mem_update.mpr ⟨u, hu.mem.1, if_pos ⟨ih, hu.pending⟩⟩, hu.mem.2⟩
    exact hnone s (left s hs hid) hp _ canceled hname (.inr rfl)

lemma Settles.mem_iff (wf : WF db) (h : Settles db jobID ids)
    (hnone : ((cancelSteps ids db).view jobID).NoDoomed) (hs : s ∈ db.steps) :
    s.id ∈ ids ↔ Stranded db jobID s :=
  ⟨h.stranded.row wf hs, h.complete wf hnone⟩

def StrandedTask (db : DB) (jobID : ID) (t : Task) : Prop :=
  t.status = .pending ∧ ∃ s, Stranded db jobID s ∧ t.stepID = s.id

lemma Settles.task_iff (wf : WF db) (h : Settles db jobID ids)
    (hnone : ((cancelSteps ids db).view jobID).NoDoomed) (t : Task) :
    t.stepID ∈ ids ∧ t.status = .pending ↔ StrandedTask db jobID t := by
  constructor
  · rintro ⟨hid, hp⟩
    obtain ⟨s, hs, e⟩ := h.stranded _ hid
    exact ⟨hp, s, hs, e.symm⟩
  · rintro ⟨hp, s, hs, e⟩
    exact ⟨e ▸ h.complete wf hnone hs, hp⟩

lemma canceledTasks_perm (h : ids.Nodup) :
    (canceledTasks db ids).Perm (returning (fun t => t.stepID ∈ ids ∧ t.status = .pending)
    (moveTask .canceled failureReasonUpstreamFailed) db.tasks) := by
  induction ids with
  | nil => simp [canceledTasks, returning]
  | cons id ids ih =>
    obtain ⟨hid, h⟩ := nodup_cons.mp h
    rw [returning_congr fun t => by rw [mem_cons, or_and_right], canceledTasks, flatMap_cons]
    exact ((ih h).append_left _).trans (returning_append_perm fun t ht hq => hid (ht.1 ▸ hq.1))

open Classical in
/-- `CancelDependents` ends, and cancels the stranded steps and nothing else. -/
theorem cancelDependents_closure (wf : WF db) (jobID : ID) :
    ∃ (ids : List ID) (tasks : List Task) (db' : DB),
      cancelDependentsTasks jobID db = (.ok (some (ids.length, tasks)), db') ∧
      cancelDependents jobID db = (.ok ids.length, db') ∧
      (ids.Nodup ∧ ∀ id, id ∈ ids ↔ ∃ s, Stranded db jobID s ∧ s.id = id) ∧
      db' = { db with
        steps := update (Stranded db jobID) (fun s => { s with status := .canceled }) db.steps
        tasks := update (StrandedTask db jobID) (moveTask .canceled failureReasonUpstreamFailed) db.tasks } ∧
      tasks.Perm (returning (StrandedTask db jobID) (moveTask .canceled failureReasonUpstreamFailed)
        db.tasks) ∧
      (∀ s ∈ db'.steps, s.jobID = jobID → s.status = .pending →
        ∀ u ∈ db'.steps, u.jobID = jobID → u.name ∈ s.dependsOn → ¬ u.status.Unsuccessful) ∧
      cancelDependentsTasks jobID db' = (.ok (some (0, [])), db') := by
  obtain ⟨ids, heq, htasks, settles, hnone⟩ := cancelDependents_settles wf jobID
  refine ⟨ids, _, _, htasks, heq, ⟨settles.nodup, fun id => ⟨settles.stranded id, ?_⟩⟩, ?_, ?_, ?_, ?_⟩
  · rintro ⟨s, hs, rfl⟩
    exact settles.complete wf hnone hs
  · rw [cancelSteps, movePendingSteps, DB.updateTasks, DB.updateSteps]
    congr 1
    · refine update_congr fun s hs => ?_
      rw [settles.mem_iff wf hnone hs]
      exact ⟨And.left, fun h => ⟨h, h.pending⟩⟩
    · exact update_congr fun t _ => settles.task_iff wf hnone t
  · exact (canceledTasks_perm settles.nodup).trans
      (.of_eq (returning_congr fun t => settles.task_iff wf hnone t))
  · exact fun s hs ej hp u hu euj => hnone s (mem_view_steps.mpr ⟨hs, ej⟩) hp u (mem_view_steps.mpr ⟨hu, euj⟩)
  · exact (cancelDependents_again ((settles.stranded.within wf).wf wf) hnone).2

def chainDB : DB :=
  { DB.empty with
    jobs := [⟨1, 0, 0, .running, 0, "", none, none, ⟨none, none, none⟩⟩]
    steps := [⟨4, 1, "d", ["c"], .pending⟩, ⟨3, 1, "c", ["b"], .pending⟩, ⟨2, 1, "b", [], .failed⟩,
      ⟨5, 1, "e", [], .pending⟩]
    tasks := [⟨14, 1, 4, .pending, none, none, 0, none, "", ""⟩, ⟨13, 1, 3, .pending, none, none, 0, none, "", ""⟩,
      ⟨12, 1, 2, .failed, none, none, 0, none, "", ""⟩, ⟨15, 1, 5, .pending, none, none, 0, none, "", ""⟩] }

theorem cancelDependents_closure_chain : WF chainDB ∧ ∃ tasks db',
    cancelDependentsTasks 1 chainDB = (.ok (some (2, tasks)), db') ∧
      cancelDependentsTasks 1 db' = (.ok (some (0, [])), db') := by
  have wf : WF chainDB := by constructor <;> (try unfold Keyed) <;> decide
  obtain ⟨ids, tasks, db', heq, hcount, _, _, _, _, hagain⟩ := cancelDependents_closure wf 1
  have hlength : (cancelDependents 1 chainDB).1 = .ok 2 := by decide +kernel
  rw [hcount] at hlength
  exact ⟨wf, tasks, db', Except.ok.inj hlength ▸ heq, hagain⟩

end

def JobView.cancel (now : Time) (v : JobView) : JobView where
  jobs := update (fun j => j.status = .blocked)
    (fun j => { j with status := .canceled, completedAt := some now }) v.jobs
  steps := update (fun s => ¬ s.status.IsTerminal) (fun s => { s with status := .canceled }) v.steps
  tasks := update (fun t => t.status = .pending) (moveTask .canceled failureReasonUpstreamFailed) v.tasks

def JobView.release (v : JobView) : JobView where
  jobs := update (fun j => j.status = .blocked) (fun j => { j with status := .pending }) v.jobs
  steps := update (releasable v.steps) (fun s => { s with status := .ready }) v.steps
  tasks := update (fun t => t.status = .pending ∧ ∃ s ∈ v.steps, s.id = t.stepID ∧ releasable v.steps s)
    (moveTask .ready "") v.tasks

section
variable {db : DB} {id : ID}

lemma blocked_iff_view : Blocked db id ↔ ∃ j ∈ (db.view id).jobs, j.status = .blocked := by
  simp only [Blocked, mem_view_jobs, and_assoc]

lemma cancelBlocked_view (hb : Blocked db id) (wf : WF db) (now : Time) :
    ((cancelBlockedJob id failureReasonUpstreamFailed now db).2).view id = (db.view id).cancel now := by
  obtain ⟨j, hj, rfl, hst⟩ := hb
  have heq : (cancelBlockedJob j.id failureReasonUpstreamFailed now db).2 =
      sqlCancelJobPendingTasks failureReasonUpstreamFailed j.id
        (sqlCancelJobOpenSteps j.id (sqlCancelBlockedJobRow j.id now db)) := by
    simp [cancelBlockedJob, wf.job?_eq hj, hst]
  rw [heq]
  simp only [DB.view, JobView.cancel, JobView.mk.injEq]
  refine ⟨?_, ?_, ?_⟩
  · exact filter_update_key (fun _ => rfl) fun _ _ e => by simp [e]
  · exact filter_update_key (fun _ => rfl) fun _ _ e => by simp [e]
  · exact filter_update_key (fun _ => rfl) fun _ _ e => by simp [e]

lemma releaseAndResolve_view (wf : WF db) (hv : blockedVerdict db id = .release) :
    ((releaseAndResolve id db).2).view id = (db.view id).release := by
  rw [releaseAndResolve_eq wf hv]
  simp only [DB.view, JobView.release, JobView.mk.injEq]
  have hstep : ∀ s ∈ db.steps, s.jobID = id →
      (s.id ∈ releasableIDs db id ∧ s.status = .pending ↔ releasable (listSteps db id) s) := by
    intro s hs e
    constructor
    · rintro ⟨hmem, _⟩
      obtain ⟨r, hr, er⟩ := mem_map.mp hmem
      obtain ⟨hlist, hrel⟩ := mem_filter.mp hr
      rw [← wf.steps_keyed.eq_of_mem (mem_listSteps.mp hlist).1 hs er]
      exact of_decide_eq_true hrel
    · intro h
      exact ⟨mem_map_of_mem (mem_filter.mpr ⟨mem_listSteps.mpr ⟨hs, e⟩, decide_eq_true h⟩), h.1⟩
  refine ⟨?_, ?_, ?_⟩
  · exact filter_update_key (fun _ => rfl) fun _ _ e => by simp [e]
  · exact filter_update_key (fun _ => rfl) hstep
  refine filter_update_key (fun _ => rfl) fun t _ _ => ?_
  rw [and_comm, releasableIDs, mem_map]
  refine and_congr_right fun _ => exists_congr fun s => ?_
  rw [mem_filter, decide_eq_true_eq, and_assoc, and_comm (a := releasable _ s)]

end

/-! ## The jobs behind a job -/

def Satisfied (db : DB) (id : ID) : Prop :=
  Blocked db id ∧ ∀ up, ⟨id, up⟩ ∈ db.jobDependencies → upstreamVote db up = .release

inductive Unsatisfiable (db : DB) (ids : List ID) : ID → Prop where
  | first {id up : ID} : id ∈ ids → Blocked db id → ⟨id, up⟩ ∈ db.jobDependencies →
    upstreamVote db up = .cancel → Unsatisfiable db ids id
  | behind {id up : ID} : Blocked db id → ⟨id, up⟩ ∈ db.jobDependencies → Unsatisfiable db ids up →
    Unsatisfiable db ids id

inductive Cascades (now : Time) : List ID → DB → DB → Prop where
  | done (db : DB) : Cascades now [] db db
  | wait {id : ID} {ids : List ID} {db db' : DB} : blockedVerdict db id = .wait →
    Cascades now ids db db' → Cascades now (id :: ids) db db'
  | release {id : ID} {ids : List ID} {db db' : DB} : blockedVerdict db id = .release →
    Cascades now ids (releaseAndResolve id db).2 db' → Cascades now (id :: ids) db db'
  | cancel {id : ID} {ids : List ID} {db db' : DB} : blockedVerdict db id = .cancel →
    Cascades now (listDependents db id ++ ids)
      (cancelBlockedJob id failureReasonUpstreamFailed now db).2 db' →
    Cascades now (id :: ids) db db'

section
variable {db : DB} {id : ID}

lemma Unsatisfiable.blocked {ids : List ID} (h : Unsatisfiable db ids id) : Blocked db id := by
  cases h with
  | first _ hb => exact hb
  | behind hb => exact hb

lemma Blocked.job? (wf : WF db) (h : Blocked db id) : ∃ j, db.job? id = some j ∧ j.status = .blocked := by
  obtain ⟨j, hj, rfl, hst⟩ := h
  exact ⟨j, wf.job?_eq hj, hst⟩
lemma Blocked.vote (wf : WF db) (h : Blocked db id) : upstreamVote db id = .wait := by
  obtain ⟨j, hj, hst⟩ := h.job? wf
  exact upstreamVote_open hj (by simp [hst, JobStatus.IsTerminal])
lemma Blocked.verdict (wf : WF db) (h : Blocked db id) :
    blockedVerdict db id = upstreamVerdict db (listJobDependencyIDs db id) true := by
  obtain ⟨j, hj, hst⟩ := h.job? wf
  simp [blockedVerdict, hj, hst]
lemma blocked_of_blockedVerdict (h : blockedVerdict db id ≠ .wait) : Blocked db id :=
  not_not.mp fun hn => h (verdict_of_not_blocked hn)

lemma blockedVerdict_cancel_iff (wf : WF db) : blockedVerdict db id = .cancel ↔
    Blocked db id ∧ ∃ up, ⟨id, up⟩ ∈ db.jobDependencies ∧ upstreamVote db up = .cancel := by
  constructor
  · intro h
    have hb := blocked_of_blockedVerdict (by rw [h]; nofun)
    rw [hb.verdict wf, upstreamVerdict_cancel_iff] at h
    obtain ⟨up, hup, hv⟩ := h
    exact ⟨hb, up, mem_dependencyIDs.mp hup, hv⟩
  · rintro ⟨hb, up, hup, hv⟩
    rw [hb.verdict wf, upstreamVerdict_cancel_iff]
    exact ⟨up, mem_dependencyIDs.mpr hup, hv⟩

lemma blockedVerdict_release_iff (wf : WF db) : blockedVerdict db id = .release ↔ Satisfied db id := by
  constructor
  · intro h
    have hb := blocked_of_blockedVerdict (by rw [h]; nofun)
    rw [hb.verdict wf, upstreamVerdict_release_iff] at h
    exact ⟨hb, fun up hup => h.2 up (mem_dependencyIDs.mpr hup)⟩
  · rintro ⟨hb, hall⟩
    rw [hb.verdict wf, upstreamVerdict_release_iff]
    exact ⟨rfl, fun up hup => hall up (mem_dependencyIDs.mp hup)⟩

end
section
variable {db db₁ : DB} {id : ID} {ids : List ID} {now : Time} {x : ID}

structure Decides (id : ID) (db db₁ : DB) : Prop where
  blocked : Blocked db id
  within : Within (· = id) db db₁
  decided : ¬ Blocked db₁ id

lemma Decides.blocked_iff (d : Decides id db db₁) : Blocked db₁ x ↔ Blocked db x ∧ x ≠ id := by
  by_cases hx : x = id
  · subst hx
    simp [d.decided]
  · rw [blocked_iff_view, blocked_iff_view, d.within.view x hx]
    simp [hx]

lemma Decides.edges (d : Decides id db db₁) : db₁.jobDependencies = db.jobDependencies :=
  d.within.sameKeys.edges

lemma unsatisfiable_wait (wf : WF db) (hv : blockedVerdict db id = .wait) :
    Unsatisfiable db (id :: ids) x ↔ Unsatisfiable db ids x := by
  constructor
  · intro h
    induction h with
    | @first x up hx hb hup hvote =>
      rcases mem_cons.mp hx with rfl | hx
      · rw [(blockedVerdict_cancel_iff wf).mpr ⟨hb, up, hup, hvote⟩] at hv
        cases hv
      · exact .first hx hb hup hvote
    | behind hb hup _ ih => exact .behind hb hup ih
  · intro h
    induction h with
    | first hx hb hup hvote => exact .first (mem_cons_of_mem _ hx) hb hup hvote
    | behind hb hup _ ih => exact .behind hb hup ih

lemma Decides.unsatisfiable_release (d : Decides id db db₁) (wf : WF db) (hsat : Satisfied db id)
    (hvotes : ∀ u, upstreamVote db₁ u = upstreamVote db u) :
    Unsatisfiable db (id :: ids) x ↔ Unsatisfiable db₁ ids x := by
  constructor
  · intro h
    induction h with
    | @first x up hx hb hup hvote =>
      have hne : x ≠ id := by
        rintro rfl
        rw [hsat.2 up hup] at hvote
        cases hvote
      exact .first (mem_of_ne_of_mem hne hx) (d.blocked_iff.mpr ⟨hb, hne⟩) (d.edges ▸ hup)
        ((hvotes up).trans hvote)
    | @behind x up hb hup hunsat ih =>
      have hne : x ≠ id := by
        rintro rfl
        have hvote := hsat.2 up hup
        rw [hunsat.blocked.vote wf] at hvote
        cases hvote
      exact .behind (d.blocked_iff.mpr ⟨hb, hne⟩) (d.edges ▸ hup) ih
  · intro h
    induction h with
    | first hx hb hup hvote =>
      exact .first (mem_cons_of_mem _ hx) (d.blocked_iff.mp hb).1 (d.edges ▸ hup)
        ((hvotes _).symm.trans hvote)
    | behind hb hup _ ih => exact .behind (d.blocked_iff.mp hb).1 (d.edges ▸ hup) ih

lemma Decides.unsatisfiable_cancel (d : Decides id db db₁)
    (hcancel : ∃ up, ⟨id, up⟩ ∈ db.jobDependencies ∧ upstreamVote db up = .cancel)
    (hself : upstreamVote db₁ id = .cancel) (hvotes : ∀ u, u ≠ id → upstreamVote db₁ u = upstreamVote db u)
    :
    Unsatisfiable db (id :: ids) x ↔ x = id ∨ Unsatisfiable db₁ (listDependents db id ++ ids) x := by
  have here : Unsatisfiable db (id :: ids) id := by
    obtain ⟨up, hup, hvote⟩ := hcancel
    exact .first mem_cons_self d.blocked hup hvote
  constructor
  · intro h
    induction h with
    | @first x up hx hb hup hvote =>
      refine or_iff_not_imp_left.mpr fun hne => ?_
      have hvote1 : upstreamVote db₁ up = .cancel := by
        by_cases e : up = id
        · rw [e, hself]
        · rw [hvotes up e, hvote]
      exact .first (mem_append_right _ (mem_of_ne_of_mem hne hx)) (d.blocked_iff.mpr ⟨hb, hne⟩)
        (d.edges ▸ hup) hvote1
    | @behind x up hb hup _ ih =>
      refine or_iff_not_imp_left.mpr fun hne => ?_
      have hb1 := d.blocked_iff.mpr ⟨hb, hne⟩
      rcases ih with rfl | ih
      · exact .first (mem_append_left _ (mem_listDependents.mpr hup)) hb1 (d.edges ▸ hup) hself
      · exact .behind hb1 (d.edges ▸ hup) ih
  · rintro (rfl | h)
    · exact here
    induction h with
    | @first x up hx hb hup hvote =>
      have hb0 := (d.blocked_iff.mp hb).1
      rw [d.edges] at hup
      rcases mem_append.mp hx with hx | hx
      · exact .behind hb0 (mem_listDependents.mp hx) here
      by_cases e : up = id
      · exact .behind hb0 (e ▸ hup) here
      · exact .first (mem_cons_of_mem _ hx) hb0 hup ((hvotes up e).symm.trans hvote)
    | behind hb hup _ ih => exact .behind (d.blocked_iff.mp hb).1 (d.edges ▸ hup) ih

lemma Decides.satisfied_iff (d : Decides id db db₁) (wf : WF db)
    (hself : upstreamVote db₁ id ≠ .release) (hvotes : ∀ u, u ≠ id → upstreamVote db₁ u = upstreamVote db u)
    (hx : x ≠ id) : Satisfied db₁ x ↔ Satisfied db x := by
  rw [Satisfied, Satisfied, d.blocked_iff, d.edges]
  have hwait := d.blocked.vote wf
  refine and_congr (and_iff_left hx) (forall_congr' fun up => imp_congr_right fun _ => ?_)
  by_cases e : up = id
  · subst e
    simp [hwait, hself]
  · rw [hvotes up e]

lemma not_blocked_of_job? (wf : WF db) {j : Job} (hj : db.job? id = some j) (hst : j.status ≠ .blocked) :
    ¬ Blocked db id := by
  intro h
  obtain ⟨j', hj', hst'⟩ := h.job? wf
  obtain rfl := Option.some.inj (hj.symm.trans hj')
  exact hst hst'

lemma releaseAndResolve_decides (wf : WF db) (hv : blockedVerdict db id = .release) :
    Decides id db (releaseAndResolve id db).2 ∧
      ∀ u, upstreamVote (releaseAndResolve id db).2 u = upstreamVote db u := by
  obtain ⟨_, within, ⟨j, hj, hst⟩, _⟩ := releaseAndResolve_spec wf hv
  have hb := ((blockedVerdict_release_iff wf).mp hv).1
  refine ⟨⟨hb, within, not_blocked_of_job? (within.wf wf) hj (by simp [hst])⟩, fun u => ?_⟩
  by_cases e : u = id
  · rw [e, hb.vote wf, upstreamVote_open hj (by simp [hst, JobStatus.IsTerminal])]
  · exact within.vote_eq e

lemma cancelBlocked_decides (wf : WF db) (hb : Blocked db id) (now : Time) :
    Decides id db (cancelBlockedJob id failureReasonUpstreamFailed now db).2 ∧
      upstreamVote (cancelBlockedJob id failureReasonUpstreamFailed now db).2 id = .cancel := by
  obtain ⟨db₁, heq, within, ⟨j, hj, hst⟩, _⟩ := cancelBlocked_spec wf hb failureReasonUpstreamFailed now
  rw [heq]
  refine ⟨⟨hb, within, not_blocked_of_job? (within.wf wf) hj (by simp [hst])⟩, ?_⟩
  simp [upstreamVote, hj, hst, JobStatus.Unsuccessful]

end

structure CascadeResult (now : Time) (ids : List ID) (db db' : DB) : Prop where
  canceled : ∀ x, Unsatisfiable db ids x → db'.view x = (db.view x).cancel now
  released : ∀ x ∈ ids, Satisfied db x → db'.view x = (db.view x).release
  kept : ∀ x, ¬ Unsatisfiable db ids x → ¬ (x ∈ ids ∧ Satisfied db x) → db'.view x = db.view x

section
variable {db db' : DB} {ids : List ID} {now : Time} {rest : List ID} {id : ID}

lemma Unsatisfiable.not_nil {x : ID} : ¬ Unsatisfiable db [] x := by
  intro h
  induction h with
  | first hx => cases hx
  | behind _ _ _ ih => exact ih

lemma CascadeResult.decided {db₁ : DB} (res : CascadeResult now ids db₁ db') (h : ¬ Blocked db₁ id) :
    db'.view id = db₁.view id :=
  res.kept id (fun hu => h hu.blocked) fun hs => h hs.2.1

lemma Cascades.result (h : Cascades now ids db db') (wf : WF db) : CascadeResult now ids db db' := by
  induction h with
  | done db => exact ⟨fun _ h => absurd h Unsatisfiable.not_nil, nofun, fun _ _ _ => rfl⟩
  | @wait id ids db db' hv _ ih =>
    have res := ih wf
    have hsat : ¬ Satisfied db id := fun h => by
      rw [(blockedVerdict_release_iff wf).mpr h] at hv
      cases hv
    refine ⟨fun x hx => res.canceled x ((unsatisfiable_wait wf hv).mp hx), fun x hx hs => ?_,
      fun x hx hs => res.kept x (mt (unsatisfiable_wait wf hv).mpr hx) fun h =>
        hs ⟨mem_cons_of_mem _ h.1, h.2⟩⟩
    have e : x ≠ id := by
      rintro rfl
      exact hsat hs
    exact res.released x (mem_of_ne_of_mem e hx) hs
  | @release id ids db db' hv _ ih =>
    have hsat := (blockedVerdict_release_iff wf).mp hv
    obtain ⟨d, hvotes⟩ := releaseAndResolve_decides wf hv
    have res := ih (d.within.wf wf)
    have hself := (res.decided d.decided).trans (releaseAndResolve_view wf hv)
    have hopen : upstreamVote (releaseAndResolve id db).2 id ≠ .release := by
      rw [hvotes, d.blocked.vote wf]
      nofun
    have hiff : ∀ {x : ID}, x ≠ id → (Satisfied (releaseAndResolve id db).2 x ↔ Satisfied db x) :=
      d.satisfied_iff wf hopen fun u _ => hvotes u
    refine ⟨fun x hx => ?_, fun x hx hs => ?_, fun x hx hs => ?_⟩
    · have hx1 := (d.unsatisfiable_release wf hsat hvotes).mp hx
      rw [res.canceled x hx1, d.within.view x (d.blocked_iff.mp hx1.blocked).2]
    · by_cases e : x = id
      · rw [e, hself]
      · rw [res.released x (mem_of_ne_of_mem e hx) ((hiff e).mpr hs), d.within.view x e]
    have e : x ≠ id := by
      rintro rfl
      exact hs ⟨mem_cons_self, hsat⟩
    rw [res.kept x (mt (d.unsatisfiable_release wf hsat hvotes).mpr hx), d.within.view x e]
    exact fun h => hs ⟨mem_cons_of_mem _ h.1, (hiff e).mp h.2⟩
  | @cancel id ids db db' hv _ ih =>
    obtain ⟨hb, hcancel⟩ := (blockedVerdict_cancel_iff wf).mp hv
    obtain ⟨d, hvote⟩ := cancelBlocked_decides wf hb now
    have res := ih (d.within.wf wf)
    have hself := (res.decided d.decided).trans (cancelBlocked_view hb wf now)
    have hvotes := fun u (hu : u ≠ id) => d.within.vote_eq hu
    have hiff : ∀ {x : ID}, x ≠ id → (Satisfied _ x ↔ Satisfied db x) :=
      d.satisfied_iff wf (by rw [hvote]; nofun) hvotes
    refine ⟨fun x hx => ?_, fun x hx hs => ?_, fun x hx hs => ?_⟩
    · rcases (d.unsatisfiable_cancel hcancel hvote hvotes).mp hx with rfl | hx1
      · exact hself
      · rw [res.canceled x hx1, d.within.view x (d.blocked_iff.mp hx1.blocked).2]
    · -- the canceled job itself was not to be released
      have e : x ≠ id := by
        rintro rfl
        obtain ⟨up, hup, hv⟩ := hcancel
        rw [hs.2 up hup] at hv
        cases hv
      rw [res.released x (mem_append_right _ (mem_of_ne_of_mem e hx)) ((hiff e).mpr hs), d.within.view x e]
    · have hiffUnsat : Unsatisfiable db (id :: ids) x ↔ _ := d.unsatisfiable_cancel hcancel hvote hvotes
      have e : x ≠ id := fun e => hx (hiffUnsat.mpr (.inl e))
      rw [res.kept x (fun h => hx (hiffUnsat.mpr (.inr h))) fun h => ?_, d.within.view x e]
      -- nor is a job behind it
      rcases mem_append.mp h.1 with hdep | hmem
      · have := h.2.2 id (d.edges ▸ mem_listDependents.mp hdep)
        rw [hvote] at this
        cases this
      · exact hs ⟨mem_cons_of_mem _ hmem, (hiff e).mp h.2⟩

lemma reconcileJob_cascades {fuel : Nat} (hrec : ∀ up s rest t, WF s → blockedCount s < fuel →
    Cascades now rest (reconcileNested now fuel up s).2 t → Cascades now (listDependents s up ++ rest) s t)
    (wf : WF db) (hn : blockedCount db ≤ fuel)
    (h : Cascades now rest (reconcileBlockedJob (reconcileNested now fuel) now id db).2 db') :
    Cascades now (id :: rest) db db' := by
  rw [reconcileBlockedJob, read_bind] at h
  cases hv : blockedVerdict db id with
  | wait =>
    rw [hv] at h
    exact .wait hv h
  | release =>
    rw [hv] at h
    exact .release hv h
  | cancel =>
    rw [hv] at h
    have hb := blocked_of_blockedVerdict (by rw [hv]; simp)
    obtain ⟨db₁, heq, within, _, hless⟩ := cancelBlocked_spec wf hb failureReasonUpstreamFailed now
    have hrun : (Prog.tx (cancelBlockedJob id failureReasonUpstreamFailed now) >>= fun _ =>
        reconcileNested now fuel id) db = reconcileNested now fuel id db₁ := tx_bind_ok heq
    have h1 : Cascades now rest (reconcileNested now fuel id db₁).2 db' := hrun ▸ h
    have hdeps : listDependents db₁ id = listDependents db id := by
      simp only [listDependents, within.sameKeys.edges]
    refine .cancel hv ?_
    rw [heq, ← hdeps]
    exact hrec id db₁ rest db' (within.wf wf) (by omega) h1

lemma reconcileNested_cascades (fuel : Nat) (up : ID) (wf : WF db)
    (hfuel : blockedCount db < fuel) (h : Cascades now rest (reconcileNested now fuel up db).2 db') :
    Cascades now (listDependents db up ++ rest) db db' := by
  induction fuel generalizing db db' up rest with
  | zero => omega
  | succ fuel ih =>
    rw [reconcileNested, read_bind] at h
    have hloop : ∀ (ids : List ID) {s : DB}, WF s → blockedCount s ≤ fuel →
        Cascades now rest (Prog.each (reconcileBlockedJob (reconcileNested now fuel) now) ids s).2 db' →
        Cascades now (ids ++ rest) s db' := by
      intro ids
      induction ids with
      | nil => exact fun _ _ h => h
      | cons id ids ihids =>
        intro s wfs hs h
        obtain ⟨hr, within, _⟩ := reconcileJob_spec now
          (fun up s wfs hs => reconcileNested_spec now fuel up wfs hs) wfs hs id
        have hrun : Prog.each (reconcileBlockedJob (reconcileNested now fuel) now) (id :: ids) s =
            Prog.each (reconcileBlockedJob (reconcileNested now fuel) now) ids
              (reconcileBlockedJob (reconcileNested now fuel) now id s).2 :=
          bind_ok (Prod.ext hr rfl)
        rw [hrun] at h
        have hle := within.blockedCount_le wfs
        exact reconcileJob_cascades (fun up s rest t wfs hs h => ih up wfs hs h) wfs hs
          (ihids (within.wf wfs) (by omega) h)
    exact hloop _ wf (by omega) h

end

inductive BlockedBehind (db : DB) (up : ID) : ID → Prop where
  | direct {id : ID} : Blocked db id → ⟨id, up⟩ ∈ db.jobDependencies → BlockedBehind db up id
  | through {id mid : ID} : Blocked db id → ⟨id, mid⟩ ∈ db.jobDependencies → BlockedBehind db up mid →
    BlockedBehind db up id

section
variable {db : DB} {up id : ID}

lemma unsatisfiable_iff_behind (hvote : upstreamVote db up = .cancel) :
    Unsatisfiable db (listDependents db up) id ↔ BlockedBehind db up id := by
  constructor
  · intro h
    induction h with
    | first hid hb _ _ => exact .direct hb (mem_listDependents.mp hid)
    | behind hb hup _ ih => exact .through hb hup ih
  · intro h
    induction h with
    | direct hb hup => exact .first (mem_listDependents.mpr hup) hb hup hvote
    | through hb hup _ ih => exact .behind hb hup ih

lemma vote_cancel_of_ended (h : ∀ j ∈ db.jobs, j.id = up → j.status.Unsuccessful) :
    upstreamVote db up = .cancel := by
  unfold upstreamVote
  split
  · rfl
  rename_i j hj
  have hst := h j (DB.job?_some hj).1 (DB.job?_some hj).2
  have hne : j.status ≠ .completed := fun e => by simp [e, JobStatus.Unsuccessful] at hst
  rw [if_neg hne, if_pos hst]

lemma vote_release_iff (wf : WF db) :
    upstreamVote db up = .release ↔ ∃ j ∈ db.jobs, j.id = up ∧ j.status = .completed := by
  refine ⟨completed_of_vote, ?_⟩
  rintro ⟨j, hj, rfl, hst⟩
  simp [upstreamVote, wf.job?_eq hj, hst]

lemma satisfied_iff (wf : WF db) : Satisfied db id ↔ Blocked db id ∧ upstreamsCompleted db id := by
  refine and_congr_right fun _ => ?_
  constructor
  · rintro h ⟨a, u⟩ he rfl
    exact completed_of_vote (h u he)
  · exact fun h u he => (vote_release_iff wf).mpr (h _ he rfl)

/-- `ReconcileDependents` ends, and cancels or releases the blocked jobs it must and no other. -/
theorem reconcileDependents_cascade (wf : WF db) (now : Time) (up : ID) :
    ∃ db', reconcileDependents now up db = (.ok (), db') ∧ Cascades now (listDependents db up) db db' ∧
      (∀ fuel, (listBlockedJobs db).length < fuel → reconcileNested now fuel up db = (.ok (), db')) ∧
      ((∀ j ∈ db.jobs, j.id = up → j.status.Unsuccessful) →
        ∀ id, (BlockedBehind db up id → db'.view id = (db.view id).cancel now) ∧
          (¬ BlockedBehind db up id → db'.view id = db.view id)) ∧
      ((∃ j ∈ db.jobs, j.id = up ∧ j.status = .completed) →
        ∀ id, (Blocked db id ∧ ⟨id, up⟩ ∈ db.jobDependencies ∧ upstreamsCompleted db id →
            db'.view id = (db.view id).release) ∧
          (Unsatisfiable db (listDependents db up) id → db'.view id = (db.view id).cancel now) ∧
          (¬ (Blocked db id ∧ ⟨id, up⟩ ∈ db.jobDependencies ∧ upstreamsCompleted db id) →
            ¬ Unsatisfiable db (listDependents db up) id → db'.view id = db.view id)) := by
  obtain ⟨hr, _⟩ := reconcileDependents_spec now up wf
  have hrun : reconcileDependents now up db = (.ok (), (reconcileDependents now up db).2) := Prod.ext hr rfl
  have hcascades : Cascades now (listDependents db up ++ []) db (reconcileDependents now up db).2 :=
    reconcileNested_cascades (blockedCount db + 1) up wf (Nat.lt_succ_self _) (.done _)
  rw [append_nil] at hcascades
  have res := hcascades.result wf
  have hreleased : ∀ id, id ∈ listDependents db up ∧ Satisfied db id ↔
      Blocked db id ∧ ⟨id, up⟩ ∈ db.jobDependencies ∧ upstreamsCompleted db id := fun id => by
    rw [mem_listDependents, satisfied_iff wf, and_left_comm]
  refine ⟨_, hrun, hcascades, fun fuel hfuel => ?_, fun hended id => ?_, fun hcompleted id => ⟨fun h => ?_,
    res.canceled id, fun h hu => res.kept id hu (mt (hreleased id).mp h)⟩⟩
  · rw [← hrun]
    exact reconcileNested_fuel up wf hfuel (Nat.lt_succ_self _)
  · have hvote := vote_cancel_of_ended hended
    rw [← unsatisfiable_iff_behind hvote]
    refine ⟨res.canceled id, fun hu => res.kept id hu fun h => ?_⟩
    have hrel := h.2.2 up (mem_listDependents.mp h.1)
    rw [hvote] at hrel
    cases hrel
  · obtain ⟨hmem, hsat⟩ := (hreleased id).mpr h
    exact res.released id hmem hsat

def farmDB : DB :=
  { DB.empty with
    jobs := [⟨1, 0, 0, .failed, 0, "", none, none, ⟨none, none, none⟩⟩,
      ⟨2, 0, 0, .blocked, 0, "", none, none, ⟨none, none, none⟩⟩,
      ⟨3, 0, 0, .blocked, 0, "", none, none, ⟨none, none, none⟩⟩,
      ⟨4, 0, 0, .running, 0, "", none, none, ⟨none, none, none⟩⟩,
      ⟨5, 0, 0, .blocked, 0, "", none, none, ⟨none, none, none⟩⟩]
    jobDependencies := [⟨2, 1⟩, ⟨3, 2⟩, ⟨5, 4⟩]
    steps := [⟨1, 1, "a", [], .failed⟩, ⟨2, 2, "a", [], .pending⟩, ⟨3, 3, "a", [], .pending⟩,
      ⟨4, 4, "a", [], .ready⟩, ⟨5, 5, "a", [], .pending⟩]
    tasks := [⟨1, 1, 1, .failed, none, none, 0, none, "", ""⟩, ⟨2, 2, 2, .pending, none, none, 0, none, "", ""⟩,
      ⟨3, 3, 3, .pending, none, none, 0, none, "", ""⟩, ⟨4, 4, 4, .ready, none, none, 0, none, "", ""⟩,
      ⟨5, 5, 5, .pending, none, none, 0, none, "", ""⟩] }

theorem reconcileDependents_cascade_chain : WF farmDB ∧ ∃ db', reconcileDependents 7 1 farmDB = (.ok (), db') ∧
    db'.view 3 = (farmDB.view 3).cancel 7 ∧ db'.view 5 = farmDB.view 5 := by
  have wf : WF farmDB := by constructor <;> (try unfold Keyed) <;> decide
  have behind : BlockedBehind farmDB 1 3 :=
    .through (by unfold Blocked; decide) (by decide : (⟨3, 2⟩ : JobDependency) ∈ _)
      (.direct (by unfold Blocked; decide) (by decide))
  have reached : ∀ id, BlockedBehind farmDB 1 id → id = 2 ∨ id = 3 := by
    intro id h
    induction h with
    | direct _ hup => exact .inl (by simpa [farmDB] using hup)
    | through _ hup _ ih =>
      rcases ih with rfl | rfl
      · exact .inr (by simpa [farmDB] using hup)
      · simp [farmDB] at hup
  have beside : ¬ BlockedBehind farmDB 1 5 := fun h => absurd (reached 5 h) (by decide)
  obtain ⟨db', heq, _, _, hended, _⟩ := reconcileDependents_cascade wf 7 1
  have ended := hended (by decide)
  exact ⟨wf, db', heq, (ended 3).1 behind, (ended 5).2 beside⟩

end
end Sqi

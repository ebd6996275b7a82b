import Sqi.Scheduler.Cascade
import Sqi.Store.JobStatus

/-! What the cascade does to the rows. -/

namespace Sqi
open Function List Program Table Prog

/-! ## The rows of one job -/

structure JobView where
  jobs : List Job
  steps : List Step
  tasks : List Task

def DB.view (db : DB) (jobID : ID) : JobView :=
  ⟨db.jobs.filter (·.id = jobID), listSteps db jobID, db.tasks.filter (·.jobID = jobID)⟩

section
variable {db : DB} {jobID : ID} {s : Step}

@[simp] lemma mem_listSteps : s ∈ listSteps db jobID ↔ s ∈ db.steps ∧ s.jobID = jobID := by simp [listSteps]
@[simp] lemma mem_view_steps : s ∈ (db.view jobID).steps ↔ s ∈ db.steps ∧ s.jobID = jobID := mem_listSteps
@[simp] lemma mem_view_tasks {t : Task} : t ∈ (db.view jobID).tasks ↔ t ∈ db.tasks ∧ t.jobID = jobID := by
  simp [DB.view]
@[simp] lemma mem_view_jobs {j : Job} : j ∈ (db.view jobID).jobs ↔ j ∈ db.jobs ∧ j.id = jobID := by
  simp [DB.view]

end

/-! ## What the cascade may write -/

def Job.fixed (j : Job) : ID × ID × ID × RetryOverrides × Nat × String :=
  (j.id, j.farmID, j.queueID, j.retry, j.failedAttempts, j.parkReason)
def Job.Cascaded (j j' : Job) : Prop :=
  j'.fixed = j.fixed ∧ (j' = j ∨ (¬ j.status.IsTerminal ∧ (j'.status.IsTerminal ∨ j.status = .blocked)))
def Step.Cascaded (s s' : Step) : Prop := s'.key = s.key ∧ (s.status.IsTerminal → s' = s)
def Task.Cascaded (t t' : Task) : Prop := t'.key = t.key ∧ (t.status ≠ .pending → t' = t)

structure Within (touched : ID → Prop) (db db' : DB) : Prop where
  jobs : Forall₂ Job.Cascaded db.jobs db'.jobs
  steps : Forall₂ Step.Cascaded db.steps db'.steps
  tasks : Forall₂ Task.Cascaded db.tasks db'.tasks
  rest : db' = { db with jobs := db'.jobs, steps := db'.steps, tasks := db'.tasks }
  view : ∀ jobID, ¬ touched jobID → db'.view jobID = db.view jobID

lemma Job.Cascaded.refl (j : Job) : j.Cascaded j := ⟨rfl, .inl rfl⟩
lemma Step.Cascaded.refl (s : Step) : s.Cascaded s := ⟨rfl, fun _ => rfl⟩
lemma Task.Cascaded.refl (t : Task) : t.Cascaded t := ⟨rfl, fun _ => rfl⟩

lemma Job.Cascaded.trans {j j' j'' : Job} (h1 : j.Cascaded j') (h2 : j'.Cascaded j'') : j.Cascaded j'' := by
  refine ⟨h2.1.trans h1.1, ?_⟩
  rcases h1.2 with rfl | ⟨hopen, hto⟩
  · exact h2.2
  rcases h2.2 with rfl | ⟨hopen', hto'⟩
  · exact .inr ⟨hopen, hto⟩
  · exact .inr ⟨hopen, .inr (hto.resolve_left hopen')⟩

lemma Step.Cascaded.trans {s s' s'' : Step} (h1 : s.Cascaded s') (h2 : s'.Cascaded s'') : s.Cascaded s'' := by
  refine ⟨h2.1.trans h1.1, fun ht => ?_⟩
  have e := h1.2 ht
  rw [h2.2 (e ▸ ht), e]
lemma Task.Cascaded.trans {t t' t'' : Task} (h1 : t.Cascaded t') (h2 : t'.Cascaded t'') : t.Cascaded t'' := by
  refine ⟨h2.1.trans h1.1, fun ht => ?_⟩
  have e := h1.2 ht
  rw [h2.2 (e ▸ ht), e]
lemma Job.Cascaded.of_terminal {j j' : Job} (h : j.Cascaded j') (ht : j.status.IsTerminal) : j' = j :=
  h.2.resolve_right fun hn => hn.1 ht

lemma Job.Cascaded.blocked_before {j j' : Job} (h : j.Cascaded j') (hb : j'.status = .blocked) :
    j.status = .blocked := by
  rcases h.2 with rfl | ⟨_, ht | hj⟩
  · exact hb
  · simp [hb, JobStatus.IsTerminal] at ht
  · exact hj

namespace Within
variable {touched : ID → Prop} {db db' db'' : DB}

@[refl] lemma refl (db : DB) : Within touched db db :=
  ⟨forall₂_refl Job.Cascaded.refl _, forall₂_refl Step.Cascaded.refl _,
    forall₂_refl Task.Cascaded.refl _, rfl, fun _ _ => rfl⟩

lemma trans (h1 : Within touched db db') (h2 : Within touched db' db'') : Within touched db db'' where
  jobs := forall₂_trans (fun _ _ _ k1 k2 => k1.trans k2) h1.jobs h2.jobs
  steps := forall₂_trans (fun _ _ _ k1 k2 => k1.trans k2) h1.steps h2.steps
  tasks := forall₂_trans (fun _ _ _ k1 k2 => k1.trans k2) h1.tasks h2.tasks
  rest := by rw [h2.rest, h1.rest]
  view := fun jobID h => (h2.view jobID h).trans (h1.view jobID h)

lemma mono {touched' : ID → Prop} (h : Within touched db db') (hsub : ∀ id, touched id → touched' id) :
    Within touched' db db' := { h with view := fun jobID hn => h.view jobID fun ht => hn (hsub _ ht) }

lemma updateJobs {p : Job → Prop} [DecidablePred p] {f : Job → Job}
    (hf : ∀ j, p j → j.Cascaded (f j)) (hp : ∀ j ∈ db.jobs, p j → touched j.id) :
    Within touched db (db.updateJobs p f) := by
  refine { (refl db : Within touched db db) with jobs := forall₂_update Job.Cascaded.refl hf, rest := rfl, view := ?_ }
  intro jobID hn
  have same : (update p f db.jobs).filter (fun j => decide (j.id = jobID)) =
      db.jobs.filter (fun j => decide (j.id = jobID)) := by
    refine filter_update (q := fun j : Job => j.id = jobID) fun j hj hpj => ?_
    have hid : (f j).id = j.id := congrArg Prod.fst (hf j hpj).1
    exact ⟨fun e => hn (e ▸ hp j hj hpj), fun e => hn (e ▸ hid ▸ hp j hj hpj)⟩
  simp only [DB.view, DB.updateJobs_jobs, same]
  rfl

lemma updateSteps {p : Step → Prop} [DecidablePred p] {f : Step → Step} (hkey : ∀ s, (f s).key = s.key)
    (hp : ∀ s ∈ db.steps, p s → touched s.jobID ∧ ¬ s.status.IsTerminal) :
    Within touched db (db.updateSteps p f) := by
  refine { (refl db : Within touched db db) with
    steps := forall₂_update_mem Step.Cascaded.refl fun s hs h => ⟨hkey s, fun ht => absurd ht (hp s hs h).2⟩
    rest := rfl, view := ?_ }
  intro jobID hn
  have same : listSteps (db.updateSteps p f) jobID = listSteps db jobID := by
    refine filter_update (q := fun s : Step => s.jobID = jobID) fun s hs hps => ?_
    have hid : (f s).jobID = s.jobID := congrArg (·.2.1) (hkey s)
    exact ⟨fun e => hn (e ▸ (hp s hs hps).1), fun e => hn (e ▸ hid ▸ (hp s hs hps).1)⟩
  simp only [DB.view, same]
  rfl

lemma updateTasks {p : Task → Prop} [DecidablePred p] {f : Task → Task} (hkey : ∀ t, (f t).key = t.key)
    (hp : ∀ t ∈ db.tasks, p t → touched t.jobID ∧ t.status = .pending) :
    Within touched db (db.updateTasks p f) := by
  refine { (refl db : Within touched db db) with
    tasks := forall₂_update_mem Task.Cascaded.refl fun t ht h => ⟨hkey t, fun hn => absurd (hp t ht h).2 hn⟩
    rest := rfl, view := ?_ }
  intro jobID hn
  have same : (update p f db.tasks).filter (fun t => decide (t.jobID = jobID)) =
      db.tasks.filter (fun t => decide (t.jobID = jobID)) := by
    refine filter_update (q := fun t : Task => t.jobID = jobID) fun t ht hpt => ?_
    have hid : (f t).jobID = t.jobID := congrArg (·.2.1) (hkey t)
    exact ⟨fun e => hn (e ▸ (hp t ht hpt).1), fun e => hn (e ▸ hid ▸ (hp t ht hpt).1)⟩
  simp only [DB.view, DB.updateTasks_tasks, same]
  rfl

section
variable (h : Within touched db db')
include h

lemma attempts_eq : db'.attempts = db.attempts := (congrArg DB.attempts h.rest :)
lemma claims_eq : db'.claims = db.claims := (congrArg DB.claims h.rest :)

lemma sameKeys : SameKeys db db' where
  jobs := map_eq_of_forall₂ _ (fun _ _ k => congrArg Prod.fst k.1) h.jobs
  edges := (congrArg DB.jobDependencies h.rest :)
  steps := map_eq_of_forall₂ _ (fun _ _ k => k.1) h.steps
  tasks := map_eq_of_forall₂ _ (fun _ _ k => k.1) h.tasks
  attempts := by rw [h.attempts_eq]

lemma wf (wf : WF db) : WF db' := wf.of_sameKeys h.sameKeys
lemma mem_task {t : Task} (ht : t ∈ db.tasks) (hp : t.status ≠ .pending) :
    t ∈ db'.tasks := by
  obtain ⟨t', ht', hk⟩ := of_mem_left h.tasks ht
  exact hk.2 hp ▸ ht'
lemma mem_step {s : Step} (hs : s ∈ db.steps) (ht : s.status.IsTerminal) :
    s ∈ db'.steps := by
  obtain ⟨s', hs', hk⟩ := of_mem_left h.steps hs
  exact hk.2 ht ▸ hs'
lemma mem_job {j : Job} (hj : j ∈ db.jobs) (ht : j.status.IsTerminal) :
    j ∈ db'.jobs := by
  obtain ⟨j', hj', hk⟩ := of_mem_left h.jobs hj
  exact hk.of_terminal ht ▸ hj'

end
end Within

/-! ## Pending steps moved together -/

def moveTask (target : TaskStatus) (reason : String) (t : Task) : Task :=
  { t with
    status := target
    unschedulableReason := ""
    failureReason := stampReason reason t.failureReason }

def movePendingSteps (ids : List ID) (stepTo : StepStatus) (taskTo : TaskStatus) (reason : String)
    (db : DB) : DB :=
  (db.updateSteps (fun s => s.id ∈ ids ∧ s.status = .pending)
    (fun s => { s with status := stepTo })).updateTasks
      (fun t => t.stepID ∈ ids ∧ t.status = .pending) (moveTask taskTo reason)

section
variable {db : DB} {stepTo : StepStatus} {taskTo : TaskStatus} {reason : String}

lemma moveStep_moves {id : ID} {s : Step} (hs : db.step? id = some s) (hp : s.status = .pending)
    (hup : stepTo = .canceled → anyUpstreamUnsuccessful db s.jobID s.dependsOn) :
    movePendingStep id stepTo taskTo reason db = (.ok true, movePendingSteps [id] stepTo taskTo reason db) := by
  have hguard : ¬ (stepTo = .canceled ∧ ¬ anyUpstreamUnsuccessful db s.jobID s.dependsOn) := fun h => h.2 (hup h.1)
  simp only [movePendingStep, hs, if_neg hguard, hp, ne_eq, not_true_eq_false, if_false]
  simp only [movePendingSteps, sqlTransitionStepPendingTasks, sqlGuardStepPending, mem_singleton]
  rfl

lemma moveSteps_nil : movePendingSteps [] stepTo taskTo reason db = db := by
  have steps : update (fun s : Step => s.id ∈ ([] : List ID) ∧ s.status = .pending)
      (fun s => { s with status := stepTo }) db.steps = db.steps :=
    update_eq_self fun _ _ h => nomatch h.1
  have tasks : update (fun t : Task => t.stepID ∈ ([] : List ID) ∧ t.status = .pending)
      (moveTask taskTo reason) db.tasks = db.tasks :=
    update_eq_self fun _ _ h => nomatch h.1
  simp only [movePendingSteps, DB.updateTasks, DB.updateSteps, steps, tasks]

lemma moveSteps_append (hs : stepTo ≠ .pending) (ht : taskTo ≠ .pending) (ids ids' : List ID) :
    movePendingSteps ids' stepTo taskTo reason (movePendingSteps ids stepTo taskTo reason db) =
      movePendingSteps (ids ++ ids') stepTo taskTo reason db := by
  simp only [movePendingSteps, DB.updateTasks, DB.updateSteps]
  rw [update_update fun s _ h => hs h.2, update_update fun t _ h => ht h.2]
  congr 1
  · exact update_congr fun s _ => by simp [or_and_right]
  · exact update_congr fun t _ => by simp [or_and_right]

lemma moveSteps_within (wf : WF db) {ids : List ID} {jobID : ID}
    (hids : ∀ s ∈ db.steps, s.id ∈ ids → s.jobID = jobID) :
    Within (· = jobID) db (movePendingSteps ids stepTo taskTo reason db) := by
  have steps : Within (· = jobID) db (db.updateSteps (fun s => s.id ∈ ids ∧ s.status = .pending)
      (fun s => { s with status := stepTo })) := by
    refine .updateSteps (fun _ => rfl) fun s hs h => ⟨hids s hs h.1, ?_⟩
    simp [h.2, StepStatus.IsTerminal]
  refine steps.trans (.updateTasks (fun _ => rfl) fun t ht h => ⟨?_, h.2⟩)
  obtain ⟨s, hs, e, ej⟩ := wf.task_step t ht
  exact ej ▸ hids s hs (e ▸ h.1)

end

section
variable {db : DB} {jobID : ID}

def LookupOf (db : DB) (jobID : ID) (m : String → Option StepStatus) : Prop :=
  ∀ name status, m name = some status ↔ ∃ s ∈ db.steps, s.jobID = jobID ∧ s.name = name ∧ s.status = status

lemma lookupOf_byName (wf : WF db) (jobID : ID) :
    LookupOf db jobID (stepStatusByName (listSteps db jobID)) := by
  intro name status
  simp only [stepStatusByName, Option.map_eq_some_iff]
  constructor
  · rintro ⟨s, hs, rfl⟩
    have hmem := mem_of_getLast? hs
    simp only [mem_filter, mem_listSteps, decide_eq_true_eq] at hmem
    exact ⟨s, hmem.1.1, hmem.1.2, hmem.2, rfl⟩
  · rintro ⟨s, hs, ej, en, rfl⟩
    have hmem : s ∈ (listSteps db jobID).filter (·.name = name) :=
      mem_filter.mpr ⟨mem_listSteps.mpr ⟨hs, ej⟩, by simpa using en⟩
    obtain ⟨s', hs'⟩ := Option.isSome_iff_exists.mp
      (getLast?_isSome.mpr (ne_nil_of_mem hmem))
    have hmem' := mem_of_getLast? hs'
    simp only [mem_filter, mem_listSteps, decide_eq_true_eq] at hmem'
    have hid := wf.names s' hmem'.1.1 s hs (hmem'.1.2.trans ej.symm) (hmem'.2.trans en.symm)
    exact ⟨s', hs', congrArg Step.status (wf.steps_keyed.eq_of_mem hmem'.1.1 hs hid)⟩

lemma LookupOf.at_step {m : String → Option StepStatus} (h : LookupOf db jobID m) {s : Step}
    (hs : s ∈ db.steps) (e : s.jobID = jobID) : m s.name = some s.status :=
  (h _ _).mpr ⟨s, hs, e, rfl, rfl⟩

lemma SameKeys.listSteps {db' : DB} (h : SameKeys db db') (jobID : ID) :
    (listSteps db' jobID).map Step.key = (listSteps db jobID).map Step.key := by
  have ofKeys : ∀ d : DB, (Sqi.listSteps d jobID).map Step.key =
      (d.steps.map Step.key).filter (fun k => decide (k.2.1 = jobID)) := fun d => by
    simp only [Sqi.listSteps, filter_map]
    rfl
  rw [ofKeys, ofKeys, h.steps]

end

def JobView.NoReleasable (v : JobView) : Prop := ∀ s ∈ v.steps, ¬ releasable v.steps s
def releasableIDs (db : DB) (jobID : ID) : List ID :=
  ((listSteps db jobID).filter fun s => releasable (listSteps db jobID) s).map (·.id)
def PendingOf (db : DB) (jobID : ID) (ids : List ID) : Prop :=
  ∀ s ∈ db.steps, s.id ∈ ids → s.jobID = jobID ∧ s.status = .pending

section
variable {db : DB}

section
variable (wf : WF db)
include wf

lemma releaseSteps_eq (m : String → Option StepStatus) {todo : List Step}
    (hmem : ∀ s ∈ todo, s ∈ db.steps) (hnodup : (todo.map (·.id)).Nodup) (promoted : Nat) :
    ∃ n, releaseSteps m todo promoted db = (.ok n, movePendingSteps
      ((todo.filter fun s => s.status = .pending ∧ allDepsCompleted s.dependsOn m).map (·.id))
      .ready .ready "" db) := by
  induction todo generalizing db promoted with
  | nil => exact ⟨promoted, by rw [filter_nil, map_nil, moveSteps_nil]; rfl⟩
  | cons s todo ih =>
    have hs := hmem s mem_cons_self
    have hrest := nodup_cons.mp hnodup
    by_cases hp : s.status = .pending ∧ allDepsCompleted s.dependsOn m
    · have hmoved : releaseStep s.id db = (.ok true, movePendingSteps [s.id] .ready .ready "" db) :=
        moveStep_moves (wf.step?_eq hs) hp.1 nofun
      have hwithin : Within (· = s.jobID) db (movePendingSteps [s.id] .ready .ready "" db) :=
        moveSteps_within wf fun u hu h =>
          congrArg Step.jobID (wf.steps_keyed.eq_of_mem hu hs (mem_singleton.mp h))
      -- the other listed steps are not written
      have hmem' : ∀ u ∈ todo, u ∈ (movePendingSteps [s.id] .ready .ready "" db).steps := fun u hu => by
        refine mem_update.mpr ⟨u, hmem u (mem_cons_of_mem _ hu), if_neg fun h => ?_⟩
        exact hrest.1 (mem_map.mpr ⟨u, hu, mem_singleton.mp h.1⟩)
      obtain ⟨n, hn⟩ := ih (hwithin.wf wf) hmem' hrest.2 (promoted + 1)
      refine ⟨n, ?_⟩
      rw [releaseSteps, if_pos hp, tx_bind_ok hmoved, if_pos rfl, hn,
        moveSteps_append (by simp) (by simp), filter_cons_of_pos (by simpa using hp)]
      rfl
    · obtain ⟨n, hn⟩ := ih wf (fun u hu => hmem u (mem_cons_of_mem _ hu)) hrest.2 promoted
      exact ⟨n, by rw [releaseSteps, if_neg hp, hn, filter_cons_of_neg (by simpa using hp)]⟩

lemma resolve_eq (jobID : ID) : ∃ n, resolveDependencies jobID db =
      (.ok n, movePendingSteps (releasableIDs db jobID) .ready .ready "" db) :=
  releaseSteps_eq wf _ (fun _ hs => (mem_listSteps.mp hs).1)
    (wf.steps_keyed.sublist (List.filter_sublist.map _)) 0

lemma releasableIDs_pending (jobID : ID) : PendingOf db jobID (releasableIDs db jobID) := by
  intro s hs h
  obtain ⟨s', hs', e⟩ := mem_map.mp h
  obtain ⟨hlist, hrel⟩ := mem_filter.mp hs'
  have hmem := mem_listSteps.mp hlist
  obtain rfl := wf.steps_keyed.eq_of_mem hmem.1 hs e
  exact ⟨hmem.2, (of_decide_eq_true hrel).1⟩

lemma resolve_within (jobID : ID) :
    Within (· = jobID) db (resolveDependencies jobID db).2 := by
  obtain ⟨n, hn⟩ := resolve_eq wf jobID
  rw [hn]
  exact moveSteps_within wf fun s hs h => (releasableIDs_pending wf jobID s hs h).1

lemma resolve_noReleasable (jobID : ID) :
    ((resolveDependencies jobID db).2.view jobID).NoReleasable := by
  obtain ⟨n, hn⟩ := resolve_eq wf jobID
  rw [hn]
  have wf' : WF (movePendingSteps (releasableIDs db jobID) .ready .ready "" db) :=
    (moveSteps_within wf fun s hs h => (releasableIDs_pending wf jobID s hs h).1).wf wf
  rintro s' hs' ⟨hpending, hdeps⟩
  obtain ⟨hmem', ej⟩ := mem_view_steps.mp hs'
  obtain ⟨s, hs, rfl⟩ := mem_update.mp hmem'
  split at hpending
  · cases hpending
  rename_i hkept
  rw [if_neg hkept] at ej hdeps
  refine hkept ⟨mem_map_of_mem (mem_filter.mpr ⟨mem_listSteps.mpr ⟨hs, ej⟩, ?_⟩), hpending⟩
  refine decide_eq_true ⟨hpending, fun name hname => ?_⟩
  obtain ⟨u', hu', euj, eun, hcompleted⟩ := (lookupOf_byName wf' jobID name .completed).mp (hdeps name hname)
  obtain ⟨u, hu, rfl⟩ := mem_update.mp hu'
  split at hcompleted
  · cases hcompleted
  rename_i hkept'
  rw [if_neg hkept'] at euj eun
  exact (lookupOf_byName wf jobID name .completed).mpr ⟨u, hu, euj, eun, hcompleted⟩

lemma resolve_again {jobID : ID} (h : (db.view jobID).NoReleasable) :
    ∃ n, resolveDependencies jobID db = (.ok n, db) := by
  obtain ⟨n, hn⟩ := resolve_eq wf jobID
  have hnil : releasableIDs db jobID = [] := by
    rw [releasableIDs, map_eq_nil_iff, filter_eq_nil_iff]
    exact fun s hs hr => h s hs (of_decide_eq_true hr)
  rw [hnil, moveSteps_nil] at hn
  exact ⟨n, hn⟩

end
end

def JobView.NoDoomed (v : JobView) : Prop :=
  ∀ s ∈ v.steps, s.status = .pending → ∀ u ∈ v.steps, u.name ∈ s.dependsOn → ¬ u.status.Unsuccessful
def pendingCount (m : String → Option StepStatus) (steps : List Step) : Nat :=
  steps.countP fun s => m s.name = some .pending
def cancelSteps (ids : List ID) (db : DB) : DB :=
  movePendingSteps ids .canceled .canceled failureReasonUpstreamFailed db

lemma cancelSteps_append (ids ids' : List ID) (db : DB) :
    cancelSteps ids' (cancelSteps ids db) = cancelSteps (ids ++ ids') db :=
  moveSteps_append (by simp) (by simp) ids ids'

section
variable {db : DB} {jobID : ID}
variable {m : String → Option StepStatus} {s : Step} {steps : List Step} {ids ids' : List ID} {r : Step}

lemma cancelPendingStep_doomed (wf : WF db)
    (hm : LookupOf db jobID m) (hr : r ∈ db.steps) (hk : r.key = s.key)
    (ej : s.jobID = jobID) (hd : doomed m s) : r.status = .pending ∧
    cancelPendingStep s.id failureReasonUpstreamFailed db = (.ok true, cancelSteps [s.id] db) ∧
    LookupOf (cancelSteps [s.id] db) jobID (update m s.name (some .canceled)) := by
  simp only [Step.key, Prod.mk.injEq] at hk
  obtain ⟨eid, erj, ename, edeps⟩ := hk
  have hrj : r.jobID = jobID := erj.trans ej
  -- the row of the step is the only one of its name
  have same : ∀ u ∈ db.steps, u.jobID = jobID → u.name = s.name → u = r := fun u hu euj eun =>
    wf.steps_keyed.eq_of_mem hu hr (wf.names u hu r hr (euj.trans hrj.symm) (eun.trans ename.symm))
  have hpending : r.status = .pending := by
    obtain ⟨u, hu, euj, eun, hst⟩ := (hm _ _).mp hd.1
    exact same u hu euj eun ▸ hst
  have hmem : ∀ u ∈ db.steps, u.id ∈ [s.id] ↔ u = r := fun u hu => by
    rw [mem_singleton, ← eid]
    exact ⟨fun e => wf.steps_keyed.eq_of_mem hu hr e, fun e => e ▸ rfl⟩
  refine ⟨hpending, ?_, ?_⟩
  · refine moveStep_moves (eid ▸ wf.step?_eq hr) hpending fun _ => ?_
    obtain ⟨name, hname, st, hst, hu⟩ := hd.2
    obtain ⟨u, huMem, euj, eun, rfl⟩ := (hm name st).mp hst
    exact ⟨u, huMem, euj.trans hrj.symm, hu, by rw [edeps, eun]; exact hname⟩
  · intro name status
    by_cases hname : name = s.name
    · subst hname
      simp only [update_self, Option.some.injEq]
      constructor
      · rintro rfl
        refine ⟨_, mem_update.mpr ⟨r, hr, rfl⟩, ?_⟩
        rw [if_pos ⟨(hmem r hr).mpr rfl, hpending⟩]
        exact ⟨hrj, ename, rfl⟩
      · rintro ⟨u', hu', euj, eun, rfl⟩
        obtain ⟨u, hu, rfl⟩ := mem_update.mp hu'
        by_cases hq : u.id ∈ [s.id] ∧ u.status = .pending
        · rw [if_pos hq]
        · rw [if_neg hq] at euj eun
          have e := same u hu euj eun
          exact absurd ⟨(hmem u hu).mpr e, e ▸ hpending⟩ hq
    · rw [update_of_ne hname, hm name status]
      constructor
      · rintro ⟨u, hu, euj, eun, hst⟩
        refine ⟨u, mem_update.mpr ⟨u, hu, if_neg fun h => hname ?_⟩, euj, eun, hst⟩
        rw [← eun, (hmem u hu).mp h.1, ename]
      rintro ⟨u', hu', euj, eun, hst⟩
      obtain ⟨u, hu, rfl⟩ := mem_update.mp hu'
      by_cases hq : u.id ∈ [s.id] ∧ u.status = .pending
      · rw [if_pos hq] at eun
        exact absurd (eun.symm.trans ((hmem u hu).mp hq.1 ▸ ename)) hname
      · rw [if_neg hq] at euj eun hst
        exact ⟨u, hu, euj, eun, hst⟩

lemma pendingCount_update (hs : s ∈ steps) (hp : m s.name = some .pending) :
    pendingCount (update m s.name (some .canceled)) steps < pendingCount m steps := by
  have hle : ∀ u : Step, update m s.name (some StepStatus.canceled) u.name = some .pending →
      m u.name = some .pending ∧ u.name ≠ s.name := by
    intro u hu
    by_cases e : u.name = s.name
    · simp [e] at hu
    · rw [update_of_ne e] at hu
      exact ⟨hu, e⟩
  obtain ⟨before, after, rfl⟩ := append_of_mem hs
  have mono : ∀ us : List Step, pendingCount (update m s.name (some .canceled)) us ≤ pendingCount m us := fun us =>
    countP_mono_left fun u _ hu => decide_eq_true (hle u (of_decide_eq_true hu)).1
  have hb := mono before
  have ha := mono after
  simp only [pendingCount, countP_append, countP_cons, update_self, hp] at *
  simp only [Option.some.injEq, reduceCtorEq, decide_false, Bool.false_eq_true, if_false, decide_true, if_true] at *
  omega

def Lists (db : DB) (jobID : ID) (steps : List Step) : Prop :=
  (listSteps db jobID).map Step.key = steps.map Step.key

lemma Lists.row (h : Lists db jobID steps) (hs : s ∈ steps) :
    ∃ r ∈ db.steps, r.key = s.key ∧ s.jobID = jobID := by
  obtain ⟨r, hr, hk⟩ := exists_key_of_mem h hs
  obtain ⟨hmem, ej⟩ := mem_listSteps.mp hr
  have erj : r.jobID = s.jobID := congrArg (·.2.1) hk
  exact ⟨r, hmem, hk, erj.symm.trans ej⟩

lemma cancelSteps_within (wf : WF db) (hids : ∀ s ∈ db.steps, s.id ∈ ids → s.jobID = jobID) :
    Within (· = jobID) db (cancelSteps ids db) := moveSteps_within wf hids

lemma mem_of_mem_cancelSteps (hs : s ∈ (cancelSteps ids db).steps)
    (hp : s.status = .pending) : s ∈ db.steps ∧ s.id ∉ ids := by
  obtain ⟨r, hr, rfl⟩ := mem_update.mp hs
  by_cases hq : r.id ∈ ids ∧ r.status = .pending
  · rw [if_pos hq] at hp
    cases hp
  · rw [if_neg hq] at hp ⊢
    exact ⟨hr, fun h => hq ⟨h, hp⟩⟩

inductive Stranded (db : DB) (jobID : ID) : Step → Prop where
  | failed {s u : Step} : s ∈ (db.view jobID).steps → s.status = .pending → u ∈ (db.view jobID).steps →
    u.name ∈ s.dependsOn → u.status.Unsuccessful → Stranded db jobID s
  | behind {s u : Step} : s ∈ (db.view jobID).steps → s.status = .pending → u.name ∈ s.dependsOn →
    Stranded db jobID u → Stranded db jobID s

lemma Stranded.mem (h : Stranded db jobID s) : s ∈ db.steps ∧ s.jobID = jobID := by
  cases h with
  | failed hs => exact mem_view_steps.mp hs
  | behind hs => exact mem_view_steps.mp hs
lemma Stranded.pending (h : Stranded db jobID s) : s.status = .pending := by
  cases h with
  | failed _ hp => exact hp
  | behind _ hp => exact hp

def StrandedOf (db : DB) (jobID : ID) (ids : List ID) : Prop :=
  ∀ id ∈ ids, ∃ s, Stranded db jobID s ∧ s.id = id

lemma StrandedOf.row (wf : WF db) (h : StrandedOf db jobID ids)
    (hs : s ∈ db.steps) (hid : s.id ∈ ids) : Stranded db jobID s := by
  obtain ⟨r, hr, e⟩ := h s.id hid
  rwa [wf.steps_keyed.eq_of_mem hs hr.mem.1 e.symm]

lemma StrandedOf.pending (wf : WF db) (h : StrandedOf db jobID ids) : PendingOf db jobID ids :=
  fun _ hs hid => ⟨(h.row wf hs hid).mem.2, (h.row wf hs hid).pending⟩
lemma StrandedOf.within (wf : WF db) (h : StrandedOf db jobID ids) :
    Within (· = jobID) db (cancelSteps ids db) :=
  cancelSteps_within wf fun s hs hid => (h.pending wf s hs hid).1

lemma Stranded.before (wf : WF db) (hids : StrandedOf db jobID ids)
    (h : Stranded (cancelSteps ids db) jobID s) : Stranded db jobID s := by
  have kept : ∀ {r : Step}, r ∈ ((cancelSteps ids db).view jobID).steps → r.status = .pending →
      r ∈ (db.view jobID).steps := fun hr hp =>
    mem_view_steps.mpr
      ⟨(mem_of_mem_cancelSteps (mem_view_steps.mp hr).1 hp).1, (mem_view_steps.mp hr).2⟩
  induction h with
  | failed hs hp hu hname hst =>
    obtain ⟨huMem, euj⟩ := mem_view_steps.mp hu
    obtain ⟨r, hr, rfl⟩ := mem_update.mp huMem
    by_cases hq : r.id ∈ ids ∧ r.status = .pending
    · rw [if_pos hq] at hname
      exact .behind (u := r) (kept hs hp) hp hname (hids.row wf hr hq.1)
    · rw [if_neg hq] at hname hst euj
      exact .failed (kept hs hp) hp (mem_view_steps.mpr ⟨hr, euj⟩) hname hst
  | behind hs hp hname _ ih => exact .behind (kept hs hp) hp hname ih

lemma StrandedOf.append (wf : WF db) (h : StrandedOf db jobID ids)
    (h' : StrandedOf (cancelSteps ids db) jobID ids') : StrandedOf db jobID (ids ++ ids') := by
  intro id hid
  rcases mem_append.mp hid with hid | hid
  · exact h id hid
  · obtain ⟨s, hs, e⟩ := h' id hid
    exact ⟨s, hs.before wf h, e⟩

lemma StrandedOf.disjoint (h' : StrandedOf (cancelSteps ids db) jobID ids') : ∀ id ∈ ids', id ∉ ids := by
  intro id hid
  obtain ⟨s, hs, rfl⟩ := h' id hid
  exact (mem_of_mem_cancelSteps hs.mem.1 hs.pending).2

def canceledTasks (db : DB) (ids : List ID) : List Task :=
  ids.flatMap fun id => transitionedTasks .canceled failureReasonUpstreamFailed id db

lemma canceledTasks_append (h : ∀ id ∈ ids', id ∉ ids) :
    canceledTasks db ids ++ canceledTasks (cancelSteps ids db) ids' = canceledTasks db (ids ++ ids') := by
  rw [canceledTasks, canceledTasks, canceledTasks, flatMap_append]
  congr 1
  apply flatMap_congr
  intro id hid
  refine returning_update fun t ht => ⟨fun hq => h id hid (hq.1 ▸ ht.1), fun hq => ?_⟩
  cases hq.2

structure Settles (db : DB) (jobID : ID) (ids : List ID) : Prop where
  stranded : StrandedOf db jobID ids
  nodup : ids.Nodup

lemma Settles.append (wf : WF db) (h : Settles db jobID ids)
    (h' : Settles (cancelSteps ids db) jobID ids') : Settles db jobID (ids ++ ids') :=
  ⟨h.stranded.append wf h'.stranded, h.nodup.append h'.nodup fun id hid hid' => h'.stranded.disjoint id hid' hid⟩

structure PassResult (db : DB) (jobID : ID) (steps todo : List Step) (c c' : CancelState)
    (ids : List ID) : Prop where
  settles : Settles db jobID ids
  canceled : c'.canceled = c.canceled + ids.length
  lookup : LookupOf (cancelSteps ids db) jobID c'.statusByName
  progressed : c.progressed = true → c'.progressed = true
  progress : c'.progressed = true →
    c.progressed = true ∨ pendingCount c'.statusByName steps < pendingCount c.statusByName steps
  count : pendingCount c'.statusByName steps ≤ pendingCount c.statusByName steps
  idle : c'.progressed = false → ids = [] ∧ ∀ s ∈ todo, ¬ doomed c.statusByName s

lemma stranded_of_doomed (wf : WF db) (hm : LookupOf db jobID m)
    (hr : r ∈ db.steps) (hk : r.key = s.key) (ej : s.jobID = jobID) (hd : doomed m s) :
    Stranded db jobID r := by
  have hpending := (cancelPendingStep_doomed wf hm hr hk ej hd).1
  obtain ⟨name, hname, st, hst, hunsuccessful⟩ := hd.2
  obtain ⟨u, hu, euj, rfl, rfl⟩ := (hm name st).mp hst
  have edeps : r.dependsOn = s.dependsOn := congrArg (·.2.2.2) hk
  have erj : r.jobID = s.jobID := congrArg (·.2.1) hk
  exact .failed (mem_view_steps.mpr ⟨hr, erj.trans ej⟩) hpending (mem_view_steps.mpr ⟨hu, euj⟩)
    (edeps ▸ hname) hunsuccessful

lemma cancelPass_eq {todo : List Step} (hsub : ∀ s ∈ todo, s ∈ steps) (wf : WF db)
    (hlists : Lists db jobID steps) (c : CancelState) (hm : LookupOf db jobID c.statusByName) :
    ∃ c' ids, (∀ tasks, cancelPass todo c tasks db = (.ok (c', tasks ++ canceledTasks db ids), cancelSteps ids db)) ∧
      PassResult db jobID steps todo c c' ids := by
  induction todo generalizing db c with
  | nil =>
    have hnil : cancelSteps [] db = db := moveSteps_nil
    refine ⟨c, [], fun tasks => ?_, ⟨⟨nofun, .nil⟩, rfl, hnil.symm ▸ hm, fun h => h,
      .inl, Nat.le_refl _, fun _ => ⟨rfl, nofun⟩⟩⟩
    rw [hnil, canceledTasks, flatMap_nil, append_nil]
    rfl
  | cons s todo ih =>
    have hs := hsub s mem_cons_self
    have hsub' : ∀ u ∈ todo, u ∈ steps := fun u hu => hsub u (mem_cons_of_mem _ hu)
    by_cases hd : doomed c.statusByName s
    · obtain ⟨r, hr, hk, ej⟩ := hlists.row hs
      obtain ⟨_, hcancel, hm1⟩ := cancelPendingStep_doomed wf hm hr hk ej hd
      have settles1 : Settles db jobID [s.id] := ⟨fun id hid => ⟨r, stranded_of_doomed wf hm hr hk ej hd,
          (congrArg Prod.fst hk).trans (mem_singleton.mp hid).symm⟩, nodup_singleton _⟩
      have within1 := settles1.stranded.within wf
      have hlists1 : Lists (cancelSteps [s.id] db) jobID steps := (within1.sameKeys.listSteps jobID).trans hlists
      have hless := pendingCount_update hs hd.1
      obtain ⟨c', ids, htasks, res⟩ := ih hsub' (within1.wf wf) hlists1
        ⟨update c.statusByName s.name (some .canceled), true, c.canceled + 1⟩ hm1
      refine ⟨c', [s.id] ++ ids, fun tasks => ?_, ?_⟩
      · have hcancelTasks : cancelPendingStepTasks s.id failureReasonUpstreamFailed db =
            (.ok (true, canceledTasks db [s.id]), cancelSteps [s.id] db) := by
          rw [cancelPendingStepTasks, hcancel, canceledTasks, flatMap_singleton]
          rfl
        rw [cancelPass, if_pos hd, tx_bind_ok hcancelTasks]
        simp only [if_true]
        rw [htasks, cancelSteps_append, append_assoc, canceledTasks_append res.settles.stranded.disjoint]
      · refine ⟨settles1.append wf res.settles, ?_, cancelSteps_append _ _ db ▸ res.lookup,
          fun _ => res.progressed rfl, fun _ => .inr ?_, ?_, fun hidle => ?_⟩
        · rw [res.canceled, length_append, length_singleton, Nat.add_assoc]
        · exact Nat.lt_of_le_of_lt res.count hless
        · exact Nat.le_trans res.count (Nat.le_of_lt hless)
        · -- a pass that settled a step says so
          rw [res.progressed rfl] at hidle
          cases hidle
    · obtain ⟨c', ids, htasks, res⟩ := ih hsub' wf hlists c hm
      refine ⟨c', ids, fun tasks => by rw [cancelPass, if_neg hd, htasks], { res with idle := fun hidle => ?_ }⟩
      obtain ⟨hnil, hall⟩ := res.idle hidle
      refine ⟨hnil, fun u hu => ?_⟩
      rcases mem_cons.mp hu with rfl | hu
      · exact hd
      · exact hall u hu

lemma noDoomed_of_lookup
    (hlists : Lists db jobID steps) (hm : LookupOf db jobID m) (h : ∀ s ∈ steps, ¬ doomed m s) :
    (db.view jobID).NoDoomed := by
  intro r hr hpending u hu hname hunsuccessful
  obtain ⟨hmem, ej⟩ := mem_view_steps.mp hr
  obtain ⟨huMem, euj⟩ := mem_view_steps.mp hu
  obtain ⟨s, hs, hk⟩ := exists_key_of_mem hlists.symm (mem_listSteps.mpr ⟨hmem, ej⟩)
  simp only [Step.key, Prod.mk.injEq] at hk
  refine h s hs ⟨?_, u.name, by rw [hk.2.2.2]; exact hname, u.status, hm.at_step huMem euj, hunsuccessful⟩
  rw [hk.2.2.1, hm.at_step hmem ej, hpending]

lemma cancelPasses_eq (wf : WF db) (hlists : Lists db jobID steps)
    (fuel : Nat) (c : CancelState) (hm : LookupOf db jobID c.statusByName)
    (hfuel : pendingCount c.statusByName steps < fuel) :
    ∃ ids, (∀ tasks, cancelPasses steps fuel c tasks db =
        (.ok (some (c.canceled + ids.length, tasks ++ canceledTasks db ids)), cancelSteps ids db)) ∧
      Settles db jobID ids ∧ ((cancelSteps ids db).view jobID).NoDoomed := by
  induction fuel generalizing db c with
  | zero => omega
  | succ fuel ih =>
    obtain ⟨c', ids, htasks, res⟩ := cancelPass_eq (fun _ h => h) wf hlists { c with progressed := false } hm
    have hcanceled : c'.canceled = c.canceled + ids.length := res.canceled
    by_cases hprog : c'.progressed = true
    · have within := res.settles.stranded.within wf
      have hless : pendingCount c'.statusByName steps < pendingCount c.statusByName steps :=
        (res.progress hprog).resolve_left nofun
      obtain ⟨ids', htasks', settles, hnone⟩ := ih (within.wf wf)
        ((within.sameKeys.listSteps jobID).trans hlists) c' res.lookup (by omega)
      have hlength : c'.canceled + ids'.length = c.canceled + (ids ++ ids').length := by
        rw [hcanceled, length_append, Nat.add_assoc]
      refine ⟨ids ++ ids', fun tasks => ?_, res.settles.append wf settles, cancelSteps_append ids ids' db ▸ hnone⟩
      rw [cancelPasses, bind_ok (htasks tasks)]
      simp only [if_pos hprog]
      rw [htasks', cancelSteps_append, hlength, append_assoc, canceledTasks_append settles.stranded.disjoint]
    · obtain ⟨rfl, hall⟩ := res.idle (by simpa using hprog)
      refine ⟨[], fun tasks => ?_, res.settles, ?_⟩
      · rw [cancelPasses, bind_ok (htasks tasks)]
        simp only [if_neg hprog]
        rw [← hcanceled]
        rfl
      · rw [cancelSteps, moveSteps_nil]
        exact noDoomed_of_lookup hlists hm hall

lemma cancelDependents_settles (wf : WF db) (jobID : ID) :
    ∃ ids, cancelDependents jobID db = (.ok ids.length, cancelSteps ids db) ∧ cancelDependentsTasks jobID db =
        (.ok (some (ids.length, canceledTasks db ids)), cancelSteps ids db) ∧
      Settles db jobID ids ∧ ((cancelSteps ids db).view jobID).NoDoomed := by
  obtain ⟨ids, htasks, settles, hnone⟩ := cancelPasses_eq wf rfl
    ((listSteps db jobID).length + 1) ⟨stepStatusByName (listSteps db jobID), false, 0⟩
    (lookupOf_byName wf jobID) (Nat.lt_succ_of_le countP_le_length)
  have heq : cancelDependentsTasks jobID db = (.ok (some (ids.length, canceledTasks db ids)), cancelSteps ids db) := by
    rw [cancelDependentsTasks, read_bind, htasks, Nat.zero_add, nil_append]
  exact ⟨ids, by rw [cancelDependents, bind_ok heq]; rfl, heq, settles, hnone⟩

lemma cancelDependents_eq (wf : WF db) (jobID : ID) :
    ∃ n ids, cancelDependents jobID db = (.ok n, cancelSteps ids db) ∧
      PendingOf db jobID ids ∧ ((cancelSteps ids db).view jobID).NoDoomed := by
  obtain ⟨ids, heq, _, settles, hnone⟩ := cancelDependents_settles wf jobID
  exact ⟨_, ids, heq, settles.stranded.pending wf, hnone⟩

lemma cancelDependents_within (wf : WF db) (jobID : ID) :
    Within (· = jobID) db (cancelDependents jobID db).2 := by
  obtain ⟨n, ids, heq, hpending, _⟩ := cancelDependents_eq wf jobID
  rw [heq]
  exact cancelSteps_within wf fun s hs h => (hpending s hs h).1

lemma JobView.NoDoomed.not_stranded (h : (db.view jobID).NoDoomed) (s : Step) : ¬ Stranded db jobID s := by
  intro hs
  induction hs with
  | failed hs hp hu hname hst => exact h _ hs hp _ hu hname hst
  | behind _ _ _ _ ih => exact ih

lemma Settles.eq_nil (h : Settles db jobID ids) (hnone : (db.view jobID).NoDoomed) : ids = [] := by
  refine eq_nil_iff_forall_not_mem.mpr fun id hid => ?_
  obtain ⟨s, hs, _⟩ := h.stranded id hid
  exact hnone.not_stranded s hs

lemma cancelDependents_again (wf : WF db) (h : (db.view jobID).NoDoomed) :
    cancelDependents jobID db = (.ok 0, db) ∧ cancelDependentsTasks jobID db = (.ok (some (0, [])), db) := by
  obtain ⟨ids, heq, htasks, settles, _⟩ := cancelDependents_settles wf jobID
  obtain rfl := settles.eq_nil h
  rw [cancelSteps, moveSteps_nil] at heq htasks
  exact ⟨heq, htasks⟩

end
end Sqi

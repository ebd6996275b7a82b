import Sqi.Store.Wellformed

/-! Step dependencies gate work, in every reachable state of every job. -/

namespace Sqi
open List Op Table Transition

def StepStatus.Released (s : StepStatus) : Prop := s = .ready ∨ s = .running
def TaskStatus.PastGate (s : TaskStatus) : Prop := s = .ready ∨ s.InFlight ∨ s = .succeeded
def Step.Opened (opened : ID → Prop) (s s' : Step) : Prop :=
  s'.key = s.key ∧ (s.status = .completed → s'.status = .completed) ∧
    (s'.status.Released → s.status.Released ∨ opened s.id)
def Task.Opened (opened : ID → Prop) (steps : List Step) (t t' : Task) : Prop :=
  t'.key = t.key ∧ (t'.status.PastGate → t.status.PastGate ∨ opened t.stepID ∨
    ∃ s ∈ steps, s.id = t.stepID ∧ s.status.Released)
def Job.Settled (j j' : Job) : Prop :=
  j'.id = j.id ∧ (j.status = .completed → j'.status = .completed) ∧
    (j'.status = .blocked → j.status = .blocked)

structure Opens (opened : ID → Prop) (db db' : DB) : Prop where
  steps : Forall₂ (Step.Opened opened) db.steps db'.steps
  tasks : Forall₂ (Task.Opened opened db.steps) db.tasks db'.tasks
  jobs : Forall₂ Job.Settled db.jobs db'.jobs

abbrev noStep : ID → Prop := fun _ => False

variable {opened : ID → Prop} {steps : List Step} {op : Op}

lemma Step.Opened.refl (s : Step) : s.Opened opened s := ⟨rfl, fun h => h, .inl⟩
lemma Task.Opened.refl (t : Task) : t.Opened opened steps t := ⟨rfl, .inl⟩
lemma Job.Settled.refl (j : Job) : j.Settled j := ⟨rfl, fun h => h, fun h => h⟩

lemma TaskStatus.Moves.pastGate {a b : TaskStatus} (h : a.Moves b) (hb : b.PastGate) : a.PastGate := by
  rcases h with rfl | ⟨_, rfl⟩ | ⟨ha | ha, _⟩
  · exact hb
  · simp [PastGate, InFlight] at hb
  · exact .inl ha
  · exact .inr (.inl ha)

namespace Opens
variable {opened : ID → Prop} {db db' : DB}

@[refl] lemma refl (db : DB) : Opens opened db db :=
  ⟨forall₂_refl Step.Opened.refl _, forall₂_refl Task.Opened.refl _, forall₂_refl Job.Settled.refl _⟩
lemma of_levels (h : Levels db db') : Opens opened db db' where
  steps := h.steps ▸ forall₂_refl Step.Opened.refl _
  tasks := h.tasks.imp fun _ _ w => ⟨w.1, fun hg => .inl (w.2.pastGate hg)⟩
  jobs := h.jobs.imp fun _ _ e => ⟨e.1, fun hc => e.2.trans hc, fun hb => e.2 ▸ hb⟩

lemma of_jobRows (h : JobRows db db') : Opens opened db db' where
  steps := h.steps ▸ forall₂_refl Step.Opened.refl _
  tasks := h.tasks ▸ forall₂_refl Task.Opened.refl _
  jobs := by
    refine h.jobs.imp fun j j' s => ⟨s.1, fun hc => ?_, fun hb => ?_⟩
    · rcases s.2.2 with e | ⟨hopen, _⟩
      · exact e.trans hc
      · exact absurd (.inl hc) hopen
    · rcases s.2.2 with e | ⟨_, _, hne⟩
      · exact e ▸ hb
      · exact absurd hb hne

end Opens

/-! ## Transactions on steps and jobs -/

section
variable {db : DB}

lemma sqlFinalizeStep_opens (id : ID) : Opens noStep db (sqlFinalizeStep id db) := by
  refine ⟨forall₂_update Step.Opened.refl fun s hs => ?_, forall₂_refl Task.Opened.refl _,
    forall₂_refl Job.Settled.refl _⟩
  refine ⟨rfl, fun hc => absurd (.inl hc) hs.2.1, fun hr => ?_⟩
  dsimp only [stepOutcome] at hr
  split_ifs at hr <;> simp [StepStatus.Released] at hr

lemma sqlFinalizeJob_opens (id : ID) (now : Time) : Opens noStep db (sqlFinalizeJob id now db) := by
  refine ⟨forall₂_refl Step.Opened.refl _, forall₂_refl Task.Opened.refl _,
    forall₂_update Job.Settled.refl fun j hj => ?_⟩
  refine ⟨rfl, fun hc => absurd (.inl hc) hj.2.1, fun hb => ?_⟩
  dsimp only [jobOutcome] at hb
  split_ifs at hb

lemma moveStep_opens (id : ID) {stepTo : StepStatus} {taskTo : TaskStatus} (reason : String)
    {opened : ID → Prop} (hs : stepTo.Released → opened id) (ht : taskTo.PastGate → opened id) :
    Opens opened db (movePendingStep id stepTo taskTo reason db).2 := by
  refine moveStep_of (.refl db) fun _ _ _ => ⟨forall₂_update Step.Opened.refl ?_,
    forall₂_update Task.Opened.refl ?_, forall₂_refl Job.Settled.refl _⟩
  · rintro s ⟨rfl, hp⟩
    refine ⟨rfl, fun hc => ?_, fun hr => .inr (hs hr)⟩
    rw [hp] at hc
    cases hc
  · rintro t ⟨e, _⟩
    exact ⟨rfl, fun hr => .inr (.inl (e ▸ ht hr))⟩

lemma cancelExecution_opens (jobID : ID) (reason : String) (now : Time) :
    Opens noStep db (cancelJobExecution jobID reason now db).2 := by
  refine ⟨forall₂_update Step.Opened.refl ?_, forall₂_update Task.Opened.refl ?_, forall₂_update Job.Settled.refl ?_⟩
  · intro s hs
    refine ⟨rfl, fun hc => absurd (.inl hc) hs.2.1, fun hr => ?_⟩
    dsimp only [cancelStepOutcome, stepOutcome] at hr
    split_ifs at hr <;> simp [StepStatus.Released] at hr
  · intro t _
    exact ⟨rfl, fun hr => by simp [TaskStatus.PastGate, TaskStatus.InFlight] at hr⟩
  · intro j hj
    exact ⟨rfl, fun hc => absurd (.inl hc) hj.2, by simp⟩

lemma cancelBlocked_opens (id : ID) (reason : String) (now : Time) :
    Opens noStep db (cancelBlockedJob id reason now db).2 := by
  refine cancelBlocked_of (.refl db) fun _ _ _ => ⟨forall₂_update Step.Opened.refl ?_,
    forall₂_update Task.Opened.refl ?_, forall₂_update Job.Settled.refl ?_⟩
  · intro s hs
    exact ⟨rfl, fun hc => absurd (.inl hc) hs.2, fun hr => by simp [StepStatus.Released] at hr⟩
  · intro t _
    exact ⟨rfl, fun hr => by simp [TaskStatus.PastGate, TaskStatus.InFlight] at hr⟩
  intro j hj
  refine ⟨rfl, fun hc => ?_, fun _ => hj.2⟩
  rw [hj.2] at hc
  cases hc

lemma retryTasks_opens (jobID : ID) (taskIDs : Option (List ID)) :
    Opens noStep db (retryTasks jobID taskIDs db).2 := by
  refine retryTasks_of (.refl db) fun _ => ⟨forall₂_update Step.Opened.refl ?_,
    forall₂_update Task.Opened.refl ?_, forall₂_update Job.Settled.refl ?_⟩
  · intro s hs
    refine ⟨rfl, fun hc => ?_, fun hr => by simp [StepStatus.Released] at hr⟩
    rcases hs.2.1 with e | e <;> simp [e] at hc
  · intro t _
    refine ⟨rfl, fun hr => .inr (.inr ?_)⟩
    by_contra hno
    have hpending : (reviveTask db t).status = .pending := if_neg hno
    rw [hpending] at hr
    simp [TaskStatus.PastGate, TaskStatus.InFlight] at hr
  · intro j hj
    refine ⟨rfl, fun hc => ?_, by simp⟩
    rcases hj.2 with (e | e) | ⟨e, _⟩ <;> simp [e] at hc

end

def Op.opens : Op → ID → Prop
  | .releaseStep id => (· = id)
  | _ => noStep

lemma Op.opens_spec (hs : ∀ p blocked, op ≠ .submit p blocked) (db : DB) :
    Opens op.opens db (op.apply db) := by
  by_cases hw : op.WorkerSide
  · exact .of_levels (Op.levels hw db)
  by_cases hj : op.OnJobRow
  · exact .of_jobRows (Op.jobRows hj db)
  cases op with
  | submit p blocked => exact absurd rfl (hs p blocked)
  | cancelJobExecution => exact cancelExecution_opens ..
  | retryTasks => exact retryTasks_opens ..
  | finalizeStep => exact finalizeStep_of (.refl db) (sqlFinalizeStep_opens _)
  | finalizeJob => exact finalizeJob_of (.refl db) (sqlFinalizeJob_opens ..)
  | releaseStep id => exact moveStep_opens id "" (fun _ => rfl) fun _ => rfl
  | cancelPendingStep id reason =>
    exact moveStep_opens id reason (by simp [StepStatus.Released])
      (by simp [TaskStatus.PastGate, TaskStatus.InFlight])
  | cancelBlockedJob => exact cancelBlocked_opens ..
  | _ => first | exact absurd trivial hw | exact absurd trivial hj

lemma Op.submit_or_opens (op : Op) (db : DB) :
    (∃ p blocked, op = .submit p blocked) ∨ Opens op.opens db (op.apply db) :=
  or_iff_not_imp_left.mpr fun h => opens_spec (fun p b e => h ⟨p, b, e⟩) db

/-! ## Completed rows -/

def DepsCompleted (db : DB) (s : Step) : Prop :=
  ∀ d ∈ s.dependsOn, ∃ u ∈ db.steps, u.jobID = s.jobID ∧ u.name = d ∧ u.status = .completed

section
variable {db : DB} {s : Step} {j : Job}

lemma submit_steps_subset (sub : JobSubmission) (hs : s ∈ db.steps) :
    s ∈ (createJobSubmission sub db).2.steps :=
  submission_of (R := fun d => s ∈ d.steps) hs fun _ _ => mem_append_left _ hs
lemma submit_jobs_subset (sub : JobSubmission) (hj : j ∈ db.jobs) : j ∈ (createJobSubmission sub db).2.jobs :=
  submission_of (R := fun d => j ∈ d.jobs) hj fun _ _ => mem_append_left _ hj

lemma Op.completed_step (op : Op) (hs : s ∈ db.steps) (hc : s.status = .completed) :
    ∃ s' ∈ (op.apply db).steps, s'.key = s.key ∧ s'.status = .completed := by
  rcases op.submit_or_opens db with ⟨p, blocked, rfl⟩ | opens
  · exact ⟨s, submit_steps_subset _ hs, rfl, hc⟩
  · obtain ⟨s', hs', hk, hstay, _⟩ := of_mem_left opens.steps hs
    exact ⟨s', hs', hk, hstay hc⟩

lemma Op.completed_job (op : Op) (hj : j ∈ db.jobs) (hc : j.status = .completed) :
    ∃ j' ∈ (op.apply db).jobs, j'.id = j.id ∧ j'.status = .completed := by
  rcases op.submit_or_opens db with ⟨p, blocked, rfl⟩ | opens
  · exact ⟨j, submit_jobs_subset _ hj, rfl, hc⟩
  · obtain ⟨j', hj', hid, hstay, _⟩ := of_mem_left opens.jobs hj
    exact ⟨j', hj', hid, hstay hc⟩

lemma DepsCompleted.apply (op : Op) {s' : Step} (h : DepsCompleted db s) (hk : s'.key = s.key) :
    DepsCompleted (op.apply db) s' := by
  simp only [Step.key, Prod.mk.injEq] at hk
  intro d hd
  obtain ⟨u, hu, e1, e2, hc⟩ := h d (hk.2.2.2 ▸ hd)
  obtain ⟨u', hu', hku, hc'⟩ := completed_step op hu hc
  simp only [Step.key, Prod.mk.injEq] at hku
  exact ⟨u', hu', by rw [hku.2.1, e1, hk.2.1], hku.2.2.1.trans e2, hc'⟩

end

variable {db : DB} {s : Step} {sp : StepPlan} {h : History} {hold : Bool}

lemma Op.step_stays (op : Op) (hs : s ∈ db.steps) : ∃ s' ∈ (op.apply db).steps, s'.key = s.key := by
  rcases op.submit_or_opens db with ⟨p, blocked, rfl⟩ | opens
  · exact ⟨s, submit_steps_subset _ hs, rfl⟩
  · obtain ⟨s', hs', hk, _⟩ := of_mem_left opens.steps hs
    exact ⟨s', hs', hk⟩

lemma stepStatusByName_some {name : String} {st : StepStatus}
    (h : stepStatusByName steps name = some st) : ∃ u ∈ steps, u.name = name ∧ u.status = st := by
  obtain ⟨u, hu, e⟩ := Option.map_eq_some_iff.mp h
  have hmem := mem_of_getLast? hu
  simp only [mem_filter, decide_eq_true_eq] at hmem
  exact ⟨u, hmem.1, hmem.2, e⟩

lemma releasable_depsCompleted (h : releasable (listSteps db s.jobID) s) : DepsCompleted db s := by
  intro d hd
  obtain ⟨u, hu, hn, hc⟩ := stepStatusByName_some (h.2 d hd)
  simp only [listSteps, mem_filter, decide_eq_true_eq] at hu
  exact ⟨u, hu.1, hu.2, hn, hc⟩

lemma ReleaseDecided.depsCompleted (run : StoreRun h db) {stepID : ID}
    (hr : ReleaseDecided h db stepID) (hs : s ∈ db.steps) (hid : s.id = stepID) :
    DepsCompleted db s := by
  obtain ⟨σ, hv, s0, hs0, hid0, hrel, _⟩ := hr
  have stays : ∀ (h : History) (d : DB) (op : Op), StoreRun h d → op.enabled h d →
      (∃ u ∈ d.steps, u.id = stepID ∧ DepsCompleted d u) →
      ∃ u ∈ (op.apply d).steps, u.id = stepID ∧ DepsCompleted (op.apply d) u := by
    rintro _ d op _ _ ⟨u, hu, e, hd⟩
    obtain ⟨u', hu', hk⟩ := step_stays op hu
    exact ⟨u', hu', (congrArg Prod.fst hk).trans e, hd.apply op hk⟩
  obtain ⟨u, hu, e, hd⟩ := run.stable (Q := fun d => ∃ u ∈ d.steps, u.id = stepID ∧ DepsCompleted d u)
    stays hv ⟨s0, hs0, hid0, releasable_depsCompleted hrel⟩
  rwa [(wf_run run).steps_keyed.eq_of_mem hs hu (hid.trans e.symm)]

structure GateInv (db : DB) : Prop where
  steps : ∀ s ∈ db.steps, s.status.Released → DepsCompleted db s
  tasks : ∀ t ∈ db.tasks, t.status.PastGate → ∀ s ∈ db.steps, s.id = t.stepID → DepsCompleted db s

lemma GateInv.step (hsub : ∀ p blocked, op ≠ .submit p blocked) (wf : WF db)
    (inv : GateInv db) (hopen : ∀ s ∈ db.steps, op.opens s.id → DepsCompleted db s) :
    GateInv (op.apply db) := by
  have opens := opens_spec hsub db
  constructor
  · intro s' hs' hr
    obtain ⟨s, hs, hk, _, hrel⟩ := of_mem_right opens.steps hs'
    rcases hrel hr with hr | ho
    · exact (inv.steps s hs hr).apply op hk
    · exact (hopen s hs ho).apply op hk
  · intro t' ht' hp s' hs' e
    obtain ⟨s, hs, hk, _⟩ := of_mem_right opens.steps hs'
    obtain ⟨t, ht, hkt, hpast⟩ := of_mem_right opens.tasks ht'
    simp only [Task.key, Prod.mk.injEq] at hkt
    have hid' : s'.id = s.id := congrArg Prod.fst hk
    have hid : s.id = t.stepID := by rw [← hkt.2.2, ← e, hid']
    rcases hpast hp with hp | ho | ⟨s1, hs1, e1, hr1⟩
    · exact (inv.tasks t ht hp s hs hid).apply op hk
    · exact (hopen s hs (hid ▸ ho)).apply op hk
    · obtain rfl : s1 = s := wf.steps_keyed.eq_of_mem hs1 hs (e1.trans hid.symm)
      exact (inv.steps s1 hs hr1).apply op hk

lemma initialStepStatus_released (h : (initialStepStatus hold sp).Released) : sp.dependsOn = [] := by
  unfold initialStepStatus at h
  split_ifs at h with hc
  · simp [StepStatus.Released] at h
  · by_contra hne
    exact hc (.inr hne)

lemma initialTaskStatus_pastGate
    (h : (initialTaskStatus hold sp).PastGate) : (initialStepStatus hold sp).Released := by
  unfold initialTaskStatus at h
  split_ifs at h with hc
  · simp [TaskStatus.PastGate, TaskStatus.InFlight] at h
  unfold initialStepStatus at hc ⊢
  split_ifs at hc ⊢
  · simp at hc
  · exact .inl rfl

lemma GateInv.submit (wf : WF db) (inv : GateInv db) (p : SubmissionPlan)
    (blocked : Bool) : GateInv (createJobSubmission (buildSubmission p blocked) db).2 := by
  refine submission_of inv fun hjob hrows => ?_
  have wf' := submittedState_wf hjob hrows wf
  have grown : ∀ s, DepsCompleted db s → DepsCompleted (submittedState (buildSubmission p blocked) db) s := by
    intro s hd d hmem
    obtain ⟨u, hu, rest⟩ := hd d hmem
    exact ⟨u, mem_append_left _ hu, rest⟩
  have fresh : ∀ sp : StepPlan, sp.dependsOn = [] →
      DepsCompleted (submittedState (buildSubmission p blocked) db) (buildStep p.jobID blocked sp) := by
    intro sp hnil d hmem
    simp [buildStep, hnil] at hmem
  constructor
  · intro s hs hr
    rcases mem_append.mp hs with hs | hs
    · exact grown s (inv.steps s hs hr)
    · obtain ⟨sp, _, rfl⟩ := mem_newSteps.mp hs
      exact fresh sp (initialStepStatus_released hr)
  · intro t ht hp s hs e
    -- the task's own step, old or new, is the only one with its key
    rcases mem_append.mp ht with ht | ht
    · obtain ⟨s0, hs0, e0, _⟩ := wf.task_step t ht
      have hs0' : s0 ∈ (submittedState (buildSubmission p blocked) db).steps := mem_append_left _ hs0
      rw [wf'.steps_keyed.eq_of_mem hs hs0' (e.trans e0.symm)]
      exact grown s0 (inv.tasks t ht hp s0 hs0 e0)
    · obtain ⟨sp, hsp, id, _, rfl⟩ := mem_newTasks.mp ht
      have hs0 : buildStep p.jobID blocked sp ∈ (submittedState (buildSubmission p blocked) db).steps :=
        mem_append_right _ (mem_newSteps.mpr ⟨sp, hsp, rfl⟩)
      rw [wf'.steps_keyed.eq_of_mem hs hs0 e]
      exact fresh sp (initialStepStatus_released (initialTaskStatus_pastGate hp))

lemma gateInv_run (run : StoreRun h db) : GateInv db := by
  refine run.safe ⟨by simp [storeSystem, DB.empty], by simp [storeSystem, DB.empty]⟩ ?_
  intro h db op run inv he
  by_cases hsub : ∃ p blocked, op = .submit p blocked
  · obtain ⟨p, blocked, rfl⟩ := hsub
    exact inv.submit (wf_run run) p blocked
  refine inv.step (fun p b e => hsub ⟨p, b, e⟩) (wf_run run) fun s hs ho => ?_
  cases op with
  | releaseStep id => exact ReleaseDecided.depsCompleted run he hs ho
  | _ => exact ho.elim

/-- A step is ready, or a task of it ready, in flight or succeeded, only with
every dependency completed. -/
theorem dependencies_gate_work {h : History} {db : DB} (run : StoreRun h db) :
    ∀ s ∈ db.steps, (s.status = .ready ∨ ∃ t ∈ db.tasks, t.stepID = s.id ∧
        (t.status = .ready ∨ t.status = .assigned ∨ t.status = .running ∨ t.status = .succeeded)) →
      ∀ d ∈ s.dependsOn, (∃ u ∈ db.steps, u.jobID = s.jobID ∧ u.name = d) ∧
        ∀ u ∈ db.steps, u.jobID = s.jobID → u.name = d → u.status = .completed := by
  intro s hs hwork d hd
  have wf := wf_run run
  have inv := gateInv_run run
  have done : DepsCompleted db s := by
    rcases hwork with hr | ⟨t, ht, e, hst⟩
    · exact inv.steps s hs (.inl hr)
    · refine inv.tasks t ht ?_ s hs e.symm
      rcases hst with hst | hst | hst | hst <;> simp [TaskStatus.PastGate, TaskStatus.InFlight, hst]
  obtain ⟨u, hu, e₁, e₂, hc⟩ := done d hd
  refine ⟨⟨u, hu, e₁, e₂⟩, fun u' hu' e₁' e₂' => ?_⟩
  have hid := wf.names u' hu' u hu (e₁'.trans e₁.symm) (e₂'.trans e₂.symm)
  rw [wf.steps_keyed.eq_of_mem hu' hu hid, hc]

theorem dependencies_gate_work_smallBuild :
    let db := (storeSystem.exec (smallBuild ++ [smallLease 110 1002]) [] DB.empty).2
    db.tasks.map (·.status) = [.succeeded, .succeeded, .assigned] ∧
      ∀ u ∈ db.steps, u.jobID = 1 → u.name = "build" → u.status = .completed := by
  intro db
  have run : StoreRun _ db := Run.start.exec (smallBuild_permits [smallLease 110 1002] ⟨trivial, trivial⟩)
  refine ⟨by decide, (dependencies_gate_work run ⟨11, 1, "render", ["build"], .ready⟩ (by decide)
    (.inl rfl) "build" (by decide)).2⟩

end Sqi

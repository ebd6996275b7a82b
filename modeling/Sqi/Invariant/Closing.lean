import Sqi.Store.Wellformed

/-! What a transaction does to attempts, claims and the tasks in flight. -/

namespace Sqi
open Table Transition

def TaskAttempt.Kept (claims : List UsageClaim) (a a' : TaskAttempt) : Prop :=
  a'.key = a.key ∧ (a'.status = a.status ∨ (a.status = .running ∧ a'.status ≠ .running ∧
    ∀ c ∈ claims, c.taskAttemptID = a.id → c.releasedAt ≠ none))
def UsageClaim.Kept (c c' : UsageClaim) : Prop :=
  c'.poolID = c.poolID ∧ c'.taskAttemptID = c.taskAttemptID ∧ (c'.releasedAt = none → c.releasedAt = none)
def noRunningAttempt (db : DB) (taskID : ID) : Prop :=
  ∀ a ∈ db.attempts, a.taskID = taskID → a.status ≠ .running

structure Closes (db db' : DB) : Prop where
  attempts : List.Forall₂ (TaskAttempt.Kept db'.claims) db.attempts db'.attempts
  claims : List.Forall₂ UsageClaim.Kept db.claims db'.claims
  flight : ∀ t ∈ db.tasks, t.status.InFlight →
    (∃ t' ∈ db'.tasks, t'.id = t.id ∧ t'.status.InFlight) ∨ noRunningAttempt db' t.id

lemma UsageClaim.Kept.refl (c : UsageClaim) : c.Kept c := ⟨rfl, rfl, fun h => h⟩

namespace Closes
variable {db db' : DB}

lemma frame (ha : db'.attempts = db.attempts) (hc : db'.claims = db.claims)
    (ht : ∀ t ∈ db.tasks, t ∈ db'.tasks) : Closes db db' where
  attempts := ha ▸ forall₂_refl (fun _ => ⟨rfl, .inl rfl⟩) _
  claims := hc ▸ forall₂_refl UsageClaim.Kept.refl _
  flight := fun t hm hf => .inl ⟨t, ht t hm, rfl, hf⟩

@[refl] lemma refl (db : DB) : Closes db db := frame rfl rfl fun _ h => h

lemma running_before (h : Closes db db') {a' : TaskAttempt} (ha : a' ∈ db'.attempts)
    (hr : a'.status = .running) : ∃ a ∈ db.attempts, a'.key = a.key ∧ a.status = .running := by
  obtain ⟨a, hm, hk, hs⟩ := of_mem_right h.attempts ha
  refine ⟨a, hm, hk, ?_⟩
  rcases hs with hs | ⟨hs, _⟩
  · rw [← hs, hr]
  · exact hs

lemma noRunningAttempt (h : Closes db db') {taskID : ID} (hn : noRunningAttempt db taskID) :
    noRunningAttempt db' taskID := by
  intro a' ha' ht hr
  obtain ⟨a, ha, hk, hs⟩ := h.running_before ha' hr
  simp only [TaskAttempt.key, Prod.mk.injEq] at hk
  exact hn a ha (by rw [← hk.2.1, ht]) hs

lemma trans {db'' : DB} (h1 : Closes db db') (h2 : Closes db' db'') : Closes db db'' where
  attempts := by
    refine forall₂_trans ?_ h1.attempts h2.attempts
    rintro a b c ⟨hk1, hs1⟩ ⟨hk2, hs2⟩
    refine ⟨hk2.trans hk1, ?_⟩
    rcases hs1 with e1 | ⟨r1, n1, rel1⟩
    · rcases hs2 with e2 | ⟨r2, n2, rel2⟩
      · exact .inl (e2.trans e1)
      · have hid : b.id = a.id := congrArg Prod.fst hk1
        exact .inr ⟨e1 ▸ r2, n2, fun x hx e => rel2 x hx (e.trans hid.symm)⟩
    · refine .inr ⟨r1, ?_, fun x hx e hnone => ?_⟩
      · rcases hs2 with e2 | ⟨r2, _⟩
        · rwa [e2]
        · exact absurd r2 n1
      · obtain ⟨y, hy, _, hya, hrel⟩ := of_mem_right h2.claims hx
        exact rel1 y hy (hya ▸ e) (hrel hnone)
  claims := forall₂_trans
    (fun _ _ _ k1 k2 => ⟨k2.1.trans k1.1, k2.2.1.trans k1.2.1, fun h => k1.2.2 (k2.2.2 h)⟩)
    h1.claims h2.claims
  flight := by
    intro t ht hf
    rcases h1.flight t ht hf with ⟨t', ht', e', hf'⟩ | hn
    · rcases h2.flight t' ht' hf' with ⟨t'', ht'', e'', hf''⟩ | hn
      · exact .inl ⟨t'', ht'', e''.trans e', hf''⟩
      · exact .inr (e' ▸ hn)
    · exact .inr (h2.noRunningAttempt hn)

lemma updateAttempts {p : TaskAttempt → Prop} [DecidablePred p] {f : TaskAttempt → TaskAttempt}
    (hf : ∀ a, (f a).key = a.key ∧ (f a).status = a.status) :
    Closes db (db.updateAttempts p f) where
  attempts := forall₂_update (fun _ => ⟨rfl, .inl rfl⟩) fun a _ => ⟨(hf a).1, .inl (hf a).2⟩
  claims := forall₂_refl UsageClaim.Kept.refl _
  flight := fun t ht h => .inl ⟨t, ht, rfl, h⟩

lemma updateTasks {p : Task → Prop} [DecidablePred p] {f : Task → Task} (hid : ∀ t, (f t).id = t.id)
    (hf : ∀ t ∈ db.tasks, p t → t.status.InFlight → (f t).status.InFlight ∨ Sqi.noRunningAttempt db t.id) :
    Closes db (db.updateTasks p f) where
  attempts := forall₂_refl (fun _ => ⟨rfl, .inl rfl⟩) _
  claims := forall₂_refl UsageClaim.Kept.refl _
  flight := by
    intro t ht hfl
    have hmem : (if p t then f t else t) ∈ update p f db.tasks := mem_update.mpr ⟨t, ht, rfl⟩
    by_cases h : p t
    · rw [if_pos h] at hmem
      rcases hf t ht h hfl with hf | hn
      · exact .inl ⟨f t, hmem, hid t, hf⟩
      · exact .inr hn
    · rw [if_neg h] at hmem
      exact .inl ⟨t, hmem, rfl, hfl⟩

end Closes

section
variable {db : DB}

lemma Closes.of_close {q : TaskAttempt → Prop} [DecidablePred q] {f : TaskAttempt → TaskAttempt}
    {r : UsageClaim → Prop} [DecidablePred r] {now : Time}
    (hq : ∀ a, q a → a.status = .running) (hk : ∀ a, (f a).key = a.key)
    (hs : ∀ a, (f a).status ≠ .running)
    (hr : ∀ a ∈ db.attempts, q a → ∀ c ∈ db.claims, c.taskAttemptID = a.id → c.releasedAt = none → r c) :
    Closes db ((db.updateAttempts q f).updateClaims r fun c => { c with releasedAt := some now }) where
  attempts := by
    refine forall₂_update_mem (fun _ => ⟨rfl, .inl rfl⟩) fun a ha hqa => ⟨hk a, .inr ⟨hq a hqa, hs a, ?_⟩⟩
    exact forall_update (fun _ _ _ _ => by simp) fun c hc h e hnone => h (hr a ha hqa c hc e hnone)
  claims := forall₂_update UsageClaim.Kept.refl fun c _ => ⟨rfl, rfl, by simp⟩
  flight := fun t ht h => .inl ⟨t, ht, rfl, h⟩

variable {ids : List ID} {st : AttemptStatus}

lemma closeTasks_closes (hst : st ≠ .running)
    (message : String) (now : Time) : Closes db (closeTasksAttempts ids st message now db) := by
  unfold closeTasksAttempts
  split
  · rfl
  refine .of_close (fun a h => h.1) (fun _ => rfl) (fun _ => hst) ?_
  intro a ha hq c _ e hnone
  -- the release reads the attempts after the close, where `a` is no longer running
  exact ⟨hnone, _, mem_update.mpr ⟨a, ha, rfl⟩, by rw [if_pos hq]; exact ⟨e.symm, hst, hq.2⟩⟩

lemma closeTasks_noRunning (hst : st ≠ .running)
    (message : String) (now : Time) {taskID : ID} (h : taskID ∈ ids) :
    noRunningAttempt (closeTasksAttempts ids st message now db) taskID := by
  unfold closeTasksAttempts
  rw [if_neg (List.ne_nil_of_mem h)]
  exact forall_update (fun _ _ _ _ => hst) fun _ _ hq e hr => hq ⟨hr, e ▸ h⟩

lemma Closes.updateTasks_closeTasks {p : Task → Prop} [DecidablePred p] {f : Task → Task}
    (hst : st ≠ .running) (message : String) (now : Time)
    (hid : ∀ t, (f t).id = t.id) (hp : ∀ t ∈ db.tasks, p t → t.id ∈ ids) :
    Closes db (closeTasksAttempts ids st message now (db.updateTasks p f)) := by
  rw [show closeTasksAttempts ids st message now (db.updateTasks p f) =
    (closeTasksAttempts ids st message now db).updateTasks p f by unfold closeTasksAttempts; split <;> rfl]
  refine (closeTasks_closes hst message now).trans (.updateTasks hid ?_)
  intro t ht h _
  rw [closeTasks_tasks] at ht
  exact .inr (closeTasks_noRunning hst message now (hp t ht h))

end

/-! ## Transactions -/

section
variable {db : DB}

lemma Closes.updateJobs {p : Job → Prop} [DecidablePred p] {f : Job → Job} :
    Closes db (db.updateJobs p f) := .frame rfl rfl fun _ h => h
lemma Closes.updateSteps {p : Step → Prop} [DecidablePred p] {f : Step → Step} :
    Closes db (db.updateSteps p f) := .frame rfl rfl fun _ h => h

lemma Closes.reported (db : DB) : Reported (Closes db) where
  workers h _ := h.trans (.frame rfl rfl fun _ ht => ht)
  note h hf := h.trans (.updateAttempts hf)
  start h _ := h.trans (.updateTasks (fun _ => rfl) fun _ _ _ _ => .inl (.inr rfl))
  reclaim h _ hp := h.trans (.updateTasks_closeTasks (by simp) _ _ (fun _ => rfl) hp)

lemma cancelTask_closes (taskID : ID) (reason : String) (now : Time) :
    Closes db (cancelTaskExecution taskID reason now db).2 := by
  refine cancelTask_of (.refl db) (.updateTasks_closeTasks ?_ _ _ ?_ fun t _ h => ?_)
  · simp
  · exact fun _ => rfl
  · simp [h.1]

lemma recordFailure_closes (attemptID taskID : ID) (exitCode : Option Int)
    (sessionID message : String) (at_ now : Time) :
    Closes db (recordTaskFailure attemptID taskID exitCode sessionID message at_ now db).2 := by
  refine recordFailure_of (.refl db) (.of_close (fun _ h => h.2) (fun _ => rfl) (fun _ => by simp)
    fun _ _ hq _ _ e hnone => ⟨e.trans hq.1, hnone⟩) fun jobID d h => ?_
  refine (h.trans ?_).trans .updateJobs
  exact .updateTasks (fun _ => rfl) fun _ _ _ hf => .inl hf

lemma attemptOfJob_cancelJobTasks (db : DB) (reason : String) (jobID : ID) (a : TaskAttempt) :
    attemptOfJob (sqlCancelJobTasks reason jobID db) jobID a ↔ attemptOfJob db jobID a := by
  simp only [attemptOfJob, sqlCancelJobTasks, DB.updateTasks_tasks, exists_mem_update, apply_ite Task.id,
    apply_ite Task.jobID, ite_self]

lemma cancelJobAttempts_closes (db : DB) (jobID : ID) (now : Time) :
    Closes db (sqlReleaseClosedJobClaims now jobID (sqlCancelJobAttempts now jobID db)) := by
  refine .of_close (fun _ h => h.1) (fun _ => rfl) (fun _ => by simp) ?_
  intro a ha hq c _ e hnone
  refine ⟨hnone, _, mem_update.mpr ⟨a, ha, rfl⟩, ?_⟩
  rw [if_pos hq]
  exact ⟨e.symm, by simp, hq.2⟩

lemma cancelExecution_closes (jobID : ID) (reason : String) (now : Time) :
    Closes db (cancelJobExecution jobID reason now db).2 := by
  have canceled : Closes db (sqlReleaseClosedJobClaims now jobID
      (sqlCancelJobAttempts now jobID (sqlCancelJobTasks reason jobID db))) := by
    have closed := cancelJobAttempts_closes (sqlCancelJobTasks reason jobID db) jobID now
    refine ⟨closed.attempts, closed.claims, fun t ht hf => ?_⟩
    by_cases hj : t.jobID = jobID
    · refine .inr (forall_update (fun _ _ _ _ => by simp) fun a _ hq e hr => ?_)
      exact hq ⟨hr, (attemptOfJob_cancelJobTasks db reason jobID a).mpr ⟨t, ht, e.symm, hj⟩⟩
    · refine .inl ⟨t, ?_, rfl, hf⟩
      exact mem_update.mpr ⟨t, ht, if_neg fun h => hj h.1⟩
  exact canceled.trans (Closes.updateSteps.trans .updateJobs)

lemma Closes.updatePending {p : Task → Prop} [DecidablePred p] {f : Task → Task}
    (hid : ∀ t, (f t).id = t.id) (hp : ∀ t, p t → t.status = .pending) :
    Closes db (db.updateTasks p f) := by
  refine .updateTasks hid fun t _ h hf => ?_
  simp [TaskStatus.InFlight, hp t h] at hf

lemma Op.closes_onSteps {op : Op} (hw : ¬ op.WorkerSide) (hj : ¬ op.OnJobRow) (db : DB) :
    Closes db (op.apply db) := by
  cases op with
  | submit => exact submission_of (.refl db) fun _ _ => .frame rfl rfl fun t ht => List.mem_append_left _ ht
  | cancelJobExecution => exact cancelExecution_closes ..
  | retryTasks jobID taskIDs =>
    have revived : Closes db (sqlRetryTasks jobID taskIDs db) :=
      .updateTasks (fun _ => rfl) fun t _ h hf => by
        rcases h.2.1 with e | e <;> simp [TaskStatus.InFlight, e] at hf
    exact retryTasks_of (.refl db) fun _ => (revived.trans .updateSteps).trans .updateJobs
  | finalizeStep => exact finalizeStep_of (.refl db) .updateSteps
  | finalizeJob => exact finalizeJob_of (.refl db) .updateJobs
  | releaseStep | cancelPendingStep =>
    have guarded : ∀ stepTo id, Closes db (sqlGuardStepPending stepTo id db) := fun _ _ => .updateSteps
    exact moveStep_of (.refl db) fun _ _ _ =>
      (guarded _ _).trans (.updatePending (fun _ => rfl) fun _ h => h.2)
  | cancelBlockedJob id reason now =>
    have job : Closes db (sqlCancelBlockedJobRow id now db) := .updateJobs
    exact cancelBlocked_of (.refl db) fun _ _ _ =>
      (job.trans .updateSteps).trans (.updatePending (fun _ => rfl) fun _ h => h.2)
  | _ => first | exact absurd trivial hw | exact absurd trivial hj

lemma JobRows.closes {db' : DB} (h : JobRows db db') : Closes db db' :=
  .frame h.attempts h.claims fun _ ht => h.tasks ▸ ht

end
end Sqi

import Sqi.Scheduler.LeaseBatch

/-! A worker's cores are never overcommitted. -/

namespace Sqi
open Function List Option Table Transition

def Task.Stays (t t' : Task) : Prop :=
  t'.id = t.id ∧ (t'.status.InFlight → t.status.InFlight ∧ t'.assignedWorkerID = t.assignedWorkerID)

abbrev TasksStay (db db' : DB) : Prop := Forall₂ Task.Stays db.tasks db'.tasks

lemma TasksStay.frame {db db' : DB} (h : db'.tasks = db.tasks) : TasksStay db db' := by
  unfold TasksStay
  rw [h]
  exact forall₂_refl (fun _ => ⟨rfl, fun hf => ⟨hf, rfl⟩⟩) _

lemma Op.tasksStay {op : Op} (hl : ¬ op.IsLease) (hs : ∀ p blocked, op ≠ .submit p blocked) (db : DB) :
    TasksStay db (op.apply db) := by
  by_cases loud : op.Loud
  swap
  · exact (Op.calm loud db).tasks.imp fun _ _ r => ⟨congrArg Prod.fst r.1, r.2⟩
  cases op with
  | leaseTask => exact absurd trivial hl
  | submit p blocked => exact absurd rfl (hs p blocked)
  | updateJob =>
    simp only [Op.apply, Sqi.updateJob]
    split <;> exact .frame rfl
  | saveFarm | saveQueue | saveUsagePool => exact .frame rfl
  | _ => exact loud.elim

/-! ## Committed cores -/

section
variable {cores : CoreColumn} {full : Int} {rows rows' : List Task} (workerID : ID)

def Task.commits (cores : CoreColumn) (workerID : ID) (full : Int) (t : Task) : Int :=
  if committedBy workerID t then (cores t.id).getD full else 0

variable {workerID} in
lemma committedCores_eq_sum (db : DB) :
    committedCores cores workerID full db = (db.tasks.map (Task.commits cores workerID full)).sum := by
  unfold committedCores
  induction db.tasks with
  | nil => rfl
  | cons t rows ih =>
    by_cases h : committedBy workerID t
    · simp [Task.commits, h, ih]
    · simp [Task.commits, h, ih]

def CoreColumn.Positive (cores : CoreColumn) : Prop := ∀ id n, cores id = some n → 1 ≤ n

variable {workerID} in
lemma Task.commits_nonneg (pos : CoreColumn.Positive cores) (hfull : 0 ≤ full) (t : Task) :
    0 ≤ t.commits cores workerID full := by
  unfold Task.commits
  split
  · cases h : cores t.id with
    | none => exact hfull
    | some n => exact le_trans (by decide) (pos _ _ h)
  · exact le_rfl

variable {workerID} in
lemma Task.Stays.commits_le (pos : CoreColumn.Positive cores) (hfull : 0 ≤ full) {t t' : Task}
    (h : t.Stays t') : t'.commits cores workerID full ≤ t.commits cores workerID full := by
  by_cases hc : committedBy workerID t'
  · obtain ⟨hf, hw⟩ := h.2 hc.2
    have hc' : committedBy workerID t := ⟨hw.symm.trans hc.1, hf⟩
    simp [Task.commits, hc, hc', h.1]
  · rw [Task.commits, if_neg hc]
    exact t.commits_nonneg pos hfull

variable {workerID} in
lemma sum_commits_le (pos : CoreColumn.Positive cores) (hfull : 0 ≤ full)
    (h : Forall₂ Task.Stays rows rows') :
    (rows'.map (Task.commits cores workerID full)).sum ≤ (rows.map (Task.commits cores workerID full)).sum := by
  induction h with
  | nil => exact le_rfl
  | cons hr _ ih =>
    simp only [map_cons, sum_cons]
    exact add_le_add (hr.commits_le pos hfull) ih

variable {workerID} in
lemma submission_commits (p : SubmissionPlan) (blocked : Bool) :
    ((buildSubmission p blocked).tasks.map (Task.commits cores workerID full)).sum = 0 := by
  refine sum_eq_zero fun n hn => ?_
  obtain ⟨t, ht, rfl⟩ := mem_map.mp hn
  obtain ⟨sp, _, id, _, rfl⟩ := mem_newTasks.mp ht
  have hfresh : ¬ committedBy workerID (buildTask p.jobID blocked sp id) := fun h => nomatch h.1
  rw [Task.commits, if_neg hfresh]

lemma Op.committedCores_le (pos : CoreColumn.Positive cores) (hfull : 0 ≤ full) {op : Op}
    (hl : ¬ op.IsLease) (db : DB) :
    committedCores cores workerID full (op.apply db) ≤ committedCores cores workerID full db := by
  simp only [committedCores_eq_sum]
  by_cases hs : ∃ p blocked, op = .submit p blocked
  · obtain ⟨p, blocked, rfl⟩ := hs
    rcases submission_cases (buildSubmission p blocked) db with e | ⟨_, _, e⟩
    · have e' : Op.apply (.submit p blocked) db = db := e
      rw [e']
    · have e' : Op.apply (.submit p blocked) db = submittedState (buildSubmission p blocked) db := e
      rw [e', submittedState]
      simp only [map_append, sum_append, submission_commits, add_zero, le_refl]
  · exact sum_commits_le pos hfull (Op.tasksStay hl (fun p b e => hs ⟨p, b, e⟩) db)

lemma leaseTask_committedCores_le (pos : CoreColumn.Positive cores) (hfull : 0 ≤ full) {db : DB}
    (wf : WF db) (req : LeaseRequest) :
    committedCores cores workerID full (leaseTask req db).2 ≤ committedCores cores workerID full db +
      if req.workerID = workerID then (cores req.taskID).getD full else 0 := by
  rcases leaseTask_cases req db with ⟨_, e⟩ | ⟨scope, _, ⟨t, ht, hm⟩, _, _, _, e⟩
  · have hcost : 0 ≤ (cores req.taskID).getD full := by
      cases hc : cores req.taskID with
      | none => exact hfull
      | some n => exact le_trans (by decide) (pos _ _ hc)
    rw [e]
    split <;> omega
  · have hready : t.commits cores workerID full = 0 := by
      rw [Task.commits, if_neg fun h => ?_]
      simp [hm.2.1, committedBy, TaskStatus.InFlight] at h
    have hassigned : (assignTask req t).commits cores workerID full =
        if req.workerID = workerID then (cores req.taskID).getD full else 0 := by
      simp [Task.commits, committedBy, assignTask, TaskStatus.InFlight, hm.1]
    have hsum := sum_update_of_keyed wf.tasks_keyed (f := assignTask req)
      (Task.commits cores workerID full) ht hm fun r _ hr => hr.1.trans hm.1.symm
    rw [e, committedCores_eq_sum, committedCores_eq_sum]
    refine (show _ = _ from hsum).le.trans ?_
    rw [hready, hassigned]
    omega

end

section
variable {cores : CoreColumn}

lemma LeaseWorker.full_eq_max (w : LeaseWorker) : w.full = max w.cpuCount 1 := by
  unfold LeaseWorker.full
  split <;> omega
lemma LeaseWorker.full_nonneg (w : LeaseWorker) : 0 ≤ w.full := by
  rw [w.full_eq_max]
  omega

lemma committed_le_fullMachineCost (cores : CoreColumn) (t : Task) (w : LeaseWorker) :
    (cores t.id).getD w.full ≤ fullMachineCost cores t w := by
  unfold fullMachineCost LeaseWorker.full
  cases cores t.id with
  | none =>
    simp only [getD_none]
    split <;> split <;> omega
  | some n =>
    simp only [getD_some]
    split <;> omega

lemma tryLeaseTask_cases (t : Task) (w : LeaseWorker) (free : Int) (a : LeaseAnswers) (db : DB) :
    tryLeaseTask cores t w free a db = (.skipped, db) ∨
    tryLeaseTask cores t w free a db = (.failed, db) ∨
    fullMachineCost cores t w ≤ free ∧ ∃ r, (r = .leased (fullMachineCost cores t w) ∨ r = .failed) ∧
      tryLeaseTask cores t w free a db = (r, (leaseTask (leaseRequest t w a) db).2) := by
  have hcases := leaseTask_cases (leaseRequest t w a) db
  unfold tryLeaseTask
  dsimp only
  split
  · exact .inl rfl
  rename_i hfree
  split
  · exact .inr (.inl rfl)
  · exact .inl rfl
  split
  · rename_i e
    rw [e] at hcases
    rcases hcases with ⟨_, hdb⟩ | ⟨_, _, _, _, _, h, _⟩
    · exact .inr (.inl (congrArg _ hdb))
    · cases h
  · rename_i e
    refine .inr (.inr ⟨not_lt.mp hfree, ?_⟩)
    rw [e]
    split
    · exact ⟨_, .inl rfl, rfl⟩
    · exact ⟨_, .inr rfl, rfl⟩
  · rename_i hne e
    rw [e] at hcases
    rcases hcases with ⟨_, hdb⟩ | ⟨_, _, _, _, _, h, _⟩
    · exact .inl (congrArg _ hdb)
    · cases h
      exact absurd rfl hne

structure LeaseBatch.Fits (cores : CoreColumn) (db : DB) (workerID : ID) (b : LeaseBatch) : Prop where
  own : b.worker.id = workerID
  free_nonneg : 0 ≤ b.free
  budget : committedCores cores workerID b.worker.full db + b.free ≤ b.worker.full

structure Budgeted (cores : CoreColumn) (s : LeaseFarm) : Prop where
  wf : WF s.db
  fits : ∀ workerID b, s.batches workerID = some b → b.Fits cores s.db workerID

variable {s : LeaseFarm} {workerID : ID} {w : LeaseWorker} {t : Task}

lemma Budgeted.setBatch (inv : Budgeted cores s) {b : Option LeaseBatch}
    (hb : ∀ b' ∈ b, b'.Fits cores s.db workerID) : Budgeted cores (s.setBatch workerID b) where
  wf := inv.wf
  fits := by
    intro id b' hb'
    by_cases e : id = workerID
    · subst e
      exact hb b' (by simpa [LeaseFarm.setBatch] using hb')
    · refine inv.fits id b' ?_
      simpa [LeaseFarm.setBatch, update_of_ne e] using hb'

lemma Budgeted.op (pos : CoreColumn.Positive cores) (inv : Budgeted cores s) {op : Op}
    (hl : ¬ op.IsLease) : Budgeted cores { s with db := op.apply s.db } where
  wf := op.wf inv.wf
  fits := by
    intro workerID b hb
    obtain ⟨own, hfree, budget⟩ := inv.fits workerID b hb
    have hle := Op.committedCores_le workerID pos b.worker.full_nonneg hl s.db
    exact ⟨own, hfree, by dsimp only; omega⟩

lemma Budgeted.request (inv : Budgeted cores s) (w : LeaseWorker) : Budgeted cores (s.request cores w) := by
  unfold LeaseFarm.request
  dsimp only
  split
  · exact inv
  · refine inv.setBatch fun b' hb' => ?_
    cases hb'
    exact ⟨rfl, by dsimp only; omega, by dsimp only; omega⟩

section
variable (pos : CoreColumn.Positive cores)
include pos

lemma Budgeted.lease (inv : Budgeted cores s)
    {a : LeaseAnswers} (hw : w.id = workerID) :
    Budgeted cores
    (({ s with db := (leaseTask (leaseRequest t w a) s.db).2 } : LeaseFarm).setBatch workerID none) where
  wf := Op.wf (.leaseTask (leaseRequest t w a)) inv.wf
  fits := by
    intro id b hb
    have hne : id ≠ workerID := by
      rintro rfl
      simp [LeaseFarm.setBatch] at hb
    obtain ⟨own, hfree, budget⟩ := inv.fits id b
      (by simpa [LeaseFarm.setBatch, update_of_ne hne] using hb)
    have hle := leaseTask_committedCores_le id pos b.worker.full_nonneg inv.wf (leaseRequest t w a)
    rw [if_neg (show (leaseRequest t w a).workerID ≠ id from fun e => hne (e.symm.trans hw))] at hle
    exact ⟨own, hfree, by simp only [LeaseFarm.setBatch]; omega⟩

lemma LeaseBatch.Fits.lease (wf : WF s.db)
    {free : Int} {cands : Option (List Task)}
    (fits : LeaseBatch.Fits cores s.db workerID ⟨w, free, cands⟩)
    (hcost : fullMachineCost cores t w ≤ free) (a : LeaseAnswers) (rest : List Task) :
    LeaseBatch.Fits cores (leaseTask (leaseRequest t w a) s.db).2 workerID
    ⟨w, free - fullMachineCost cores t w, some rest⟩ := by
  obtain ⟨own, _, budget⟩ := fits
  have hle := leaseTask_committedCores_le workerID pos w.full_nonneg wf (leaseRequest t w a)
  rw [if_pos (show (leaseRequest t w a).workerID = workerID from own)] at hle
  have hcharge := committed_le_fullMachineCost cores t w
  rw [show (leaseRequest t w a).taskID = t.id from rfl] at hle
  exact ⟨own, by dsimp only; omega, by dsimp only at budget ⊢; omega⟩

lemma Budgeted.tryNext (inv : Budgeted cores s) (workerID : ID)
    (a : LeaseAnswers) : Budgeted cores (s.tryNext cores workerID a) := by
  unfold LeaseFarm.tryNext
  split
  · rename_i w free t rest hb
    have fits := inv.fits workerID _ hb
    split
    · exact inv.setBatch nofun
    dsimp only
    rcases tryLeaseTask_cases t w free a s.db with e | e | ⟨hcost, r, hr, e⟩
    · rw [e]
      refine inv.setBatch fun b' hb' => ?_
      cases hb'
      exact ⟨fits.own, fits.free_nonneg, fits.budget⟩
    · rw [e]
      exact inv.setBatch nofun
    rw [e]
    have hothers := inv.lease pos fits.own (t := t) (a := a)
    rcases hr with rfl | rfl
    · have hset := hothers.setBatch (b := some ⟨w, free - fullMachineCost cores t w, some rest⟩)
        fun b' hb' => some.inj hb' ▸ fits.lease pos inv.wf hcost a rest
      simpa only [LeaseFarm.setBatch, update_idem] using hset
    · exact hothers
  · exact inv

lemma budgeted_next (inv : Budgeted cores s) {l : LeaseStep}
    (hl : l.Enabled s) : Budgeted cores (l.next cores s) := by
  cases l with
  | op o => exact inv.op pos hl
  | request w => exact inv.request w
  | list workerID candidates =>
    simp only [LeaseStep.next]
    split
    · rename_i b hb
      have fits := inv.fits workerID b hb
      refine inv.setBatch fun b' hb' => ?_
      cases hb'
      exact ⟨fits.own, fits.free_nonneg, fits.budget⟩
    · exact inv
  | tryNext workerID a => exact inv.tryNext pos workerID a
  | reply workerID => exact inv.setBatch nofun

lemma budgeted_run {h : List (LeaseFarm × LeaseStep)}
    (run : Run (leaseFarm cores) h s) : Budgeted cores s :=
  run.safe ⟨WF.empty, fun _ _ hb => nomatch (show none = some _ from hb)⟩ fun _ _ _ _ inv hl => budgeted_next pos inv hl

lemma Budgeted.tryNext_committedCores_le (inv : Budgeted cores s)
    {b : LeaseBatch} (hb : s.batches workerID = some b) (a : LeaseAnswers) :
    committedCores cores workerID b.worker.full (s.tryNext cores workerID a).db ≤ b.worker.full := by
  obtain ⟨own, hfree, budget⟩ := inv.fits workerID b hb
  have hbefore : committedCores cores workerID b.worker.full s.db ≤ b.worker.full := by omega
  unfold LeaseFarm.tryNext
  split
  · rename_i w free t rest hb'
    obtain rfl := some.inj (hb.symm.trans hb')
    split
    · exact hbefore
    dsimp only
    rcases tryLeaseTask_cases t w free a s.db with e | e | ⟨hcost, r, hr, e⟩
    · rw [e]
      exact hbefore
    · rw [e]
      exact hbefore
    have after := (inv.fits workerID _ hb).lease pos inv.wf hcost a rest
    have hleft := after.free_nonneg
    have hafter := after.budget
    rw [e]
    rcases hr with rfl | rfl
    all_goals
      simp only [LeaseFarm.setBatch] at hleft hafter ⊢
      omega
  · exact hbefore

end
end

/-- The cores of a worker's assigned and running tasks fit the larger of its CPU count and one. -/
theorem worker_cores_not_overcommitted (rules : CoreRules) (amounts : ID → List StepAmountRequirement)
    {h : List (LeaseFarm × LeaseStep)} {s : LeaseFarm}
    (run : Run (leaseFarm (requiredCores rules amounts)) h s) {s' : LeaseFarm} {workerID : ID}
    {a : LeaseAnswers} (hl : (s', .tryNext workerID a) ∈ h) {b : LeaseBatch}
    (hb : s'.batches workerID = some b) :
    committedCores (requiredCores rules amounts) workerID b.worker.full
      (s'.tryNext (requiredCores rules amounts) workerID a).db ≤ max b.worker.cpuCount 1 := by
  have pos : CoreColumn.Positive (requiredCores rules amounts) := fun _ _ h => requiredCoresFromAmounts_pos h
  obtain ⟨h', run', _⟩ := run.at_entry hl
  rw [← b.worker.full_eq_max]
  exact (budgeted_run pos run').tryNext_committedCores_le pos hb a

/-! A worker of three cores takes a task of two and one of one. -/

def twoCoreRules : CoreRules where
  foldRune := id
  floats := { Val := Int, parse := fun _ => some 2, nonpos := (· ≤ 0), toInt := id }
def smallAmounts (id : ID) : List StepAmountRequirement :=
  if id = 100 then [⟨"amount.worker.vcpu", some "2.5"⟩] else [⟨"amount.worker.vcpu", none⟩]
def smallAnswers (attemptID : ID) : LeaseAnswers :=
  ⟨.ok true, attemptID, 50, [⟨attemptID, 1, "licences"⟩], .ok ()⟩
def smallBatch : List LeaseStep :=
  let ready := (smallSetup.foldl (fun db o => o.apply db) DB.empty).tasks.filter (·.status = .ready)
  smallSetup.map .op ++
    [.request ⟨5, 3⟩, .list 5 ready, .tryNext 5 (smallAnswers 1000), .tryNext 5 (smallAnswers 1001)]

theorem worker_cores_not_overcommitted_smallBatch :
    ∃ h s, Run (leaseFarm (requiredCores twoCoreRules smallAmounts)) h s ∧
      ∃ s' b, (s', .tryNext 5 (smallAnswers 1001)) ∈ h ∧ s'.batches 5 = some b ∧
        committedCores (requiredCores twoCoreRules smallAmounts) 5 3 s.db = 3 ∧
        committedCores (requiredCores twoCoreRules smallAmounts) 5 b.worker.full
          (s'.tryNext (requiredCores twoCoreRules smallAmounts) 5 (smallAnswers 1001)).db ≤
            max b.worker.cpuCount 1 := by
  have run := Run.start.exec (M := leaseFarm (requiredCores twoCoreRules smallAmounts))
    (show System.Permits _ smallBatch _ _ by decide +kernel)
  exact ⟨_, _, run, _, _, mem_cons_self, rfl, by decide +kernel,
    worker_cores_not_overcommitted twoCoreRules smallAmounts run mem_cons_self rfl⟩

end Sqi

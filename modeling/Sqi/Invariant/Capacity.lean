import Sqi.Invariant.LeaseTx

/-! What a lease that lands leaves of the capacities it checked. -/

namespace Sqi
open Function List RowLock Table Transition LeaseLabel

def Level.target (farmID queueID : ID) : Level → ID
  | .queue => queueID
  | .farm => farmID

def Arrives (v : Level) (row : ID) (σ : LeaseState) : LeaseLabel → Prop
  | .other (.updateJob jobID farmID queueID _) =>
    v.target farmID queueID = row ∧ ∃ j ∈ σ.db.jobs, j.id = jobID ∧ j.rowID v ≠ row
  | .stmt id => ∃ req sc a written,
    σ.txs id = some ⟨req, .commit sc a written⟩ ∧ sc.rowID v = row ∧ sc.cap v ≤ 0
  | _ => False

def Recounts (v : Level) (id : ID) (σ : LeaseState) (l : LeaseLabel) : Prop :=
  l = .stmt id ∧ ∃ req sc, σ.txs id = some ⟨req, .recount sc v⟩
def Undisturbed (v : Level) (id row : ID) : LeaseHistory → Prop
  | [] => True
  | (σ, l) :: h => Recounts v id σ l ∨ ¬ Arrives v row σ l ∧ Undisturbed v id row h
def LeasePC.counted? (v : Level) : LeasePC → Option LeaseScope
  | .recount sc .farm => if v = .queue then some sc else none
  | .insertAttempt sc | .claimPools sc .. | .commit sc .. => some sc
  | _ => none

section
variable {db db' : DB} {req : LeaseRequest} {sc : LeaseScope} {v : Level} {row : ID}
  {locks : Locks ID LeaseRow} {id : ID}

lemma countActiveTasks_eq (db : DB) (v : Level) (row : ID) :
    countActiveTasks db v row = db.tasks.countP fun t => activeWhere db (fun j => j.rowID v = row) t := by
  cases v <;> rfl

def leaseWrite (req : LeaseRequest) (db : DB) : DB :=
  db.updateTasks (fun t => t.id = req.taskID) (assignTask req)

lemma countActiveTasks_view {tx : LeaseTx} (h : tx.pc.written? = some sc) (db : DB) :
    countActiveTasks (tx.view db) v row = countActiveTasks (leaseWrite tx.req db) v row := by
  have htasks : (tx.view db).tasks = (leaseWrite tx.req db).tasks := by simp [LeaseTx.view, h, leaseWrite]
  rw [countActiveTasks_eq, countActiveTasks_eq, htasks]
  rfl

def NoInflow (v : Level) (row : ID) (db db' : DB) : Prop :=
  ∀ t' ∈ db'.tasks, activeWhere db' (fun j => j.rowID v = row) t' →
    ∃ t ∈ db.tasks, t.id = t'.id ∧ activeWhere db (fun j => j.rowID v = row) t

lemma leaseWrite_count_le (wf' : WF db') (hs : Scoped db req sc) (hp : Placed db locks id req sc)
    (n : NoInflow v (sc.rowID v) db db') :
    countActiveTasks (leaseWrite req db') v (sc.rowID v) ≤
    countActiveTasks (leaseWrite req db) v (sc.rowID v) := by
  have keys : WF (leaseWrite req db') := wf'.of_sameKeys (.updateTasks fun _ => rfl)
  rw [countActiveTasks_eq, countActiveTasks_eq]
  refine countP_le_of_keyed keys.tasks_keyed fun t'' ht'' hact => ?_
  obtain ⟨t', ht', rfl⟩ := mem_update.mp ht''
  by_cases e : t'.id = req.taskID
  · -- the leased task itself: its job is still in the row
    rw [if_pos e] at hact ⊢
    obtain ⟨t, ht, et, ej⟩ := hs.1
    obtain ⟨_, j, hj, ejob, hrow⟩ := hp
    refine ⟨assignTask req t, mem_update.mpr ⟨t, ht, if_pos et⟩, et.trans e.symm, ?_⟩
    exact ⟨hact.1, j, hj, ejob.trans ej.symm, hrow v⟩
  · rw [if_neg e] at hact ⊢
    obtain ⟨t, ht, et, hact'⟩ := n t' ht' hact
    exact ⟨t, mem_update.mpr ⟨t, ht, if_neg (et ▸ e)⟩, et, hact'⟩

lemma Quiet.noInflow (q : Quiet db db') : NoInflow v row db db' := by
  rintro t' ht' ⟨hf, j', hj', ej, hrow⟩
  obtain ⟨t, ht, hk, hfl⟩ := of_mem_right q.tasks ht'
  obtain ⟨j, hj, hplace⟩ := exists_key_of_mem q.jobs.symm hj'
  simp only [Task.key, Prod.mk.injEq] at hk
  simp only [Job.place, Prod.mk.injEq] at hplace
  refine ⟨t, ht, hk.1.symm, hfl hf, j, hj, by rw [hplace.1, ej, hk.2.1], ?_⟩
  cases v
  · exact hplace.2.1.trans hrow
  · exact hplace.2.2.trans hrow

lemma noInflow_of_rows (ht : db'.tasks = db.tasks) (hj : db'.jobs = db.jobs) : NoInflow v row db db' := by
  rintro t' ht' ⟨hf, hjob⟩
  rw [ht] at ht'
  rw [hj] at hjob
  exact ⟨t', ht', rfl, hf, hjob⟩

lemma submit_noInflow (p : SubmissionPlan) (blocked : Bool) (wf : WF db) :
    NoInflow v row db (Op.apply (.submit p blocked) db) := by
  refine submission_of (R := NoInflow v row db) (noInflow_of_rows rfl rfl) fun hjob _ => ?_
  rintro t' ht' ⟨hf, j', hj', ej, hrow⟩
  rcases mem_append.mp ht' with ht' | ht'
  · refine ⟨t', ht', rfl, hf, j', ?_, ej, hrow⟩
    rcases mem_append.mp hj' with hj' | hj'
    · exact hj'
    · rw [mem_singleton.mp hj'] at ej
      exact absurd ej.symm (wf.task_jobID_ne hjob.1 ht')
  · obtain ⟨sp, _, tid, _, rfl⟩ := mem_newTasks.mp ht'
    cases initialTaskStatus_landed _ _ hf

lemma updateJob_noInflow {jobID farmID queueID : ID} {retry : RetryOverrides}
    (h : ¬ (v.target farmID queueID = row ∧ ∃ j ∈ db.jobs, j.id = jobID ∧ j.rowID v ≠ row)) :
    NoInflow v row db (Op.apply (.updateJob jobID farmID queueID retry) db) := by
  simp only [Op.apply, Sqi.updateJob]
  split
  · rintro t' ht' ⟨hf, j', hj', ej, hrow⟩
    obtain ⟨j, hj, rfl⟩ := mem_update.mp hj'
    refine ⟨t', ht', rfl, hf, j, hj, ?_⟩
    by_cases hid : j.id = jobID
    · rw [if_pos hid] at ej hrow
      have htarget : v.target farmID queueID = row := by cases v <;> exact hrow
      refine ⟨ej, ?_⟩
      by_contra hne
      exact h ⟨htarget, j, hj, hid, hne⟩
    · rw [if_neg hid] at ej hrow
      exact ⟨ej, hrow⟩
  · exact noInflow_of_rows rfl rfl

lemma commit_noInflow {a : TaskAttempt} {written : List UsageClaim} (wf : WF db) (hs : Scoped db req sc)
    (hp : Placed db locks id req sc) (hne : sc.rowID v ≠ row) :
    NoInflow v row db ((⟨req, .commit sc a written⟩ : LeaseTx).view db) := by
  rintro t'' ht'' ⟨hf, j, hj, ej, hrow⟩
  obtain ⟨t, ht, rfl⟩ := mem_update.mp ht''
  by_cases e : t.id = req.taskID
  · rw [if_pos e] at ej
    obtain ⟨t0, ht0, et0, ej0⟩ := hs.1
    obtain ⟨_, j0, hj0, ejob, hplace⟩ := hp
    have heq : t = t0 := wf.tasks_keyed.eq_of_mem ht ht0 (e.trans et0.symm)
    have hjob : j = j0 := by
      refine wf.jobs_keyed.eq_of_mem hj hj0 (ej.trans ?_)
      rw [ejob, ← ej0, ← heq]
      rfl
    exact absurd ((hplace v).symm.trans (hjob ▸ hrow)) hne
  · rw [if_neg e] at hf ej ⊢
    exact ⟨t, ht, rfl, hf, j, hj, ej, hrow⟩

end

section
variable {s : LeaseState} {id : ID} {tx tx' : LeaseTx} {sc : LeaseScope} {v : Level}
  {r : Except StoreError LeaseOutcome} {locks : Locks ID LeaseRow} {req : LeaseRequest} {pc : LeasePC}
  {row : ID} {op : Op}

def Fits (db : DB) (req : LeaseRequest) (sc : LeaseScope) (v : Level) : Prop :=
  ∀ c, db.cap? v (sc.rowID v) = some c → 0 < c →
    (countActiveTasks (leaseWrite req db) v (sc.rowID v) : Int) ≤ c

lemma LeasePC.counted?_written (h : pc.counted? v = some sc) : pc.written? = some sc := by
  cases pc with
  | recount sc' w =>
    cases w <;> simp [LeasePC.counted?] at h
    simp [LeasePC.written?, h]
  | insertAttempt | claimPools | commit => exact h
  | readScope | lockAnchors | writeTask | returned => simp [LeasePC.counted?] at h

lemma LeaseTx.Knows.counted {db : DB} (k : tx.Knows db locks id) (h : tx.pc.written? = some sc) :
    Scoped db tx.req sc ∧ Anchored locks id tx.req sc ∧ Placed db locks id tx.req sc := by
  obtain ⟨req, pc⟩ := tx
  cases pc with
  | recount | insertAttempt =>
    cases h
    exact ⟨k.2.1, k.2.2.1, k.2.2.2⟩
  | claimPools | commit =>
    cases h
    exact ⟨k.2.1, k.2.2.1, k.2.2.2.1⟩
  | readScope | lockAnchors | writeTask | returned => cases h

lemma leaseStmt_txs {i : ID} (hne : i ≠ id) : (leaseStmt id tx s).txs i = s.txs i := by
  unfold leaseStmt
  dsimp only
  repeat' split
  all_goals first
    | rfl
    | simp [LeaseState.finish, LeaseState.goto, LeaseState.lock, update_of_ne hne]

lemma leaseStmt_db (id : ID) (tx : LeaseTx) (s : LeaseState) : (leaseStmt id tx s).db = s.db ∨
    ∃ req sc a written, tx = ⟨req, .commit sc a written⟩ := by
  obtain ⟨req, pc⟩ := tx
  cases pc with
  | commit sc a written => exact .inr ⟨req, sc, a, written, rfl⟩
  | lockAnchors sc todo =>
    left
    cases todo with
    | nil => rfl
    | cons a todo =>
      simp only [leaseStmt]
      split <;> rfl
  | claimPools sc a written todo =>
    left
    cases todo with
    | nil => rfl
    | cons c todo =>
      simp only [leaseStmt]
      split <;> rfl
  | returned => exact .inl rfl
  | readScope | writeTask | recount | insertAttempt =>
    left
    simp only [leaseStmt]
    split <;> rfl

lemma goto_txs (h : (s.goto id tx pc).txs id = some tx') : tx' = ⟨tx.req, pc⟩ := by
  simp only [LeaseState.goto, update_self, Option.some.injEq] at h
  exact h.symm
lemma finish_counted (h : (s.finish id tx r).txs id = some tx') : tx'.pc.counted? v = none := by
  simp only [LeaseState.finish, update_self, Option.some.injEq] at h
  rw [← h]
  rfl

lemma leaseStmt_counted (htx' : (leaseStmt id tx s).txs id = some tx')
    (htx : s.txs id = some tx) (hc : tx'.pc.counted? v = some sc) :
    tx'.req = tx.req ∧ (tx.pc.counted? v = some sc ∨ tx.pc = .recount sc v ∧
      overCap (0 < sc.cap v) (s.db.cap? v (sc.rowID v))
        (countActiveTasks (tx.view s.db) v (sc.rowID v)) = .ok false) := by
  obtain ⟨req, pc⟩ := tx
  have stop : ∀ {r}, (s.finish id ⟨req, pc⟩ r).txs id = some tx' → False := by
    intro r h
    rw [finish_counted h] at hc
    cases hc
  cases pc with
  | readScope =>
    simp only [leaseStmt] at htx'
    split at htx'
    · exact (stop htx').elim
    · obtain rfl := goto_txs htx'
      cases hc
  | lockAnchors sc' todo =>
    cases todo with
    | nil =>
      obtain rfl := goto_txs htx'
      cases hc
    | cons a todo =>
      obtain rfl := goto_txs htx'
      cases hc
  | writeTask sc' =>
    simp only [leaseStmt] at htx'
    split at htx'
    · obtain rfl := goto_txs htx'
      cases hc
    · exact (stop htx').elim
  | recount sc' w =>
    simp only [leaseStmt] at htx'
    split at htx'
    · exact (stop htx').elim
    · exact (stop htx').elim
    rename_i hroom
    obtain rfl := goto_txs htx'
    refine ⟨rfl, ?_⟩
    cases w with
    | queue =>
      have hv : v = .queue ∧ sc' = sc := by simpa [Level.next, LeasePC.counted?] using hc
      obtain ⟨rfl, rfl⟩ := hv
      exact .inr ⟨rfl, hroom⟩
    | farm =>
      have hsc : sc' = sc := by simpa [Level.next, LeasePC.counted?] using hc
      subst hsc
      cases v with
      | queue => exact .inl rfl
      | farm => exact .inr ⟨rfl, hroom⟩
  | insertAttempt sc' =>
    simp only [leaseStmt] at htx'
    split at htx'
    · exact (stop htx').elim
    · obtain rfl := goto_txs htx'
      exact ⟨rfl, .inl hc⟩
  | claimPools sc' a written todo =>
    cases todo with
    | nil =>
      obtain rfl := goto_txs htx'
      exact ⟨rfl, .inl hc⟩
    | cons c todo =>
      simp only [leaseStmt] at htx'
      split at htx'
      · exact (stop htx').elim
      · exact (stop htx').elim
      · obtain rfl := goto_txs htx'
        exact ⟨rfl, .inl hc⟩
  | commit sc' a written => exact (stop htx').elim
  | returned r =>
    rw [show leaseStmt id ⟨req, .returned r⟩ s = s from rfl, htx] at htx'
    cases htx'
    cases hc

lemma Fits.mono {db db' : DB}
    (h : Fits db req sc v) (wf' : WF db') (hs : Scoped db req sc) (hp : Placed db locks id req sc)
    (hcap : db'.cap? v (sc.rowID v) = db.cap? v (sc.rowID v))
    (n : NoInflow v (sc.rowID v) db db') : Fits db' req sc v := by
  intro c hc hpos
  have hle := leaseWrite_count_le wf' hs hp n
  have := h c (hcap ▸ hc) hpos
  omega

lemma Op.noInflow (hl : ¬ op.IsLease)
    (ha : ¬ Arrives v row s (.other op)) (wf : WF s.db) : NoInflow v row s.db (op.apply s.db) := by
  by_cases hloud : op.Loud
  · cases op with
    | leaseTask => exact absurd trivial hl
    | submit p blocked => exact submit_noInflow p blocked wf
    | updateJob => exact updateJob_noInflow ha
    | saveFarm | saveQueue | saveUsagePool => exact noInflow_of_rows rfl rfl
    | _ => exact hloud.elim
  · exact (Op.quiet hloud s.db).noInflow

lemma Fits.other (h : Fits s.db tx.req sc v) (inv : LeaseInv s)
    (he : (LeaseLabel.other op).enabled s) (htx : s.txs id = some tx)
    (hc : tx.pc.counted? v = some sc) (hcap : 0 < sc.cap v)
    (ha : ¬ Arrives v (sc.rowID v) s (.other op)) : Fits (op.apply s.db) tx.req sc v := by
  obtain ⟨hs, han, hp⟩ := (inv.txs_know id tx htx).counted (LeasePC.counted?_written hc)
  refine h.mono (op.wf inv.wf) hs hp ?_ (Op.noInflow he.1 ha inv.wf)
  have := he.2 _ (han.2.1 v hcap)
  cases v <;> exact congrArg (Option.map _) this

lemma Fits.commit {i : ID} {sc' : LeaseScope} {a : TaskAttempt}
    {written : List UsageClaim} (h : Fits s.db tx.req sc v) (inv : LeaseInv s)
    (htx : s.txs id = some tx) (hc : tx.pc.counted? v = some sc) (hcap : 0 < sc.cap v)
    (hi : s.txs i = some ⟨req, .commit sc' a written⟩) (hne : i ≠ id)
    (ha : ¬ Arrives v (sc.rowID v) s (.stmt i)) :
    Fits ((⟨req, .commit sc' a written⟩ : LeaseTx).view s.db) tx.req sc v := by
  obtain ⟨hs, han, hp⟩ := (inv.txs_know id tx htx).counted (LeasePC.counted?_written hc)
  obtain ⟨_, hs', han', hp', hat', _⟩ := inv.txs_know i _ hi
  have hrow : sc'.rowID v ≠ sc.rowID v := by
    intro e
    by_cases hcap' : 0 < sc'.cap v
    · have hlock := han'.2.1 v hcap'
      rw [e] at hlock
      exact hne (inv.locks_sound.exclusive (han.2.1 v hcap) hlock)
    · exact ha ⟨req, sc', a, written, hi, e, by omega⟩
  refine h.mono (commit_wf inv.wf hs' hat') hs hp ?_ (commit_noInflow inv.wf hs' hp' hrow)
  cases v <;> rfl

lemma not_recounts_of_counted (htx : s.txs id = some tx) (hc : tx.pc.counted? v = some sc)
    (l : LeaseLabel) : ¬ Recounts v id s l := by
  rintro ⟨_, req, sc', h⟩
  rw [htx] at h
  cases h
  cases v <;> simp [LeasePC.counted?] at hc

lemma fits_run {h : LeaseHistory} (run : LeaseRun h s) :
    ∀ id tx sc v, s.txs id = some tx → tx.pc.counted? v = some sc → 0 < sc.cap v →
      Undisturbed v id (sc.rowID v) h → Fits s.db tx.req sc v := by
  refine run.invariant (P := fun h s => ∀ id tx sc v, s.txs id = some tx →
    tx.pc.counted? v = some sc → 0 < sc.cap v → Undisturbed v id (sc.rowID v) h →
    Fits s.db tx.req sc v) (by simp [leaseSystem]) ?_
  intro h s l run ih he id tx' sc v htx' hc hcap hund
  have inv := leaseInv_run run
  -- unless this step is the lease's own recount, nothing arrived with it either
  have quiet : ∀ tx, s.txs id = some tx → tx.pc.counted? v = some sc →
      ¬ Arrives v (sc.rowID v) s l ∧ Fits s.db tx.req sc v := by
    intro tx htx hc
    obtain ⟨ha, hund⟩ := hund.resolve_left (not_recounts_of_counted htx hc l)
    exact ⟨ha, ih id tx sc v htx hc hcap hund⟩
  cases l with
  | call i req =>
    by_cases e : id = i
    · subst e
      simp only [leaseSystem, apply, update_self, Option.some.injEq] at htx'
      rw [← htx'] at hc
      cases hc
    · simp only [leaseSystem, apply, update_of_ne e] at htx'
      exact (quiet tx' htx' hc).2
  | stmt i =>
    obtain ⟨tx, htx, _⟩ := he
    simp only [leaseSystem, apply, htx] at htx' ⊢
    by_cases e : id = i
    · subst e
      obtain ⟨hreq, hcases⟩ := leaseStmt_counted htx' htx hc
      rcases leaseStmt_db id tx s with hdb | ⟨req, sc', a, written, rfl⟩
      · rw [hdb, hreq]
        rcases hcases with hc' | ⟨hpc, hroom⟩
        · exact (quiet tx htx hc').2
        · intro c hcap? hpos
          rw [countActiveTasks_view (by rw [hpc]; rfl)] at hroom
          simp only [overCap, hcap, not_true, if_false, hcap?, Except.ok.injEq, decide_eq_false_iff_not] at hroom
          omega
      · rw [finish_counted htx'] at hc
        cases hc
    · rw [leaseStmt_txs e] at htx'
      obtain ⟨ha, hfits⟩ := quiet tx' htx' hc
      rcases leaseStmt_db i tx s with hdb | ⟨req, sc', a, written, rfl⟩
      · rwa [hdb]
      · exact hfits.commit inv htx' hc hcap htx (Ne.symm e) ha
  | abort i =>
    by_cases e : id = i
    · subst e
      simp [leaseSystem, apply] at htx'
    · simp only [leaseSystem, apply, update_of_ne e] at htx'
      exact (quiet tx' htx' hc).2
  | other op =>
    obtain ⟨ha, hfits⟩ := quiet tx' htx' hc
    exact hfits.other inv he htx' hc hcap ha

lemma leaseStmt_returned (htx : s.txs id = some tx)
    (hopen : leaseStmtReady id tx s) (htx' : (leaseStmt id tx s).txs id = some tx')
    (hr : tx'.pc = .returned r) :
    (r = .ok .leased ∧ ∃ req sc a written, tx = ⟨req, .commit sc a written⟩) ∨
    (r ≠ .ok .leased ∧ (leaseStmt id tx s).db = s.db) := by
  obtain ⟨req, pc⟩ := tx
  have stop : ∀ {r'}, (s.finish id ⟨req, pc⟩ r').txs id = some tx' → r' = r := by
    intro r' h
    simp only [LeaseState.finish, update_self, Option.some.injEq] at h
    rw [← h] at hr
    exact LeasePC.returned.inj hr
  have goes : ∀ {s' : LeaseState} {pc' : LeasePC}, (s'.goto id ⟨req, pc⟩ pc').txs id = some tx' → pc'.Open → False := by
    intro s' pc' h hopen'
    rw [goto_txs h] at hr
    simp only at hr
    rw [hr] at hopen'
    exact hopen'
  by_cases hcommit : ∃ sc a written, pc = .commit sc a written
  · obtain ⟨sc', a, written, rfl⟩ := hcommit
    exact .inl ⟨(stop htx').symm, req, sc', a, written, rfl⟩
  right
  refine ⟨?_, (leaseStmt_db id ⟨req, pc⟩ s).resolve_right ?_⟩
  · rintro rfl
    cases pc with
    | readScope =>
      simp only [leaseStmt] at htx'
      split at htx'
      · cases stop htx'
      · exact goes htx' trivial
    | lockAnchors sc' todo => cases todo <;> exact goes htx' trivial
    | writeTask =>
      simp only [leaseStmt] at htx'
      split at htx'
      · exact goes htx' trivial
      · cases stop htx'
    | recount sc' w =>
      simp only [leaseStmt] at htx'
      split at htx'
      · cases stop htx'
      · cases w <;> cases stop htx'
      · cases w <;> exact goes htx' trivial
    | insertAttempt =>
      simp only [leaseStmt] at htx'
      split at htx'
      · cases stop htx'
      · exact goes htx' trivial
    | claimPools sc' a written todo =>
      cases todo with
      | nil => exact goes htx' trivial
      | cons c todo =>
        simp only [leaseStmt] at htx'
        split at htx'
        · cases stop htx'
        · rename_i outcome _ hclaim
          rcases claimPool_ok hclaim with ⟨name, hfull⟩ | ⟨_, hnone⟩
          · obtain rfl : outcome = .poolFull name := Option.some.inj hfull
            cases stop htx'
          · cases hnone
        · exact goes htx' trivial
    | commit => exact hcommit ⟨_, _, _, rfl⟩
    | returned => exact hopen
  · rintro ⟨req', sc', a, written, e⟩
    cases e
    exact hcommit ⟨_, _, _, rfl⟩

end

/-! ## Leases that land -/

structure LeaseCapacity (h : LeaseHistory) : Prop where
  /-- A capped queue or farm is within its committed cap, unless something
  arrived in it since the lease recounted it. -/
  levels : ∀ later σ id req sc a written earlier, h = later ++ (σ, .stmt id) :: earlier →
    σ.txs id = some ⟨req, .commit sc a written⟩ → ∀ v, 0 < sc.cap v →
    Undisturbed v id (sc.rowID v) earlier →
    ∀ c, (apply (.stmt id) σ).db.cap? v (sc.rowID v) = some c → 0 < c →
      (countActiveTasks (apply (.stmt id) σ).db v (sc.rowID v) : Int) ≤ c
  /-- Every pool it claims is within its cap. -/
  pools : ∀ σ id req sc a written, (σ, .stmt id) ∈ h →
    σ.txs id = some ⟨req, .commit sc a written⟩ → ∀ c ∈ req.claims,
    ∀ p, (apply (.stmt id) σ).db.pool? c.poolID = some p → 0 < p.maxConcurrent →
      (activeClaimCount (apply (.stmt id) σ).db c.poolID : Int) ≤ p.maxConcurrent
  /-- Leased is returned by a commit; any other outcome changes no row. -/
  outcomes : ∀ σ id tx tx' r, (σ, .stmt id) ∈ h → σ.txs id = some tx →
    (apply (.stmt id) σ).txs id = some tx' → tx'.pc = .returned r →
    (r = .ok .leased ∧ ∃ req sc a written, tx = ⟨req, .commit sc a written⟩) ∨
      (r ≠ .ok .leased ∧ (apply (.stmt id) σ).db = σ.db)

/-- No lease that commits takes a level or a usage pool over its capacity, in any interleaving. -/
theorem lease_capacity {h : LeaseHistory} {s : LeaseState} (run : LeaseRun h s) : LeaseCapacity h where
  levels := by
    rintro later σ id req sc a written earlier rfl htx v hcap hund c hc hpos
    have fits := fits_run run.at_split.1 id _ sc v htx rfl hcap hund
    simp only [apply, htx] at hc ⊢
    have hview : countActiveTasks ((⟨req, .commit sc a written⟩ : LeaseTx).view σ.db) v (sc.rowID v) =
        countActiveTasks (leaseWrite req σ.db) v (sc.rowID v) := countActiveTasks_view rfl σ.db
    have hcap? : σ.db.cap? v (sc.rowID v) = some c := by cases v <;> exact hc
    have := fits c hcap? hpos
    exact hview ▸ this
  pools := by
    intro σ id req sc a written hmem htx c hc p hp hpos
    obtain ⟨h', run', _⟩ := run.at_entry hmem
    obtain ⟨_, _, _, _, _, hin⟩ := (leaseInv_run run').txs_know id _ htx
    have hwritten : leaseClaim req.attemptID c ∈ written := by
      have hall := hin.1
      rw [map_nil, append_nil] at hall
      rw [hall]
      exact mem_map_of_mem ((mem_insertionSort _).mpr hc)
    simp only [apply, htx] at hp ⊢
    exact (hin.2 _ hwritten).2 p hp hpos
  outcomes := by
    intro σ id tx tx' r hmem htx htx' hr
    obtain ⟨h', run', tx₀, htx₀, hready⟩ := run.at_entry hmem
    obtain rfl : tx = tx₀ := Option.some.inj (htx.symm.trans htx₀)
    simp only [apply, htx] at htx' ⊢
    exact leaseStmt_returned htx hready htx' hr

def interleavedLeases : List LeaseLabel :=
  smallSetup.map .other ++
    [.call 1 ⟨100, 5, 1000, 50, [⟨1, 1, "licences"⟩]⟩, .call 2 ⟨101, 6, 1001, 50, [⟨2, 1, "licences"⟩]⟩,
      .stmt 1, .stmt 2, .stmt 2, .stmt 2] ++
    List.replicate 12 (.stmt 1) ++ List.replicate 10 (.stmt 2)

theorem lease_capacity_interleaved :
    let r := leaseSystem.exec interleavedLeases [] leaseSystem.init
    countActiveTasks r.2.db .queue 1 = 2 ∧ activeClaimCount r.2.db 1 = 2 ∧ LeaseCapacity r.1 :=
  ⟨by decide +kernel, by decide +kernel,
    lease_capacity (Run.start.exec (show leaseSystem.Permits interleavedLeases _ _ by decide +kernel))⟩

def uncappedPlan : SubmissionPlan where
  jobID := 2
  farmID := 1
  queueID := 2
  retry := noRetry
  dependsOn := []
  steps := [⟨20, "comp", [], [200]⟩]
  steps_ne := by decide
  tasks_ne := by decide
  names_nodup := by decide
  deps_declared := by decide

def movedAfterRecount : List LeaseLabel :=
  [.saveFarm ⟨1, 0, noRetry⟩, .saveQueue ⟨1, false, 1, noRetry⟩, .saveQueue ⟨2, false, 0, noRetry⟩,
      .submit smallPlan false, .submit uncappedPlan false].map .other ++
    [.call 1 ⟨200, 5, 1000, 50, []⟩] ++ List.replicate 10 (.stmt 1) ++
    [.call 2 ⟨100, 6, 1001, 50, []⟩] ++ List.replicate 7 (.stmt 2) ++
    [.other (.updateJob 2 1 1 noRetry)] ++ List.replicate 3 (.stmt 2)

theorem moved_job_exceeds_cap :
    ∃ h σ s req sc a written, LeaseRun ((σ, .stmt 2) :: h) s ∧
      σ.txs 2 = some ⟨req, .commit sc a written⟩ ∧ sc.cap .queue = 1 ∧
      s.txs 2 = some ⟨req, .returned (.ok .leased)⟩ ∧
      s.db.cap? .queue (sc.rowID .queue) = some 1 ∧
      countActiveTasks s.db .queue (sc.rowID .queue) = 2 := by
  refine ⟨_, _, _, _, _, _, _, .step (.stmt 2)
    (Run.start.exec (show leaseSystem.Permits movedAfterRecount _ _ by decide +kernel)) ?_, rfl, ?_⟩
  · exact ⟨_, rfl, trivial⟩
  · exact ⟨rfl, rfl, by decide +kernel, by decide +kernel⟩
end Sqi

import Sqi.Concurrency.Lease

/-! What an open lease may rely on. -/

namespace Sqi
open Function List RowLock Table Transition

def unreleased (poolID : ID) (claims : List UsageClaim) : Nat :=
  claims.countP fun c => c.poolID = poolID ∧ c.releasedAt = none

section
variable (db : DB) (locks : Locks ID LeaseRow) (id : ID) (req : LeaseRequest) (sc : LeaseScope)

def PoolsPresent : Prop := ∀ c ∈ req.claims, (db.pool? c.poolID).isSome
def Scoped : Prop :=
  (∃ t ∈ db.tasks, t.id = req.taskID ∧ t.jobID = sc.jobID) ∧ (∃ j ∈ db.jobs, j.id = sc.jobID) ∧
    ∀ v, (db.cap? v (sc.rowID v)).isSome
def Anchoring (todo : List (LeaseRow × Mode)) : Prop :=
  ∀ a ∈ sc.anchors req, a ∈ todo ∨ a.1 = .worker req.workerID ∨ Holds locks id a.1 a.2
def Anchored : Prop :=
  Holds locks id (.job sc.jobID) .share ∧
  (∀ v, 0 < sc.cap v → Holds locks id (.capacity v (sc.rowID v)) .exclusive) ∧
  ∀ c ∈ req.claims, Holds locks id (.pool c.poolID) .exclusive

def Placed : Prop :=
  Holds locks id (.task req.taskID) .exclusive ∧
  ∃ j ∈ db.jobs, j.id = sc.jobID ∧ ∀ v, j.rowID v = sc.rowID v
def AttemptIn (a : TaskAttempt) : Prop :=
  a.id = req.attemptID ∧ a.taskID = req.taskID ∧ (∀ b ∈ db.attempts, b.id ≠ a.id) ∧
    Holds locks id (.attempt a.id) .exclusive

def ClaimsIn (written : List UsageClaim) (todo : List UsagePoolClaim) : Prop :=
  written ++ todo.map (leaseClaim req.attemptID) = (sortedClaims req).map (leaseClaim req.attemptID) ∧
  ∀ c ∈ written, Holds locks id (.claim c.id) .exclusive ∧
    ∀ p, db.pool? c.poolID = some p → 0 < p.maxConcurrent →
      (unreleased c.poolID (db.claims ++ written) : Int) ≤ p.maxConcurrent

end

def LeaseTx.Knows (tx : LeaseTx) (db : DB) (locks : Locks ID LeaseRow) (id : ID) : Prop :=
  match tx.pc with
  | .readScope => PoolsPresent db tx.req
  | .lockAnchors sc todo =>
    PoolsPresent db tx.req ∧ Scoped db tx.req sc ∧ Anchoring locks id tx.req sc todo
  | .writeTask sc =>
    PoolsPresent db tx.req ∧ Scoped db tx.req sc ∧ Anchored locks id tx.req sc
  | .recount sc _ | .insertAttempt sc =>
    PoolsPresent db tx.req ∧ Scoped db tx.req sc ∧ Anchored locks id tx.req sc ∧ Placed db locks id tx.req sc
  | .claimPools sc a written todo =>
    PoolsPresent db tx.req ∧ Scoped db tx.req sc ∧ Anchored locks id tx.req sc ∧
      Placed db locks id tx.req sc ∧ AttemptIn db locks id tx.req a ∧
      ClaimsIn db locks id tx.req written todo
  | .commit sc a written =>
    PoolsPresent db tx.req ∧ Scoped db tx.req sc ∧ Anchored locks id tx.req sc ∧
      Placed db locks id tx.req sc ∧ AttemptIn db locks id tx.req a ∧
      ClaimsIn db locks id tx.req written []
  | .returned _ => True

structure Interference (db db' : DB) (locks locks' : Locks ID LeaseRow) (id : ID) : Prop where
  wf : WF db'
  tasks : ∀ t ∈ db.tasks, ∃ t' ∈ db'.tasks, t'.id = t.id ∧ t'.jobID = t.jobID
  jobs : ∀ j ∈ db.jobs, ∃ j' ∈ db'.jobs, j'.id = j.id
  caps : ∀ v row, (db.cap? v row).isSome → (db'.cap? v row).isSome
  pools : ∀ pool, (db.pool? pool).isSome → (db'.pool? pool).isSome
  rows : ∀ row mode, Holds locks id row mode → row.Unchanged db db'
  claims : ∀ pool, Holds locks id (.pool pool) .exclusive →
    unreleased pool db'.claims ≤ unreleased pool db.claims
  keeps : ∀ row mode, Holds locks id row mode → Holds locks' id row mode

section
variable {db db' : DB} {locks locks' : Locks ID LeaseRow} {id : ID} {req : LeaseRequest}
  {sc : LeaseScope} {todo : List UsagePoolClaim} {written : List UsageClaim}

lemma Interference.of_locks (wf : WF db)
    (keeps : ∀ row mode, Holds locks id row mode → Holds locks' id row mode) :
    Interference db db locks locks' id where
  wf := wf
  tasks t ht := ⟨t, ht, rfl, rfl⟩
  jobs j hj := ⟨j, hj, rfl⟩
  caps _ _ h := h
  pools _ h := h
  rows row _ _ := by cases row with
    | capacity v _ => cases v <;> rfl
    | _ => rfl
  claims _ _ := Nat.le_refl _
  keeps := keeps

lemma PoolsPresent.mono (h : PoolsPresent db req) (i : Interference db db' locks locks' id) :
    PoolsPresent db' req := fun c hc => i.pools _ (h c hc)

lemma Scoped.mono (h : Scoped db req sc) (i : Interference db db' locks locks' id) : Scoped db' req sc := by
  obtain ⟨⟨t, ht, e1, e2⟩, ⟨j, hj, e3⟩, hcaps⟩ := h
  obtain ⟨t', ht', e1', e2'⟩ := i.tasks t ht
  obtain ⟨j', hj', e3'⟩ := i.jobs j hj
  exact ⟨⟨t', ht', e1'.trans e1, e2'.trans e2⟩, ⟨j', hj', e3'.trans e3⟩, fun v => i.caps v _ (hcaps v)⟩

lemma Anchoring.mono {todo : List (LeaseRow × Mode)} (h : Anchoring locks id req sc todo)
    (i : Interference db db' locks locks' id) : Anchoring locks' id req sc todo :=
  fun a ha => (h a ha).imp_right (Or.imp_right (i.keeps _ _))
lemma Anchored.mono (h : Anchored locks id req sc) (i : Interference db db' locks locks' id) :
    Anchored locks' id req sc :=
  ⟨i.keeps _ _ h.1, fun v hv => i.keeps _ _ (h.2.1 v hv), fun c hc => i.keeps _ _ (h.2.2 c hc)⟩

lemma Placed.mono (h : Placed db locks id req sc) (wf : WF db) (ha : Anchored locks id req sc)
    (i : Interference db db' locks locks' id) : Placed db' locks' id req sc := by
  obtain ⟨htask, j, hj, e, hv⟩ := h
  have same : db'.job? sc.jobID = db.job? sc.jobID := i.rows _ _ ha.1
  rw [← e, wf.job?_eq hj] at same
  exact ⟨i.keeps _ _ htask, j, mem_of_find?_eq_some same, e, hv⟩

lemma AttemptIn.mono {a : TaskAttempt} (h : AttemptIn db locks id req a)
    (i : Interference db db' locks locks' id) : AttemptIn db' locks' id req a := by
  obtain ⟨e1, e2, hfresh, hlock⟩ := h
  refine ⟨e1, e2, ?_, i.keeps _ _ hlock⟩
  have same : db'.attempt? a.id = db.attempt? a.id := i.rows _ _ hlock
  have hnone : db.attempt? a.id = none := by
    refine find?_eq_none.mpr fun b hb => ?_
    simpa using hfresh b hb
  rw [hnone] at same
  intro b hb
  simpa using find?_eq_none.mp same b hb

lemma ClaimsIn.of_req (h : ClaimsIn db locks id req written todo) {c : UsageClaim} (hc : c ∈ written) :
    ∃ c0 ∈ req.claims, c = leaseClaim req.attemptID c0 := by
  have hmem : c ∈ (sortedClaims req).map (leaseClaim req.attemptID) := h.1 ▸ mem_append_left _ hc
  obtain ⟨c0, hc0, rfl⟩ := mem_map.mp hmem
  exact ⟨c0, (mem_insertionSort _).mp hc0, rfl⟩

lemma unreleased_append (pool : ID) (xs ys : List UsageClaim) :
    unreleased pool (xs ++ ys) = unreleased pool xs + unreleased pool ys :=
  countP_append

lemma ClaimsIn.mono (h : ClaimsIn db locks id req written todo) (ha : Anchored locks id req sc)
    (i : Interference db db' locks locks' id) : ClaimsIn db' locks' id req written todo := by
  refine ⟨h.1, fun c hc => ⟨i.keeps _ _ (h.2 c hc).1, fun p hp hpos => ?_⟩⟩
  obtain ⟨c0, hc0, rfl⟩ := h.of_req hc
  have hpool : Holds locks id (.pool c0.poolID) .exclusive := ha.2.2 c0 hc0
  have same : db'.pool? c0.poolID = db.pool? c0.poolID := i.rows _ _ hpool
  have hroom := (h.2 _ hc).2 p (same ▸ hp) hpos
  have hle := i.claims _ hpool
  simp only [leaseClaim, unreleased_append] at hroom ⊢
  omega

lemma LeaseTx.Knows.mono {tx : LeaseTx} (k : tx.Knows db locks id) (wf : WF db)
    (i : Interference db db' locks locks' id) : tx.Knows db' locks' id := by
  obtain ⟨req, pc⟩ := tx
  cases pc with
  | readScope => exact PoolsPresent.mono k i
  | lockAnchors sc todo => exact ⟨k.1.mono i, k.2.1.mono i, k.2.2.mono i⟩
  | writeTask sc => exact ⟨k.1.mono i, k.2.1.mono i, k.2.2.mono i⟩
  | recount | insertAttempt =>
    obtain ⟨hp, hs, ha, hpl⟩ := k
    exact ⟨hp.mono i, hs.mono i, ha.mono i, hpl.mono wf ha i⟩
  | claimPools | commit =>
    obtain ⟨hp, hs, ha, hpl, hat, hc⟩ := k
    exact ⟨hp.mono i, hs.mono i, ha.mono i, hpl.mono wf ha i, hat.mono i, hc.mono ha i⟩
  | returned => trivial

end

/-! ## Other transactions -/

section
variable {db : DB} {locks : Locks ID LeaseRow} {id : ID}

lemma unreleased_kept {pool : ID} {xs ys : List UsageClaim} (h : Forall₂ UsageClaim.Kept xs ys) :
    unreleased pool ys ≤ unreleased pool xs := by
  induction h with
  | nil => exact Nat.le_refl _
  | @cons c c' xs ys hk _ ih =>
    unfold unreleased at ih ⊢
    rw [countP_cons, countP_cons]
    by_cases hc' : c'.poolID = pool ∧ c'.releasedAt = none
    · have hc : c.poolID = pool ∧ c.releasedAt = none := ⟨hk.1 ▸ hc'.1, hk.2.2 hc'.2⟩
      simpa [hc, hc'] using ih
    · simp only [hc', decide_false, Bool.false_eq_true, if_false]
      omega

lemma saveRow_isSome {α : Type} {key : α → ID} {r : α} {rows : List α} {k : ID}
    (h : (rows.find? (fun r => key r = k)).isSome) :
    ((saveRow key r rows).find? (fun r => key r = k)).isSome := by
  rw [find?_isSome] at h ⊢
  obtain ⟨r0, hr0, e⟩ := h
  unfold saveRow
  split
  · refine ⟨_, mem_update.mpr ⟨r0, hr0, rfl⟩, ?_⟩
    simp only [decide_eq_true_eq] at e ⊢
    split
    · rename_i hk
      exact hk.symm.trans e
    · exact e
  · exact ⟨r0, mem_append_left _ hr0, e⟩

lemma DB.cap?_isSome {db db' : DB} {v : Level} {row : ID}
    (hq : (db.queue? row).isSome → (db'.queue? row).isSome)
    (hf : (db.farm? row).isSome → (db'.farm? row).isSome) (h : (db.cap? v row).isSome) :
    (db'.cap? v row).isSome := by
  cases v <;> simp only [DB.cap?, Option.isSome_map] at h ⊢
  · exact hq h
  · exact hf h

lemma Interference.of_rows {db' : DB} (wf : WF db') (htasks : ∀ t ∈ db.tasks, t ∈ db'.tasks)
    (jobs : ∀ j ∈ db.jobs, ∃ j' ∈ db'.jobs, j'.id = j.id)
    (caps : ∀ v row, (db.cap? v row).isSome → (db'.cap? v row).isSome)
    (pools : ∀ pool, (db.pool? pool).isSome → (db'.pool? pool).isSome)
    (rows : ∀ row mode, Holds locks id row mode → row.Unchanged db db') (hclaims : db'.claims = db.claims) :
    Interference db db' locks locks id where
  wf := wf
  tasks := fun t ht => ⟨t, htasks t ht, rfl, rfl⟩
  jobs := jobs
  caps := caps
  pools := pools
  rows := rows
  claims := fun _ _ => hclaims ▸ Nat.le_refl _
  keeps := fun _ _ h => h

lemma Op.interference {op : Op} (hl : ¬ op.IsLease) (wf : WF db)
    (hrows : ∀ l ∈ locks, l.row.Unchanged db (op.apply db)) :
    Interference db (op.apply db) locks locks id := by
  have rows : ∀ row mode, Holds locks id row mode → row.Unchanged db (op.apply db) := fun row mode h => hrows _ h
  have keeps : ∀ row mode, Holds locks id row mode → Holds locks id row mode := fun _ _ h => h
  have wf' := op.wf wf
  by_cases hloud : op.Loud
  · cases op with
    | leaseTask => exact absurd trivial hl
    | submit p blocked =>
      rcases submission_cases (buildSubmission p blocked) db with e | ⟨_, _, e⟩
      · have e' : Op.apply (.submit p blocked) db = db := e
        rw [e']
        exact .of_locks wf keeps
      have e' : Op.apply (.submit p blocked) db = submittedState (buildSubmission p blocked) db := e
      rw [e'] at wf' rows ⊢
      exact .of_rows wf' (fun _ ht => mem_append_left _ ht) (fun j hj => ⟨j, mem_append_left _ hj, rfl⟩)
        (fun v row => DB.cap?_isSome (fun h => h) fun h => h) (fun _ h => h) rows rfl
    | updateJob jobID farmID queueID retry =>
      have hjobs : ∀ j ∈ db.jobs, ∃ j' ∈ (Op.apply (.updateJob jobID farmID queueID retry) db).jobs, j'.id = j.id := by
        intro j hj
        simp only [Op.apply, Sqi.updateJob]
        split
        · refine ⟨_, mem_update.mpr ⟨j, hj, rfl⟩, ?_⟩
          split <;> rfl
        · exact ⟨j, hj, rfl⟩
      have hsame : ∃ jobs, Op.apply (.updateJob jobID farmID queueID retry) db = { db with jobs := jobs } := by
        simp only [Op.apply, Sqi.updateJob]
        split
        · exact ⟨_, rfl⟩
        · exact ⟨db.jobs, rfl⟩
      obtain ⟨jobs, e⟩ := hsame
      rw [e] at wf' rows hjobs ⊢
      exact .of_rows wf' (fun _ ht => ht) hjobs (fun v row => DB.cap?_isSome (fun h => h) fun h => h)
        (fun _ h => h) rows rfl
    | saveFarm f =>
      exact .of_rows wf' (fun _ ht => ht) (fun j hj => ⟨j, hj, rfl⟩)
        (fun v row => DB.cap?_isSome (fun h => h) saveRow_isSome) (fun _ h => h) rows rfl
    | saveQueue q =>
      exact .of_rows wf' (fun _ ht => ht) (fun j hj => ⟨j, hj, rfl⟩)
        (fun v row => DB.cap?_isSome saveRow_isSome fun h => h) (fun _ h => h) rows rfl
    | saveUsagePool p =>
      exact .of_rows wf' (fun _ ht => ht) (fun j hj => ⟨j, hj, rfl⟩)
        (fun v row => DB.cap?_isSome (fun h => h) fun h => h) (fun _ => saveRow_isSome) rows rfl
    | _ => exact hloud.elim
  · have q := Op.quiet hloud db
    refine {
      wf := wf', rows := rows, keeps := keeps
      tasks := ?_, jobs := ?_, caps := ?_, pools := ?_
      claims := fun _ _ => unreleased_kept q.claims }
    · intro t ht
      obtain ⟨t', ht', hk, _⟩ := of_mem_left q.tasks ht
      simp only [Task.key, Prod.mk.injEq] at hk
      exact ⟨t', ht', hk.1, hk.2.1⟩
    · intro j hj
      obtain ⟨j', hj', e⟩ := exists_key_of_mem q.jobs hj
      exact ⟨j', hj', congrArg Prod.fst e⟩
    · intro v row
      refine DB.cap?_isSome ?_ ?_
      · simp [DB.queue?, q.queues]
      · simp [DB.farm?, q.farms]
    · intro pool
      simp [DB.pool?, q.pools]

end

/-! ## The commit of a lease -/

section
variable {db : DB} {locks : Locks ID LeaseRow} {id : ID} {req : LeaseRequest} {sc : LeaseScope}
  {a : TaskAttempt} {written : List UsageClaim} {i : ID}

lemma commit_view : (⟨req, .commit sc a written⟩ : LeaseTx).view db = { db with
      tasks := update (fun t => t.id = req.taskID) (assignTask req) db.tasks
      attempts := db.attempts ++ [a]
      claims := db.claims ++ written } := rfl

lemma commit_wf (wf : WF db) (hs : Scoped db req sc) (ha : AttemptIn db locks id req a) :
    WF ((⟨req, .commit sc a written⟩ : LeaseTx).view db) := by
  have assigned : WF (db.updateTasks (fun t => t.id = req.taskID) (assignTask req)) :=
    wf.of_sameKeys (.updateTasks fun _ => rfl)
  obtain ⟨_, hatask, hfresh, _⟩ := ha
  refine { assigned with
    attempts_keyed := assigned.attempts_keyed.append_singleton hfresh
    attempt_task := ?_ }
  intro b hb
  rcases mem_append.mp hb with hb | hb
  · exact assigned.attempt_task b hb
  obtain ⟨t, ht, e, _⟩ := hs.1
  refine ⟨_, mem_update.mpr ⟨t, ht, rfl⟩, ?_⟩
  rw [mem_singleton.mp hb, if_pos e]
  exact e.trans hatask.symm

lemma commit_rows (sound : Sound locks) (hp : Placed db locks id req sc)
    (ha : AttemptIn db locks id req a) (hc : ClaimsIn db locks id req written [])
    (hne : i ≠ id) {row : LeaseRow} {mode : Mode} (hrow : Holds locks i row mode) :
    row.Unchanged db ((⟨req, .commit sc a written⟩ : LeaseTx).view db) := by
  cases row with
  | worker | job | pool => rfl
  | capacity v _ => cases v <;> rfl
  | task x =>
    have hx : x ≠ req.taskID := by
      rintro rfl
      exact hne (sound.exclusive hp.1 hrow)
    change find? _ (update _ _ db.tasks) = find? _ db.tasks
    rw [← head?_filter, ← head?_filter]
    refine congrArg head? (filter_update fun t _ ht => ?_)
    simp only [assignTask, ht]
    exact ⟨hx.symm, hx.symm⟩
  | attempt x =>
    have hx : a.id ≠ x := by
      rintro rfl
      exact hne (sound.exclusive ha.2.2.2 hrow)
    simp [LeaseRow.Unchanged, commit_view, DB.attempt?, find?_append, hx]
  | claim x =>
    have hx : ∀ c ∈ written, c.id ≠ x := by
      rintro c hmem rfl
      exact hne (sound.exclusive (hc.2 c hmem).1 hrow)
    have hnone : written.find? (fun c => c.id = x) = none := by simpa using hx
    simp [LeaseRow.Unchanged, commit_view, find?_append, hnone]

lemma commit_claims (sound : Sound locks) (ha : Anchored locks id req sc)
    (hc : ClaimsIn db locks id req written []) (hne : i ≠ id) {pool : ID}
    (hpool : Holds locks i (.pool pool) .exclusive) :
    unreleased pool (db.claims ++ written) ≤ unreleased pool db.claims := by
  have hzero : unreleased pool written = 0 := by
    refine countP_eq_zero.mpr fun c hmem => ?_
    obtain ⟨c0, hc0, rfl⟩ := hc.of_req hmem
    have hx : c0.poolID ≠ pool := by
      rintro rfl
      exact hne (sound.exclusive (ha.2.2 c0 hc0) hpool)
    simp [leaseClaim, hx]
  rw [unreleased_append, hzero, Nat.add_zero]

lemma commit_interference (wf : WF db) (sound : Sound locks)
    (k : (⟨req, .commit sc a written⟩ : LeaseTx).Knows db locks id) (hne : i ≠ id) :
    Interference db ((⟨req, .commit sc a written⟩ : LeaseTx).view db) locks (release locks id) i := by
  obtain ⟨_, hs, han, hp, hat, hc⟩ := k
  exact {
    wf := commit_wf wf hs hat
    tasks := fun t ht => ⟨_, mem_update.mpr ⟨t, ht, rfl⟩, by split <;> rfl, by split <;> rfl⟩
    jobs := fun j hj => ⟨j, hj, rfl⟩
    caps := fun v row => DB.cap?_isSome (fun h => h) fun h => h
    pools := fun _ h => h
    rows := fun row mode => commit_rows sound hp hat hc hne
    claims := fun pool => commit_claims sound han hc hne
    keeps := fun _ _ h => h.release hne }

end

structure LeaseInv (s : LeaseState) : Prop where
  wf : WF s.db
  locks_sound : Sound s.locks
  txs_know : ∀ id tx, s.txs id = some tx → tx.Knows s.db s.locks id

section
variable {s : LeaseState} {id : ID} {tx : LeaseTx}

lemma LeaseInv.lock (inv : LeaseInv s) {row : LeaseRow} {mode : Mode}
    (g : Grants s.locks id row mode) : LeaseInv (s.lock id row mode) where
  wf := inv.wf
  locks_sound := inv.locks_sound.acquire g
  txs_know i tx h := (inv.txs_know i tx h).mono inv.wf (.of_locks inv.wf fun _ _ => Holds.acquire)

lemma LeaseInv.goto (inv : LeaseInv s) {pc : LeasePC}
    (k : (⟨tx.req, pc⟩ : LeaseTx).Knows s.db s.locks id) : LeaseInv (s.goto id tx pc) where
  wf := inv.wf
  locks_sound := inv.locks_sound
  txs_know i tx' h := by
    by_cases e : i = id
    · subst e
      simp only [LeaseState.goto, update_self, Option.some.injEq] at h
      subst h
      exact k
    · simp only [LeaseState.goto, update_of_ne e] at h
      exact inv.txs_know i tx' h

lemma LeaseInv.finish_with (inv : LeaseInv s) {r : Except StoreError LeaseOutcome} {db : DB}
    (wf : WF db) (h : ∀ i, i ≠ id → Interference s.db db s.locks (release s.locks id) i) :
    LeaseInv { s.finish id tx r with db := db } where
  wf := wf
  locks_sound := inv.locks_sound.release id
  txs_know i tx' htx := by
    by_cases e : i = id
    · subst e
      simp only [LeaseState.finish, update_self, Option.some.injEq] at htx
      subst htx
      trivial
    · simp only [LeaseState.finish, update_of_ne e] at htx
      exact (inv.txs_know i tx' htx).mono inv.wf (h i e)

lemma LeaseInv.finish (inv : LeaseInv s) (tx : LeaseTx) (r : Except StoreError LeaseOutcome) :
    LeaseInv (s.finish id tx r) :=
  inv.finish_with inv.wf fun _ e => .of_locks inv.wf fun _ _ h => h.release e

variable {db : DB} {req : LeaseRequest} {sc : LeaseScope} {locks : Locks ID LeaseRow}
  {written : List UsageClaim} {c : UsagePoolClaim}

lemma readLeaseScope_scoped (h : readLeaseScope db req.taskID = some sc) : Scoped db req sc := by
  simp only [readLeaseScope, Option.bind_eq_some_iff, Option.map_eq_some_iff] at h
  obtain ⟨t, ht, j, hj, q, hq, f, hf, rfl⟩ := h
  obtain ⟨htm, hte⟩ := DB.task?_some ht
  obtain ⟨hjm, hje⟩ := DB.job?_some hj
  refine ⟨⟨t, htm, hte, rfl⟩, ⟨j, hjm, hje⟩, fun v => ?_⟩
  cases v
  · simp [DB.cap?, LeaseScope.rowID, hq]
  · simp [DB.cap?, LeaseScope.rowID, hf]

lemma job?_isSome {jobID : ID} (h : ∃ j ∈ db.jobs, j.id = jobID) : (db.job? jobID).isSome := by
  obtain ⟨j, hj, e⟩ := h
  exact find?_isSome.mpr ⟨j, hj, decide_eq_true e⟩

lemma anchors_present (hp : PoolsPresent db req)
    (hs : Scoped db req sc) {a : LeaseRow × Mode} (ha : a ∈ sc.anchors req) :
    a.1 = .worker req.workerID ∨ a.1.Present db := by
  simp only [LeaseScope.anchors, mem_append, mem_cons, not_mem_nil, or_false, mem_map] at ha
  rcases ha with (((rfl | rfl) | hq) | hf) | ⟨c, hc, rfl⟩
  · exact .inl rfl
  · exact .inr (job?_isSome hs.2.1)
  · split at hq
    · obtain rfl := mem_singleton.mp hq
      exact .inr (hs.2.2 .queue)
    · cases hq
  · split at hf
    · obtain rfl := mem_singleton.mp hf
      exact .inr (hs.2.2 .farm)
    · cases hf
  · exact .inr (hp c ((mem_insertionSort _).mp hc))

lemma Anchoring.done (h : Anchoring locks id req sc []) : Anchored locks id req sc := by
  have held : ∀ row mode, row ≠ .worker req.workerID → (row, mode) ∈ sc.anchors req → Holds locks id row mode := by
    intro row mode hne hmem
    rcases h _ hmem with hnil | hw | hh
    · cases hnil
    · exact absurd hw hne
    · exact hh
  refine ⟨held _ _ (by simp) (by simp [LeaseScope.anchors]), ?_, ?_⟩
  · intro v hv
    cases v
    · have hcap : 0 < sc.queueCap := hv
      exact held _ _ (by simp) (by simp [LeaseScope.anchors, hcap, LeaseScope.rowID])
    · have hcap : 0 < sc.farmCap := hv
      exact held _ _ (by simp) (by simp [LeaseScope.anchors, hcap, LeaseScope.rowID])
  · intro c hc
    refine held _ _ (by simp) ?_
    have hmem : c ∈ sortedClaims req := (mem_insertionSort _).mpr hc
    simp only [LeaseScope.anchors, mem_append, mem_map]
    exact .inr ⟨c, hmem, rfl⟩

lemma claimPool_room {attemptID : ID} {db' : DB}
    (h : claimPool attemptID c db = .ok (none, db')) {p : UsagePool}
    (hp : db.pool? c.poolID = some p) (hpos : 0 < p.maxConcurrent) :
    (activeClaimCount db c.poolID : Int) < p.maxConcurrent := by
  simp only [claimPool, hp] at h
  split at h
  · cases h
  · rename_i hroom
    omega

lemma ClaimsIn.claim {todo : List UsagePoolClaim} (h : ClaimsIn db locks id req written (c :: todo))
    (hroom : ∀ p, db.pool? c.poolID = some p → 0 < p.maxConcurrent →
    (unreleased c.poolID (db.claims ++ written) : Int) < p.maxConcurrent) :
    ClaimsIn db (acquire locks id (.claim c.claimID) .exclusive) id req
    (written ++ [leaseClaim req.attemptID c]) todo := by
  have hone : unreleased c.poolID [leaseClaim req.attemptID c] = 1 := by simp [unreleased, leaseClaim]
  refine ⟨by rw [← h.1]; simp, fun d hd => ⟨?_, fun p hp hpos => ?_⟩⟩
  · rcases mem_append.mp hd with hd | hd
    · exact (h.2 d hd).1.acquire
    · rw [mem_singleton.mp hd]
      exact holds_acquire
  · rw [← append_assoc, unreleased_append]
    by_cases e : d.poolID = c.poolID
    · rw [e] at hp ⊢
      have := hroom p hp hpos
      omega
    have hzero : unreleased d.poolID [leaseClaim req.attemptID c] = 0 := by
      simp [unreleased, leaseClaim, Ne.symm e]
    have hd' : d ∈ written := by
      rcases mem_append.mp hd with hd | hd
      · exact hd
      · rw [mem_singleton.mp hd] at e
        exact absurd rfl e
    have := (h.2 d hd').2 p hp hpos
    omega

lemma commit_inv (inv : LeaseInv s) {a : TaskAttempt} (htx : s.txs id = some ⟨req, .commit sc a written⟩) :
    LeaseInv { s.finish id ⟨req, .commit sc a written⟩ (.ok .leased) with
    db := (⟨req, .commit sc a written⟩ : LeaseTx).view s.db } := by
  have k := inv.txs_know id _ htx
  have hk := k
  obtain ⟨_, hs, _, _, hat, _⟩ := hk
  exact inv.finish_with (commit_wf inv.wf hs hat) fun _ e => commit_interference inv.wf inv.locks_sound k e

lemma leaseStmt_inv (inv : LeaseInv s) (htx : s.txs id = some tx)
    (hr : leaseStmtReady id tx s) : LeaseInv (leaseStmt id tx s) := by
  obtain ⟨req, pc⟩ := tx
  have k := inv.txs_know id _ htx
  cases pc with
  | readScope =>
    simp only [leaseStmt]
    split
    · exact inv.finish ..
    · rename_i sc hsc
      exact inv.goto ⟨k, readLeaseScope_scoped hsc, fun a ha => .inl ha⟩
  | lockAnchors sc todo =>
    cases todo with
    | nil => exact inv.goto ⟨k.1, k.2.1, k.2.2.done⟩
    | cons head todo =>
      obtain ⟨row, mode⟩ := head
      obtain ⟨hp, hs, han⟩ := k
      simp only [leaseStmt]
      split
      · rename_i hpres
        refine (inv.lock (hr hpres)).goto ⟨hp, hs, fun a ha => ?_⟩
        rcases han a ha with hmem | hw | hh
        · rcases mem_cons.mp hmem with rfl | hmem
          · exact .inr (.inr holds_acquire)
          · exact .inl hmem
        · exact .inr (.inl hw)
        · exact .inr (.inr hh.acquire)
      · rename_i hpres
        refine inv.goto ⟨hp, hs, fun a ha => ?_⟩
        rcases han a ha with hmem | hw | hh
        · rcases mem_cons.mp hmem with rfl | hmem
          · exact .inr (.inl ((anchors_present hp hs ha).resolve_right hpres))
          · exact .inl hmem
        · exact .inr (.inl hw)
        · exact .inr (.inr hh)
  | writeTask sc =>
    obtain ⟨hp, hs, han⟩ := k
    simp only [leaseStmt]
    split
    · rename_i hm
      have inv' := inv.lock (hr hm)
      have i : Interference s.db s.db s.locks (acquire s.locks id (.task req.taskID) .exclusive) id :=
        .of_locks inv.wf fun _ _ => Holds.acquire
      refine inv'.goto ⟨hp, hs, han.mono i, holds_acquire, ?_⟩
      obtain ⟨t, ht, hid, _, _, ⟨j, hj, ej, eq, ef, _⟩, _⟩ := hm
      obtain ⟨t', ht', hid', ej'⟩ := hs.1
      have heq : t = t' := inv.wf.tasks_keyed.eq_of_mem ht ht' (hid.trans hid'.symm)
      refine ⟨j, hj, by rw [ej, heq, ej'], fun v => ?_⟩
      cases v
      · exact eq
      · exact ef
    · exact inv.finish ..
  | recount sc v =>
    simp only [leaseStmt]
    split
    · exact inv.finish ..
    · exact inv.finish ..
    · cases v <;> exact inv.goto k
  | insertAttempt sc =>
    obtain ⟨hp, hs, han, hpl⟩ := k
    simp only [leaseStmt]
    split
    · exact inv.finish ..
    rename_i hins
    have inv' := inv.lock hr
    have i : Interference s.db s.db s.locks
        (acquire s.locks id (.attempt req.attemptID) .exclusive) id :=
      .of_locks inv.wf fun _ _ => Holds.acquire
    refine inv'.goto ⟨hp, hs, han.mono i, hpl.mono inv.wf han i, ?_, by simp, by simp⟩
    refine ⟨rfl, rfl, fun b hb e => ?_, holds_acquire⟩
    unfold insertLeaseAttempt at hins
    split at hins
    · cases hins
    · rename_i hfresh
      exact hfresh ⟨b, mem_append_left _ hb, e⟩
  | claimPools sc a written todo =>
    cases todo with
    | nil => exact inv.goto k
    | cons c todo =>
      obtain ⟨hp, hs, han, hpl, hat, hc⟩ := k
      simp only [leaseStmt]
      split
      · exact inv.finish ..
      · exact inv.finish ..
      rename_i hclaim
      have inv' := inv.lock hr
      have i : Interference s.db s.db s.locks (acquire s.locks id (.claim c.claimID) .exclusive) id :=
        .of_locks inv.wf fun _ _ => Holds.acquire
      refine inv'.goto ⟨hp, hs, han.mono i, hpl.mono inv.wf han i, hat.mono i, hc.claim ?_⟩
      exact fun p hpool hpos => claimPool_room hclaim hpool hpos
  | commit sc a written => exact commit_inv inv htx
  | returned r => exact hr.elim

lemma LeaseLabel.inv {l : LeaseLabel} (inv : LeaseInv s) (h : l.enabled s) : LeaseInv (l.apply s) := by
  cases l with
  | call id req =>
    have called : LeaseInv (s.goto id ⟨req, .readScope⟩ .readScope) := inv.goto h.2
    exact called
  | stmt id =>
    obtain ⟨tx, htx, hr⟩ := h
    simp only [LeaseLabel.apply, htx]
    exact leaseStmt_inv inv htx hr
  | abort id =>
    refine ⟨inv.wf, inv.locks_sound.release id, fun i tx' h => ?_⟩
    by_cases e : i = id
    · subst e
      simp [LeaseLabel.apply] at h
    · simp only [LeaseLabel.apply, update_of_ne e] at h
      exact (inv.txs_know i tx' h).mono inv.wf (.of_locks inv.wf fun _ _ h => h.release e)
  | other op =>
    exact ⟨op.wf inv.wf, inv.locks_sound, fun i tx' htx =>
      (inv.txs_know i tx' htx).mono inv.wf (Op.interference h.1 inv.wf h.2)⟩

lemma leaseInv_run {h : LeaseHistory} (run : LeaseRun h s) : LeaseInv s :=
  run.safe ⟨WF.empty, .nil, by simp [leaseSystem]⟩ fun _ _ _ _ inv he => LeaseLabel.inv inv he

end
end Sqi

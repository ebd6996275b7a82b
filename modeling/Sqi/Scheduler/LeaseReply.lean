import Sqi.Invariant.Cores

/-! The reply of `selectLeaseBatch` (`lease.go`) against the leases it commits. -/

namespace Sqi
open List Table

structure Assignment where
  taskID : ID
  attemptID : ID
  deriving DecidableEq

structure LeaseRound where
  others : List Op
  answers : LeaseAnswers

structure LeaseReads where
  committed : Except StoreError Unit
  between : List Op
  listed : Except StoreError (List Task)

def newlyAssigned (db db' : DB) : List ID :=
  ((db.tasks.zip db'.tasks).filter
    fun p => p.1.status ≠ .assigned ∧ p.2.status = .assigned).map (·.2.id)

structure Selection where
  free : Int
  batch : List Assignment
  failed : Bool
  leased : List ID
  db : DB

def Selection.tryLease (cores : CoreColumn) (w : LeaseWorker) (t : Task) (r : LeaseRound)
    (s : Selection) : Selection :=
  let db := r.others.foldl (fun db o => o.apply db) s.db
  let answer := tryLeaseTask cores t w s.free r.answers db
  let s' := { s with db := answer.2, leased := s.leased ++ newlyAssigned db answer.2 }
  match answer.1 with
  | .failed => { s' with failed := true }
  | .skipped => s'
  | .leased cost =>
    { s' with batch := s.batch ++ [⟨t.id, r.answers.attemptID⟩], free := s.free - cost }

def leaseCandidates (cores : CoreColumn) (w : LeaseWorker) :
    List Task → (Nat → LeaseRound) → Selection → Selection
  | [], _, s => s
  | t :: candidates, rounds, s =>
    if s.free ≤ 0 then s
    else
      let s' := s.tryLease cores w t (rounds 0)
      if s'.failed then s' else leaseCandidates cores w candidates (fun n => rounds (n + 1)) s'

def selectLeaseBatch (cores : CoreColumn) (w : LeaseWorker) (reads : LeaseReads)
    (rounds : Nat → LeaseRound) (db : DB) : Selection :=
  let free := w.full - committedCores cores w.id w.full db
  let s : Selection := ⟨free, [], false, [], db⟩
  match reads.committed with
  | .error _ => { s with failed := true }
  | .ok () =>
    if free ≤ 0 then s
    else
      let s' := { s with db := reads.between.foldl (fun db o => o.apply db) db }
      match reads.listed with
      | .error _ => { s' with failed := true }
      | .ok candidates => leaseCandidates cores w candidates rounds s'

lemma mem_newlyAssigned {db db' : DB} {f : Task → Task} (h : db'.tasks = db.tasks.map f) {id : ID} :
    id ∈ newlyAssigned db db' ↔ ∃ t ∈ db.tasks, t.status ≠ .assigned ∧ (f t).status = .assigned ∧ (f t).id = id := by
  unfold newlyAssigned
  rw [h, ← map_prod_left_eq_zip]
  simp only [mem_map, mem_filter, decide_eq_true_eq]
  constructor
  · rintro ⟨_, ⟨⟨t, ht, rfl⟩, hbefore, hafter⟩, hid⟩
    exact ⟨t, ht, hbefore, hafter, hid⟩
  · rintro ⟨t, ht, hbefore, hafter, hid⟩
    exact ⟨(t, f t), ⟨⟨t, ht, rfl⟩, hbefore, hafter⟩, hid⟩

lemma newlyAssigned_self (db : DB) : newlyAssigned db db = [] := by
  rw [eq_nil_iff_forall_not_mem]
  intro id hid
  obtain ⟨t, -, hbefore, hafter, -⟩ := (mem_newlyAssigned (map_id _).symm).mp hid
  exact hbefore hafter

lemma mem_newlyAssigned_leased {scope : LeaseScope} {req : LeaseRequest} {db : DB}
    (hmatch : ∃ t ∈ db.tasks, leaseMatches db scope req t) {id : ID} :
    id ∈ newlyAssigned db (leasedState scope req db) ↔ id = req.taskID := by
  rw [mem_newlyAssigned (show _ = db.tasks.map _ from rfl)]
  constructor
  · rintro ⟨t, -, hbefore, hafter, hid⟩
    split at hafter
    · rename_i hm
      rw [if_pos hm] at hid
      exact hid.symm.trans hm.1
    · exact absurd hafter hbefore
  · rintro rfl
    obtain ⟨t, ht, hm⟩ := hmatch
    refine ⟨t, ht, ?_⟩
    rw [if_pos hm]
    exact ⟨by simp [hm.2.1], rfl, hm.1⟩

/-- The call leases the task, so that the assignment is to be built. -/
def Leases (cores : CoreColumn) (t : Task) (w : LeaseWorker) (free : Int) (a : LeaseAnswers) (db : DB) : Prop :=
  fullMachineCost cores t w ≤ free ∧ a.gates = .ok true ∧ (leaseTask (leaseRequest t w a) db).1 = .ok .leased
deriving Decidable

section
variable {cores : CoreColumn} {w : LeaseWorker} {t : Task} {free : Int} {a : LeaseAnswers} {db : DB} {r : LeaseRound}
  {s : Selection} {candidates : List Task} {rounds : Nat → LeaseRound}

lemma tryLeaseTask_of_leases (h : Leases cores t w free a db) :
    (tryLeaseTask cores t w free a db).1 =
        (if a.payload = .ok () then .leased (fullMachineCost cores t w) else .failed) ∧
      ∀ id, id ∈ newlyAssigned db (tryLeaseTask cores t w free a db).2 ↔ id = t.id := by
  obtain ⟨hcost, hgates, hlease⟩ := h
  have hcases := leaseTask_cases (leaseRequest t w a) db
  unfold tryLeaseTask
  generalize leaseTask (leaseRequest t w a) db = answer at *
  obtain ⟨answer, db'⟩ := answer
  cases hlease
  rcases hcases with ⟨hne, -⟩ | ⟨scope, -, hmatch, -, -, -, rfl⟩
  · exact absurd rfl hne
  simp only [hgates, if_neg (not_lt.mpr hcost)]
  cases a.payload with
  | ok => exact ⟨rfl, fun id => mem_newlyAssigned_leased hmatch⟩
  | error => exact ⟨by simp, fun id => mem_newlyAssigned_leased hmatch⟩

lemma tryLeaseTask_of_not_leases (h : ¬ Leases cores t w free a db) :
    ((tryLeaseTask cores t w free a db).1 = .skipped ∨ (tryLeaseTask cores t w free a db).1 = .failed) ∧
      (tryLeaseTask cores t w free a db).2 = db := by
  have hcases := leaseTask_cases (leaseRequest t w a) db
  unfold Leases at h
  unfold tryLeaseTask
  dsimp only
  split
  · exact ⟨.inl rfl, rfl⟩
  split
  · exact ⟨.inr rfl, rfl⟩
  · exact ⟨.inl rfl, rfl⟩
  split
  · rename_i e
    rw [e] at hcases
    rcases hcases with ⟨-, rfl⟩ | ⟨_, _, _, _, _, h, _⟩
    · exact ⟨.inr rfl, rfl⟩
    · cases h
  · rename_i e
    exact absurd ⟨not_lt.mp ‹_›, ‹_›, congrArg Prod.fst e⟩ h
  · rename_i hne e
    rw [e] at hcases
    rcases hcases with ⟨-, rfl⟩ | ⟨_, _, _, _, _, h, _⟩
    · exact ⟨.inl rfl, rfl⟩
    · cases h
      exact absurd rfl hne

def Selection.Delivered (s : Selection) : Prop :=
  ∀ id, id ∈ s.leased ↔ ∃ a ∈ s.batch, a.taskID = id

def Selection.LeasesIn (s : Selection) (cores : CoreColumn) (w : LeaseWorker) (t : Task) (r : LeaseRound) : Prop :=
  Leases cores t w s.free r.answers (r.others.foldl (fun db o => o.apply db) s.db)

lemma Selection.tryLease_of_leases (h : s.LeasesIn cores w t r) :
    (r.answers.payload = .ok () → (s.tryLease cores w t r).batch = s.batch ++ [⟨t.id, r.answers.attemptID⟩] ∧
      (s.tryLease cores w t r).failed = s.failed) ∧
    (r.answers.payload ≠ .ok () → (s.tryLease cores w t r).batch = s.batch ∧ (s.tryLease cores w t r).failed = true) ∧
    ∀ id, id ∈ (s.tryLease cores w t r).leased ↔ id ∈ s.leased ∨ id = t.id := by
  obtain ⟨hanswer, hrows⟩ := tryLeaseTask_of_leases h
  unfold Selection.tryLease
  dsimp only
  rw [hanswer]
  refine ⟨fun built => ?_, fun unbuilt => ?_, fun id => ?_⟩
  · rw [if_pos built]
    exact ⟨rfl, rfl⟩
  · rw [if_neg unbuilt]
    exact ⟨rfl, rfl⟩
  · split_ifs <;> exact mem_append.trans (or_congr_right (hrows id))

lemma Selection.tryLease_of_not_leases (h : ¬ s.LeasesIn cores w t r) :
    (s.tryLease cores w t r).batch = s.batch ∧ (s.tryLease cores w t r).leased = s.leased := by
  obtain ⟨hanswer, hdb⟩ := tryLeaseTask_of_not_leases h
  unfold Selection.tryLease
  dsimp only
  rw [hdb, newlyAssigned_self, append_nil]
  rcases hanswer with hanswer | hanswer
  all_goals
    rw [hanswer]
    exact ⟨rfl, rfl⟩

/-- In every round made from here on, the assignment of a task that is leased can be built. -/
def Builds (cores : CoreColumn) (w : LeaseWorker) : List Task → (Nat → LeaseRound) → Selection → Prop
  | [], _, _ => True
  | t :: candidates, rounds, s =>
    0 < s.free → (s.LeasesIn cores w t (rounds 0) → (rounds 0).answers.payload = .ok ()) ∧
      ((s.tryLease cores w t (rounds 0)).failed = false →
        Builds cores w candidates (fun n => rounds (n + 1)) (s.tryLease cores w t (rounds 0)))

lemma Selection.Delivered.leaseCandidates_iff (h : s.Delivered) (distinct : (candidates.map (·.id)).Nodup)
    (fresh : ∀ a ∈ s.batch, a.taskID ∉ candidates.map (·.id)) :
    (leaseCandidates cores w candidates rounds s).Delivered ↔ Builds cores w candidates rounds s := by
  induction candidates generalizing rounds s with
  | nil => exact iff_of_true h trivial
  | cons t candidates ih =>
    obtain ⟨hnot, distinct⟩ := nodup_cons.mp distinct
    rw [leaseCandidates, Builds]
    split
    · exact iff_of_true h fun hfree => by omega
    rw [forall_prop_of_true (by omega : 0 < s.free)]
    dsimp only
    by_cases hl : s.LeasesIn cores w t (rounds 0)
    · obtain ⟨hbuilt, hunbuilt, hleased⟩ := Selection.tryLease_of_leases hl
      by_cases built : (rounds 0).answers.payload = .ok ()
      · obtain ⟨hbatch, -⟩ := hbuilt built
        have hstep : (s.tryLease cores w t (rounds 0)).Delivered := fun id => by
          rw [hleased, hbatch, h id]
          simp [or_and_right, exists_or, eq_comm]
        simp only [built, implies_true, true_and]
        split
        · rename_i hfailed
          exact iff_of_true hstep fun hok => by simp [hok] at hfailed
        rename_i hfailed
        rw [forall_prop_of_true (by simpa using hfailed)]
        refine ih hstep distinct fun a ha => ?_
        rw [hbatch, mem_append, mem_singleton] at ha
        rcases ha with ha | rfl
        · exact fun hmem => fresh a ha (mem_cons_of_mem _ hmem)
        · exact hnot
      · -- the task is leased, and the reply ends without it
        obtain ⟨hbatch, hfailed⟩ := hunbuilt built
        rw [if_pos hfailed]
        refine iff_of_false (fun hd => ?_) fun hb => built (hb.1 hl)
        obtain ⟨a, ha, hid⟩ := (hd t.id).mp ((hleased t.id).mpr (.inr rfl))
        exact fresh a (hbatch ▸ ha) (hid ▸ mem_cons_self)
    · obtain ⟨hbatch, hleased⟩ := Selection.tryLease_of_not_leases hl
      have hstep : (s.tryLease cores w t (rounds 0)).Delivered := fun id => by rw [hleased, hbatch, h id]
      simp only [hl, false_implies, true_and]
      split
      · rename_i hfailed
        exact iff_of_true hstep fun hok => by simp [hok] at hfailed
      rename_i hfailed
      rw [forall_prop_of_true (by simpa using hfailed)]
      exact ih hstep distinct fun a ha hmem => fresh a (hbatch ▸ ha) (mem_cons_of_mem _ hmem)

lemma builds_of_payload (built : ∀ n, (rounds n).answers.payload = .ok ()) : Builds cores w candidates rounds s := by
  induction candidates generalizing rounds s with
  | nil => trivial
  | cons t candidates ih => exact fun _ => ⟨fun _ => built 0, fun _ => ih fun n => built (n + 1)⟩

end

/-- The tasks leased by one request are those of its reply, wherever an error ends it, exactly if
the assignment of every task it leases can be built. -/
theorem leased_iff_delivered (cores : CoreColumn) (w : LeaseWorker) (reads : LeaseReads)
    (distinct : ∀ candidates, reads.listed = .ok candidates → (candidates.map (·.id)).Nodup)
    (rounds : Nat → LeaseRound) (db : DB) :
    (∀ id, id ∈ (selectLeaseBatch cores w reads rounds db).leased ↔
      ∃ a ∈ (selectLeaseBatch cores w reads rounds db).batch, a.taskID = id) ↔
    (reads.committed = .ok () → ∀ candidates, reads.listed = .ok candidates → Builds cores w candidates rounds
      ⟨w.full - committedCores cores w.id w.full db, [], false, [],
        reads.between.foldl (fun db o => o.apply db) db⟩) := by
  have hnone : ∀ free failed db, Selection.Delivered ⟨free, [], failed, [], db⟩ := fun _ _ _ _ => by simp
  change Selection.Delivered _ ↔ _
  unfold selectLeaseBatch
  dsimp only
  cases reads.committed with
  | error => exact iff_of_true (hnone _ _ _) nofun
  | ok =>
    cases hlisted : reads.listed with
    | error =>
      refine iff_of_true ?_ fun _ _ h => nomatch h
      dsimp only
      split
      · exact hnone _ _ _
      · exact hnone _ _ _
    | ok candidates =>
      have hiff : (leaseCandidates cores w candidates rounds ⟨w.full - committedCores cores w.id w.full db, [],
          false, [], reads.between.foldl (fun db o => o.apply db) db⟩).Delivered ↔ _ :=
        (hnone _ _ _).leaseCandidates_iff (distinct candidates hlisted) nofun
      simp only [forall_const, Except.ok.injEq, forall_eq', ← hiff]
      split
      · -- no round is made without a free core
        refine iff_of_true (hnone _ _ _) (hiff.mpr ?_)
        cases candidates with
        | nil => trivial
        | cons t candidates => exact fun hfree => absurd hfree (not_lt.mpr ‹_›)
      · rfl

/-! A worker of three cores leases a task of two and one of one. -/

def smallFarm : DB := smallSetup.foldl (fun db o => o.apply db) DB.empty
def smallReads : LeaseReads := ⟨.ok (), [], .ok (smallFarm.tasks.filter (·.status = .ready))⟩
def smallRounds (n : Nat) : LeaseRound := ⟨[], smallAnswers (1000 + n)⟩

lemma smallReads_distinct (candidates : List Task) (h : smallReads.listed = .ok candidates) :
    (candidates.map (·.id)).Nodup := by
  cases h
  decide +kernel

theorem leased_iff_delivered_twoTasks :
    (selectLeaseBatch (requiredCores twoCoreRules smallAmounts) ⟨5, 3⟩ smallReads smallRounds
        smallFarm).leased = [100, 101] ∧
      ∀ id, id ∈ (selectLeaseBatch (requiredCores twoCoreRules smallAmounts) ⟨5, 3⟩ smallReads
          smallRounds smallFarm).leased ↔
        ∃ a ∈ (selectLeaseBatch (requiredCores twoCoreRules smallAmounts) ⟨5, 3⟩ smallReads
          smallRounds smallFarm).batch, a.taskID = id :=
  ⟨by decide +kernel, (leased_iff_delivered _ _ smallReads smallReads_distinct _ _).mpr fun _ _ _ =>
    builds_of_payload fun _ => rfl⟩

def unbuiltRounds (n : Nat) : LeaseRound :=
  ⟨[], { smallAnswers (1000 + n) with payload := if n = 1 then .error .notFound else .ok () }⟩

/-- The second task is assigned in the store and missing from the reply. -/
theorem leased_not_delivered :
    let s := selectLeaseBatch (requiredCores twoCoreRules smallAmounts) ⟨5, 3⟩ smallReads
      unbuiltRounds smallFarm
    s.leased = [100, 101] ∧ s.batch = [⟨100, 1000⟩] ∧ s.failed = true ∧
      (s.db.task? 101).map (fun t => (t.status, t.assignedWorkerID)) = some (.assigned, some 5) := by
  decide +kernel

end Sqi

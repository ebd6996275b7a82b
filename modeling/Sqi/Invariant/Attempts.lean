import Mathlib.Data.List.MinMax
import Mathlib.Order.Nat
import Sqi.Invariant.Closing

/-! Attempts and claims over every interleaving of the transactions. -/

namespace Sqi
open List Table Transition

def attemptNumbers (db : DB) (taskID : ID) : List Nat :=
  (db.attempts.filter (·.taskID = taskID)).map (·.attemptNumber)

structure AttemptInv (db : DB) : Prop where
  claim_running : ∀ c ∈ db.claims, c.releasedAt = none →
    ∃ a ∈ db.attempts, a.id = c.taskAttemptID ∧ a.status = .running
  running_latest : ∀ a ∈ db.attempts, a.status = .running → a.attemptNumber = maxAttemptNumber db a.taskID
  running_flight : ∀ a ∈ db.attempts, a.status = .running →
    ∃ t ∈ db.tasks, t.id = a.taskID ∧ t.status.InFlight
  numbers : ∀ taskID, attemptNumbers db taskID = List.range' 1 (attemptNumbers db taskID).length

lemma foldr_max_range' (n k : Nat) : (List.range' 1 n).foldr max k = max n k := by
  induction n generalizing k with
  | zero => simp
  | succ n ih =>
    rw [range'_concat, foldr_append, ih]
    simp only [foldr_cons, foldr_nil]
    omega

section
variable {db db' : DB}

lemma attemptNumbers_congr (h : db'.attempts.map TaskAttempt.key = db.attempts.map TaskAttempt.key)
    (taskID : ID) : attemptNumbers db' taskID = attemptNumbers db taskID := by
  have ofKeys : ∀ d : DB, attemptNumbers d taskID =
      ((d.attempts.map TaskAttempt.key).filter (·.2.1 = taskID)).map (·.2.2.2) := fun d => by
    simp only [attemptNumbers, filter_map, map_map]
    rfl
  rw [ofKeys, ofKeys, h]

lemma maxAttemptNumber_congr
    (h : db'.attempts.map TaskAttempt.key = db.attempts.map TaskAttempt.key) (taskID : ID) :
    maxAttemptNumber db' taskID = maxAttemptNumber db taskID :=
  congrArg (List.foldr max 0) (attemptNumbers_congr h taskID)
lemma le_maxAttemptNumber {a : TaskAttempt} (ha : a ∈ db.attempts) :
    a.attemptNumber ≤ maxAttemptNumber db a.taskID := by
  have hmem : a.attemptNumber ∈ attemptNumbers db a.taskID := mem_map_of_mem (mem_filter.mpr ⟨ha, by simp⟩)
  exact le_max_of_le hmem le_rfl

namespace AttemptInv

section
variable (inv : AttemptInv db)
include inv

lemma maxAttemptNumber_eq (taskID : ID) :
    maxAttemptNumber db taskID = (attemptNumbers db taskID).length := by
  have hmax : maxAttemptNumber db taskID = (attemptNumbers db taskID).foldr max 0 := rfl
  rw [hmax, inv.numbers taskID, foldr_max_range']
  simp

lemma eq_of_number {a b : TaskAttempt} (ha : a ∈ db.attempts)
    (hb : b ∈ db.attempts) (ht : a.taskID = b.taskID) (hn : a.attemptNumber = b.attemptNumber) :
    a = b := by
  have hnodup : (attemptNumbers db b.taskID).Nodup := by
    rw [inv.numbers]
    exact nodup_range'
  exact inj_on_of_nodup_map hnodup (mem_filter.mpr ⟨ha, by simpa using ht⟩)
    (mem_filter.mpr ⟨hb, by simp⟩) hn

lemma noRunningAttempt_of_latest {attemptID taskID : ID}
    (hl : isLatestAttempt db attemptID taskID)
    (hc : ∀ a ∈ db.attempts, a.id = attemptID → a.status ≠ .running) :
    noRunningAttempt db taskID := by
  obtain ⟨a, ha, hid, ht, hn⟩ := hl
  intro b hb hbt hr
  have hbn := inv.running_latest b hb hr
  have heq : b = a := inv.eq_of_number hb ha (hbt.trans ht.symm) (by rw [hbn, hbt, hn])
  exact hc a ha hid (heq ▸ hr)

lemma closes (h : Closes db db') : AttemptInv db' := by
  have keys : db'.attempts.map TaskAttempt.key = db.attempts.map TaskAttempt.key :=
    map_eq_of_forall₂ _ (fun _ _ k => k.1) h.attempts
  constructor
  case claim_running =>
    intro c' hc' hnone
    obtain ⟨c, hc, _, hca, hrel⟩ := of_mem_right h.claims hc'
    obtain ⟨a, ha, hid, hr⟩ := inv.claim_running c hc (hrel hnone)
    obtain ⟨a', ha', hk, hs⟩ := of_mem_left h.attempts ha
    have hid' : a'.id = a.id := congrArg Prod.fst hk
    rcases hs with hs | ⟨_, _, released⟩
    · exact ⟨a', ha', by rw [hid', hid, hca], by rw [hs, hr]⟩
    · exact absurd hnone (released c' hc' (by rw [hca, hid]))
  case running_latest =>
    intro a' ha' hr'
    obtain ⟨a, ha, hk, hr⟩ := h.running_before ha' hr'
    simp only [TaskAttempt.key, Prod.mk.injEq] at hk
    rw [hk.2.1, hk.2.2.2, maxAttemptNumber_congr keys]
    exact inv.running_latest a ha hr
  case running_flight =>
    intro a' ha' hr'
    obtain ⟨a, ha, hk, hr⟩ := h.running_before ha' hr'
    simp only [TaskAttempt.key, Prod.mk.injEq] at hk
    obtain ⟨t, ht, hid, hf⟩ := inv.running_flight a ha hr
    rcases h.flight t ht hf with ⟨t', ht', e, hf'⟩ | hn
    · exact ⟨t', ht', by rw [e, hid, hk.2.1], hf'⟩
    · exact absurd hr' (hn a' ha' (by rw [hk.2.1, hid]))
  case numbers =>
    intro taskID
    rw [attemptNumbers_congr keys]
    exact inv.numbers taskID

end

lemma empty : AttemptInv DB.empty := by constructor <;> simp [DB.empty, attemptNumbers]

end AttemptInv
end

section
variable {db : DB}

lemma leasedState_attemptNumbers (scope : LeaseScope) (req : LeaseRequest) (taskID : ID) :
    attemptNumbers (leasedState scope req db) taskID = attemptNumbers db taskID ++
      if req.taskID = taskID then [maxAttemptNumber db req.taskID + 1] else [] := by
  by_cases h : req.taskID = taskID <;> simp [attemptNumbers, leasedState, leaseAttempt, h]

lemma AttemptInv.leased_numbers (inv : AttemptInv db) (scope : LeaseScope) (req : LeaseRequest)
    (taskID : ID) : attemptNumbers (Sqi.leasedState scope req db) taskID =
      List.range' 1 (maxAttemptNumber db taskID + if req.taskID = taskID then 1 else 0) := by
  rw [leasedState_attemptNumbers, inv.numbers taskID, ← inv.maxAttemptNumber_eq]
  split
  · rename_i e
    rw [e, range'_1_concat, Nat.add_comm 1]
  · rw [append_nil, Nat.add_zero]

lemma AttemptInv.noRunningAttempt_of_ready (inv : AttemptInv db) (wf : WF db) {t : Task}
    (ht : t ∈ db.tasks) (hs : t.status = .ready) : noRunningAttempt db t.id := by
  intro a ha e hr
  obtain ⟨t', ht', hid, hf⟩ := inv.running_flight a ha hr
  have : t' = t := wf.tasks_keyed.eq_of_mem ht' ht (hid.trans e)
  subst this
  simp [TaskStatus.InFlight, hs] at hf

lemma AttemptInv.leasedState (inv : AttemptInv db) (wf : WF db) {scope : LeaseScope}
    {req : LeaseRequest} (hmatch : ∃ t ∈ db.tasks, leaseMatches db scope req t) :
    AttemptInv (Sqi.leasedState scope req db) := by
  obtain ⟨t0, ht0, hm0⟩ := hmatch
  have hnone : noRunningAttempt db req.taskID := hm0.1 ▸ inv.noRunningAttempt_of_ready wf ht0 hm0.2.1
  have hnumbers := inv.leased_numbers scope req
  have hmax : ∀ taskID, maxAttemptNumber (Sqi.leasedState scope req db) taskID =
      maxAttemptNumber db taskID + if req.taskID = taskID then 1 else 0 := by
    intro taskID
    have hfold := congrArg (List.foldr max 0) (hnumbers taskID)
    rw [foldr_max_range', Nat.max_zero] at hfold
    exact hfold
  constructor
  case claim_running =>
    intro c hc hrel
    rcases mem_append.mp hc with hc | hc
    · obtain ⟨a, ha, e, hr⟩ := inv.claim_running c hc hrel
      exact ⟨a, mem_append_left _ ha, e, hr⟩
    · obtain ⟨_, _, rfl⟩ := mem_map.mp hc
      exact ⟨_, mem_append_right _ (mem_singleton_self _), rfl, rfl⟩
  case running_latest =>
    intro a ha hr
    rw [hmax]
    rcases mem_append.mp ha with ha | ha
    · rw [if_neg fun e => hnone a ha e.symm hr, Nat.add_zero]
      exact inv.running_latest a ha hr
    · rw [mem_singleton.mp ha]
      simp [leaseAttempt]
  case running_flight =>
    intro a ha hr
    rcases mem_append.mp ha with ha | ha
    · obtain ⟨t, ht, e, hf⟩ := inv.running_flight a ha hr
      refine ⟨_, mem_update.mpr ⟨t, ht, rfl⟩, ?_⟩
      split
      · exact ⟨e, .inl rfl⟩
      · exact ⟨e, hf⟩
    · refine ⟨_, mem_update.mpr ⟨t0, ht0, rfl⟩, ?_⟩
      rw [if_pos hm0, mem_singleton.mp ha]
      exact ⟨hm0.1, .inl rfl⟩
  case numbers =>
    intro taskID
    rw [hnumbers]
    simp

end

section
variable {db : DB} {c : AttemptCompletion}

lemma Outcome.attemptStatus_ne_running (o : Outcome) : o.attemptStatus ≠ .running := by
  cases o <;> simp [attemptStatus]
lemma closeRelease_closed (hc : c.attemptStatus ≠ .running)
    (now : Time) : ∀ a ∈ (closeAttemptAndRelease c now db).attempts,
    a.id = c.attemptID → a.status ≠ .running :=
  forall_update (fun _ _ _ _ => hc) fun _ _ hq e hr => hq ⟨e, hr⟩

lemma complete_closes (hc : c.attemptStatus ≠ .running)
    (now : Time) (inv : AttemptInv db) : Closes db (completeTaskAttempt c now db).2 := by
  have closed : Closes db (closeAttemptAndRelease c now db) := .of_close (fun _ h => h.2) (fun _ => rfl)
    (fun _ => hc) fun _ _ hq _ _ e hnone => ⟨e.trans hq.1, hnone⟩
  refine complete_of (.refl db) closed (fun t ht _ hl => ?_) fun d h => ?_
  · have hnone := (inv.closes closed).noRunningAttempt_of_latest hl (closeRelease_closed hc now)
    rw [← (DB.task?_some ht).2] at hnone
    exact closed.trans (.updateTasks (fun _ => rfl) fun _ _ h _ => .inr (h.1 ▸ hnone))
  · exact h.trans (.updateTasks (fun _ => rfl) fun _ _ _ hf => .inl hf)

end

/-! ## Every run -/

def AttemptClosed (attemptID : ID) (db : DB) : Prop :=
  (∃ a ∈ db.attempts, a.id = attemptID) ∧ ∀ a ∈ db.attempts, a.id = attemptID → a.status ≠ .running

variable {db : DB} {attemptID taskID : ID} {h : History} {op : Op}

lemma Closes.attemptClosed {db' : DB} (h : Closes db db')
    (hc : AttemptClosed attemptID db) : AttemptClosed attemptID db' := by
  obtain ⟨⟨a, ha, e⟩, hall⟩ := hc
  obtain ⟨a', ha', hk, _⟩ := of_mem_left h.attempts ha
  refine ⟨⟨a', ha', (congrArg Prod.fst hk).trans e⟩, fun b hb eb hr => ?_⟩
  obtain ⟨b0, hb0, hk0, hr0⟩ := h.running_before hb hr
  exact hall b0 hb0 ((congrArg Prod.fst hk0).symm.trans eb) hr0

lemma leaseTask_attemptClosed (req : LeaseRequest)
    (hc : AttemptClosed attemptID db) : AttemptClosed attemptID (leaseTask req db).2 := by
  refine leaseTask_of hc fun scope _ hfresh => ?_
  obtain ⟨⟨a, ha, e⟩, hall⟩ := hc
  refine ⟨⟨a, mem_append_left _ ha, e⟩, fun b hb eb => ?_⟩
  rcases mem_append.mp hb with hb | hb
  · exact hall b hb eb
  · -- the lease inserts under a key no attempt has
    rw [mem_singleton.mp hb] at eb
    exact absurd (e.trans eb.symm) (hfresh a ha)

lemma Op.closes (hl : ∀ req, op ≠ .leaseTask req) (inv : AttemptInv db) (he : op.enabled h db)
    (hrec : ∀ attemptID taskID, FailureRecorded h attemptID taskID → AttemptClosed attemptID db) :
    Closes db (op.apply db) := by
  by_cases hj : op.OnJobRow
  · exact (Op.jobRows hj db).closes
  by_cases hr : op.IsReport
  · exact (Closes.reported db).apply op hr (.refl db)
  by_cases hw : op.WorkerSide
  swap
  · exact Op.closes_onSteps hw hj db
  cases op with
  | saveFarm | saveQueue | saveUsagePool => exact .frame rfl rfl fun _ h => h
  | leaseTask req => exact absurd rfl (hl req)
  | completeTaskAttempt r now => exact complete_closes r.outcome.attemptStatus_ne_running now inv
  | recordTaskFailure => exact recordFailure_closes ..
  | requeueTaskForRetry taskID attemptID retryAfter =>
    exact .updateTasks (fun _ => rfl) fun _ _ h _ =>
      .inr (h.1 ▸ inv.noRunningAttempt_of_latest h.2.2 (hrec attemptID taskID he).2)
  | cancelTaskExecution => exact cancelTask_closes ..
  | updateJob =>
    simp only [Op.apply, Sqi.updateJob]
    split
    · exact .updateJobs
    · rfl
  | _ => first | exact hw.elim | exact absurd trivial hr

lemma Op.attempt_stays (op : Op) (h : ∃ a ∈ db.attempts, a.id = attemptID ∧ a.taskID = taskID) :
    ∃ a ∈ (op.apply db).attempts, a.id = attemptID ∧ a.taskID = taskID := by
  obtain ⟨a, ha, e1, e2⟩ := h
  by_cases hi : op.Inserts
  swap
  · obtain ⟨a', ha', hk⟩ := (op.sameKeys hi db).attempt ha
    exact ⟨a', ha', hk.1.trans e1, hk.2.1.trans e2⟩
  refine ⟨a, ?_, e1, e2⟩
  cases op with
  | leaseTask => exact leaseTask_of (R := fun d => a ∈ d.attempts) ha fun _ _ _ => mem_append_left _ ha
  | submit => exact submission_of (R := fun d => a ∈ d.attempts) ha fun _ _ => ha
  | _ => exact hi.elim

lemma AttemptRead.now (run : StoreRun h db) (hr : AttemptRead h db attemptID taskID) :
    ∃ a ∈ db.attempts, a.id = attemptID ∧ a.taskID = taskID := by
  obtain ⟨σ, hv, ha⟩ := hr
  exact run.stable (Q := fun d => ∃ a ∈ d.attempts, a.id = attemptID ∧ a.taskID = taskID)
    (fun _ _ op _ _ => Op.attempt_stays op) hv ha

lemma recordFailure_closed {exitCode : Option Int}
    {sessionID message : String} {at_ now : Time} {r : FailureRecord}
    (h : (recordTaskFailure attemptID taskID exitCode sessionID message at_ now db).1 = .ok r) :
    ∀ a ∈ (recordTaskFailure attemptID taskID exitCode sessionID message at_ now db).2.attempts,
      a.id = attemptID → a.status ≠ .running := by
  have closed : ∀ a ∈ (sqlCloseAttemptAsFailed attemptID exitCode sessionID message at_ db).attempts,
      a.id = attemptID → a.status ≠ .running :=
    forall_update (fun _ _ _ _ => by simp) fun _ _ hq e hr => hq ⟨e, hr⟩
  unfold recordTaskFailure at h ⊢
  split at h
  · cases h
  split at h
  · cases h
  · dsimp only
    split <;> exact closed

lemma Op.attemptClosed (inv : AttemptInv db) (he : op.enabled h db)
    (hrec : ∀ attemptID taskID, FailureRecorded h attemptID taskID → AttemptClosed attemptID db)
    (hc : AttemptClosed attemptID db) : AttemptClosed attemptID (op.apply db) := by
  by_cases hl : ∃ req, op = .leaseTask req
  · obtain ⟨req, rfl⟩ := hl
    exact leaseTask_attemptClosed req hc
  · exact (Op.closes (fun req e => hl ⟨req, e⟩) inv he hrec).attemptClosed hc

lemma attempt_run (run : StoreRun h db) :
    AttemptInv db ∧ ∀ attemptID taskID, FailureRecorded h attemptID taskID → AttemptClosed attemptID db := by
  refine run.invariant (P := fun h db => AttemptInv db ∧ ∀ attemptID taskID,
    FailureRecorded h attemptID taskID → AttemptClosed attemptID db) ⟨.empty, ?_⟩ ?_
  · rintro _ _ ⟨_, _, _, _, _, _, _, hmem, _⟩
    cases hmem
  intro h db op run ⟨inv, hrec⟩ he
  constructor
  · by_cases hl : ∃ req, op = .leaseTask req
    · obtain ⟨req, rfl⟩ := hl
      exact leaseTask_of inv fun _ hmatch _ => inv.leasedState (wf_run run) hmatch
    · exact inv.closes (Op.closes (fun req e => hl ⟨req, e⟩) inv he hrec)
  · rintro attemptID taskID ⟨σ, exitCode, sessionID, message, at_, now, r, hmem, hok⟩
    rcases mem_cons.mp hmem with e | hmem
    · obtain ⟨rfl, rfl⟩ := Prod.mk.inj e
      -- the report was read as one of an existing attempt
      have hexists : ∃ a ∈ σ.attempts, a.id = attemptID ∧ a.taskID = taskID := AttemptRead.now run he
      obtain ⟨a, ha, e1, _⟩ := Op.attempt_stays (.recordTaskFailure attemptID taskID exitCode
        sessionID message at_ now) hexists
      exact ⟨⟨a, ha, e1⟩, recordFailure_closed hok⟩
    · exact Op.attemptClosed inv he hrec (hrec attemptID taskID ⟨σ, _, _, _, _, _, r, hmem, hok⟩)

lemma attemptInv_run (run : StoreRun h db) : AttemptInv db := (attempt_run run).1

structure AttemptsSafe (db : DB) : Prop where
  unreleased_claim_running : ∀ c ∈ db.claims, c.releasedAt = none →
    ∃ a ∈ db.attempts, a.id = c.taskAttemptID ∧ a.status = .running
  running_highest : ∀ a ∈ db.attempts, a.status = .running →
    ∀ b ∈ db.attempts, b.taskID = a.taskID → b.attemptNumber ≤ a.attemptNumber
  running_in_flight : ∀ a ∈ db.attempts, a.status = .running →
    ∃ t ∈ db.tasks, t.id = a.taskID ∧ (t.status = .assigned ∨ t.status = .running)
  one_running : ∀ a ∈ db.attempts, ∀ b ∈ db.attempts, a.taskID = b.taskID →
    a.status = .running → b.status = .running → a = b
  numbered_from_one : ∀ t ∈ db.tasks, ∃ n, attemptNumbers db t.id = List.range' 1 n

/-- Over every interleaving of the transactions, from an empty store. -/
theorem attempts_safe {h : History} {db : DB} (run : StoreRun h db) : AttemptsSafe db := by
  have inv := attemptInv_run run
  constructor
  case unreleased_claim_running => exact inv.claim_running
  case running_highest =>
    intro a ha hr b hb e
    rw [inv.running_latest a ha hr, ← e]
    exact le_maxAttemptNumber hb
  case running_in_flight => exact inv.running_flight
  case one_running =>
    intro a ha b hb e hra hrb
    exact inv.eq_of_number ha hb e
      (by rw [inv.running_latest a ha hra, inv.running_latest b hb hrb, e])
  case numbered_from_one => exact fun t _ => ⟨_, inv.numbers t.id⟩

def releasedTwice : List Op :=
  smallSetup ++ [smallLease 100 1000, .startTaskAttempt 1000 100 "s", .reclaimTaskAttempt 1000 100 60,
    smallLease 100 1001]

theorem attempts_safe_releasedTwice :
    let db := (storeSystem.exec releasedTwice [] DB.empty).2
    attemptNumbers db 100 = [1, 2] ∧ db.claims.map (·.releasedAt) = [some 60, none] ∧ AttemptsSafe db := by
  refine ⟨by decide, by decide, attempts_safe (Run.start.exec ?_)⟩
  exact smallSetup_permits _ ⟨trivial, trivial, trivial, trivial, trivial⟩

end Sqi

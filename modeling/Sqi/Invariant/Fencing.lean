import Sqi.Concurrency.Fence

/-! Every committed write that ran under a leader epoch carried the current one. -/

namespace Sqi
open Function List RowLock Transition

/-- What a transaction knows at each stage of its work, by the row locks it holds. -/
def FenceTx.Knows (s : FenceState) (id : ID) (tx : FenceTx) : Prop :=
  match tx.work with
  | .write => tx.checked → ∀ e, fenceEpoch tx.ctx = some e →
      e = s.epoch ∧ Holds s.locks id .serverEpoch .share
  | .acquire .. => tx.ctx.unfenced
  | .taken row => tx.ctx.unfenced ∧ row.epoch = s.lease.epoch + 1 ∧
      Holds s.locks id .serverLease .exclusive
  | .published row => tx.ctx.unfenced ∧ row.epoch = s.lease.epoch + 1 ∧
      Holds s.locks id .serverLease .exclusive ∧ Holds s.locks id .serverEpoch .exclusive

structure FenceInv (s : FenceState) : Prop where
  locks_sound : Sound s.locks
  epochs_agree : s.lease.epoch = s.epoch
  txs_know : ∀ id tx, s.txs id = some tx → tx.Knows s id

variable {s s' : FenceState} {id : ID} {tx : FenceTx} {row : ServerLease} {op : FenceOp}

lemma FenceTx.Knows.mono (k : tx.Knows s id) (he : s'.epoch = s.epoch) (hl : s'.lease.epoch = s.lease.epoch)
    (hlocks : ∀ row mode, Holds s.locks id row mode → Holds s'.locks id row mode) :
    tx.Knows s' id := by
  unfold FenceTx.Knows at k ⊢
  cases hw : tx.work with
  | write =>
    simp only [hw] at k ⊢
    intro hc e hf
    obtain ⟨h1, h2⟩ := k hc e hf
    exact ⟨h1.trans he.symm, hlocks _ _ h2⟩
  | acquire => simpa only [hw] using k
  | taken row =>
    simp only [hw] at k ⊢
    exact ⟨k.1, by rw [hl]; exact k.2.1, hlocks _ _ k.2.2⟩
  | published row =>
    simp only [hw] at k ⊢
    exact ⟨k.1, by rw [hl]; exact k.2.1, hlocks _ _ k.2.2.1, hlocks _ _ k.2.2.2⟩

lemma fenceInv_init : FenceInv FenceState.init := ⟨.nil, rfl, by simp [FenceState.init]⟩

lemma FenceInv.lock (inv : FenceInv s) {row : FenceRow} {mode : Mode}
    (g : Grants s.locks id row mode) : FenceInv (s.lock id row mode) where
  locks_sound := inv.locks_sound.acquire g
  epochs_agree := inv.epochs_agree
  txs_know i tx h := (inv.txs_know i tx h).mono rfl rfl fun _ _ => Holds.acquire

lemma FenceInv.put (inv : FenceInv s) (k : tx.Knows s id) : FenceInv (s.put id tx) where
  locks_sound := inv.locks_sound
  epochs_agree := inv.epochs_agree
  txs_know i tx' h := by
    by_cases e : i = id
    · subst e
      simp only [FenceState.put, update_self, Option.some.injEq] at h
      subst h
      exact k.mono rfl rfl fun _ _ h => h
    · simp only [FenceState.put, update_of_ne e] at h
      exact (inv.txs_know i tx' h).mono rfl rfl fun _ _ h => h

lemma FenceState.close_txs {i : ID} (h : (s.close id).txs i = some tx) : i ≠ id ∧ s.txs i = some tx := by
  by_cases e : i = id
  · subst e
    simp [FenceState.close] at h
  · simp only [FenceState.close, update_of_ne e] at h
    exact ⟨e, h⟩

lemma FenceInv.close (inv : FenceInv s) (id : ID) : FenceInv (s.close id) where
  locks_sound := inv.locks_sound.release id
  epochs_agree := inv.epochs_agree
  txs_know i tx h := by
    obtain ⟨hne, h⟩ := FenceState.close_txs h
    exact (inv.txs_know i tx h).mono rfl rfl fun _ _ h => h.release hne

lemma FenceInv.setLease (inv : FenceInv s) {l : ServerLease} (hl : l.epoch = s.lease.epoch) :
    FenceInv { s with lease := l } where
  locks_sound := inv.locks_sound
  epochs_agree := hl.trans inv.epochs_agree
  txs_know i tx h := (inv.txs_know i tx h).mono rfl hl fun _ _ h => h

lemma acquireLease_inv (inv : FenceInv s) {now : Int} (h : (FenceOp.acquireLease id now).enabled s) :
    FenceInv (acquireLease id now s) := by
  obtain ⟨ctx, holder, ttlUS, htx, hg⟩ := h
  have hun : ctx.unfenced := inv.txs_know id _ htx
  simp only [acquireLease, htx, sqlAcquireLease]
  by_cases hfree : s.lease.Free now
  · simp only [if_pos hfree]
    refine (inv.lock (hg hfree)).put ⟨hun, rfl, holds_acquire⟩
  · simp only [if_neg hfree]
    exact inv.close id

lemma setFenceEpoch_inv (inv : FenceInv s) (h : (FenceOp.setFenceEpoch id).enabled s) :
    FenceInv (setFenceEpoch id s) := by
  obtain ⟨ctx, row, htx, hg⟩ := h
  obtain ⟨hun, hrow, hlease⟩ : ctx.unfenced ∧ row.epoch = s.lease.epoch + 1 ∧
    Holds s.locks id .serverLease .exclusive := inv.txs_know id _ htx
  simp only [setFenceEpoch, htx]
  exact (inv.lock hg).put ⟨hun, hrow, hlease.acquire, holds_acquire⟩

lemma checkFence_inv (inv : FenceInv s) (h : (FenceOp.checkFence id).enabled s) :
    FenceInv (checkFence id s) := by
  obtain ⟨tx, htx, hdone, _, hg⟩ := h
  have hk := inv.txs_know id tx htx
  simp only [checkFence, htx]
  cases hf : fenceEpoch tx.ctx with
  | none =>
    refine inv.put ?_
    unfold FenceTx.Knows at hk ⊢
    cases hw : tx.work with
    | write =>
      intro _ e he
      simp [hf] at he
    | _ => simpa only [hw] using hk
  | some e =>
    by_cases heq : s.epoch = e
    · subst heq
      simp only [if_true]
      refine (inv.lock (hg hf)).put ?_
      have hfenced : tx.ctx.unfenced = false := by
        by_contra hun
        simp [fenceEpoch, hun] at hf
      unfold FenceTx.Knows at hk ⊢
      cases hw : tx.work with
      | write =>
        intro _ e he
        rw [hf] at he
        exact ⟨(Option.some.inj he).symm, holds_acquire⟩
      | acquire | taken => simp [hw, FenceWork.Done] at hdone
      | published row => simp [hw, hfenced] at hk
    · simp only [if_neg heq]
      exact inv.close id

lemma publish_inv (inv : FenceInv s) {ctx : FenceContext} {checked : Bool}
    (htx : s.txs id = some ⟨ctx, .published row, checked⟩) :
    FenceInv { s.close id with lease := row, epoch := row.epoch } where
  locks_sound := inv.locks_sound.release id
  epochs_agree := rfl
  txs_know i tx h := by
    obtain ⟨hne, h⟩ := FenceState.close_txs h
    obtain ⟨_, _, hlease, hepoch⟩ : ctx.unfenced ∧ row.epoch = s.lease.epoch + 1 ∧
      Holds s.locks id .serverLease .exclusive ∧ Holds s.locks id .serverEpoch .exclusive :=
      inv.txs_know id _ htx
    have hk := inv.txs_know i tx h
    unfold FenceTx.Knows at hk ⊢
    cases hw : tx.work with
    | write =>
      simp only [hw] at hk
      intro hc e hf
      exact absurd (inv.locks_sound.exclusive hepoch (hk hc e hf).2) hne
    | acquire => simpa only [hw] using hk
    | taken =>
      simp only [hw] at hk
      exact absurd (inv.locks_sound.exclusive hlease hk.2.2) hne
    | published =>
      simp only [hw] at hk
      exact absurd (inv.locks_sound.exclusive hlease hk.2.2.1) hne

lemma commitTx_inv (inv : FenceInv s) (id : ID) : FenceInv (commitTx id s) := by
  unfold commitTx
  split
  · rename_i htx
    exact publish_inv inv htx
  · exact inv.close id
  · exact inv

lemma FenceOp.inv (inv : FenceInv s) (h : op.enabled s) : FenceInv (op.apply s) := by
  cases op with
  | beginTx id leaderEpoch => exact inv.put (by simp [FenceTx.Knows])
  | acquireLeadership id leaderEpoch holder ttl =>
    simp only [FenceOp.apply]
    split
    · exact inv.put (by simp [FenceTx.Knows, Sqi.unfenced])
    · exact inv
  | acquireLease id now => exact acquireLease_inv inv h
  | setFenceEpoch id => exact setFenceEpoch_inv inv h
  | checkFence id => exact checkFence_inv inv h
  | commit id => exact commitTx_inv inv id
  | rollback id => exact inv.close id
  | renewLeadership holder epoch ttl now =>
    simp only [FenceOp.apply]
    split
    · exact inv.setLease (by unfold sqlRenewLease; split <;> rfl)
    · exact inv
  | releaseLeadership holder epoch => exact inv.setLease (by unfold sqlReleaseLease; split <;> rfl)

lemma fenceInv_run {h : List (FenceState × FenceOp)} (run : FenceRun h s) : FenceInv s :=
  run.safe fenceInv_init fun _ _ _ _ inv he => FenceOp.inv inv he

lemma FenceOp.rows (op : FenceOp) (s : FenceState) :
    (∃ id ctx row checked, op = .commit id ∧ s.txs id = some ⟨ctx, .published row, checked⟩) ∨
    (op.apply s).epoch = s.epoch ∧ ((op.apply s).lease.holder = s.lease.holder ∨ (op.apply s).lease.holder = none) := by
  cases op with
  | beginTx | setFenceEpoch | rollback =>
    right
    simp only [FenceOp.apply, Sqi.setFenceEpoch]
    first | exact ⟨rfl, .inl rfl⟩ | (split <;> exact ⟨rfl, .inl rfl⟩)
  | acquireLeadership =>
    right
    simp only [FenceOp.apply]
    split <;> exact ⟨rfl, .inl rfl⟩
  | acquireLease =>
    right
    simp only [FenceOp.apply, Sqi.acquireLease]
    repeat' split
    all_goals exact ⟨rfl, .inl rfl⟩
  | checkFence =>
    right
    simp only [FenceOp.apply, Sqi.checkFence]
    repeat' split
    all_goals exact ⟨rfl, .inl rfl⟩
  | commit id =>
    simp only [FenceOp.apply, commitTx]
    split
    · rename_i ctx row checked htx
      exact .inl ⟨id, ctx, row, checked, rfl, htx⟩
    · exact .inr ⟨rfl, .inl rfl⟩
    · exact .inr ⟨rfl, .inl rfl⟩
  | renewLeadership =>
    right
    simp only [FenceOp.apply, sqlRenewLease]
    repeat' split
    all_goals exact ⟨rfl, .inl rfl⟩
  | releaseLeadership =>
    right
    refine ⟨rfl, ?_⟩
    simp only [FenceOp.apply, sqlReleaseLease]
    split
    · exact .inr rfl
    · exact .inl rfl

lemma published_epoch (inv : FenceInv s) (htx : s.txs id = some tx) (hw : tx.work = .published row) :
    row.epoch = s.epoch + 1 ∧ (FenceOp.apply (.commit id) s).epoch = row.epoch := by
  obtain ⟨ctx, work, checked⟩ := tx
  subst hw
  have hk : ctx.unfenced ∧ row.epoch = s.lease.epoch + 1 ∧ _ := inv.txs_know id _ htx
  refine ⟨by rw [hk.2.1, inv.epochs_agree], ?_⟩
  simp only [FenceOp.apply, commitTx, htx]

lemma epoch_mono (inv : FenceInv s) (op : FenceOp) : s.epoch ≤ (op.apply s).epoch := by
  rcases op.rows s with ⟨id, ctx, row, checked, rfl, htx⟩ | ⟨he, _⟩
  · obtain ⟨h1, h2⟩ := published_epoch inv htx rfl
    omega
  · omega

lemma commit_current (inv : FenceInv s) (he : (FenceOp.commit id).enabled s)
    (htx : s.txs id = some tx) {e : Nat} (hf : fenceEpoch tx.ctx = some e) : e = s.epoch := by
  obtain ⟨tx', htx', hchecked⟩ := he
  obtain rfl : tx = tx' := Option.some.inj (htx.symm.trans htx')
  have hfenced : tx.ctx.unfenced = false := by
    by_contra hun
    simp [fenceEpoch, hun] at hf
  have hk := inv.txs_know id tx htx
  unfold FenceTx.Knows at hk
  cases hw : tx.work with
  | write =>
    simp only [hw] at hk
    exact (hk hchecked e hf).1
  | _ => simp [hw, hfenced] at hk

lemma epoch_since {later earlier : List (FenceState × FenceOp)} {σ : FenceState}
    (run : FenceRun (later ++ (σ, op) :: earlier) s) :
    (op.apply σ).epoch ≤ s.epoch ∧ ∀ e ∈ later, (op.apply σ).epoch ≤ e.1.epoch := by
  refine run.since (P := fun s => (op.apply σ).epoch ≤ s.epoch) ?_ ?_
  · intro s0 run0
    cases run0 with
    | step => exact Nat.le_refl _
  · intro h1 s1 op' _ run1 _ hle
    exact Nat.le_trans hle (epoch_mono (fenceInv_run run1) op')

structure WriteFencing (h : List (FenceState × FenceOp)) (s : FenceState) : Prop where
  /-- What commits under an epoch carries the one both rows hold. -/
  current : ∀ σ id tx e, (σ, .commit id) ∈ h → σ.txs id = some tx → fenceEpoch tx.ctx = some e →
    σ.epoch = e ∧ σ.lease.epoch = e
  /-- The epoch never goes back. -/
  monotone : ∀ later σ op earlier, h = later ++ (σ, op) :: earlier →
    σ.epoch ≤ s.epoch ∧ ∀ e ∈ later, σ.epoch ≤ e.1.epoch
  /-- Whoever becomes the holder does so at a higher epoch. -/
  takeover : ∀ σ op holder, (σ, op) ∈ h → (op.apply σ).lease.holder = some holder →
    σ.lease.holder ≠ some holder →
    σ.epoch < (op.apply σ).epoch ∧ σ.lease.epoch < (op.apply σ).lease.epoch
  /-- After a takeover nothing commits under an epoch below the new one. -/
  fenced : ∀ later σ id tx row earlier, h = later ++ (σ, .commit id) :: earlier →
    σ.txs id = some tx → tx.work = .published row →
    (FenceOp.apply (.commit id) σ).epoch = row.epoch ∧ σ.epoch < row.epoch ∧
    ∀ σ' id' tx' e, (σ', .commit id') ∈ later → σ'.txs id' = some tx' →
      fenceEpoch tx'.ctx = some e → row.epoch ≤ e

/-- A fenced write commits only under the epoch of the lease, and a takeover shuts the older ones out. -/
theorem writes_fenced {h : List (FenceState × FenceOp)} (run : FenceRun h s) : WriteFencing h s := by
  have current : ∀ σ id tx e, (σ, .commit id) ∈ h → σ.txs id = some tx →
      fenceEpoch tx.ctx = some e → σ.epoch = e ∧ σ.lease.epoch = e := by
    intro σ id tx e hmem htx hf
    obtain ⟨h', run', he⟩ := run.at_entry hmem
    have inv := fenceInv_run run'
    have hcur := commit_current inv he htx hf
    exact ⟨hcur.symm, inv.epochs_agree.trans hcur.symm⟩
  refine ⟨current, ?_, ?_, ?_⟩
  · rintro later σ op earlier rfl
    obtain ⟨h', run', _⟩ := run.at_entry (mem_append_right later mem_cons_self)
    have hle := epoch_mono (fenceInv_run run') op
    obtain ⟨hnow, hlater⟩ := epoch_since run
    exact ⟨Nat.le_trans hle hnow, fun e he => Nat.le_trans hle (hlater e he)⟩
  · intro σ op holder hmem hafter hbefore
    obtain ⟨h', run', he⟩ := run.at_entry hmem
    have inv := fenceInv_run run'
    have inv' := FenceOp.inv inv he
    rcases op.rows σ with ⟨id, ctx, row, checked, rfl, htx⟩ | ⟨_, hsame | hnone⟩
    · obtain ⟨h₁, h₂⟩ := published_epoch inv htx rfl
      rw [inv'.epochs_agree, inv.epochs_agree]
      omega
    · exact absurd (hsame.symm.trans hafter) hbefore
    · exact absurd (hnone.symm.trans hafter) (by simp)
  · rintro later σ id tx row earlier rfl htx hw
    obtain ⟨h', run', _⟩ := run.at_entry (mem_append_right later mem_cons_self)
    obtain ⟨h₁, h₂⟩ := published_epoch (fenceInv_run run') htx hw
    refine ⟨h₂, by omega, fun σ' id' tx' e hmem htx' hf => ?_⟩
    have hcur := (current σ' id' tx' e (mem_append_left _ hmem) htx' hf).1
    have hle := (epoch_since run).2 _ hmem
    rw [h₂, hcur] at hle
    exact hle

def deposedLeader : List FenceOp :=
  [.acquireLeadership 1 none "a" 15000000, .acquireLease 1 100, .setFenceEpoch 1, .checkFence 1,
    .commit 1, .beginTx 2 (some 1), .checkFence 2, .commit 2, .beginTx 3 (some 1),
    .acquireLeadership 4 none "b" 15000000, .acquireLease 4 20000, .setFenceEpoch 4,
    .checkFence 4, .commit 4, .checkFence 3, .beginTx 5 (some 2), .checkFence 5, .commit 5]

lemma deposedLeader_permits : fenceSystem.Permits deposedLeader [] FenceState.init := by
  refine ⟨⟨rfl, ?_⟩, ⟨_, _, _, rfl, ?_⟩, ⟨_, _, rfl, ?_⟩, ⟨_, rfl, ?_⟩, ⟨_, rfl, ?_⟩,
    ⟨rfl, ?_⟩, ⟨_, rfl, ?_⟩, ⟨_, rfl, ?_⟩, ⟨rfl, ?_⟩, ⟨rfl, ?_⟩, ⟨_, _, _, rfl, ?_⟩, ⟨_, _, rfl, ?_⟩,
    ⟨_, rfl, ?_⟩, ⟨_, rfl, ?_⟩, ⟨_, rfl, ?_⟩, ⟨rfl, ?_⟩, ⟨_, rfl, ?_⟩, ⟨_, rfl, ?_⟩, trivial⟩
  all_goals decide

theorem writes_fenced_deposedLeader :
    let r := fenceSystem.exec deposedLeader [] FenceState.init
    r.2.lease = ⟨some "b", 2, 35000⟩ ∧ r.2.epoch = 2 ∧ WriteFencing r.1 r.2 :=
  ⟨by decide, by decide, writes_fenced (Run.start.exec deposedLeader_permits)⟩

end Sqi

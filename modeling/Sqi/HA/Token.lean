import Sqi.HA.Elector

/-! Tokens, and the requests the database runs. -/

namespace Sqi.HA
open Calls Cluster Function Option Transition

def Phase.SteppingDown (p : Phase) : Prop := ∃ epoch, p = .steppingDown epoch

instance : DecidablePred Phase.SteppingDown
  | .steppingDown epoch => isTrue ⟨epoch, rfl⟩
  | .idle | .campaigning | .acquiring .. | .winning .. | .holding _ => isFalse nofun

inductive Elector.Incoming (ans : Nat → Option Answer) (e : Elector) : Epoch → Int → Prop where
  | winning {epoch : Epoch} {t : Int} (h : e.phase = .winning epoch t) : e.Incoming ans epoch t
  | acquired {k : Nat} {epoch : Epoch} {t : Int} (h : e.phase = .acquiring k t)
      (ha : ans k = some (.won epoch)) : e.Incoming ans epoch t

inductive Elector.Token (ans : Nat → Option Answer) (e : Elector) : Epoch → Int → Prop where
  | leads (h : e.epoch ≠ 0) : e.Token ans e.epoch e.authAt
  | renewed (h : e.epoch ≠ 0) {hd : Holding} {k : Nat} {t : Int} (hp : e.phase = .holding hd)
      (hf : hd.inFlight = some (k, t)) (ha : ans k = some (.renewed true)) : e.Token ans e.epoch t
  | incoming {epoch : Epoch} {t : Int} (h : e.Incoming ans epoch t) : e.Token ans epoch t

section
variable {n : Nat} (g : Group n) (s : Cluster n) (i : Fin n) {e : Elector}

def Covers (t : Int) : Prop :=
  g.dbClock + (t - g.clock i) + g.validity i ≤ 1000 * (s.row.expiresUS + 1)

structure Backed (epoch : Epoch) (t : Int) : Prop where
  epoch_eq : s.row.epoch = epoch
  holder : s.row.holder = some i ∨ s.row.holder = none ∧ (s.electors i).phase.SteppingDown
  covers : Covers g s i t

def Granted (epoch : Epoch) : Prop := ⟨i, .acquire, some (.won epoch)⟩ ∈ s.requests

def Phase.Sent : Phase → Prop
  | .acquiring k t => t ≤ s.clockNow g i ∧ ∃ a, s.requests[k]? = some ⟨i, .acquire, a⟩
  | .winning _ t => t ≤ s.clockNow g i
  | .holding h => ∀ k t, h.inFlight = some (k, t) →
    t ≤ s.clockNow g i ∧ ∃ a, s.requests[k]? = some ⟨i, .renew h.epoch, a⟩
  | _ => True

def Elector.InHold (e : Elector) : Prop :=
  match e.phase with
  | .holding h => (e.lost ≠ none → e.epoch = 0) ∧
    (h.inFlight ≠ none ∨ h.validUntil ≠ none → e.epoch = 0 ∨ e.epoch = h.epoch)
  | .steppingDown _ => e.lost ≠ none → e.epoch = 0
  | _ => True

lemma Elector.InHold.holding (h : e.InHold) {hd : Holding} (hp : e.phase = .holding hd) :
    (e.lost ≠ none → e.epoch = 0) ∧
    (hd.inFlight ≠ none ∨ hd.validUntil ≠ none → e.epoch = 0 ∨ e.epoch = hd.epoch) := by
  unfold InHold at h
  rwa [hp] at h

lemma Elector.InHold.steppingDown (h : e.InHold) (hp : e.phase.SteppingDown) :
    e.lost ≠ none → e.epoch = 0 := by
  obtain ⟨epoch, hp⟩ := hp
  unfold InHold at h
  rwa [hp] at h

structure ElectorInv (e : Elector) : Prop where
  sent : e.phase.Sent g s i
  authAt_le : e.epoch ≠ 0 → e.authAt ≤ s.clockNow g i
  inHold : e.InHold
  granted : ∀ epoch t, e.Token s.answer epoch t → Granted s i epoch
  won_le : e.won ≤ s.row.epoch
  fresh : ∀ epoch t, e.Incoming s.answer epoch t → e.epoch < epoch ∧ e.won < epoch
  backed : ∀ epoch t, e.Token s.answer epoch t → s.clockNow g i < t + g.validity i → Backed g s i epoch t

structure LeaderInv : Prop where
  elector : ∀ i, ElectorInv g s i (s.electors i)
  granted_le : ∀ i epoch, Granted s i epoch → epoch ≤ s.row.epoch
  granted_unique : ∀ i j epoch, Granted s i epoch → Granted s j epoch → i = j
  renewed_le : ∀ i epoch, ⟨i, .renew epoch, some (.renewed true)⟩ ∈ s.requests → epoch ≤ s.row.epoch
  release_le : ∀ i epoch a, ⟨i, .release epoch, a⟩ ∈ s.requests → epoch ≤ s.row.epoch
  release_fresh : ∀ i epoch a, ⟨i, .release epoch, a⟩ ∈ s.requests →
    ∀ epoch' t, (s.electors i).Incoming s.answer epoch' t → epoch < epoch'
  release_spent : ∀ i epoch a, ⟨i, .release epoch, a⟩ ∈ s.requests →
    ∀ t, (s.electors i).Token s.answer epoch t → (s.electors i).phase.SteppingDown

end

section
variable {n : Nat} {g : Group n} {s : Cluster n} {i : Fin n}

namespace Cluster

@[simp] lemma setElector_self (e : Elector) : (s.setElector i e).electors i = e := by simp [setElector]
lemma setElector_of_ne {j : Fin n} (h : j ≠ i) (e : Elector) :
    (s.setElector i e).electors j = s.electors j := by
  simp [setElector, h]
@[simp] lemma send_answer (stmt : Stmt) : (s.send i stmt).answer = s.answer := answer_send

end Cluster

lemma Phase.Sent.mono {p : Phase} {s' : Cluster n} (h : p.Sent g s i)
    (hnow : s.clockNow g i ≤ s'.clockNow g i)
    (hreq : ∀ (k : Nat) stmt a, s.requests[k]? = some (⟨i, stmt, a⟩ : Request n) →
      ∃ a', s'.requests[k]? = some (⟨i, stmt, a'⟩ : Request n)) : p.Sent g s' i := by
  cases p with
  | idle | campaigning | steppingDown => trivial
  | winning epoch t => exact le_trans h hnow
  | acquiring k t =>
    obtain ⟨ht, a, hk⟩ := h
    exact ⟨ht.trans hnow, hreq k _ a hk⟩
  | holding hd =>
    intro k t hf
    obtain ⟨ht, a, hk⟩ := h k t hf
    exact ⟨ht.trans hnow, hreq k _ a hk⟩

lemma ElectorInv.token_le {e : Elector} (inv : ElectorInv g s i e) {epoch : Epoch} {t : Int}
    (h : e.Token s.answer epoch t) : t ≤ s.clockNow g i := by
  have sent := inv.sent
  cases h with
  | leads h => exact inv.authAt_le h
  | renewed h hp hf ha =>
    rw [hp] at sent
    exact (sent _ _ hf).1
  | incoming h =>
    cases h with
    | winning h =>
      rw [h] at sent
      exact sent
    | acquired h ha =>
      rw [h] at sent
      exact sent.1

structure Elector.Moves (g : Group n) (s : Cluster n) (i : Fin n) (e e' : Elector) : Prop where
  sent : e'.phase.Sent g s i
  inHold : e'.InHold
  won_le : e'.won ≤ s.row.epoch
  token : ∀ epoch t, e'.Token s.answer epoch t → e.Token s.answer epoch t ∧
    (e.phase.SteppingDown → e'.phase.SteppingDown)
  incoming : ∀ epoch t, e'.Incoming s.answer epoch t →
    e.Incoming s.answer epoch t ∧ e'.epoch ≤ e.epoch ∧ e'.won ≤ e.won

lemma LeaderInv.setElector (inv : LeaderInv g s) {e' : Elector}
    (mv : Elector.Moves g s i (s.electors i) e') : LeaderInv g (s.setElector i e') where
  elector := by
    intro j
    have old := inv.elector j
    by_cases hj : j = i
    · subst hj
      rw [setElector_self]
      refine ⟨mv.sent, fun h => old.token_le (mv.token _ _ (.leads h)).1, mv.inHold, ?_, mv.won_le, ?_, ?_⟩
      · intro epoch t h
        exact old.granted epoch t (mv.token epoch t h).1
      · intro epoch t h
        obtain ⟨h, he, hw⟩ := mv.incoming epoch t h
        obtain ⟨he', hw'⟩ := old.fresh epoch t h
        exact ⟨he.trans_lt he', hw.trans_lt hw'⟩
      · intro epoch t h ht
        obtain ⟨h, hstep⟩ := mv.token epoch t h
        obtain ⟨hep, hholder, hcov⟩ := old.backed epoch t h ht
        refine ⟨hep, ?_, hcov⟩
        rw [setElector_self]
        exact hholder.imp_right fun ⟨hn, hs⟩ => ⟨hn, hstep hs⟩
    · rw [setElector_of_ne hj]
      obtain ⟨sent, authAt_le, inHold, granted, won_le, fresh, backed⟩ := old
      refine ⟨sent, authAt_le, inHold, granted, won_le, fresh, fun epoch t h ht => ?_⟩
      obtain ⟨hep, hholder, hcov⟩ := backed epoch t h ht
      refine ⟨hep, ?_, hcov⟩
      rwa [setElector_of_ne hj]
  granted_le := inv.granted_le
  granted_unique := inv.granted_unique
  renewed_le := inv.renewed_le
  release_le := inv.release_le
  release_fresh := by
    intro j epoch a hr epoch' t h
    by_cases hj : j = i
    · subst hj
      rw [setElector_self] at h
      exact inv.release_fresh j epoch a hr epoch' t (mv.incoming epoch' t h).1
    · rw [setElector_of_ne hj] at h
      exact inv.release_fresh j epoch a hr epoch' t h
  release_spent := by
    intro j epoch a hr t h
    by_cases hj : j = i
    · subst hj
      rw [setElector_self] at h ⊢
      obtain ⟨h, hstep⟩ := mv.token epoch t h
      exact hstep (inv.release_spent j epoch a hr t h)
    · rw [setElector_of_ne hj] at h ⊢
      exact inv.release_spent j epoch a hr t h

structure Spent (s : Cluster n) (i : Fin n) (epoch : Epoch) : Prop where
  le : epoch ≤ s.row.epoch
  fresh : ∀ epoch' t, (s.electors i).Incoming s.answer epoch' t → epoch < epoch'
  token : ∀ t, (s.electors i).Token s.answer epoch t → (s.electors i).phase.SteppingDown

lemma LeaderInv.send (inv : LeaderInv g s) {stmt : Stmt}
    (hr : ∀ epoch, stmt = .release epoch → Spent s i epoch) : LeaderInv g (s.send i stmt) := by
  refine ⟨fun j => ?_, ?_, ?_, ?_, ?_, ?_, ?_⟩
  · obtain ⟨sent, authAt_le, inHold, granted, won_le, fresh, backed⟩ := inv.elector j
    refine ⟨?_, authAt_le, inHold, ?_, won_le, ?_, ?_⟩
    · exact Phase.Sent.mono sent le_rfl fun k stmt' a hk => ⟨a, Calls.getElem?_send hk⟩
    · rw [send_answer]
      exact fun epoch t h => List.mem_append_left _ (granted epoch t h)
    · rw [send_answer]
      exact fresh
    rw [send_answer]
    intro epoch t h ht
    obtain ⟨hep, hholder, hcov⟩ := backed epoch t h ht
    exact ⟨hep, hholder, hcov⟩
  · exact fun j epoch h => inv.granted_le j epoch (mem_send_answered.mp h)
  · exact fun j j' epoch h h' => inv.granted_unique j j' epoch (mem_send_answered.mp h)
      (mem_send_answered.mp h')
  · exact fun j epoch h => inv.renewed_le j epoch (mem_send_answered.mp h)
  · intro j epoch a h
    rcases mem_send h with h | ⟨_, e⟩
    · exact inv.release_le j epoch a h
    · exact (hr epoch e.symm).le
  · intro j epoch a h epoch' t hin
    rw [send_answer] at hin
    rcases mem_send h with h | ⟨rfl, e⟩
    · exact inv.release_fresh j epoch a h epoch' t hin
    · exact (hr epoch e.symm).fresh epoch' t hin
  · intro j epoch a h t htok
    rw [send_answer] at htok
    rcases mem_send h with h | ⟨rfl, e⟩
    · exact inv.release_spent j epoch a h t htok
    · exact (hr epoch e.symm).token t htok

lemma LeaderInv.tick (inv : LeaderInv g s) (d : Nat) : LeaderInv g { s with now := s.now + d } := by
  have hnow : ∀ j, s.clockNow g j ≤ Cluster.clockNow g { s with now := s.now + d } j := by
    intro j
    simp only [Cluster.clockNow]
    omega
  refine ⟨fun j => ?_, inv.granted_le, inv.granted_unique, inv.renewed_le, inv.release_le,
    inv.release_fresh, inv.release_spent⟩
  obtain ⟨sent, authAt_le, inHold, granted, won_le, fresh, backed⟩ := inv.elector j
  refine ⟨Phase.Sent.mono sent (hnow j) fun k stmt a hk => ⟨a, hk⟩, fun h => (authAt_le h).trans (hnow j),
    inHold, granted, won_le, fresh, fun epoch t h ht => ?_⟩
  obtain ⟨hep, hholder, hcov⟩ := backed epoch t h ((hnow j).trans_lt ht)
  exact ⟨hep, hholder, hcov⟩

end

/-! ## Requests that run -/

section
variable {n : Nat} {g : Group n} {s : Cluster n} {i : Fin n} {t : Int}

def Cluster.answered (s : Cluster n) (k : Nat) (j : Fin n) (stmt : Stmt) (a : Answer) (row : LeaseRow n) :
    Cluster n :=
  { s with row := row, requests := Calls.reply s.requests k j stmt a }

section
variable {k : Nat} {j : Fin n} {stmt : Stmt} {a : Answer} {row : LeaseRow n} {ans : Nat → Option Answer}
  {epoch : Epoch} {e : Elector} {t : Int}

lemma Elector.Incoming.of_answered (h : e.Incoming (update ans k (some a)) epoch t) :
    e.Incoming ans epoch t ∨ a = .won epoch ∧ e.phase = .acquiring k t := by
  cases h with
  | winning h => exact .inl (.winning h)
  | @acquired k' _ _ h ha =>
    by_cases e : k' = k
    · subst e
      rw [update_self] at ha
      exact .inr ⟨some.inj ha, h⟩
    · rw [update_of_ne e] at ha
      exact .inl (.acquired h ha)

lemma Elector.Token.of_answered (h : e.Token (update ans k (some a)) epoch t) :
    e.Token ans epoch t ∨ a = .won epoch ∧ e.phase = .acquiring k t ∨
    a = .renewed true ∧ e.epoch ≠ 0 ∧ epoch = e.epoch ∧
    ∃ hd, e.phase = .holding hd ∧ hd.inFlight = some (k, t) := by
  cases h with
  | leads h => exact .inl (.leads h)
  | @renewed h hd k' _ hp hf ha =>
    by_cases e : k' = k
    · subst e
      rw [update_self] at ha
      exact .inr (.inr ⟨some.inj ha, h, rfl, hd, hp, hf⟩)
    · rw [update_of_ne e] at ha
      exact .inl (.renewed h hp hf ha)
  | incoming h => exact h.of_answered.imp .incoming .inl

structure Runs (g : Group n) (s : Cluster n) (j : Fin n) (stmt : Stmt) (a : Answer)
    (row : LeaseRow n) : Prop where
  epoch_le : s.row.epoch ≤ row.epoch
  won : ∀ epoch, a = .won epoch → stmt = .acquire ∧ s.row.epoch < epoch ∧ epoch ≤ row.epoch
  renewed : ∀ epoch, stmt = .renew epoch → a = .renewed true → epoch ≤ row.epoch
  keeps : ∀ i epoch t, (s.electors i).Token s.answer epoch t → t ≤ s.clockNow g i →
    s.clockNow g i < t + g.validity i → Backed g s i epoch t → Backed g { s with row := row } i epoch t
  backs : ∀ epoch t, a = .won epoch ∨ stmt = .renew epoch ∧ a = .renewed true →
    t ≤ s.clockNow g j → Backed g { s with row := row } j epoch t

lemma LeaderInv.answered (inv : LeaderInv g s) (hk : s.requests[k]? = some ⟨j, stmt, none⟩)
    (hr : Runs g s j stmt a row) : LeaderInv g (s.answered k j stmt a row) := by
  have hans : (s.answered k j stmt a row).answer = update s.answer k (some a) := answer_reply hk
  -- the elector that waits for request `k` is its sender
  have hacq : ∀ i t, (s.electors i).phase = .acquiring k t → i = j ∧ t ≤ s.clockNow g i := by
    intro i t hp
    have sent := (inv.elector i).sent
    rw [hp] at sent
    obtain ⟨ht, a', hk'⟩ := sent
    rw [hk] at hk'
    exact ⟨(Calls.Request.mk.inj (some.inj hk')).1.symm, ht⟩
  have hren : ∀ i hd t, (s.electors i).phase = .holding hd → hd.inFlight = some (k, t) →
      i = j ∧ stmt = .renew hd.epoch ∧ t ≤ s.clockNow g i := by
    intro i hd t hp hf
    have sent := (inv.elector i).sent
    rw [hp] at sent
    obtain ⟨ht, a', hk'⟩ := sent k t hf
    rw [hk] at hk'
    obtain ⟨hi, hs, _⟩ := Calls.Request.mk.inj (some.inj hk')
    exact ⟨hi.symm, hs, ht⟩
  have hgrant : ∀ i epoch, Granted s i epoch → Granted (s.answered k j stmt a row) i epoch :=
    fun i epoch h => mem_reply_of_mem hk h
  have hungrant : ∀ i epoch, Granted (s.answered k j stmt a row) i epoch →
      Granted s i epoch ∨ i = j ∧ a = .won epoch := by
    intro i epoch h
    rcases mem_reply h with h | h
    · exact .inl h
    · obtain ⟨rfl, _, ha⟩ := Calls.Request.mk.inj h
      exact .inr ⟨rfl, (some.inj ha).symm⟩
  have hleads : ∀ i, (s.electors i).epoch ≤ s.row.epoch := by
    intro i
    by_cases h : (s.electors i).epoch = 0
    · exact h ▸ Nat.zero_le _
    · exact inv.granted_le i _ ((inv.elector i).granted _ _ (.leads h))
  refine ⟨fun i => ?_, ?_, ?_, ?_, ?_, ?_, ?_⟩
  · obtain ⟨sent, authAt_le, inHold, granted, won_le, fresh, backed⟩ := inv.elector i
    refine ⟨?_, authAt_le, inHold, ?_, won_le.trans hr.epoch_le, ?_, ?_⟩
    · exact Phase.Sent.mono sent le_rfl fun k' stmt' a' h => Calls.getElem?_reply hk h
    · intro epoch t h
      rw [hans] at h
      rcases h.of_answered with h | ⟨ha, hp⟩ | ⟨ha, h0, rfl, hd, hp, hf⟩
      · exact hgrant i epoch (granted epoch t h)
      · obtain ⟨rfl, _⟩ := hacq i t hp
        obtain ⟨rfl, _⟩ := hr.won epoch ha
        subst ha
        exact List.mem_of_getElem? (Calls.getElem?_reply_self hk)
      · exact hgrant i _ (granted _ _ (.leads h0))
    · intro epoch t h
      rw [hans] at h
      rcases h.of_answered with h | ⟨ha, hp⟩
      · exact fresh epoch t h
      · obtain ⟨_, hlt, _⟩ := hr.won epoch ha
        exact ⟨(hleads i).trans_lt hlt, won_le.trans_lt hlt⟩
    · intro epoch t h ht
      have hback : Backed g { s with row := row } i epoch t := by
        rw [hans] at h
        rcases h.of_answered with h | ⟨ha, hp⟩ | ⟨ha, h0, rfl, hd, hp, hf⟩
        · exact hr.keeps i epoch t h ((inv.elector i).token_le h) ht (backed epoch t h ht)
        · obtain ⟨rfl, hle⟩ := hacq i t hp
          exact hr.backs epoch t (.inl ha) hle
        obtain ⟨rfl, rfl, hle⟩ := hren i hd t hp hf
        rcases (Elector.InHold.holding inHold hp).2 (.inl (by simp [hf])) with he | he
        · exact absurd he h0
        · have hb := hr.backs hd.epoch t (.inr ⟨rfl, ha⟩) hle
          rwa [← he] at hb
      exact ⟨hback.epoch_eq, hback.holder, hback.covers⟩
  · intro i epoch h
    rcases hungrant i epoch h with h | ⟨_, ha⟩
    · exact (inv.granted_le i epoch h).trans hr.epoch_le
    · exact (hr.won epoch ha).2.2
  · intro i i' epoch h h'
    rcases hungrant i epoch h with h | ⟨rfl, ha⟩
    · rcases hungrant i' epoch h' with h' | ⟨_, ha⟩
      · exact inv.granted_unique i i' epoch h h'
      · exact absurd (inv.granted_le i epoch h) (not_le.mpr (hr.won epoch ha).2.1)
    · rcases hungrant i' epoch h' with h' | ⟨e, _⟩
      · exact absurd (inv.granted_le i' epoch h') (not_le.mpr (hr.won epoch ha).2.1)
      · exact e.symm
  · intro i epoch h
    rcases mem_reply h with h | h
    · exact (inv.renewed_le i epoch h).trans hr.epoch_le
    · obtain ⟨_, hs, ha⟩ := Calls.Request.mk.inj h
      exact hr.renewed epoch hs.symm (some.inj ha).symm
  · intro i epoch a' h
    obtain ⟨a'', h⟩ := mem_of_mem_reply hk h
    exact (inv.release_le i epoch a'' h).trans hr.epoch_le
  · intro i epoch a' h epoch' t hin
    obtain ⟨a'', h⟩ := mem_of_mem_reply hk h
    rw [hans] at hin
    rcases hin.of_answered with hin | ⟨ha, _⟩
    · exact inv.release_fresh i epoch a'' h epoch' t hin
    · exact (inv.release_le i epoch a'' h).trans_lt (hr.won epoch' ha).2.1
  · intro i epoch a' h t htok
    obtain ⟨a'', h⟩ := mem_of_mem_reply hk h
    rw [hans] at htok
    rcases htok.of_answered with htok | ⟨ha, _⟩ | ⟨_, h0, rfl, _⟩
    · exact inv.release_spent i epoch a'' h t htok
    · exact absurd (inv.release_le i epoch a'' h) (not_le.mpr (hr.won epoch ha).2.1)
    · exact inv.release_spent i _ a'' h _ (.leads h0)

end

lemma covers_of_stamp (httl : 4000 ≤ g.leaseTTL i) (ht : t ≤ s.clockNow g i)
    {row : LeaseRow n} (hrow : row.expiresUS = s.nowUS g + g.ttlUS i) :
    Covers g { s with row := row } i t := by
  simp only [Covers, hrow, Cluster.nowUS, Group.ttlUS, Group.validity, Cluster.clockNow] at ht ⊢
  omega

def AcquiresApart (s : Cluster n) : Step n → Prop
  | .exec k => s.requests[k]?.map (·.stmt) = some .acquire → ∀ j, ¬ (s.electors j).phase.SteppingDown
  | _ => True

variable {j : Fin n} {epoch : Epoch}

lemma Runs.unchanged (g : Group n) (s : Cluster n) (j : Fin n) (stmt : Stmt) {a : Answer}
    (hwon : ∀ epoch, a ≠ .won epoch) (hren : a ≠ .renewed true) : Runs g s j stmt a s.row where
  epoch_le := le_rfl
  won := fun epoch ha => absurd ha (hwon epoch)
  renewed := fun _ _ ha => absurd ha hren
  keeps := fun _ _ _ _ _ _ hb => hb
  backs := by
    rintro epoch t (ha | ⟨_, ha⟩)
    · exact absurd ha (hwon epoch)
    · exact absurd ha hren

lemma runs_acquire (httl : ∀ i, 4000 ≤ g.leaseTTL i) (apart : ∀ i, ¬ (s.electors i).phase.SteppingDown)
    (hfree : s.row.holder = none ∨ s.row.expiresUS < s.nowUS g) :
    Runs g s j .acquire (.won (s.row.epoch + 1)) ⟨some j, s.row.epoch + 1, s.nowUS g + g.ttlUS j⟩ where
  epoch_le := Nat.le_succ _
  won := by
    intro epoch ha
    cases ha
    exact ⟨rfl, Nat.lt_succ_self _, le_rfl⟩
  renewed := nofun
  keeps := by
    rintro i epoch t _ _ ht ⟨_, hholder, hcov⟩
    rcases hholder with hi | ⟨_, hstep⟩
    · rcases hfree with hn | hlapsed
      · rw [hi] at hn
        cases hn
      · simp only [Covers, Cluster.nowUS, Cluster.clockNow] at hcov ht hlapsed
        omega
    · exact absurd hstep (apart i)
  backs := by
    rintro epoch t (ha | ⟨hs, _⟩) ht
    · cases ha
      exact ⟨rfl, .inl rfl, covers_of_stamp (httl j) ht rfl⟩
    · cases hs

lemma runs_renew (httl : ∀ i, 4000 ≤ g.leaseTTL i) (hj : s.row.holder = some j) (he : s.row.epoch = epoch) :
    Runs g s j (.renew epoch) (.renewed true) { s.row with expiresUS := s.nowUS g + g.ttlUS j } where
  epoch_le := le_rfl
  won := nofun
  renewed := by
    intro epoch' hs _
    cases hs
    exact he.ge
  keeps := by
    rintro i epoch' t _ hle _ ⟨hep, hholder, _⟩
    rcases hholder with hi | ⟨hn, _⟩
    · obtain rfl : i = j := some.inj (hi.symm.trans hj)
      exact ⟨hep, .inl hi, covers_of_stamp (httl i) hle rfl⟩
    · rw [hj] at hn
      cases hn
  backs := by
    rintro epoch' t (ha | ⟨hs, _⟩) ht
    · cases ha
    · cases hs
      exact ⟨he, .inl hj, covers_of_stamp (httl j) ht rfl⟩

lemma runs_release (inv : LeaderInv g s)
    (hmem : ∃ a, ⟨j, .release epoch, a⟩ ∈ s.requests) (hj : s.row.holder = some j)
    (he : s.row.epoch = epoch) :
    Runs g s j (.release epoch) .released { s.row with holder := none } where
  epoch_le := le_rfl
  won := nofun
  renewed := nofun
  keeps := by
    rintro i epoch' t htok _ _ ⟨hep, hholder, hcov⟩
    rcases hholder with hi | hn
    · obtain rfl : i = j := some.inj (hi.symm.trans hj)
      obtain rfl : epoch' = epoch := hep.symm.trans he
      obtain ⟨a, hmem⟩ := hmem
      exact ⟨hep, .inr ⟨rfl, inv.release_spent i epoch' a hmem t htok⟩, hcov⟩
    · rw [hj] at hn
      cases hn.1
  backs := by
    rintro epoch' t (ha | ⟨hs, _⟩)
    · cases ha
    · cases hs

lemma LeaderInv.exec (inv : LeaderInv g s) (httl : ∀ i, 4000 ≤ g.leaseTTL i) {k : Nat}
    (apart : AcquiresApart s (.exec k)) : LeaderInv g (s.exec g k) := by
  unfold Cluster.exec
  split
  · rename_i j stmt hk
    refine inv.answered hk ?_
    cases stmt with
    | acquire =>
      simp only [Cluster.runStmt]
      split
      · exact .unchanged g s j _ nofun nofun
      unfold LeaseRow.acquire
      by_cases hfree : s.row.holder = none ∨ s.row.expiresUS < s.nowUS g
      · simp only [if_pos hfree]
        exact runs_acquire httl (apart (by rw [hk]; rfl)) hfree
      · simp only [if_neg hfree]
        exact .unchanged g s j _ nofun nofun
    | renew epoch =>
      simp only [Cluster.runStmt]
      split
      · exact .unchanged g s j _ nofun nofun
      unfold LeaseRow.renew
      by_cases hown : s.row.holder = some j ∧ s.row.epoch = epoch
      · simp only [if_pos hown]
        exact runs_renew httl hown.1 hown.2
      · simp only [if_neg hown]
        exact .unchanged g s j _ nofun nofun
    | release epoch =>
      simp only [Cluster.runStmt, LeaseRow.release]
      split
      · rename_i hown
        exact runs_release inv ⟨none, List.mem_of_getElem? hk⟩ hown.1 hown.2
      · exact .unchanged g s j _ nofun nofun
  · exact inv

end
end Sqi.HA

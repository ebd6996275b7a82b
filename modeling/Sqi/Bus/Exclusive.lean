import Sqi.Bus.Guard

/-! What a guard that reports no loss may conclude. -/

namespace Sqi.Bus
open Calls Function KeyLog List Option Transition Account

def Stage.InGuard : Stage → Prop
  | .refresh | .reconcile | .lastSeq | .retake => True
  | _ => False
def Phase.HasGuard : Phase → Prop
  | .holding => True
  | .waiting stage _ => stage.InGuard
  | _ => False

instance : DecidablePred Stage.InGuard
  | .refresh | .reconcile | .lastSeq | .retake => isTrue trivial
  | .take .. | .delete | .readOwn | .deleteAgain => isFalse id
instance : DecidablePred Phase.HasGuard
  | .holding => isTrue trivial
  | .waiting stage _ => inferInstanceAs (Decidable stage.InGuard)
  | .idle | .lost => isFalse id

section
variable {n : Nat} (s : Account n) (i : Fin n)

inductive Mark : Nat → Prop where
  | guard (h : (s.instances i).phase.HasGuard) : Mark (s.instances i).revision
  | written {stage : Stage} {k rev : Nat} (hp : (s.instances i).phase = .waiting stage k)
      (ha : s.answer k = some (.written rev)) : Mark rev
  | own {stage : Stage} {k rev : Nat} (hp : (s.instances i).phase = .waiting stage k)
      (ha : s.answer k = some (.entry (some (i, rev)))) : Mark rev

inductive Account.Moves : Account n → Prop where
  | stay : Moves s
  | rest {p : Phase} (hp : p = .idle ∨ p = .lost) : Moves (s.setPhase i p)
  | back (hg : (s.instances i).phase.HasGuard) : Moves (s.setPhase i .holding)
  | call {stage : Stage} {stmt : Stmt}
      (hg : stage.InGuard → (s.instances i).phase.HasGuard ∧
        ∀ rev, stmt = .update rev → rev = (s.instances i).revision)
      (hu : ∀ rev, stmt = .update rev → ∃ j, s.key.At rev (.put j))
      (hd : ∀ rev, stmt = .delete rev → s.key.At rev (.put i)) : Moves (s.call i stage stmt)
  | hold {rev : Nat} (hm : Mark s i rev) : Moves (s.hold i rev)

structure GuardInv : Prop where
  update_at : ∀ i rev a, ⟨i, .update rev, a⟩ ∈ s.requests → ∃ j, s.key.At rev (.put j)
  delete_own : ∀ i rev a, ⟨i, .delete rev, a⟩ ∈ s.requests → s.key.At rev (.put i)
  written_own : ∀ i stmt rev, ⟨i, stmt, some (.written rev)⟩ ∈ s.requests → s.key.At rev (.put i)
  entry_at : ∀ i stmt j rev, ⟨i, stmt, some (.entry (some (j, rev)))⟩ ∈ s.requests → s.key.At rev (.put j)
  awaits : ∀ i stage k, (s.instances i).phase = .waiting stage k →
    ∃ stmt a, s.requests[k]? = some ⟨i, stmt, a⟩
  revision_own : ∀ i, (s.instances i).phase.HasGuard → s.key.At (s.instances i).revision (.put i)

structure Marked (m : Nat) : Prop where
  own_le : ∀ q, s.key.At q (.put i) → q ≤ m + 1
  update_le : ∀ rev, ⟨i, .update rev, none⟩ ∈ s.requests → rev ≤ m

end
section
variable {n : Nat} {s s' : Account n} {i : Fin n}
variable {stage : Stage} {k m : Nat} {a : Answer n} {j : Fin n} {stmt : Stmt} {rev : Nat}

lemma GuardInv.answer_mem (inv : GuardInv s)
    (hp : (s.instances i).phase = .waiting stage k) (ha : s.answer k = some a) :
    ∃ stmt, ⟨i, stmt, some a⟩ ∈ s.requests := by
  obtain ⟨stmt, a', hk⟩ := inv.awaits i stage k hp
  have e : a' = some a := by simpa [Account.answer, Calls.answer, hk] using ha
  exact ⟨stmt, e ▸ mem_of_getElem? hk⟩

lemma GuardInv.mark_at (inv : GuardInv s) (hm : Mark s i m) : s.key.At m (.put i) := by
  cases hm with
  | guard h => exact inv.revision_own i h
  | written hp ha =>
    obtain ⟨stmt, hmem⟩ := inv.answer_mem hp ha
    exact inv.written_own i stmt _ hmem
  | own hp ha =>
    obtain ⟨stmt, hmem⟩ := inv.answer_mem hp ha
    exact inv.entry_at i stmt i _ hmem

lemma GuardInv.read_at (inv : GuardInv s) (hp : (s.instances i).phase = .waiting stage k)
    (ha : s.answer k = some (.entry (some (j, rev)))) : s.key.At rev (.put j) := by
  obtain ⟨stmt, hmem⟩ := inv.answer_mem hp ha
  exact inv.entry_at i stmt j rev hmem
lemma Account.Moves.call_outside (hg : ¬ stage.InGuard)
    (hu : ∀ rev, stmt = .update rev → ∃ j, s.key.At rev (.put j))
    (hd : ∀ rev, stmt = .delete rev → s.key.At rev (.put i)) : s.Moves i (s.call i stage stmt) :=
  .call (fun h => absurd h hg) hu hd
lemma Account.Moves.call_inside (hg : (s.instances i).phase.HasGuard) (hu : ∀ rev, stmt ≠ .update rev)
    (hd : ∀ rev, stmt ≠ .delete rev) : s.Moves i (s.call i stage stmt) :=
  .call (fun _ => ⟨hg, fun rev e => absurd e (hu rev)⟩) (fun rev e => absurd e (hu rev))
    fun rev e => absurd e (hd rev)
lemma moves_nextRound (s : Account n) (i : Fin n) (rounds : Nat) : s.Moves i (s.nextRound i rounds) := by
  cases rounds with
  | zero => exact .rest (.inl rfl)
  | succ rounds => exact .call_outside nofun nofun nofun

lemma moves_acquire (s : Account n) (i : Fin n) : s.Moves i (s.acquire i) := by
  unfold Account.acquire
  split
  · exact .call_outside nofun nofun nofun
  · exact .stay

lemma moves_refresh (inv : GuardInv s) (i : Fin n) : s.Moves i (s.refresh i) := by
  unfold Account.refresh
  split
  · rename_i hp
    have hg : (s.instances i).phase.HasGuard := hp ▸ trivial
    refine .call (fun _ => ⟨hg, ?_⟩) ?_ nofun
    · rintro rev ⟨⟩
      rfl
    · rintro rev ⟨⟩
      exact ⟨i, inv.revision_own i hg⟩
  · exact .stay

lemma moves_release (inv : GuardInv s) (i : Fin n) : s.Moves i (s.release i) := by
  unfold Account.release
  split
  · rename_i hp
    refine .call_outside nofun nofun ?_
    rintro rev ⟨⟩
    exact inv.revision_own i (hp ▸ trivial)
  · exact .rest (.inl rfl)
  · exact .stay

lemma moves_takeAnswered (inv : GuardInv s) {rounds : Nat} {t : Take}
    (hp : (s.instances i).phase = .waiting (.take rounds t) k) (ha : s.answer k = some a)
    (memberAware : Bool) (isMember : Fin n → Bool) (late : Bool) :
    s.Moves i (s.takeAnswered i memberAware isMember late rounds t a) := by
  unfold Account.takeAnswered
  split
  · exact .hold (.written hp ha)
  · exact .call_outside nofun nofun nofun
  · exact .call_outside nofun nofun nofun
  · rename_i j rev
    split
    · rename_i e
      subst e
      exact .hold (.own hp ha)
    split
    · split
      · refine .call_outside nofun ?_ nofun
        rintro _ ⟨⟩
        exact ⟨j, inv.read_at hp ha⟩
      · exact .call_outside nofun nofun nofun
    · exact .rest (.inl rfl)
  · exact .hold (.written hp ha)
  · exact moves_nextRound s i rounds
  · exact .call_outside nofun nofun nofun
  · repeat' split
    · exact moves_nextRound s i rounds
    · exact .rest (.inl rfl)
    · exact .call_outside nofun nofun nofun
    · exact .call_outside nofun nofun nofun
  · exact .call_outside nofun nofun nofun
  · rename_i rev j rev'
    split
    · exact moves_nextRound s i rounds
    rename_i e
    refine .call_outside nofun ?_ nofun
    rintro _ ⟨⟩
    have hrev : rev' = rev := not_not.mp e
    exact ⟨j, inv.read_at hp (hrev ▸ ha)⟩
  · exact .hold (.written hp ha)
  · exact moves_nextRound s i rounds
  · exact .stay

lemma moves_guardAnswered (hp : (s.instances i).phase = .waiting stage k) :
    s.Moves i (s.guardAnswered i stage a) := by
  unfold Account.guardAnswered
  split
  · exact .call_inside (hp ▸ trivial) nofun nofun
  · exact .call_inside (hp ▸ trivial) nofun nofun
  · exact .rest (.inr rfl)
  · split
    · exact .rest (.inr rfl)
    · exact .call_inside (hp ▸ trivial) nofun nofun
  · exact .back (hp ▸ trivial)
  · exact .stay

lemma moves_releaseAnswered (inv : GuardInv s)
    (hp : (s.instances i).phase = .waiting stage k) (ha : s.answer k = some a) :
    s.Moves i (s.releaseAnswered i stage a) := by
  unfold Account.releaseAnswered
  split
  · exact .rest (.inl rfl)
  · exact .call_outside nofun nofun nofun
  · split
    · rename_i e
      subst e
      refine .call_outside nofun nofun ?_
      rintro _ ⟨⟩
      exact inv.read_at hp ha
    · exact .rest (.inl rfl)
  · exact .rest (.inl rfl)
  · exact .rest (.inl rfl)
  · exact .stay

lemma mark_of_refreshed (h : s.refreshed i = some rev) : Mark s i rev ∧ (s.instances i).phase.HasGuard := by
  unfold Account.refreshed at h
  split at h
  · rename_i stage k hp
    obtain ⟨a, ha, hr⟩ := bind_eq_some_iff.mp h
    unfold Account.refreshedBy at hr
    split at hr
    · cases hr
      exact ⟨.written hp ha, hp ▸ trivial⟩
    · cases hr
      exact ⟨.written hp ha, hp ▸ trivial⟩
    · split at hr
      · rename_i e
        cases hr
        subst e
        exact ⟨.own hp ha, hp ▸ trivial⟩
      · cases hr
    · cases hr
  · cases h

lemma moves_answered (inv : GuardInv s) (i : Fin n) (memberAware : Bool) (isMember : Fin n → Bool)
    (late : Bool) : s.Moves i (s.answered i memberAware isMember late) := by
  unfold Account.answered
  split
  · rename_i rev h
    exact .hold (mark_of_refreshed h).1
  split
  · rename_i stage k hp
    split
    · exact .stay
    · rename_i ha
      exact moves_takeAnswered inv hp ha memberAware isMember late
    all_goals first
      | exact moves_guardAnswered hp
      | (rename_i ha; exact moves_releaseAnswered inv hp ha)
  · exact .stay

lemma moves_failed (s : Account n) (i : Fin n) (retry late : Bool) : s.Moves i (s.failed i retry late) := by
  unfold Account.failed
  split
  · unfold Account.takeFailed
    repeat' split
    all_goals first
      | exact .rest (.inl rfl)
      | exact .call_outside nofun nofun nofun
  all_goals first
    | (rename_i hp; exact .back (hp ▸ trivial))
    | exact .rest (.inl rfl)
    | exact .stay

section
variable (mv : s.Moves i s')
include mv

lemma Account.Moves.key_eq : s'.key = s.key := by cases mv <;> rfl
lemma Account.Moves.answer_eq : s'.answer = s.answer := by
  cases mv with
  | call => exact answer_send
  | stay | rest | back | hold => rfl
lemma Account.Moves.instances_of_ne (hj : j ≠ i) : s'.instances j = s.instances j := by
  cases mv with
  | stay => rfl
  | rest | back | call | hold => exact update_of_ne hj _ _

lemma Account.Moves.mem_requests {a : Option (Answer n)}
    (h : ⟨j, stmt, a⟩ ∈ s'.requests) :
    ⟨j, stmt, a⟩ ∈ s.requests ∨ j = i ∧ a = none ∧ (∀ rev, stmt = .update rev → ∃ j', s.key.At rev (.put j')) ∧
      ∀ rev, stmt = .delete rev → s.key.At rev (.put i) := by
  cases mv with
  | stay | rest | back | hold => exact .inl h
  | call _ hu hd =>
    rcases mem_append.mp h with h | h
    · exact .inl h
    · obtain ⟨rfl, rfl, rfl⟩ := Calls.Request.mk.inj (mem_singleton.mp h)
      exact .inr ⟨rfl, rfl, hu, hd⟩

lemma Account.Moves.awaits (old : ∀ stage k, (s.instances i).phase = .waiting stage k →
      ∃ stmt a, s.requests[k]? = some ⟨i, stmt, a⟩)
    (hp : (s'.instances i).phase = .waiting stage k) :
    ∃ stmt a, s'.requests[k]? = some ⟨i, stmt, a⟩ := by
  cases mv with
  | stay => exact old stage k hp
  | rest h =>
    simp only [setPhase, update_self] at hp
    rcases h with rfl | rfl <;> cases hp
  | back =>
    simp only [setPhase, update_self] at hp
    cases hp
  | hold =>
    simp only [Account.hold, update_self] at hp
    cases hp
  | @call stage' stmt =>
    simp only [Account.call, update_self] at hp
    cases hp
    exact ⟨stmt, none, Calls.getElem?_send_length⟩

lemma Account.Moves.requests_get
    {r : Calls.Request (Fin n) Stmt (Answer n)} (h : s.requests[k]? = some r) :
    s'.requests[k]? = some r := by
  cases mv with
  | stay | rest | back | hold => exact h
  | call => exact Calls.getElem?_send h

end

lemma mark_call (h : Mark (s.call i stage stmt) i m) : stage.InGuard ∧ m = (s.instances i).revision := by
  have hnone : (s.call i stage stmt).answer s.requests.length = none := by
    rw [Account.answer, Account.call, answer_send, answer_length]
  cases h with
  | guard h =>
    simp only [Account.call, update_self] at h
    exact ⟨h, by simp only [Account.call, update_self]⟩
  | written hp ha | own hp ha =>
    simp only [Account.call, update_self] at hp
    cases hp
    exact nomatch ha.symm.trans hnone

lemma Account.Moves.mark (mv : s.Moves i s') (h : Mark s' j m) : Mark s j m := by
  by_cases hj : j = i
  · subst hj
    cases mv with
    | stay => exact h
    | rest hp =>
      cases h with
      | guard h =>
        simp only [setPhase, update_self] at h
        rcases hp with rfl | rfl <;> exact h.elim
      | written hp' | own hp' =>
        simp only [setPhase, update_self] at hp'
        rcases hp with rfl | rfl <;> cases hp'
    | back hg =>
      cases h with
      | guard =>
        simp only [setPhase, update_self]
        exact .guard hg
      | written hp' | own hp' =>
        simp only [setPhase, update_self] at hp'
        cases hp'
    | @hold rev hm =>
      cases h with
      | guard =>
        simp only [Account.hold, update_self]
        exact hm
      | written hp' | own hp' =>
        simp only [Account.hold, update_self] at hp'
        cases hp'
    | call hg =>
      obtain ⟨hin, rfl⟩ := mark_call h
      exact .guard (hg hin).1
  · have he := mv.instances_of_ne hj
    cases h with
    | guard h =>
      rw [he] at h ⊢
      exact .guard h
    | written hp ha =>
      rw [he] at hp
      exact .written hp (mv.answer_eq ▸ ha)
    | own hp ha =>
      rw [he] at hp
      exact .own hp (mv.answer_eq ▸ ha)

lemma GuardInv.moves (inv : GuardInv s) (mv : s.Moves i s') : GuardInv s' where
  update_at := by
    intro j rev a h
    rw [mv.key_eq]
    rcases mv.mem_requests h with h | ⟨_, _, hu, _⟩
    · exact inv.update_at j rev a h
    · exact hu rev rfl
  delete_own := by
    intro j rev a h
    rw [mv.key_eq]
    rcases mv.mem_requests h with h | ⟨rfl, _, _, hd⟩
    · exact inv.delete_own j rev a h
    · exact hd rev rfl
  written_own := by
    intro j stmt rev h
    rw [mv.key_eq]
    rcases mv.mem_requests h with h | ⟨_, ha, _⟩
    · exact inv.written_own j stmt rev h
    · cases ha
  entry_at := by
    intro j stmt j' rev h
    rw [mv.key_eq]
    rcases mv.mem_requests h with h | ⟨_, ha, _⟩
    · exact inv.entry_at j stmt j' rev h
    · cases ha
  awaits := by
    intro j stage k hp
    by_cases hj : j = i
    · subst hj
      exact mv.awaits (inv.awaits j) hp
    · rw [mv.instances_of_ne hj] at hp
      obtain ⟨stmt, a, hk⟩ := inv.awaits j stage k hp
      exact ⟨stmt, a, mv.requests_get hk⟩
  revision_own := by
    intro j h
    rw [mv.key_eq]
    exact inv.mark_at (mv.mark (.guard h))

lemma Marked.moves (h : Marked s j m) (mv : s.Moves i s') (hm : Mark s' j m) : Marked s' j m := by
  cases mv with
  | stay | rest | back | hold => exact ⟨h.own_le, h.update_le⟩
  | call hg =>
    refine ⟨h.own_le, fun rev hmem => ?_⟩
    rcases mem_send hmem with hmem | ⟨rfl, e⟩
    · exact h.update_le rev hmem
    · obtain ⟨hin, rfl⟩ := mark_call hm
      exact ((hg hin).2 rev e.symm).le

end

/-! ## Requests that run -/

section
variable {n : Nat} {s : Account n} {i : Fin n} {stmt : Stmt} {k : Nat}

inductive Effect (key : GuardKey n) (i : Fin n) : Stmt → Answer n → GuardKey n → Prop where
  | create : Effect key i .create (.written (key.seq + 1)) (key.push (.put i))
  | update {rev : Nat} (h : key.lastSeq = rev) :
      Effect key i (.update rev) (.written (key.seq + 1)) (key.push (.put i))
  | delete {rev : Nat} (h : rev = 0 ∨ key.lastSeq = rev) :
      Effect key i (.delete rev) .deleted (key.push .delete)
  | entry {j : Fin n} {stmt : Stmt} (h : key.value? = some j) :
      Effect key i stmt (.entry (some (j, key.seq))) key
  | other {stmt : Stmt} {a : Answer n} (hw : ∀ rev, a ≠ .written rev)
      (he : ∀ e, a ≠ .entry (some e)) : Effect key i stmt a key

lemma runStmt_effect (key : GuardKey n) (i : Fin n) (stmt : Stmt) :
    Effect key i stmt (runStmt key i stmt).1 (runStmt key i stmt).2 := by
  cases stmt with
  | create =>
    simp only [runStmt]
    cases h : key.create i with
    | none => exact .other nofun nofun
    | some key' =>
      obtain rfl := Key.create_eq_some h
      exact .create
  | update rev =>
    simp only [runStmt]
    cases h : key.update i rev with
    | none => exact .other nofun nofun
    | some key' =>
      obtain ⟨hs, rfl⟩ := Key.update_eq_some h
      exact .update hs
  | get =>
    simp only [runStmt]
    cases h : key.value? with
    | none => exact .other nofun nofun
    | some j => exact .entry h
  | delete rev =>
    simp only [runStmt]
    cases h : key.delete rev with
    | none => exact .other nofun nofun
    | some key' =>
      obtain ⟨hs, rfl⟩ := Key.delete_eq_some h
      exact .delete hs
  | lastSeq => exact .other nofun nofun

variable {a : Answer n} {key : GuardKey n}

lemma Effect.at_mono (h : Effect s.key i stmt a key) {q : Nat} {m : Message (Fin n)}
    (hq : s.key.At q m) : key.At q m := by
  cases h with
  | create | update | delete => exact hq.push _
  | entry | other => exact hq

def Account.ran (s : Account n) (k : Nat) (i : Fin n) (stmt : Stmt) (a : Answer n) (key : GuardKey n) :
    Account n :=
  { s with key := key, requests := Calls.reply s.requests k i stmt a }

lemma GuardInv.ran (inv : GuardInv s) (hk : s.requests[k]? = some ⟨i, stmt, none⟩)
    (eff : Effect s.key i stmt a key) : GuardInv (s.ran k i stmt a key) where
  update_at := by
    intro j rev a' h
    obtain ⟨a'', h⟩ := mem_of_mem_reply hk h
    obtain ⟨j', h⟩ := inv.update_at j rev a'' h
    exact ⟨j', eff.at_mono h⟩
  delete_own := by
    intro j rev a' h
    obtain ⟨a'', h⟩ := mem_of_mem_reply hk h
    exact eff.at_mono (inv.delete_own j rev a'' h)
  written_own := by
    intro j stmt' rev h
    rcases mem_reply h with h | h
    · exact eff.at_mono (inv.written_own j stmt' rev h)
    obtain ⟨rfl, rfl, ha⟩ := Calls.Request.mk.inj h
    cases ha
    cases eff with
    | create | update => exact Key.at_push_seq
    | other hw => exact absurd rfl (hw rev)
  entry_at := by
    intro j stmt' j' rev h
    rcases mem_reply h with h | h
    · exact eff.at_mono (inv.entry_at j stmt' j' rev h)
    obtain ⟨rfl, rfl, ha⟩ := Calls.Request.mk.inj h
    cases ha
    cases eff with
    | entry hv => exact Key.at_seq_of_value? hv
    | other _ he => exact absurd rfl (he _)
  awaits := by
    intro j stage k' hp
    obtain ⟨stmt', a', h⟩ := inv.awaits j stage k' hp
    obtain ⟨a'', h⟩ := Calls.getElem?_reply hk h
    exact ⟨stmt', a'', h⟩
  revision_own := fun j h => eff.at_mono (inv.revision_own j h)

variable {j : Fin n} {m : Nat}

lemma mark_ran (inv : GuardInv s) (hk : s.requests[k]? = some ⟨i, stmt, none⟩)
    (h : Mark (s.ran k i stmt a key) j m) :
    Mark s j m ∨ j = i ∧ (a = .written m ∨ a = .entry (some (i, m))) := by
  have hans : (s.ran k i stmt a key).answer = update s.answer k (some a) := answer_reply hk
  have sender : ∀ {stage : Stage}, (s.instances j).phase = .waiting stage k → j = i := by
    intro stage hp
    obtain ⟨stmt', a', h⟩ := inv.awaits j stage k hp
    rw [hk] at h
    exact (Calls.Request.mk.inj (some.inj h)).1.symm
  cases h with
  | guard h => exact .inl (.guard h)
  | @written stage k' _ hp ha =>
    rw [hans] at ha
    by_cases e : k' = k
    · subst e
      rw [update_self] at ha
      exact .inr ⟨sender hp, .inl (some.inj ha)⟩
    · rw [update_of_ne e] at ha
      exact .inl (.written hp ha)
  | @own stage k' _ hp ha =>
    rw [hans] at ha
    by_cases e : k' = k
    · subst e
      rw [update_self] at ha
      obtain rfl := sender hp
      exact .inr ⟨rfl, .inr (some.inj ha)⟩
    · rw [update_of_ne e] at ha
      exact .inl (.own hp ha)

lemma mem_ran_unanswered {stmt' : Stmt}
    (h : ⟨j, stmt', none⟩ ∈ (s.ran k i stmt a key).requests) : ⟨j, stmt', none⟩ ∈ s.requests := by
  rcases mem_reply h with h | h
  · exact h
  · cases h

lemma Marked.of_seq_le (inv : GuardInv s) (h : s.key.seq ≤ m) : Marked s i m where
  own_le := fun q hq => by
    have := hq.le_seq
    omega
  update_le := fun rev hmem => by
    obtain ⟨j, hj⟩ := inv.update_at i rev none hmem
    have := hj.le_seq
    omega

lemma Marked.ran (h : Marked s j m) (eff : Effect s.key i stmt a key)
    (hput : ∀ rev, a = .written rev → j = i → s.key.seq ≤ m) : Marked (s.ran k i stmt a key) j m where
  own_le := by
    intro q hq
    have pushed : ∀ {v : Fin n}, (s.key.push (.put v)).At q (.put j) → (v = j → s.key.seq ≤ m) → q ≤ m + 1 := by
      intro v hq hv
      rcases hq.of_push with hq | ⟨rfl, e⟩
      · exact h.own_le q hq
      · have := hv (Message.put.inj e).symm
        omega
    cases eff with
    | create | update => exact pushed hq fun e => hput _ rfl e.symm
    | delete =>
      rcases hq.of_push with hq | ⟨_, e⟩
      · exact h.own_le q hq
      · cases e
    | entry | other => exact h.own_le q hq
  update_le := fun rev hmem => h.update_le rev (mem_ran_unanswered hmem)

def Phase.Awaits (k : Nat) : Phase → Prop
  | .waiting _ k' => k' = k
  | _ => False

instance (k : Nat) : DecidablePred (Phase.Awaits k)
  | .waiting _ k' => inferInstanceAs (Decidable (k' = k))
  | .idle | .holding | .lost => isFalse id

def Timely (s : Account n) : Step n → Prop
  | .exec k => ∀ i, s.requests[k]? = some ⟨i, .create, none⟩ →
    (s.instances i).phase.Awaits k ∧ ((s.instances i).phase.HasGuard → s.key.seq = (s.instances i).revision)
  | _ => True

lemma Timely.seq_le (t : Timely s (.exec k)) (hk : s.requests[k]? = some ⟨i, .create, none⟩)
    (hm : Mark s i m) : s.key.seq ≤ m := by
  obtain ⟨hawait, hguard⟩ := t i hk
  have hnone : s.answer k = none := by simp [Account.answer, Calls.answer, hk]
  cases hm with
  | guard h => exact (hguard h).le
  | written hp ha | own hp ha =>
    rw [hp] at hawait
    obtain rfl : _ = k := hawait
    cases ha.symm.trans hnone

lemma marked_ran (inv : GuardInv s) (all : ∀ i m, Mark s i m → Marked s i m)
    (t : Timely s (.exec k)) (hk : s.requests[k]? = some ⟨i, stmt, none⟩)
    (eff : Effect s.key i stmt a key) (hm : Mark (s.ran k i stmt a key) j m) :
    Marked (s.ran k i stmt a key) j m := by
  rcases mark_ran inv hk hm with old | ⟨rfl, ha⟩
  · refine (all j m old).ran eff ?_
    rintro rev rfl rfl
    cases eff with
    | create => exact t.seq_le hk old
    | @update rev hs =>
      -- the compare-and-set went over the newest message
      have hmem : ⟨j, .update rev, none⟩ ∈ s.requests := mem_of_getElem? hk
      obtain ⟨j', hat⟩ := inv.update_at j rev none hmem
      have hseq := (Key.value?_of_lastSeq hs hat).2
      have := (all j m old).update_le rev hmem
      omega
    | other hno => exact absurd rfl (hno rev)
  · refine Marked.of_seq_le (inv.ran hk eff) (show key.seq ≤ m from ?_)
    rcases ha with rfl | rfl
    · cases eff with
      | create | update => exact le_rfl
      | other hno => exact absurd rfl (hno m)
    · cases eff with
      | entry => exact le_rfl
      | other _ hno => exact absurd rfl (hno _)

lemma Account.exec_cases (s : Account n) (k : Nat) :
    s.exec k = s ∨ ∃ i stmt a key, s.requests[k]? = some ⟨i, stmt, none⟩ ∧ Effect s.key i stmt a key ∧
      s.exec k = s.ran k i stmt a key := by
  unfold exec
  split
  · rename_i i stmt hk
    exact .inr ⟨i, stmt, _, _, hk, runStmt_effect s.key i stmt, rfl⟩
  · exact .inl rfl

lemma GuardInv.expire (inv : GuardInv s) : GuardInv s.expire :=
  ⟨inv.update_at, inv.delete_own, inv.written_own, inv.entry_at, inv.awaits, inv.revision_own⟩

end

section
variable {n : Nat} {memberAware : Fin n → Bool} {s : Account n} {h : List (Account n × Step n)}

lemma guardInv_init (memberAware : Fin n → Bool) : GuardInv (account memberAware).init :=
  ⟨nofun, nofun, nofun, nofun, nofun, nofun⟩

lemma Step.next_cases (memberAware : Fin n → Bool) (inv : GuardInv s) (l : Step n) :
    (∃ k, l = .exec k ∧ l.next memberAware s = s.exec k) ∨ l.next memberAware s = s.expire ∨
      ∃ i, s.Moves i (l.next memberAware s) := by
  cases l with
  | exec k => exact .inl ⟨k, rfl, rfl⟩
  | expire => exact .inr (.inl rfl)
  | acquire i => exact .inr (.inr ⟨i, moves_acquire s i⟩)
  | refresh i => exact .inr (.inr ⟨i, moves_refresh inv i⟩)
  | release i => exact .inr (.inr ⟨i, moves_release inv i⟩)
  | answered i isMember late => exact .inr (.inr ⟨i, moves_answered inv i _ isMember late⟩)
  | failed i retry late => exact .inr (.inr ⟨i, moves_failed s i retry late⟩)

lemma guardInv_next (inv : GuardInv s) (l : Step n) : GuardInv (l.next memberAware s) := by
  rcases Step.next_cases memberAware inv l with ⟨k, _, e⟩ | e | ⟨i, mv⟩
  · rw [e]
    rcases s.exec_cases k with e | ⟨i, stmt, a, key, hk, eff, e⟩
    · rwa [e]
    · rw [e]
      exact inv.ran hk eff
  · rw [e]
    exact inv.expire
  · exact inv.moves mv

lemma guardInv_run (run : Run (account memberAware) h s) : GuardInv s :=
  run.safe (guardInv_init memberAware) fun _ _ l _ inv _ => guardInv_next inv l

lemma at_next (inv : GuardInv s) (l : Step n) {q : Nat} {m : Message (Fin n)} (h : s.key.At q m) :
    (l.next memberAware s).key.At q m := by
  rcases Step.next_cases memberAware inv l with ⟨k, _, e⟩ | e | ⟨i, mv⟩
  · rw [e]
    rcases s.exec_cases k with e | ⟨i, stmt, a, key, hk, eff, e⟩
    · rwa [e]
    · rw [e]
      exact eff.at_mono h
  · rw [e]
    exact h
  · rwa [mv.key_eq]

lemma marked_next (inv : GuardInv s) (all : ∀ i m, Mark s i m → Marked s i m) {l : Step n}
    (t : Timely s l) (i : Fin n) (m : Nat) (hm : Mark (l.next memberAware s) i m) :
    Marked (l.next memberAware s) i m := by
  rcases Step.next_cases memberAware inv l with ⟨k, rfl, e⟩ | e | ⟨j, mv⟩
  · rw [e] at hm ⊢
    rcases s.exec_cases k with e | ⟨j, stmt, a, key, hk, eff, e⟩
    · rw [e] at hm ⊢
      exact all i m hm
    · rw [e] at hm ⊢
      exact marked_ran inv all t hk eff hm
  · rw [e] at hm ⊢
    have hm' : Mark s i m := by
      cases hm with
      | guard h => exact .guard h
      | written hp ha => exact .written hp ha
      | own hp ha => exact .own hp ha
    exact ⟨(all i m hm').own_le, (all i m hm').update_le⟩
  · exact (all i m (mv.mark hm)).moves mv hm

lemma marked_run (run : Run ((account memberAware).guarded fun _ s l => Timely s l) h s) (i : Fin n) (m : Nat)
    (hm : Mark s i m) : Marked s i m := by
  have both : GuardInv s ∧ ∀ i m, Mark s i m → Marked s i m := by
    refine run.safe (P := fun s => GuardInv s ∧ ∀ i m, Mark s i m → Marked s i m) ⟨?_, ?_⟩ ?_
    · exact guardInv_init memberAware
    · intro i m hm
      cases hm with
      | guard h => exact h.elim
      | written hp | own hp => cases hp
    · exact fun _ s l _ both e => ⟨guardInv_next both.1 l, marked_next both.1 both.2 e.2⟩
  exact both.2 i m hm

end

/-! ## Exclusivity -/

def HeldAlone {n : Nat} (h : List (Account n × Step n)) (s : Account n) (i : Fin n) (since rev : Nat) :
    Prop :=
  ∀ s', Visited h s s' → since ≤ s'.key.seq → s'.key.seq ≤ rev → ∀ j, s'.holder = some j → j = i

/-- A deletion removes only its own key, and without a loss the key was held alone. -/
theorem guard_exclusive {n : Nat} {memberAware : Fin n → Bool} {h : List (Account n × Step n)}
    {s : Account n} (run : Run (account memberAware) h s) :
    (∀ (k : Nat) i rev, s.requests[k]? = some ⟨i, .delete rev, none⟩ → s.key.delete rev ≠ none →
      s.holder = some i) ∧
    (Run ((account memberAware).guarded fun _ s l => Timely s l) h s →
      ∀ i rev, s.refreshed i = some rev → HeldAlone h s i (s.instances i).revision rev) := by
  have inv := guardInv_run run
  refine ⟨?_, ?_⟩
  · intro k i rev hk hdel
    have own := inv.delete_own i rev none (mem_of_getElem? hk)
    obtain ⟨key, hkey⟩ := ne_none_iff_exists'.mp hdel
    rcases (Key.delete_eq_some hkey).1 with h0 | hs
    · have := own.pos
      omega
    · exact (Key.value?_of_lastSeq hs own).1
  · intro timely i rev hr s' hv hfrom hto j hj
    obtain ⟨hm, hg⟩ := mark_of_refreshed hr
    have hrev := inv.mark_at hm
    have hsince := inv.mark_at (.guard hg)
    -- what the instance records is the revision it has or the next one
    have hnext := (marked_run timely i _ (.guard hg)).own_le rev hrev
    have hat : s.key.At s'.key.seq (.put j) := by
      refine run.stable (Q := fun t => t.key.At s'.key.seq (.put j)) ?_ hv (Key.at_seq_of_value? hj)
      exact fun _ _ l r _ hq => at_next (guardInv_run r) l hq
    have hcase : s'.key.seq = (s.instances i).revision ∨ s'.key.seq = rev := by omega
    rcases hcase with e | e
    · rw [e] at hat
      exact Message.put.inj (hat.unique hsince)
    · rw [e] at hat
      exact Message.put.inj (hat.unique hrev)

instance {n : Nat} (s : Account n) : DecidablePred (Timely s)
  | .exec _ => inferInstanceAs (Decidable (∀ _, _ → _))
  | .expire | .acquire _ | .refresh _ | .release _ | .answered .. | .failed .. =>
    isTrue trivial

/-! ### The window of a re-take -/

def strangers : Fin 2 → Bool := fun _ => false
def noMember : Fin 2 → Bool := fun _ => false
def expiredRefresh : List (Step 2) :=
  [.acquire 0, .exec 0, .answered 0 noMember false, .expire,
    .refresh 0, .exec 1, .answered 0 noMember false, .exec 2, .answered 0 noMember false,
    .exec 3, .answered 0 noMember false]

def takenBeforeRetake : List (Step 2) := expiredRefresh ++ [.acquire 1, .exec 5, .answered 1 noMember false]
def retakeAfterRelease : List (Step 2) := [.release 1, .exec 6, .exec 4]

theorem retake_misses_holder :
    ∃ h s, Run (account strangers) h s ∧ ∃ rev, s.refreshed 0 = some rev ∧
      ¬ HeldAlone h s 0 (s.instances 0).revision rev := by
  have taken : (account strangers).Permits takenBeforeRetake [] (account strangers).init := by decide +kernel
  have retaken : (account strangers).Permits retakeAfterRelease
      ((account strangers).exec takenBeforeRetake [] (account strangers).init).1
      ((account strangers).exec takenBeforeRetake [] (account strangers).init).2 := by
    decide +kernel
  refine ⟨_, _, (Run.start.exec taken).exec retaken, 4, by decide +kernel, fun alone => ?_⟩
  exact absurd (alone _ Visited.now.exec (by decide +kernel) (by decide +kernel) 1 (by decide +kernel))
    (by decide)

def retakeAtOnce : List (Step 2) := expiredRefresh ++ [.exec 4]
def releaseAfterRetake : List (Step 2) := retakeAtOnce ++ [.answered 0 noMember false, .release 0]

theorem guard_exclusive_retakeAtOnce :
    (∃ h s, Run (account strangers) h s ∧ s.refreshed 0 = some 2 ∧
      HeldAlone h s 0 (s.instances 0).revision 2) ∧
    ∃ h s, Run (account strangers) h s ∧ s.requests[5]? = some ⟨0, .delete 2, none⟩ ∧ s.holder = some 0 := by
  have retaken : ((account strangers).guarded fun _ s l => Timely s l).Permits retakeAtOnce []
      (account strangers).init := by decide +kernel
  have released : (account strangers).Permits releaseAfterRetake [] (account strangers).init := by
    decide +kernel
  have run := Run.start.exec retaken
  have run' := Run.start.exec released
  refine ⟨⟨_, _, run.of_guarded, by decide +kernel, ?_⟩, ⟨_, _, run', by decide +kernel, ?_⟩⟩
  · exact (guard_exclusive run.of_guarded).2 run 0 2 (by decide +kernel)
  · exact (guard_exclusive run').1 5 0 2 (by decide +kernel) (by decide +kernel)

end Sqi.Bus

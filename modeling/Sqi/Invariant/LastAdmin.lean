import Sqi.Concurrency.Users

/-! There is always an enabled administrator, as long as no account becomes one while another guarded write
is still taking its locks. -/

namespace Sqi
open List Table Transition RowLock

/-! ## Enabled admins -/

def LiveAt (users : List User) (id : ID) : Prop := ∃ u ∈ users, u.id = id ∧ u.LiveAdmin
deriving Decidable

def HasAdmin (users : List User) : Prop := ∃ u ∈ users, u.LiveAdmin
deriving Decidable

variable {users : List User} {tx : ID} {s : UserStore} {p : UserTxPhase} {w : UserWrite}

lemma hasAdmin_iff : HasAdmin users ↔ ∃ id, LiveAt users id := by
  constructor
  · rintro ⟨u, hu, live⟩
    exact ⟨u.id, u, hu, rfl, live⟩
  · rintro ⟨_, u, hu, -, live⟩
    exact ⟨u, hu, live⟩

lemma LiveAt.hasAdmin {id : ID} (h : LiveAt users id) : HasAdmin users := hasAdmin_iff.mpr ⟨id, h⟩

lemma mem_listLiveAdminIDs {id : ID} : id ∈ listLiveAdminIDs users ↔ LiveAt users id := by
  simp only [listLiveAdminIDs, mem_insertionSort, mem_map, mem_filter, decide_eq_true_eq, LiveAt]
  constructor
  · rintro ⟨u, ⟨hu, live⟩, hid⟩
    exact ⟨u, hu, hid, live⟩
  · rintro ⟨u, hu, hid, live⟩
    exact ⟨u, ⟨hu, live⟩, hid⟩

lemma liveAt_append {u : User} {id : ID} :
    LiveAt (users ++ [u]) id ↔ LiveAt users id ∨ u.id = id ∧ u.LiveAdmin := by
  simp [LiveAt, or_and_right, exists_or]

/-! ## What a write does -/

def UserWrite.Promotes (users : List User) : UserWrite → Prop
  | .update u => u.LiveAdmin ∧ ¬ LiveAt users u.id
  | .delete _ => False

instance (users : List User) : ∀ w : UserWrite, Decidable (w.Promotes users)
  | .update _ => inferInstanceAs (Decidable (_ ∧ _))
  | .delete _ => isFalse id

namespace UserWrite
variable {w : UserWrite} {users counted : List User} {id : ID}

lemma apply_append (w : UserWrite) (users : List User) (u : User) :
    w.apply (users ++ [u]) = w.apply users ++ w.apply [u] := by
  cases w with
  | update v => exact map_append
  | delete id => exact filter_append _ _

lemma liveAt_of_apply (h : LiveAt (w.apply users) id) : LiveAt users id ∨ w.Promotes users := by
  obtain ⟨o, ho, hid, live⟩ := h
  cases w with
  | delete x => exact .inl ⟨o, mem_of_mem_filter ho, hid, live⟩
  | update v =>
    obtain ⟨o', ho', rfl⟩ := mem_update.mp ho
    split at hid
    · rename_i e
      rw [if_pos e] at live
      by_cases was : LiveAt users v.id
      · exact .inl (by rwa [← hid, e])
      · exact .inr ⟨live, was⟩
    · rename_i e
      rw [if_neg e] at live
      exact .inl ⟨o', ho', hid, live⟩

lemma liveAt_apply_of_ne (ne : id ≠ w.target) (h : LiveAt users id) : LiveAt (w.apply users) id := by
  obtain ⟨o, ho, rfl, live⟩ := h
  cases w with
  | delete x => exact ⟨o, mem_filter.mpr ⟨ho, decide_eq_true ne⟩, rfl, live⟩
  | update v => exact ⟨o, mem_update.mpr ⟨o, ho, if_neg ne⟩, rfl, live⟩

lemma keyed_apply (keyed : Keyed (·.id) users) : Keyed (·.id) (w.apply users) := by
  cases w with
  | delete x => exact keyed.sublist (List.Sublist.map _ filter_sublist)
  | update v =>
    unfold Keyed
    rw [UserWrite.apply, map_update]
    · exact keyed
    · exact fun _ _ => rfl

lemma id_of_mem_apply {P : ID → Prop} (h : ∀ u ∈ users, P u.id) : ∀ u ∈ w.apply users, P u.id := by
  cases w with
  | delete x => exact fun u hu => h u (mem_of_mem_filter hu)
  | update v =>
    refine forall_mem_update.mpr fun u hu => ?_
    split <;> exact h u hu

lemma other_of_allows {o : User} (keyed : Keyed (·.id) counted)
    (h : w.Allows counted o) (live : o.LiveAdmin) :
    (∃ u, w = .update u ∧ u.LiveAdmin) ∨ ∃ id, LiveAt counted id ∧ id ≠ o.id := by
  by_cases last : LastLiveAdmin counted o
  · cases w with
    | delete x => exact absurd last h
    | update v => exact .inl ⟨v, rfl, by_contra fun hv => h ⟨last, hv⟩⟩
  right
  by_contra hnone
  push Not at hnone
  have hle : counted.countP (fun o' => o'.LiveAdmin) ≤ [o].countP fun _ => True :=
    countP_le_of_keyed keyed fun r hr hlive =>
      ⟨o, mem_singleton_self o, (hnone r.id ⟨r, hr, rfl, hlive⟩).symm, trivial⟩
  exact last ⟨live, by simpa using hle⟩

lemma hasAdmin_apply (keyed : Keyed (·.id) counted)
    (keyed' : Keyed (·.id) users) (found : w.Finds counted users) (admin : HasAdmin users)
    (kept : ∀ id, LiveAt counted id → LiveAt users id) : HasAdmin (w.apply users) := by
  obtain ⟨o, ho, hid, allows⟩ := found
  by_cases live : o.LiveAdmin
  · rcases other_of_allows keyed allows live with ⟨u, rfl, hu⟩ | ⟨id, hlive, ne⟩
    · exact ⟨_, mem_update.mpr ⟨o, ho, if_pos hid⟩, hu⟩
    · exact (liveAt_apply_of_ne (hid ▸ ne) (kept id hlive)).hasAdmin
  obtain ⟨u, hu, hlive⟩ := admin
  have ne : u.id ≠ w.target := by
    intro e
    obtain rfl := keyed'.eq_of_mem hu ho (e.trans hid.symm)
    exact live hlive
  exact (liveAt_apply_of_ne ne ⟨u, hu, rfl, hlive⟩).hasAdmin

end UserWrite

/-! ## The invariant -/

def UserTxPhase.Locked : UserTxPhase → Prop
  | .locking (_ :: _) => False
  | _ => True

instance : DecidablePred UserTxPhase.Locked
  | .locking (_ :: _) => isFalse id
  | .locking [] | .writing _ | .written => isTrue trivial

def UserStore.Locked (s : UserStore) (tx : ID) : Prop := ∃ t, s.txs tx = some t ∧ t.phase.Locked
def LocksAdmin (users : List User) (locks : Locks ID ID) (tx : ID) : Prop :=
  ∃ id, LiveAt users id ∧ Holds locks tx id .exclusive

def TxSafe (users : List User) (locks : Locks ID ID) (tx : ID) (w : UserWrite) : UserTxPhase → Prop
  | .locking (a :: anchors) => ∀ id, LiveAt users id → id ∈ a :: anchors ∨ Holds locks tx id .exclusive
  | .locking [] => HasAdmin users → LocksAdmin users locks tx
  | .writing snapshot => (HasAdmin users → LocksAdmin users locks tx) ∧ Keyed (·.id) snapshot ∧
      (HasAdmin users → ∀ id, LiveAt snapshot id → LiveAt users id)
  | .written => (HasAdmin users → LocksAdmin users locks tx) ∧ Holds locks tx w.target .exclusive ∧
      (HasAdmin users → HasAdmin (w.apply users))

lemma TxSafe.locksAdmin {locks : Locks ID ID}
    (h : TxSafe users locks tx w p) (locked : p.Locked) (admin : HasAdmin users) :
    LocksAdmin users locks tx := by
  cases p with
  | locking anchors =>
    cases anchors with
    | nil => exact h admin
    | cons => exact locked.elim
  | writing => exact h.1 admin
  | written => exact h.1 admin

lemma TxSafe.mono_locks {locks locks' : Locks ID ID} (h : TxSafe users locks tx w p)
    (held : ∀ row, Holds locks tx row .exclusive → Holds locks' tx row .exclusive) :
    TxSafe users locks' tx w p := by
  have hanchored : (HasAdmin users → LocksAdmin users locks tx) → HasAdmin users → LocksAdmin users locks' tx := by
    intro ha admin
    obtain ⟨id, live, holds⟩ := ha admin
    exact ⟨id, live, held id holds⟩
  cases p with
  | locking anchors =>
    cases anchors with
    | nil => exact hanchored h
    | cons a anchors => exact fun id live => (h id live).imp_right (held id)
  | writing => exact ⟨hanchored h.1, h.2⟩
  | written => exact ⟨hanchored h.1, held _ h.2.1, h.2.2⟩

structure AdminSafe (s : UserStore) : Prop where
  keyed : Keyed (·.id) s.users
  fresh : ∀ u ∈ s.users, u.id ∈ s.created
  sound : Sound s.locks
  txs : ∀ tx t, s.txs tx = some t → TxSafe s.users s.locks tx t.write t.phase
  alone : ∀ tx tx', s.Locked tx → s.Locked tx' → tx ≠ tx' → ¬ HasAdmin s.users

lemma AdminSafe.locksAdmin (safe : AdminSafe s) (locked : s.Locked tx)
    (admin : HasAdmin s.users) : LocksAdmin s.users s.locks tx := by
  obtain ⟨t, ht, hp⟩ := locked
  exact (safe.txs tx t ht).locksAdmin hp admin

/-! ## Steps that leave the rows as they are -/

section
variable {s : UserStore} {tx : ID} {locks : Locks ID ID} {users : List User} {anchors : List ID} {t : UserTx}

lemma AdminSafe.act (safe : AdminSafe s) {x : Option UserTx} {locks' : Locks ID ID} (sound : Sound locks')
    (others : ∀ tx' ≠ tx, ∀ row, Holds s.locks tx' row .exclusive → Holds locks' tx' row .exclusive)
    (own : ∀ t, x = some t → TxSafe s.users locks' tx t.write t.phase)
    (locked : ∀ t, x = some t → t.phase.Locked →
      s.Locked tx ∨ ∀ id, LiveAt s.users id → Holds locks' tx id .exclusive) :
    AdminSafe { s with locks := locks', txs := Function.update s.txs tx x } where
  keyed := safe.keyed
  fresh := safe.fresh
  sound := sound
  txs := by
    intro tx' t ht
    by_cases e : tx' = tx
    · subst e
      exact own t (by simpa using ht)
    · exact (safe.txs tx' t (by simpa [e] using ht)).mono_locks (others tx' e)
  alone := by
    have key : ∀ tx', tx' ≠ tx → s.Locked tx' → ∀ t, x = some t → t.phase.Locked → ¬ HasAdmin s.users := by
      intro tx' ne hlocked t hx hp admin
      rcases locked t hx hp with was | all
      · exact safe.alone tx' tx hlocked was ne admin
      · obtain ⟨id, live, holds⟩ := safe.locksAdmin hlocked admin
        exact ne (sound.exclusive (all id live) (others tx' ne id holds))
    rintro tx1 tx2 ⟨t1, h1, p1⟩ ⟨t2, h2, p2⟩ ne
    by_cases e1 : tx1 = tx
    · subst e1
      exact key tx2 ne.symm ⟨t2, by simpa [ne.symm] using h2, p2⟩ t1 (by simpa using h1) p1
    have was1 : s.Locked tx1 := ⟨t1, by simpa [e1] using h1, p1⟩
    by_cases e2 : tx2 = tx
    · subst e2
      exact key tx1 e1 was1 t2 (by simpa using h2) p2
    · exact safe.alone tx1 tx2 was1 ⟨t2, by simpa [e2] using h2, p2⟩ ne

lemma AdminSafe.put (safe : AdminSafe s) (own : TxSafe s.users s.locks tx t.write t.phase)
    (locked : t.phase.Locked → s.Locked tx ∨ ∀ id, LiveAt s.users id → Holds s.locks tx id .exclusive) :
    AdminSafe (s.put tx t) :=
  safe.act safe.sound (fun _ _ _ h => h) (by rintro _ ⟨⟩; exact own) (by rintro _ ⟨⟩; exact locked)

lemma AdminSafe.lock (safe : AdminSafe s) {row : ID} (grants : Grants s.locks tx row .exclusive)
    (own : TxSafe s.users (s.lock tx row).locks tx t.write t.phase)
    (locked : t.phase.Locked →
    s.Locked tx ∨ ∀ id, LiveAt s.users id → Holds (s.lock tx row).locks tx id .exclusive) :
    AdminSafe ((s.lock tx row).put tx t) :=
  safe.act (safe.sound.acquire grants) (fun _ _ _ h => h.acquire) (by rintro _ ⟨⟩; exact own)
    (by rintro _ ⟨⟩; exact locked)

lemma AdminSafe.close (safe : AdminSafe s) (tx : ID) : AdminSafe (s.close tx) :=
  safe.act (safe.sound.release tx) (fun _ ne _ h => h.release ne) nofun nofun

lemma txSafe_locking {w : UserWrite}
    (h : ∀ id, LiveAt users id → id ∈ anchors ∨ Holds locks tx id .exclusive) :
    TxSafe users locks tx w (.locking anchors) := by
  cases anchors with
  | cons a anchors => exact h
  | nil =>
    intro admin
    obtain ⟨id, live⟩ := hasAdmin_iff.mp admin
    exact ⟨id, live, (h id live).resolve_left not_mem_nil⟩

lemma held_of_locked (h : ∀ id, LiveAt users id → id ∈ anchors ∨ Holds locks tx id .exclusive)
    (locked : (UserTxPhase.locking anchors).Locked) :
    ∀ id, LiveAt users id → Holds locks tx id .exclusive := by
  cases anchors with
  | cons => exact locked.elim
  | nil => exact fun id live => (h id live).resolve_left not_mem_nil

section
variable (safe : AdminSafe s)
include safe

lemma AdminSafe.listLiveAdmins (w : UserWrite) :
    AdminSafe ((UserStep.listLiveAdmins tx w).next s) := by
  have all : ∀ id, LiveAt s.users id → id ∈ listLiveAdminIDs s.users ∨ Holds s.locks tx id .exclusive :=
    fun id live => .inl (mem_listLiveAdminIDs.mpr live)
  exact safe.put (txSafe_locking all) fun locked => .inr (held_of_locked all locked)

lemma AdminSafe.lockAnchor (enabled : (UserStep.lockAnchor tx).Enabled s) :
    AdminSafe ((UserStep.lockAnchor tx).next s) := by
  simp only [UserStep.Enabled] at enabled
  simp only [UserStep.next, Sqi.lockAnchor]
  split at enabled
  · rename_i w a anchors ht
    have left := safe.txs tx _ ht
    split
    · rename_i there
      have all : ∀ id, LiveAt s.users id → id ∈ anchors ∨ Holds (s.lock tx a).locks tx id .exclusive := by
        intro id live
        rcases left id live with hid | holds
        · rcases mem_cons.mp hid with rfl | hid
          · exact .inr holds_acquire
          · exact .inl hid
        · exact .inr holds.acquire
      exact safe.lock (enabled there) (txSafe_locking all) fun locked => .inr (held_of_locked all locked)
    · rename_i gone
      have all : ∀ id, LiveAt s.users id → id ∈ anchors ∨ Holds s.locks tx id .exclusive := by
        intro id live
        rcases left id live with hid | holds
        · rcases mem_cons.mp hid with rfl | hid
          · obtain ⟨u, hu, hid, -⟩ := live
            exact absurd ⟨u, hu, hid⟩ gone
          · exact .inl hid
        · exact .inr holds
      exact safe.put (txSafe_locking all) fun locked => .inr (held_of_locked all locked)
  · exact enabled.elim

lemma AdminSafe.startWrite (enabled : (UserStep.startWrite tx).Enabled s) :
    AdminSafe ((UserStep.startWrite tx).next s) := by
  simp only [UserStep.Enabled] at enabled
  simp only [UserStep.next]
  split at enabled
  · rename_i w ht
    exact safe.put ⟨safe.txs tx _ ht, safe.keyed, fun _ _ live => live⟩ fun _ => .inl ⟨_, ht, trivial⟩
  · exact enabled.elim

lemma AdminSafe.writeRow (enabled : (UserStep.writeRow tx).Enabled s) :
    AdminSafe ((UserStep.writeRow tx).next s) := by
  simp only [UserStep.Enabled] at enabled
  simp only [UserStep.next, writeUserRow]
  split at enabled
  · rename_i w snapshot ht
    obtain ⟨anchored, keyed, kept⟩ := safe.txs tx _ ht
    split
    · rename_i found
      refine safe.lock (enabled found.1) ⟨?_, holds_acquire, ?_⟩ fun _ => .inl ⟨_, ht, trivial⟩
      · intro admin
        obtain ⟨id, live, holds⟩ := anchored admin
        exact ⟨id, live, holds.acquire⟩
      · exact fun admin => UserWrite.hasAdmin_apply keyed safe.keyed found.2 admin (kept admin)
    · exact safe.close tx
  · exact enabled.elim

end
end

/-! ## Steps that change the rows -/

def UserStep.Admits (s : UserStore) : UserStep → Prop
  | .createUser u => u.LiveAdmin
  | .commit tx => ∃ t ∈ s.txs tx, t.write.Promotes s.users
  | _ => False

instance (s : UserStore) : DecidablePred (UserStep.Admits s)
  | .createUser _ => inferInstanceAs (Decidable (User.LiveAdmin _))
  | .commit _ => inferInstanceAs (Decidable (∃ t ∈ _, _))
  | .listLiveAdmins .. | .lockAnchor _ | .startWrite _ | .writeRow _ | .rollback _ =>
    isFalse id

def AdmitsAfterLocks (s : UserStore) (l : UserStep) : Prop :=
  l.Admits s → ∀ tx t, s.txs tx = some t → l ≠ .commit tx → t.phase.Locked ∧ LocksAdmin s.users s.locks tx

section
variable {s : UserStore}
variable {users : List User} {u : User} {tx : ID} {locks : Locks ID ID} {p : UserTxPhase} {w : UserWrite}

lemma hasAdmin_append (h : HasAdmin users) : HasAdmin (users ++ [u]) := by
  obtain ⟨v, hv, live⟩ := h
  exact ⟨v, mem_append_left _ hv, live⟩

lemma TxSafe.createUser (h : TxSafe users locks tx w p)
    (admits : u.LiveAdmin → p.Locked ∧ LocksAdmin users locks tx) :
    TxSafe (users ++ [u]) locks tx w p := by
  -- The admins are the same, or there was one before.
  have before : HasAdmin (users ++ [u]) → p.Locked → HasAdmin users := by
    intro admin _
    obtain ⟨id, live⟩ := hasAdmin_iff.mp admin
    rcases liveAt_append.mp live with live | ⟨-, live⟩
    · exact live.hasAdmin
    · obtain ⟨-, id, live, -⟩ := admits live
      exact live.hasAdmin
  have hanchored : p.Locked → HasAdmin (users ++ [u]) → LocksAdmin (users ++ [u]) locks tx := by
    intro locked admin
    obtain ⟨id, live, holds⟩ := h.locksAdmin locked (before admin locked)
    exact ⟨id, liveAt_append.mpr (.inl live), holds⟩
  cases p with
  | locking anchors =>
    cases anchors with
    | nil => exact hanchored trivial
    | cons a anchors =>
      intro id live
      rcases liveAt_append.mp live with live | ⟨-, live⟩
      · exact h id live
      · exact (admits live).1.elim
  | writing snapshot =>
    exact ⟨hanchored trivial, h.2.1, fun admin id live =>
      liveAt_append.mpr (.inl (h.2.2 (before admin trivial) id live))⟩
  | written =>
    refine ⟨hanchored trivial, h.2.1, fun admin => ?_⟩
    obtain ⟨v, hv, live⟩ := h.2.2 (before admin trivial)
    rw [UserWrite.apply_append]
    exact ⟨v, mem_append_left _ hv, live⟩

lemma AdminSafe.createUser (safe : AdminSafe s) (enabled : (UserStep.createUser u).Enabled s)
    (admits : AdmitsAfterLocks s (.createUser u)) : AdminSafe ((UserStep.createUser u).next s) where
  keyed := safe.keyed.append_singleton fun v hv e => enabled (e ▸ safe.fresh v hv)
  fresh := by
    intro v hv
    rcases mem_append.mp hv with hv | hv
    · exact mem_cons_of_mem _ (safe.fresh v hv)
    · obtain rfl := mem_singleton.mp hv
      exact mem_cons_self
  sound := safe.sound
  txs := fun tx t ht => (safe.txs tx t ht).createUser fun live => admits live tx t ht nofun
  alone := by
    intro tx tx' locked locked' ne admin
    have none := safe.alone tx tx' locked locked' ne
    obtain ⟨id, live⟩ := hasAdmin_iff.mp admin
    rcases liveAt_append.mp live with live | ⟨-, live⟩
    · exact none live.hasAdmin
    · obtain ⟨t, ht, -⟩ := locked
      obtain ⟨-, id, live, -⟩ := admits live tx t ht nofun
      exact none live.hasAdmin

lemma hasAdmin_before_commit {tx' : ID} {t t' : UserTx} (admits : AdmitsAfterLocks s (.commit tx))
    (ht : s.txs tx = some t) (ht' : s.txs tx' = some t') (ne : tx' ≠ tx)
    (admin : HasAdmin (t.write.apply s.users)) : HasAdmin s.users := by
  obtain ⟨id, live⟩ := hasAdmin_iff.mp admin
  rcases UserWrite.liveAt_of_apply live with live | promotes
  · exact live.hasAdmin
  · obtain ⟨-, id, live, -⟩ := admits ⟨t, ht, promotes⟩ tx' t' ht' (by simpa using ne.symm)
    exact live.hasAdmin

lemma TxSafe.of_none {users' : List User}
    (h : TxSafe users locks tx w p) (locked : p.Locked) (none : ¬ HasAdmin users') :
    TxSafe users' locks tx w p := by
  cases p with
  | locking anchors =>
    cases anchors with
    | nil => exact fun admin => absurd admin none
    | cons => exact locked.elim
  | writing => exact ⟨fun admin => absurd admin none, h.2.1, fun admin => absurd admin none⟩
  | written => exact ⟨fun admin => absurd admin none, h.2.1, fun admin => absurd admin none⟩

lemma AdminSafe.commit (safe : AdminSafe s) (enabled : (UserStep.commit tx).Enabled s)
    (admits : AdmitsAfterLocks s (.commit tx)) : AdminSafe ((UserStep.commit tx).next s) := by
  simp only [UserStep.Enabled] at enabled
  simp only [UserStep.next, commitUserTx]
  split at enabled
  · rename_i w ht
    have closed := safe.close tx
    have locked : s.Locked tx := ⟨_, ht, trivial⟩
    have open_ : ∀ tx' t', (s.close tx).txs tx' = some t' → tx' ≠ tx ∧ s.txs tx' = some t' := by
      intro tx' t' ht'
      by_cases e : tx' = tx
      · simp [UserStore.close, e] at ht'
      · exact ⟨e, by simpa [UserStore.close, e] using ht'⟩
    refine ⟨UserWrite.keyed_apply safe.keyed, UserWrite.id_of_mem_apply safe.fresh, closed.sound, ?_, ?_⟩
    · intro tx' t' ht'
      obtain ⟨ne, was⟩ := open_ tx' t' ht'
      by_cases hp : t'.phase.Locked
      · -- No two transactions hold all their locks while there is an admin.
        refine (closed.txs tx' t' ht').of_none hp fun admin => ?_
        exact safe.alone tx tx' locked ⟨t', was, hp⟩ ne.symm
          (hasAdmin_before_commit admits ht was ne admin)
      · obtain ⟨w', p'⟩ := t'
        rcases p' with (_ | ⟨a, anchors⟩) | _ | _
        case locking.cons =>
          intro id live
          rcases UserWrite.liveAt_of_apply live with live | promotes
          · exact closed.txs tx' _ ht' id live
          · exact absurd (admits ⟨_, ht, promotes⟩ tx' _ was (by simpa using ne.symm)).1 hp
        all_goals exact absurd trivial hp
    · rintro tx1 tx2 ⟨t1, h1, p1⟩ ⟨t2, h2, p2⟩ ne admin
      obtain ⟨ne1, was1⟩ := open_ tx1 t1 h1
      obtain ⟨-, was2⟩ := open_ tx2 t2 h2
      exact safe.alone tx1 tx2 ⟨t1, was1, p1⟩ ⟨t2, was2, p2⟩ ne
        (hasAdmin_before_commit admits ht was1 ne1 admin)
  · exact enabled.elim

end

lemma adminSafe_next (safe : AdminSafe s) {l : UserStep} (enabled : l.Enabled s)
    (admits : AdmitsAfterLocks s l) : AdminSafe (l.next s) := by
  cases l with
  | createUser u => exact safe.createUser enabled admits
  | listLiveAdmins tx w => exact safe.listLiveAdmins w
  | lockAnchor tx => exact safe.lockAnchor enabled
  | startWrite tx => exact safe.startWrite enabled
  | writeRow tx => exact safe.writeRow enabled
  | commit tx => exact safe.commit enabled admits
  | rollback tx => exact safe.close tx

lemma adminSafe_init : AdminSafe userStore.init where
  keyed := nodup_nil
  fresh := nofun
  sound := Sound.nil
  txs := nofun
  alone := by
    rintro _ _ ⟨_, h, -⟩
    cases h

lemma hasAdmin_next (safe : AdminSafe s) (admin : HasAdmin s.users) (l : UserStep) :
    HasAdmin (l.next s).users := by
  cases l with
  | createUser u => exact hasAdmin_append admin
  | listLiveAdmins tx w => exact admin
  | lockAnchor tx =>
    simp only [UserStep.next, lockAnchor]
    split
    · split <;> exact admin
    · exact admin
  | startWrite tx =>
    simp only [UserStep.next]
    split <;> exact admin
  | writeRow tx =>
    simp only [UserStep.next, writeUserRow]
    split
    · split <;> exact admin
    · exact admin
  | commit tx =>
    simp only [UserStep.next, commitUserTx]
    split
    · rename_i w ht
      exact (safe.txs tx _ ht).2.2 admin
    · exact admin
  | rollback tx => exact admin

lemma adminSafe_run {h : List (UserStore × UserStep)}
    (run : Run (userStore.guarded fun _ s l => AdmitsAfterLocks s l) h s) : AdminSafe s := by
  refine run.safe (P := AdminSafe) ?_ ?_
  · exact adminSafe_init
  · rintro _ s l - safe ⟨enabled, admits⟩
    exact adminSafe_next safe enabled admits

/-- Once there is an enabled admin there always is one, in every run in which an
account becomes one only after the open transactions have their locks. -/
theorem enabled_admin_remains {h : List (UserStore × UserStep)} {s : UserStore}
    (run : Run (userStore.guarded fun _ s l => AdmitsAfterLocks s l) h s) {s' : UserStore}
    (visited : Visited h s s') (admin : HasAdmin s'.users) : HasAdmin s.users := by
  refine run.stable (Q := fun s => HasAdmin s.users) ?_ visited admin
  intro _ s l run' _ admin'
  exact hasAdmin_next (adminSafe_run run') admin' l

/-! Two admins lose their role and their account at the same time. -/

def root : User := ⟨1, "root", "admin", false⟩
def deputy : User := ⟨2, "deputy", "admin", false⟩
def twoRemovals : List UserStep :=
  [.listLiveAdmins 1 (.update { root with role := "user" }), .listLiveAdmins 2 (.delete 2),
    .lockAnchor 1, .lockAnchor 1, .startWrite 1, .writeRow 1, .commit 1,
    .lockAnchor 2, .lockAnchor 2, .startWrite 2, .writeRow 2]

theorem enabled_admin_remains_twoRemovals :
    ∃ h s s', Run (userStore.guarded fun _ s l => AdmitsAfterLocks s l) h s ∧ Visited h s s' ∧
      HasAdmin s'.users ∧ s.users = [{ root with role := "user" }, deputy] ∧ HasAdmin s.users := by
  have created : (userStore.guarded fun _ s l => AdmitsAfterLocks s l).Permits
      [.createUser root, .createUser deputy] [] userStore.init :=
    ⟨⟨by decide, fun _ _ _ h => nomatch h⟩, ⟨by decide, fun _ _ _ h => nomatch h⟩, trivial⟩
  have permits : (userStore.guarded fun _ s l => ¬ l.Admits s).Permits twoRemovals
      (userStore.exec [.createUser root, .createUser deputy] [] userStore.init).1
      (userStore.exec [.createUser root, .createUser deputy] [] userStore.init).2 := by decide +kernel
  have run := (Run.start.exec created).exec (permits.imp fun _ _ _ hnot admits => absurd admits hnot)
  have admin : HasAdmin (userStore.exec [.createUser root, .createUser deputy] [] userStore.init).2.users := by
    decide
  exact ⟨_, _, _, run, Visited.now.exec, admin, by decide +kernel,
    enabled_admin_remains run Visited.now.exec admin⟩

def staleAnchors : List UserStep :=
  [.listLiveAdmins 1 (.delete 2), .createUser deputy, .createUser ⟨3, "stand-in", "admin", false⟩,
    .listLiveAdmins 2 (.delete 1), .lockAnchor 2, .lockAnchor 2, .lockAnchor 2, .startWrite 2,
    .writeRow 2, .commit 2,
    .lockAnchor 1,
    .listLiveAdmins 3 (.update ⟨3, "stand-in", "user", false⟩), .lockAnchor 3, .lockAnchor 3,
    .startWrite 3, .writeRow 3,
    .startWrite 1, .commit 3, .writeRow 1, .commit 1]

theorem last_admin_removed :
    ∃ h s s', Run userStore h s ∧ Visited h s s' ∧ HasAdmin s'.users ∧ ¬ HasAdmin s.users := by
  have created : userStore.Permits [.createUser root] [] userStore.init := by decide
  have permits : userStore.Permits staleAnchors (userStore.exec [.createUser root] [] userStore.init).1
      (userStore.exec [.createUser root] [] userStore.init).2 := by decide +kernel
  exact ⟨_, _, _, (Run.start.exec created).exec permits, Visited.now.exec, by decide,
    by decide +kernel⟩

end Sqi

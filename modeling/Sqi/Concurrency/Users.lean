import Mathlib.Data.List.Sort
import Mathlib.Logic.Function.Basic
import Sqi.Lib.Lock
import Sqi.Lib.Run
import Sqi.Store.Types

/-! The writes of user accounts (`sqlstore/user.go`) under read-committed isolation. -/

namespace Sqi
open Function RowLock Table Transition

structure User where
  id : ID
  displayName : String
  role : String
  disabled : Bool
  deriving DecidableEq

def User.LiveAdmin (u : User) : Prop := u.role = "admin" ∧ u.disabled = false
deriving Decidable

def LastLiveAdmin (users : List User) (u : User) : Prop :=
  u.LiveAdmin ∧ users.countP (fun o => o.LiveAdmin) ≤ 1
deriving Decidable

def listLiveAdminIDs (users : List User) : List ID :=
  ((users.filter fun u => u.LiveAdmin).map (·.id)).insertionSort (· ≤ ·)

/-! ## The guarded statements -/

inductive UserWrite where
  /-- `sqlUpdateUserKeepingAdmin`. -/
  | update (u : User)
  /-- `sqlDeleteUserKeepingAdmin`. -/
  | delete (id : ID)
  deriving DecidableEq

def UserWrite.target : UserWrite → ID
  | .update u => u.id
  | .delete id => id
def UserWrite.Allows (users : List User) : UserWrite → User → Prop
  | .update u, o => ¬ (LastLiveAdmin users o ∧ ¬ u.LiveAdmin)
  | .delete _, o => ¬ LastLiveAdmin users o

instance (users : List User) : ∀ w : UserWrite, DecidablePred (w.Allows users)
  | .update _ => fun _ => inferInstanceAs (Decidable (¬ (_ ∧ ¬ _)))
  | .delete _ => fun _ => inferInstanceAs (Decidable (¬ _))

def UserWrite.Finds (w : UserWrite) (counted users : List User) : Prop :=
  ∃ o ∈ users, o.id = w.target ∧ w.Allows counted o

instance (w : UserWrite) (counted users : List User) : Decidable (w.Finds counted users) :=
  inferInstanceAs (Decidable (∃ o ∈ users, _ ∧ _))

def UserWrite.apply : UserWrite → List User → List User
  | .update u, users => Table.update (fun o => o.id = u.id)
      (fun o => { o with displayName := u.displayName, role := u.role, disabled := u.disabled }) users
  | .delete id, users => users.filter fun o => o.id ≠ id

/-! ## Transactions and steps -/

inductive UserTxPhase where
  /-- The admins are listed and these rows are left to lock. -/
  | locking (anchors : List ID)
  /-- The guarded statement has started on these rows. -/
  | writing (snapshot : List User)
  /-- It has written its row. -/
  | written
  deriving DecidableEq

structure UserTx where
  write : UserWrite
  phase : UserTxPhase
  deriving DecidableEq

structure UserStore where
  users : List User
  created : List ID
  locks : Locks ID ID
  txs : ID → Option UserTx

namespace UserStore

def put (s : UserStore) (tx : ID) (t : UserTx) : UserStore :=
  { s with txs := update s.txs tx (some t) }
def lock (s : UserStore) (tx row : ID) : UserStore :=
  { s with locks := acquire s.locks tx row .exclusive }
def close (s : UserStore) (tx : ID) : UserStore :=
  { s with locks := release s.locks tx, txs := update s.txs tx none }

end UserStore

inductive UserStep where
  | createUser (u : User)
  | listLiveAdmins (tx : ID) (w : UserWrite)
  | lockAnchor (tx : ID)
  | startWrite (tx : ID)
  | writeRow (tx : ID)
  | commit (tx : ID)
  | rollback (tx : ID)
  deriving DecidableEq

def lockAnchor (tx : ID) (s : UserStore) : UserStore :=
  match s.txs tx with
  | some ⟨w, .locking (a :: anchors)⟩ =>
    if ∃ u ∈ s.users, u.id = a then (s.lock tx a).put tx ⟨w, .locking anchors⟩
    else s.put tx ⟨w, .locking anchors⟩
  | _ => s

def writeUserRow (tx : ID) (s : UserStore) : UserStore :=
  match s.txs tx with
  | some ⟨w, .writing snapshot⟩ =>
    if w.Finds snapshot snapshot ∧ w.Finds snapshot s.users then
      (s.lock tx w.target).put tx ⟨w, .written⟩
    else s.close tx
  | _ => s

def commitUserTx (tx : ID) (s : UserStore) : UserStore :=
  match s.txs tx with
  | some ⟨w, .written⟩ => { s.close tx with users := w.apply s.users }
  | _ => s

def UserStep.next : UserStep → UserStore → UserStore
  | .createUser u, s => { s with users := s.users ++ [u], created := u.id :: s.created }
  | .listLiveAdmins tx w, s => s.put tx ⟨w, .locking (listLiveAdminIDs s.users)⟩
  | .lockAnchor tx, s => Sqi.lockAnchor tx s
  | .startWrite tx, s =>
    match s.txs tx with
    | some ⟨w, .locking []⟩ => s.put tx ⟨w, .writing s.users⟩
    | _ => s
  | .writeRow tx, s => writeUserRow tx s
  | .commit tx, s => commitUserTx tx s
  | .rollback tx, s => s.close tx

def UserStep.Enabled (s : UserStore) : UserStep → Prop
  | .createUser u => u.id ∉ s.created
  | .listLiveAdmins tx _ => s.txs tx = none
  | .lockAnchor tx =>
    match s.txs tx with
    | some ⟨_, .locking (a :: _)⟩ => (∃ u ∈ s.users, u.id = a) → Grants s.locks tx a .exclusive
    | _ => False
  | .startWrite tx =>
    match s.txs tx with
    | some ⟨_, .locking []⟩ => True
    | _ => False
  | .writeRow tx =>
    match s.txs tx with
    | some ⟨w, .writing snapshot⟩ =>
      w.Finds snapshot snapshot → Grants s.locks tx w.target .exclusive
    | _ => False
  | .commit tx =>
    match s.txs tx with
    | some ⟨_, .written⟩ => True
    | _ => False
  | .rollback _ => True

instance (s : UserStore) : DecidablePred (UserStep.Enabled s)
  | .createUser _ => inferInstanceAs (Decidable (¬ _))
  | .listLiveAdmins .. => inferInstanceAs (Decidable (_ = none))
  | .lockAnchor tx | .startWrite tx | .writeRow tx | .commit tx => by
    unfold UserStep.Enabled
    dsimp only
    split <;> infer_instance
  | .rollback _ => isTrue trivial

def userStore : System UserStore UserStep where
  init := ⟨[], [], [], fun _ => none⟩
  enabled := fun _ s l => l.Enabled s
  next := UserStep.next

instance (h : List (UserStore × UserStep)) (s : UserStore) (l : UserStep) :
    Decidable (userStore.enabled h s l) :=
  inferInstanceAs (Decidable (l.Enabled s))

end Sqi

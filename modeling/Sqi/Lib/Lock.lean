import Mathlib.Data.List.Basic

/-! Row locks of concurrent transactions.

A table lists who holds which row in which mode. -/

namespace RowLock
open List

inductive Mode where
  | share
  | exclusive
  deriving DecidableEq

def Mode.Compatible (m m' : Mode) : Prop := m = .share ∧ m' = .share
deriving Decidable

lemma Mode.Compatible.symm {m m' : Mode} (h : m.Compatible m') : m'.Compatible m := ⟨h.2, h.1⟩

structure Lock (Tx Row : Type*) where
  tx : Tx
  row : Row
  mode : Mode

abbrev Locks (Tx Row : Type*) := List (Lock Tx Row)

variable {Tx Row : Type*}

def Holds (ls : Locks Tx Row) (tx : Tx) (row : Row) (mode : Mode) : Prop := ⟨tx, row, mode⟩ ∈ ls
def Grants (ls : Locks Tx Row) (tx : Tx) (row : Row) (mode : Mode) : Prop :=
  ∀ l ∈ ls, l.row = row → l.tx = tx ∨ mode.Compatible l.mode

instance [DecidableEq Tx] [DecidableEq Row] (ls : Locks Tx Row) (tx : Tx) (row : Row) (mode : Mode) :
    Decidable (Grants ls tx row mode) := by
  unfold Grants; infer_instance

def acquire (ls : Locks Tx Row) (tx : Tx) (row : Row) (mode : Mode) : Locks Tx Row :=
  ⟨tx, row, mode⟩ :: ls
def release [DecidableEq Tx] (ls : Locks Tx Row) (tx : Tx) : Locks Tx Row :=
  ls.filter fun l => l.tx ≠ tx
def Sound (ls : Locks Tx Row) : Prop :=
  ∀ l ∈ ls, ∀ l' ∈ ls, l.row = l'.row → l.tx = l'.tx ∨ l.mode.Compatible l'.mode

variable {ls : Locks Tx Row} {tx tx' : Tx} {row : Row} {mode : Mode}

lemma Sound.nil : Sound ([] : Locks Tx Row) := by simp [Sound]

lemma Sound.acquire (s : Sound ls) (g : Grants ls tx row mode) : Sound (acquire ls tx row mode) := by
  intro l hl l' hl' e
  rcases mem_cons.mp hl with rfl | hl <;> rcases mem_cons.mp hl' with rfl | hl'
  · exact .inl rfl
  · exact (g l' hl' e.symm).imp Eq.symm id
  · exact (g l hl e).imp id Mode.Compatible.symm
  · exact s l hl l' hl' e

lemma Sound.release [DecidableEq Tx] (s : Sound ls) (tx : Tx) : Sound (release ls tx) :=
  fun l hl l' hl' => s l (mem_of_mem_filter hl) l' (mem_of_mem_filter hl')

lemma Sound.exclusive (s : Sound ls) (h : Holds ls tx row .exclusive) (h' : Holds ls tx' row mode) :
    tx' = tx := by
  rcases s _ h _ h' rfl with e | c
  · exact e.symm
  · cases c.1

lemma holds_acquire : Holds (acquire ls tx row mode) tx row mode := mem_cons_self
lemma Holds.acquire {row' : Row} {mode' : Mode} (h : Holds ls tx' row' mode') :
    Holds (acquire ls tx row mode) tx' row' mode' :=
  mem_cons_of_mem _ h
lemma Holds.release [DecidableEq Tx] (h : Holds ls tx' row mode) (ne : tx' ≠ tx) :
    Holds (release ls tx) tx' row mode :=
  mem_filter.mpr ⟨h, decide_eq_true ne⟩

end RowLock

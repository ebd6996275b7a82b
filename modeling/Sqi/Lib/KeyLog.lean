import Mathlib.Logic.Basic
import Mathlib.Data.List.Basic

/-! One key of a store that keeps its writes in a log. -/

namespace KeyLog
open List Option
variable {α : Type*}

inductive Message (α : Type*) where
  | put (v : α)
  | delete
  deriving DecidableEq

structure Key (α : Type*) where
  log : List (Message α)
  removed : Bool
  deriving DecidableEq

namespace Key

def seq (k : Key α) : Nat := k.log.length
def lastSeq (k : Key α) : Nat := if k.removed then 0 else k.seq
def value? (k : Key α) : Option α :=
  match k.log with
  | .put v :: _ => if k.removed then none else some v
  | _ => none

def push (k : Key α) (m : Message α) : Key α := ⟨m :: k.log, false⟩
def expire (k : Key α) : Key α := { k with removed := true }
def create (k : Key α) (v : α) : Option (Key α) :=
  match k.value? with
  | none => some (k.push (.put v))
  | some _ => none

def update (k : Key α) (v : α) (rev : Nat) : Option (Key α) :=
  if k.lastSeq = rev then some (k.push (.put v)) else none
def delete (k : Key α) (rev : Nat) : Option (Key α) :=
  if rev = 0 ∨ k.lastSeq = rev then some (k.push .delete) else none
def At (k : Key α) (q : Nat) (m : Message α) : Prop :=
  ∃ newer older, k.log = newer ++ m :: older ∧ older.length + 1 = q

variable {k : Key α} {q : Nat} {m m' : Message α} {v : α} {k' : Key α} {rev : Nat}

lemma At.le_seq (h : k.At q m) : q ≤ k.seq := by
  obtain ⟨newer, older, e, rfl⟩ := h
  rw [seq, e, length_append, length_cons]
  omega
lemma At.pos (h : k.At q m) : 0 < q := by
  obtain ⟨_, _, _, rfl⟩ := h
  omega

lemma At.unique (h : k.At q m) (h' : k.At q m') : m = m' := by
  obtain ⟨newer, older, e, hq⟩ := h
  obtain ⟨newer', older', e', hq'⟩ := h'
  have happ := e.symm.trans e'
  have hlen : older.length = older'.length := by omega
  obtain ⟨_, htail⟩ := append_inj' happ (by simp [hlen])
  exact (List.cons.inj htail).1

lemma At.push (h : k.At q m) (m' : Message α) : (k.push m').At q m := by
  obtain ⟨newer, older, e, hq⟩ := h
  exact ⟨m' :: newer, older, by rw [Key.push, e]; rfl, hq⟩
lemma at_push_seq : (k.push m).At (k.seq + 1) m := ⟨[], k.log, rfl, rfl⟩

lemma At.of_push (h : (k.push m').At q m) : k.At q m ∨ q = k.seq + 1 ∧ m = m' := by
  obtain ⟨newer, older, e, hq⟩ := h
  cases newer with
  | nil =>
    obtain ⟨rfl, rfl⟩ := List.cons.inj e
    exact .inr ⟨hq.symm, rfl⟩
  | cons x newer => exact .inl ⟨newer, older, (List.cons.inj e).2, hq⟩

lemma at_seq_of_value? (h : k.value? = some v) : k.At k.seq (.put v) := by
  unfold value? at h
  split at h
  · rename_i w older e
    split at h
    · cases h
    · obtain rfl := some.inj h
      exact ⟨[], older, e, by rw [seq, e]; rfl⟩
  · cases h

lemma value?_of_lastSeq (h : k.lastSeq = q) (hq : k.At q (.put v)) : k.value? = some v ∧ q = k.seq := by
  unfold lastSeq at h
  split at h
  · exact absurd hq.pos (by omega)
  rename_i hr
  obtain ⟨newer, older, e, hlen⟩ := hq
  rw [seq, e, length_append, length_cons] at h
  have hnil : newer = [] := eq_nil_of_length_eq_zero (by omega)
  rw [hnil, nil_append] at e
  exact ⟨by simp [value?, e, hr], by rw [seq, e, length_cons, hlen]⟩

lemma create_eq_some (h : k.create v = some k') : k' = k.push (.put v) := by
  unfold create at h
  split at h
  · exact (some.inj h).symm
  · cases h

lemma update_eq_some (h : k.update v rev = some k') : k.lastSeq = rev ∧ k' = k.push (.put v) := by
  unfold update at h
  split at h
  · rename_i hr
    exact ⟨hr, (some.inj h).symm⟩
  · cases h

lemma delete_eq_some (h : k.delete rev = some k') : (rev = 0 ∨ k.lastSeq = rev) ∧ k' = k.push .delete := by
  unfold delete at h
  split at h
  · rename_i hr
    exact ⟨hr, (some.inj h).symm⟩
  · cases h

end Key
end KeyLog

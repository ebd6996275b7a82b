import Mathlib.Algebra.GroupWithZero.Nat
import Mathlib.Data.List.Perm.Basic
import Mathlib.Data.List.Count
import Mathlib.Algebra.BigOperators.Group.List.Basic

/-! Sequential processes that interleave. -/

namespace Pool
open List
variable {A : Type*}

abbrev Procs (A : Type*) := List (List A)

def next? (ps : Procs A) (i : Nat) : Option A := ps[i]?.bind List.head?
def resume (ps : Procs A) (i : Nat) (k : List A) : Procs A := ps.modify i fun p => k ++ p.tail
def spawn (ps : Procs A) (p : List A) : Procs A := ps ++ [p]
def pending (ps : Procs A) : List A := ps.flatten

variable {ps : Procs A} {i : Nat} {a b : A} {k : List A}

@[simp] lemma pending_spawn (p : List A) : pending (spawn ps p) = pending ps ++ p := by simp [pending, spawn]
@[simp] lemma next?_spawn (p : List A) : next? (spawn ps p) ps.length = p.head? := by simp [next?, spawn]

@[simp] lemma resume_spawn (p k : List A) : resume (spawn ps p) ps.length k = spawn ps (k ++ p.tail) := by
  unfold resume spawn
  induction ps with
  | nil => rfl
  | cons q ps ih => simpa using ih

section
variable (h : next? ps i = some a)
include h

lemma pending_resume : (a :: pending (resume ps i k)).Perm (k ++ pending ps) := by
  induction ps generalizing i with
  | nil => simp [next?] at h
  | cons p ps ih =>
    cases i with
    | zero =>
      cases p with
      | nil => simp [next?] at h
      | cons b p =>
        obtain rfl : b = a := by simpa [next?] using h
        simp only [resume, modify_zero_cons, pending, flatten_cons, tail_cons, append_assoc, cons_append]
        exact perm_middle.symm
    | succ i =>
      have h' : next? ps i = some a := by simpa [next?] using h
      simp only [resume, modify_succ_cons, pending, flatten_cons]
      calc a :: (p ++ (ps.modify i fun p => k ++ p.tail).flatten)
        _ ~ p ++ a :: (ps.modify i fun p => k ++ p.tail).flatten := perm_middle.symm
        _ ~ p ++ (k ++ ps.flatten) := (ih h').append_left p
        _ ~ k ++ (p ++ ps.flatten) := by
            rw [← append_assoc, ← append_assoc]
            exact List.perm_append_comm.append_right _

lemma next?_mem : a ∈ pending ps := by
  have hp : a ∈ [] ++ pending ps := (pending_resume (k := []) h).subset mem_cons_self
  simpa using hp
lemma mem_pending_resume (hb : b ∈ pending (resume ps i k)) :
    b ∈ k ∨ b ∈ pending ps :=
  mem_append.mp ((pending_resume h).subset (mem_cons_of_mem _ hb))

lemma sum_pending_resume (f : A → Nat) :
    ((pending (resume ps i k)).map f).sum + f a = (k.map f).sum + ((pending ps).map f).sum := by
  have e := ((pending_resume (k := k) h).map f).sum_eq
  simp only [map_cons, sum_cons, map_append, sum_append] at e
  omega

lemma count_pending_resume [DecidableEq A] (b : A) :
    (pending (resume ps i k)).count b + (if a = b then 1 else 0) = k.count b + (pending ps).count b := by
  rw [← count_append, ← (pending_resume h).count_eq, count_cons]
  simp only [beq_iff_eq]

end
end Pool

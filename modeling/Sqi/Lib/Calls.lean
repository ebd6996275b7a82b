import Mathlib.Logic.Function.Basic
import Mathlib.Data.List.Basic

/-! Calls of several clients to one server that may be answered late or never. -/

namespace Calls
open Function List
variable {ι σ α : Type*}

structure Request (ι σ α : Type*) where
  sender : ι
  stmt : σ
  answer : Option α
  deriving DecidableEq

def answer (rs : List (Request ι σ α)) (k : Nat) : Option α := rs[k]?.bind (·.answer)
def send (rs : List (Request ι σ α)) (i : ι) (stmt : σ) : List (Request ι σ α) := rs ++ [⟨i, stmt, none⟩]
def reply (rs : List (Request ι σ α)) (k : Nat) (i : ι) (stmt : σ) (a : α) : List (Request ι σ α) :=
  rs.set k ⟨i, stmt, some a⟩

section
variable {rs : List (Request ι σ α)} {i j : ι} {stmt stmt' : σ} {k : Nat}

@[simp] lemma answer_length : answer rs rs.length = none := by simp [answer]

@[simp] lemma answer_send : answer (send rs i stmt) = answer rs := by
  funext k
  unfold answer send
  rcases Nat.lt_trichotomy k rs.length with h | rfl | h
  · rw [getElem?_append_left h]
  · simp
  · rw [getElem?_eq_none (by simp; omega), getElem?_eq_none (by omega)]

lemma getElem?_send {r : Request ι σ α} (h : rs[k]? = some r) : (send rs i stmt)[k]? = some r := by
  have hk : k < rs.length := (List.getElem?_eq_some_iff.mp h).1
  rw [send, getElem?_append_left hk, h]
lemma getElem?_send_length : (send rs i stmt)[rs.length]? = some ⟨i, stmt, none⟩ := by simp [send]
lemma mem_send_answered {a : α} : ⟨j, stmt', some a⟩ ∈ send rs i stmt ↔ ⟨j, stmt', some a⟩ ∈ rs := by
  simp [send]

lemma mem_send {a : Option α} (h : ⟨j, stmt', a⟩ ∈ send rs i stmt) :
    ⟨j, stmt', a⟩ ∈ rs ∨ j = i ∧ stmt' = stmt := by
  rcases mem_append.mp h with h | h
  · exact .inl h
  · obtain ⟨rfl, rfl, _⟩ := Request.mk.inj (mem_singleton.mp h)
    exact .inr ⟨rfl, rfl⟩

end
section
variable {rs : List (Request ι σ α)} {i j : ι} {stmt stmt' : σ} {k k' : Nat} {a : α} {a' : Option α}

section
variable (hk : rs[k]? = some ⟨j, stmt, none⟩)
include hk

lemma answer_reply :
    answer (reply rs k j stmt a) = update (answer rs) k (some a) := by
  funext k'
  have hlt : k < rs.length := (List.getElem?_eq_some_iff.mp hk).1
  by_cases e : k' = k
  · subst e
    simp [answer, reply, hlt]
  · rw [update_of_ne e]
    simp only [answer, reply]
    rw [getElem?_set_ne (Ne.symm e)]

lemma getElem?_reply
    (h : rs[k']? = some ⟨i, stmt', a'⟩) : ∃ a'', (reply rs k j stmt a)[k']? = some ⟨i, stmt', a''⟩ := by
  have hlt : k < rs.length := (List.getElem?_eq_some_iff.mp hk).1
  by_cases e : k' = k
  · subst e
    rw [hk] at h
    obtain ⟨rfl, rfl, _⟩ := Request.mk.inj (Option.some.inj h)
    exact ⟨some a, by simp [reply, hlt]⟩
  · exact ⟨a', by rw [reply, getElem?_set_ne (Ne.symm e), h]⟩

lemma getElem?_reply_self :
    (reply rs k j stmt a)[k]? = some ⟨j, stmt, some a⟩ := by
  simp [reply, (List.getElem?_eq_some_iff.mp hk).1]

end

lemma mem_reply {r : Request ι σ α} (h : r ∈ reply rs k j stmt a) : r ∈ rs ∨ r = ⟨j, stmt, some a⟩ :=
  mem_or_eq_of_mem_set h

lemma mem_reply_of_mem (hk : rs[k]? = some ⟨j, stmt, none⟩) {a' : α} (h : ⟨i, stmt', some a'⟩ ∈ rs) :
    ⟨i, stmt', some a'⟩ ∈ reply rs k j stmt a := by
  obtain ⟨k', hk'⟩ := mem_iff_getElem?.mp h
  have hne : k' ≠ k := by
    rintro rfl
    rw [hk] at hk'
    cases hk'
  refine mem_iff_getElem?.mpr ⟨k', ?_⟩
  rw [reply, getElem?_set_ne (Ne.symm hne), hk']

lemma mem_of_mem_reply (hk : rs[k]? = some ⟨j, stmt, none⟩)
    (h : ⟨i, stmt', a'⟩ ∈ reply rs k j stmt a) : ∃ a'', ⟨i, stmt', a''⟩ ∈ rs := by
  rcases mem_reply h with h | h
  · exact ⟨a', h⟩
  · obtain ⟨rfl, rfl, _⟩ := Request.mk.inj h
    exact ⟨none, mem_of_getElem? hk⟩

end
end Calls

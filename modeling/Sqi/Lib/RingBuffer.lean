import Mathlib.Algebra.GroupWithZero.Nat
import Mathlib.Data.List.Basic
import Mathlib.Data.Fin.Basic
import Mathlib.Logic.Function.Basic

/-! A bounded circular buffer. -/

structure RingBuffer (α : Type*) (n : Nat) where
  buf : Fin n → α
  pos : Fin n
  count : Nat
  count_le : count ≤ n

namespace RingBuffer
open Function List
variable {α : Type*} {n : Nat} [NeZero n] {r : RingBuffer α n} {log : List α} {i : Nat}

def empty [Inhabited α] : RingBuffer α n := ⟨fun _ => default, 0, 0, Nat.zero_le _⟩

def push (r : RingBuffer α n) (a : α) : RingBuffer α n where
  buf := update r.buf r.pos a
  pos := Fin.ofNat n (r.pos + 1)
  count := if r.count < n then r.count + 1 else r.count
  count_le := by have := r.count_le; split <;> omega

def slot (r : RingBuffer α n) (i : Nat) : Fin n :=
  Fin.ofNat n ((r.pos + n - r.count) % n + i)
def toList (r : RingBuffer α n) : List α := (List.range r.count).map fun i => r.buf (r.slot i)

@[simp] lemma length_toList (r : RingBuffer α n) : r.toList.length = r.count := by simp [toList]
lemma slot_val (r : RingBuffer α n) (i : Nat) : (r.slot i : Nat) = (r.pos + n - r.count + i) % n := by
  simp [slot, Fin.ofNat]

lemma push_slot_of_room (r : RingBuffer α n) (a : α) (h : r.count < n) (i : Nat) :
    (r.push a).slot i = r.slot i := by
  have hp := r.pos.isLt
  apply Fin.ext
  rw [slot_val, slot_val]
  simp only [push, h, if_true, Fin.ofNat]
  rcases Nat.lt_or_ge (r.pos + 1) n with hn | hn
  · rw [Nat.mod_eq_of_lt hn, show (r.pos : Nat) + 1 + n - (r.count + 1) = r.pos + n - r.count by omega]
  · have hz : (r.pos + 1 : Nat) = n := by omega
    have e : (r.pos : Nat) + n - r.count + i = n - (r.count + 1) + i + n := by omega
    rw [hz, Nat.mod_self, Nat.zero_add, e, Nat.add_mod_right]

lemma push_slot_of_full (r : RingBuffer α n) (a : α) (h : ¬ r.count < n) (i : Nat) :
    (r.push a).slot i = r.slot (i + 1) := by
  have hc : r.count = n := by have := r.count_le; omega
  apply Fin.ext
  rw [slot_val, slot_val]
  simp only [push, hc, lt_irrefl, if_false, Fin.ofNat, Nat.add_sub_cancel]
  rw [Nat.mod_add_mod, Nat.add_assoc, Nat.add_comm 1 i]

lemma slot_ne_pos (r : RingBuffer α n) (hi : i < r.count) (h : r.count < n) : r.slot i ≠ r.pos := by
  intro e
  have hp := r.pos.isLt
  have e := congrArg Fin.val e
  rw [slot_val] at e
  -- The entry is `count - i` slots behind `pos`, less than a whole turn.
  rcases Nat.lt_or_ge (r.pos + n - r.count + i) n with hn | hn
  · rw [Nat.mod_eq_of_lt hn] at e
    omega
  · rw [Nat.mod_eq_sub_mod hn, Nat.mod_eq_of_lt (by omega)] at e
    omega

lemma slot_succ_ne_pos (r : RingBuffer α n) (hi : i + 1 < n) (h : r.count = n) : r.slot (i + 1) ≠ r.pos := by
  intro e
  have hp := r.pos.isLt
  have e := congrArg Fin.val e
  rw [slot_val, h, Nat.add_sub_cancel] at e
  rcases Nat.lt_or_ge (r.pos + (i + 1)) n with hn | hn
  · rw [Nat.mod_eq_of_lt hn] at e
    omega
  · rw [Nat.mod_eq_sub_mod hn, Nat.mod_eq_of_lt (by omega)] at e
    omega

lemma push_slot_last (r : RingBuffer α n) (a : α) : (r.push a).slot ((r.push a).count - 1) = r.pos := by
  have hp := r.pos.isLt
  by_cases h : r.count < n
  · rw [push_slot_of_room r a h]
    apply Fin.ext
    rw [slot_val]
    simp only [push, h, if_true, Nat.add_sub_cancel]
    rw [show (r.pos : Nat) + n - r.count + r.count = r.pos + n by omega, Nat.add_mod_right, Nat.mod_eq_of_lt hp]
  · have hc : r.count = n := by have := r.count_le; omega
    rw [push_slot_of_full r a h]
    apply Fin.ext
    rw [slot_val]
    simp only [push, hc, lt_irrefl, if_false, Nat.add_sub_cancel]
    rw [show (r.pos : Nat) + (n - 1 + 1) = r.pos + n by omega, Nat.add_mod_right, Nat.mod_eq_of_lt hp]

lemma toList_push (r : RingBuffer α n) (a : α) :
    (r.push a).toList = r.toList.drop (r.count + 1 - n) ++ [a] := by
  have last : (r.push a).buf ((r.push a).slot ((r.push a).count - 1)) = a := by
    rw [push_slot_last]
    simp [push]
  have hn : 0 < n := Nat.pos_of_ne_zero (NeZero.ne n)
  by_cases h : r.count < n
  · have hc : (r.push a).count = r.count + 1 := by simp [push, h]
    rw [show r.count + 1 - n = 0 by omega, drop_zero, toList, hc, range_succ, map_append, toList]
    rw [hc, Nat.add_sub_cancel] at last
    refine congrArg₂ (· ++ ·) (map_congr_left fun i hi => ?_) (by simp [last])
    rw [push_slot_of_room r a h]
    exact update_of_ne (slot_ne_pos r (mem_range.mp hi) h) _ _
  · have hc : r.count = n := by have := r.count_le; omega
    have hc' : (r.push a).count = r.count := by simp [push, h]
    obtain ⟨m, hm⟩ : ∃ m, n = m + 1 := ⟨n - 1, by omega⟩
    rw [show r.count + 1 - n = 1 by omega, toList, hc', hc, toList, hc]
    rw [hc', hc] at last
    have first : List.range n = 0 :: (List.range (n - 1)).map (· + 1) := by
      rw [hm, Nat.add_sub_cancel, range_succ_eq_map]
    have snoc : List.range n = List.range (n - 1) ++ [n - 1] := by rw [hm, Nat.add_sub_cancel, range_succ]
    conv_lhs => rw [snoc]
    conv_rhs => rw [first]
    rw [map_append, map_cons (l := (List.range (n - 1)).map (· + 1)), drop_succ_cons, drop_zero, map_map]
    refine congrArg₂ (· ++ ·) (map_congr_left fun i hi => ?_) (by simp [last])
    rw [push_slot_of_full r a h]
    have hi := mem_range.mp hi
    exact update_of_ne (slot_succ_ne_pos r (by omega) hc) _ _

def Holds (r : RingBuffer α n) (log : List α) : Prop := r.toList = log.drop (log.length - n)

lemma holds_empty [Inhabited α] : (empty : RingBuffer α n).Holds [] := by simp [Holds, toList, empty]

lemma Holds.push (h : r.Holds log) (a : α) : (r.push a).Holds (log ++ [a]) := by
  have hc : r.count = log.length - (log.length - n) := by rw [← length_toList, h, length_drop]
  have hn : 0 < n := Nat.pos_of_ne_zero (NeZero.ne n)
  unfold Holds
  rw [toList_push, h, drop_drop, length_append, length_singleton, drop_append_of_le_length (by omega)]
  congr 2
  omega

lemma Holds.mem (h : r.Holds log) {a : α} (ha : a ∈ r.toList) : a ∈ log := mem_of_mem_drop (h ▸ ha)

end RingBuffer

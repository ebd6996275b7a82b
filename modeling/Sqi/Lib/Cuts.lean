import Mathlib.Algebra.Order.BigOperators.Group.List
import Mathlib.Algebra.Order.Ring.Nat
import Mathlib.Data.List.Range

/-! Cutting a list into pieces: at given bounds, and evenly, with the pieces' lengths
as close to each other as they can be. -/

namespace Cuts
open List
variable {α : Type*}

def pieces (bound : Nat → Nat) (k : Nat) (l : List α) : List (List α) :=
  (List.range k).map fun i => (l.take (bound (i + 1))).drop (bound i)

variable {bound : Nat → Nat} {k : Nat} {l : List α}

@[simp] lemma length_pieces : (pieces bound k l).length = k := by simp [pieces]
lemma mem_pieces {p : List α} (h : p ∈ pieces bound k l) :
    ∃ i, i < k ∧ p = (l.take (bound (i + 1))).drop (bound i) := by
  obtain ⟨i, hi, rfl⟩ := mem_map.mp h
  exact ⟨i, mem_range.mp hi, rfl⟩

lemma flatten_pieces (hzero : bound 0 = 0) (hmono : ∀ i < k, bound i ≤ bound (i + 1)) :
    (pieces bound k l).flatten = l.take (bound k) := by
  induction k with
  | zero => simp [pieces, hzero]
  | succ k ih =>
    have hinit : pieces bound (k + 1) l = pieces bound k l ++ [(l.take (bound (k + 1))).drop (bound k)] := by
      simp [pieces, range_succ]
    rw [hinit, flatten_append, ih fun i hi => hmono i (by omega), flatten_singleton]
    have htake : l.take (bound k) = (l.take (bound (k + 1))).take (bound k) := by
      rw [take_take, Nat.min_eq_left (hmono k (by omega))]
    rw [htake, take_append_drop]

lemma length_piece (i : Nat) (h : bound (i + 1) ≤ l.length) :
    ((l.take (bound (i + 1))).drop (bound i)).length = bound (i + 1) - bound i := by
  rw [length_drop, length_take, Nat.min_eq_left h]

lemma getElem?_piece {i m : Nat} (h : bound i + m < bound (i + 1)) :
    ((l.take (bound (i + 1))).drop (bound i))[m]? = l[bound i + m]? := by
  rw [getElem?_drop, getElem?_take_of_lt h]

lemma exists_between {p : Nat} (hzero : bound 0 ≤ p) (hk : p < bound k) :
    ∃ i < k, bound i ≤ p ∧ p < bound (i + 1) := by
  induction k with
  | zero => omega
  | succ k ih =>
    rcases lt_or_ge p (bound k) with h | h
    · obtain ⟨i, hi, hp⟩ := ih h
      exact ⟨i, by omega, hp⟩
    · exact ⟨k, by omega, h, hk⟩

/-- Every piece is a chain exactly if neighbours between which there is no cut are related. -/
lemma isChain_pieces_iff {R : α → α → Prop} (hzero : bound 0 = 0) (hmono : Monotone bound)
    (hlast : bound k = l.length) :
    (∀ c ∈ pieces bound k l, c.IsChain R) ↔
      ∀ p a b, l[p]? = some a → l[p + 1]? = some b → (¬ ∃ j, bound j = p + 1) → R a b := by
  constructor
  · intro hchain p a b ha hb hcut
    have hlt : p + 1 < l.length := (List.getElem?_eq_some_iff.mp hb).1
    obtain ⟨i, hi, hle, hless⟩ := exists_between (k := k) (show bound 0 ≤ p by omega) (by omega)
    have hinside : p + 1 < bound (i + 1) := by
      have : bound (i + 1) ≠ p + 1 := fun e => hcut ⟨_, e⟩
      omega
    obtain ⟨m, rfl⟩ := Nat.exists_eq_add_of_le hle
    rw [← getElem?_piece hless] at ha
    rw [Nat.add_assoc, ← getElem?_piece (by omega)] at hb
    obtain ⟨hma, rfl⟩ := List.getElem?_eq_some_iff.mp ha
    obtain ⟨hmb, rfl⟩ := List.getElem?_eq_some_iff.mp hb
    exact isChain_iff_getElem.mp (hchain _ (mem_map.mpr ⟨i, mem_range.mpr hi, rfl⟩)) m hmb
  · intro hrel c hc
    obtain ⟨i, hi, rfl⟩ := mem_pieces hc
    refine isChain_iff_getElem.mpr fun m hm => ?_
    have hlen : bound i + (m + 1) < bound (i + 1) := by
      rw [length_drop, length_take] at hm
      omega
    refine hrel (bound i + m) _ _ ?_ ?_ fun ⟨j, hj⟩ => ?_
    · rw [← getElem?_piece (by omega), List.getElem?_eq_getElem (by omega)]
    · rw [Nat.add_assoc, ← getElem?_piece hlen, List.getElem?_eq_getElem hm]
    · -- the bounds of a piece have no bound between them
      rcases Nat.lt_or_ge i j with h | h
      · have hnext : bound (i + 1) ≤ bound j := hmono h
        omega
      · have hprev := hmono h
        omega

/-! ## Even bounds -/

def evenBound (n k i : Nat) : Nat := (i * n + k - 1) / k

section
variable {n : Nat} (hk : 0 < k) {l : List α}
include hk

lemma evenBound_zero : evenBound n k 0 = 0 := by
  unfold evenBound
  exact Nat.div_eq_of_lt (by omega)
lemma evenBound_last : evenBound n k k = n := by
  unfold evenBound
  rw [Nat.add_sub_assoc hk, Nat.mul_add_div hk, Nat.div_eq_of_lt (by omega), Nat.add_zero]

lemma evenBound_succ (i : Nat) : evenBound n k i + n / k ≤ evenBound n k (i + 1) ∧
      evenBound n k (i + 1) ≤ evenBound n k i + (n + k - 1) / k := by
  unfold evenBound
  have hnext : (i + 1) * n + k - 1 = (i * n + k - 1) + n := by
    rw [Nat.succ_mul]
    omega
  rw [hnext]
  refine ⟨Nat.div_add_div_le_add_div, ?_⟩
  have hx := Nat.lt_mul_div_succ (i * n + k - 1) hk
  have hn := Nat.lt_mul_div_succ (n + k - 1) hk
  refine Nat.le_of_lt_succ ((Nat.div_lt_iff_lt_mul hk).mpr ?_)
  generalize (i * n + k - 1) / k = a at *
  generalize (n + k - 1) / k = b at *
  have expand : (a + b).succ * k = k * (a + 1) + k * (b + 1) - k := by
    rw [Nat.succ_mul, Nat.add_mul, Nat.mul_succ, Nat.mul_succ, Nat.mul_comm k a, Nat.mul_comm k b]
    omega
  rw [expand]
  omega

lemma evenBound_mono (i : Nat) : evenBound n k i ≤ evenBound n k (i + 1) :=
  Nat.le_trans (Nat.le_add_right _ _) (evenBound_succ hk i).1

lemma evenBound_le {i : Nat} (hi : i ≤ k) : evenBound n k i ≤ n := by
  conv_rhs => rw [← evenBound_last (n := n) hk]
  unfold evenBound
  exact Nat.div_le_div_right (by
    have := Nat.mul_le_mul_right n hi
    omega)

lemma flatten_even (l : List α) : (pieces (evenBound l.length k) k l).flatten = l := by
  rw [flatten_pieces (evenBound_zero hk) fun i _ => evenBound_mono hk i, evenBound_last hk, take_length]

lemma length_even {p : List α} (h : p ∈ pieces (evenBound l.length k) k l) :
    l.length / k ≤ p.length ∧ p.length ≤ (l.length + k - 1) / k := by
  obtain ⟨i, hi, rfl⟩ := mem_pieces h
  rw [length_piece i (evenBound_le hk hi)]
  obtain ⟨hlow, hhigh⟩ := evenBound_succ (n := l.length) hk i
  exact ⟨Nat.le_sub_of_add_le (by omega), Nat.sub_le_of_le_add (by omega)⟩

lemma length_even_le_succ {p q : List α} (hp : p ∈ pieces (evenBound l.length k) k l)
    (hq : q ∈ pieces (evenBound l.length k) k l) : p.length ≤ q.length + 1 := by
  have hp' := (length_even hk hp).2
  have hq' := (length_even hk hq).1
  have hceil : (l.length + k - 1) / k ≤ l.length / k + 1 := by
    rw [← Nat.add_div_right _ hk]
    exact Nat.div_le_div_right (by omega)
  omega

end

def fewest (n size : Nat) : Nat := (n - 1) / size + 1

lemma fewest_le {size : Nat} (hsize : 0 < size) {ps : List (List α)} (hne : ps.flatten ≠ [])
    (h : ∀ p ∈ ps, p.length ≤ size) : fewest ps.flatten.length size ≤ ps.length := by
  have hsum : ps.flatten.length ≤ ps.length * size := by
    rw [length_flatten]
    have := sum_le_card_nsmul (ps.map List.length) size (by simpa using h)
    simpa using this
  have hpos : 0 < ps.flatten.length := length_pos_iff.mpr hne
  refine Nat.succ_le_of_lt ((Nat.div_lt_iff_lt_mul hsize).mpr ?_)
  omega

lemma fewest_fits {n size : Nat} (hn : 0 < n) (hsize : 0 < size) :
    (n + fewest n size - 1) / fewest n size ≤ size ∧ 1 ≤ n / fewest n size := by
  have hk : 0 < fewest n size := Nat.succ_pos _
  have hlow : fewest n size ≤ n := by
    have := Nat.div_le_self (n - 1) size
    unfold fewest
    omega
  have hhigh : n ≤ size * fewest n size := by
    have := Nat.lt_mul_div_succ (n - 1) hsize
    unfold fewest
    omega
  refine ⟨Nat.le_of_lt_succ ((Nat.div_lt_iff_lt_mul hk).mpr ?_), Nat.div_pos hlow hk⟩
  rw [Nat.succ_mul]
  omega

end Cuts

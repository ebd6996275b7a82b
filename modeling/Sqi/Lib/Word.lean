import Mathlib.Data.Int.ModEq
import Mathlib.Tactic.NormNum

/-! Signed 64-bit machine integers, as the integers they stand for. -/

namespace Word

def maxInt : Int := 2 ^ 63 - 1
def minInt : Int := -2 ^ 63
def wrap (n : Int) : Int := Int.bmod n (2 ^ 64)

def IsInt (n : Int) : Prop := minInt ≤ n ∧ n ≤ maxInt
deriving Decidable

lemma wrap_of_isInt {n : Int} (h : IsInt n) : wrap n = n := by
  simp only [IsInt, minInt, maxInt] at h
  unfold wrap
  rw [Int.bmod_eq_of_le] <;> omega

lemma wrap_isInt (n : Int) : IsInt (wrap n) := by
  have lo := Int.le_bmod (x := n) (m := 2 ^ 64) (by norm_num)
  have hi := Int.bmod_lt (x := n) (m := 2 ^ 64) (by norm_num)
  simp only [IsInt, minInt, maxInt, wrap]
  omega

lemma wrap_of_over {n : Int} (h : maxInt < n) (hn : n ≤ maxInt + 2 ^ 64) : wrap n = n - 2 ^ 64 := by
  have hfit : IsInt (n - 2 ^ 64) := by
    simp only [IsInt, minInt, maxInt] at *
    omega
  rw [← wrap_of_isInt hfit]
  exact (Int.sub_bmod_right n (2 ^ 64)).symm

lemma wrap_of_under {n : Int} (h : n < minInt) (hn : minInt - 2 ^ 64 ≤ n) : wrap n = n + 2 ^ 64 := by
  have hfit : IsInt (n + 2 ^ 64) := by
    simp only [IsInt, minInt, maxInt] at *
    omega
  rw [← wrap_of_isInt hfit]
  exact (Int.add_bmod_right n (2 ^ 64)).symm

lemma wrap_eq_sub (n : Int) : ∃ k, wrap n = n - 2 ^ 64 * k :=
  ⟨Int.bdiv n (2 ^ 64), by
    have := Int.bmod_add_bdiv n (2 ^ 64)
    unfold wrap
    omega⟩

lemma wrap_mul_eq {a b : Nat} (hb : 0 < b) (h : (wrap (a * b : Nat)).tdiv b = a) :
    wrap (a * b : Nat) = (a * b : Nat) := by
  rcases Nat.eq_zero_or_pos a with rfl | ha
  · rw [Nat.zero_mul]
    exact wrap_of_isInt (by decide)
  obtain ⟨k, hk⟩ := wrap_eq_sub (a * b : Nat)
  have hfit := wrap_isInt (a * b : Nat)
  generalize wrap (a * b : Nat) = p at *
  simp only [IsInt, minInt, maxInt] at hfit
  have hp : 0 ≤ p := by
    by_contra hneg
    have hq : 0 ≤ (-p).tdiv b := Int.tdiv_nonneg (by omega) (by omega)
    rw [Int.neg_tdiv] at hq
    omega
  -- the quotient is exact from below, so the wrapped product is no smaller than the true one
  have hle : (a * b : Nat) ≤ p := by
    rw [Int.tdiv_eq_ediv_of_nonneg hp] at h
    rw [Nat.cast_mul, ← h]
    exact Int.ediv_mul_le p (by omega)
  omega

lemma wrap_mul_of_tdiv {a b : Int} (hfit : IsInt b) (hb : b ≠ 0) (h : (wrap (a * b)).tdiv b = a) :
    wrap (a * b) = a * b := by
  obtain ⟨k, hk⟩ := wrap_eq_sub (a * b)
  have hdiv := Int.mul_tdiv_add_tmod (wrap (a * b)) b
  have hrest := Int.natAbs_tmod (wrap (a * b)) b
  have hlt : (wrap (a * b)).natAbs % b.natAbs < b.natAbs := Nat.mod_lt _ (by omega)
  rw [h, mul_comm b a] at hdiv
  simp only [IsInt, minInt, maxInt] at hfit
  omega

lemma tdiv_isInt {a b : Int} (ha : IsInt a) (hb : b ≠ 0) (h : ¬ (a = minInt ∧ b = -1)) : IsInt (a.tdiv b) := by
  simp only [IsInt, minInt, maxInt] at *
  have habs := Int.natAbs_tdiv a b
  have hle := Int.natAbs_tdiv_le_natAbs a b
  by_cases hone : b.natAbs = 1
  · rcases Int.natAbs_eq b with e | e
    · rw [hone] at e
      rw [e, Nat.cast_one, Int.tdiv_one]
      exact ha
    · rw [hone] at e
      have hmin : a ≠ -9223372036854775808 := fun ea => h ⟨by omega, by omega⟩
      omega
  · have hhalf : a.natAbs / b.natAbs ≤ a.natAbs / 2 := Nat.div_le_div_left (by omega) (by omega)
    change _ = a.natAbs / b.natAbs at habs
    omega

end Word

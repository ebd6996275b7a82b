import Mathlib.Tactic.Ring
import Mathlib.Algebra.Order.Ring.Int
import Sqi.Expr.Meter

/-! The integer operators of expressions (`ops.go`). -/

namespace Sqi.Expr
open Word

/-! ## The operators -/

def addInt (a b : Int) : Except EvalError Int :=
  let sum := wrap (a + b)
  if (0 < a ∧ 0 < b ∧ sum < 0) ∨ (a < 0 ∧ b < 0 ∧ 0 ≤ sum) then .error .intOverflow else .ok sum
def subInt (a b : Int) : Except EvalError Int :=
  let diff := wrap (a - b)
  if (b < 0 ∧ diff < a) ∨ (0 < b ∧ a < diff) then .error .intOverflow else .ok diff

def mulInt (a b : Int) : Except EvalError Int :=
  if a = 0 ∨ b = 0 then .ok 0
  else if (a = minInt ∧ b = -1) ∨ (b = minInt ∧ a = -1) then .error .intOverflow
  else
    let product := wrap (a * b)
    if product.tdiv b ≠ a then .error .intOverflow else .ok product

def negInt (i : Int) : Except EvalError Int :=
  if i = minInt then .error .intOverflow else .ok (wrap (-i))

def floorDivInt (a b : Int) : Except EvalError Int :=
  if b = 0 then .error .divideByZero
  else if a = minInt ∧ b = -1 then .error .intOverflow
  else
    let q := a.tdiv b
    .ok (if a.tmod b ≠ 0 ∧ decide (a < 0) ≠ decide (b < 0) then wrap (q - 1) else q)

def modInt (a b : Int) : Except EvalError Int :=
  if b = 0 then .error .moduloByZero
  else if a = minInt ∧ b = -1 then .ok 0
  else
    let r := a.tmod b
    .ok (if r ≠ 0 ∧ decide (r < 0) ≠ decide (b < 0) then wrap (r + b) else r)

def powLoop : Nat → Int → Int → Int → Option (Except EvalError Int)
  | 0, result, _, e => if e ≤ 0 then some (.ok result) else none
  | n + 1, result, factor, e =>
    if e ≤ 0 then some (.ok result)
    else
      match if e % 2 = 1 then mulInt result factor else .ok result with
      | .error err => some (.error err)
      | .ok result =>
        if e / 2 = 0 then some (.ok result)
        else
          match mulInt factor factor with
          | .error err => some (.error err)
          | .ok factor => powLoop n result factor (e / 2)

def powIntPositive (base exp : Int) : Option (Except EvalError Int) := powLoop 64 1 base exp

/-! ## Exact results -/

def fit (n : Int) : Except EvalError Int := if IsInt n then .ok n else .error .intOverflow

lemma fit_of_isInt {n : Int} (h : IsInt n) : fit n = .ok n := if_pos h
lemma fit_of_not {n : Int} (h : ¬ IsInt n) : fit n = .error .intOverflow := if_neg h

variable {a b x : Int}

lemma addInt_eq (ha : IsInt a) (hb : IsInt b) : addInt a b = fit (a + b) := by
  unfold addInt
  dsimp only
  by_cases h : IsInt (a + b)
  · rw [wrap_of_isInt h, fit_of_isInt h, if_neg (by omega)]
  rw [fit_of_not h, if_pos]
  simp only [IsInt, minInt, maxInt] at ha hb h
  rcases lt_or_ge a 0 with hneg | hpos
  · rw [wrap_of_under (by simp only [minInt]; omega) (by simp only [minInt]; omega)]
    omega
  · rw [wrap_of_over (by simp only [maxInt]; omega) (by simp only [maxInt]; omega)]
    omega

lemma subInt_eq (ha : IsInt a) (hb : IsInt b) : subInt a b = fit (a - b) := by
  unfold subInt
  dsimp only
  by_cases h : IsInt (a - b)
  · rw [wrap_of_isInt h, fit_of_isInt h, if_neg (by omega)]
  rw [fit_of_not h, if_pos]
  simp only [IsInt, minInt, maxInt] at ha hb h
  rcases lt_or_ge a b with hneg | hpos
  · rw [wrap_of_under (by simp only [minInt]; omega) (by simp only [minInt]; omega)]
    omega
  · rw [wrap_of_over (by simp only [maxInt]; omega) (by simp only [maxInt]; omega)]
    omega

lemma negInt_eq {i : Int} (hi : IsInt i) : negInt i = fit (-i) := by
  simp only [IsInt, minInt, maxInt] at hi
  unfold negInt
  by_cases h : i = minInt
  · rw [if_pos h, fit_of_not]
    rw [h]
    decide
  have hfit : IsInt (-i) := by
    simp only [IsInt, minInt, maxInt] at h ⊢
    omega
  rw [if_neg h, wrap_of_isInt hfit, fit_of_isInt hfit]

lemma mulInt_eq (ha : IsInt a) (hb : IsInt b) : mulInt a b = fit (a * b) := by
  unfold mulInt
  split
  · rename_i hzero
    rw [mul_eq_zero.mpr hzero]
    rfl
  split
  · rename_i hleast
    rw [fit_of_not]
    rcases hleast with ⟨rfl, rfl⟩ | ⟨rfl, rfl⟩ <;> decide
  rename_i hzero hleast
  have hb0 : b ≠ 0 := fun e => hzero (.inr e)
  dsimp only
  by_cases h : IsInt (a * b)
  · rw [wrap_of_isInt h, Int.mul_tdiv_cancel _ hb0, if_neg (not_not.mpr rfl), fit_of_isInt h]
  · rw [if_pos, fit_of_not h]
    intro hquot
    exact h (by rw [← wrap_mul_of_tdiv hb hb0 hquot]; exact wrap_isInt _)

lemma fdiv_eq_tdiv (hb : b ≠ 0) :
    a.fdiv b = if a.tmod b ≠ 0 ∧ decide (a < 0) ≠ decide (b < 0) then a.tdiv b - 1 else a.tdiv b := by
  rw [Int.fdiv_eq_tdiv]
  by_cases hdvd : b ∣ a
  · rw [if_pos hdvd, if_neg fun h => h.1 (Int.dvd_iff_tmod_eq_zero.mp hdvd), Int.sub_zero]
  have hrest : a.tmod b ≠ 0 := fun h => hdvd (Int.dvd_of_tmod_eq_zero h)
  rw [if_neg hdvd]
  rcases lt_or_gt_of_ne hb with hlt | hgt
  · rw [Int.sign_eq_neg_one_of_neg hlt]
    rcases lt_or_ge a 0 with ha | ha <;> grind
  · rw [Int.sign_eq_one_of_pos hgt]
    rcases lt_or_ge a 0 with ha | ha <;> grind

lemma tmod_neg_iff (h : a.tmod b ≠ 0) : a.tmod b < 0 ↔ a < 0 := by
  rcases lt_or_ge a 0 with ha | ha
  · have hneg := Int.tmod_nonneg (a := -a) b (by omega)
    rw [Int.neg_tmod] at hneg
    omega
  · have hpos := Int.tmod_nonneg b ha
    omega

lemma fmod_eq_tmod (hb : b ≠ 0) :
    a.fmod b = if a.tmod b ≠ 0 ∧ decide (a.tmod b < 0) ≠ decide (b < 0) then a.tmod b + b else a.tmod b := by
  have hquot := Int.mul_tdiv_add_tmod a b
  have hfloor := Int.mul_fdiv_add_fmod a b
  rw [fdiv_eq_tdiv hb] at hfloor
  by_cases hrest : a.tmod b = 0
  · rw [if_neg fun h => h.1 hrest] at hfloor ⊢
    omega
  have hsign := tmod_neg_iff hrest
  by_cases hdiff : decide (a < 0) = decide (b < 0)
  · rw [if_neg fun h => h.2 hdiff] at hfloor
    rw [decide_eq_decide.mpr hsign, if_neg fun h => h.2 hdiff]
    omega
  · rw [if_pos ⟨hrest, hdiff⟩, mul_sub, mul_one] at hfloor
    rw [decide_eq_decide.mpr hsign, if_pos ⟨hrest, hdiff⟩]
    omega

lemma floorDivInt_eq (ha : IsInt a) (hb : b ≠ 0) : floorDivInt a b = fit (a.fdiv b) := by
  unfold floorDivInt
  rw [if_neg hb]
  split
  · rename_i hleast
    rw [hleast.1, hleast.2, fit_of_not (by decide)]
  rename_i hleast
  have hq := tdiv_isInt ha hb hleast
  have hfloor : IsInt (a.fdiv b) := by
    rw [fdiv_eq_tdiv hb]
    split
    · rename_i hrest
      -- a divisor of 1 or -1 leaves nothing
      have habs := Int.natAbs_tdiv a b
      have hhalf : a.natAbs / b.natAbs ≤ a.natAbs / 2 := by
        refine Nat.div_le_div_left ?_ (by omega)
        by_contra hone
        rcases Int.natAbs_eq b with e | e
        · exact hrest.1 (by rw [show b = 1 by omega, Int.tmod_one])
        · exact hrest.1 (by rw [show b = -1 by omega, Int.tmod_neg, Int.tmod_one])
      change _ = a.natAbs / b.natAbs at habs
      simp only [IsInt, minInt, maxInt] at ha hq ⊢
      omega
    · exact hq
  rw [fit_of_isInt hfloor]
  rw [fdiv_eq_tdiv hb] at hfloor ⊢
  dsimp only
  split
  · rename_i hrest
    rw [if_pos hrest] at hfloor
    rw [wrap_of_isInt hfloor]
  · rfl

lemma fmod_bounds (a : Int) (hb : b ≠ 0) :
    (0 < b → 0 ≤ a.fmod b ∧ a.fmod b < b) ∧ (b < 0 → b < a.fmod b ∧ a.fmod b ≤ 0) := by
  refine ⟨fun hpos => ⟨Int.fmod_nonneg_of_pos a hpos, Int.fmod_lt_of_pos a hpos⟩, fun hneg => ?_⟩
  have habs := Int.natAbs_tmod a b
  have hlt : a.natAbs % b.natAbs < b.natAbs := Nat.mod_lt _ (by omega)
  rw [fmod_eq_tmod hb]
  split
  · rename_i hrest
    have hnonneg : 0 ≤ a.tmod b := by
      by_contra h
      exact hrest.2 (by rw [decide_eq_true (by omega), decide_eq_true hneg])
    omega
  · rename_i hrest
    have hnonpos : a.tmod b ≤ 0 := by
      by_contra h
      exact hrest ⟨by omega, by rw [decide_eq_false (by omega), decide_eq_true hneg]; decide⟩
    omega

lemma fmod_isInt (a : Int) (hb : IsInt b) (hb0 : b ≠ 0) : IsInt (a.fmod b) := by
  have hbounds := fmod_bounds a hb0
  simp only [IsInt, minInt, maxInt] at hb ⊢
  omega

lemma modInt_eq (a : Int) (hb : IsInt b) (hb0 : b ≠ 0) : modInt a b = fit (a.fmod b) := by
  have hfit := fmod_isInt a hb hb0
  rw [fit_of_isInt hfit]
  unfold modInt
  rw [if_neg hb0]
  split
  · rename_i hleast
    rw [hleast.1, hleast.2]
    rfl
  rw [fmod_eq_tmod hb0] at hfit ⊢
  dsimp only
  split
  · rename_i hrest
    rw [if_pos hrest] at hfit
    rw [wrap_of_isInt hfit]
  · rfl

lemma not_isInt_mul {y : Int} (hx : ¬ IsInt x) (hy : 1 ≤ y) : ¬ IsInt (x * y) := by
  simp only [IsInt, minInt, maxInt] at *
  rcases lt_or_ge x 0 with hneg | hpos
  · have hle : x * y ≤ x * 1 := mul_le_mul_of_nonpos_left hy hneg.le
    omega
  · have hle : x * 1 ≤ x * y := mul_le_mul_of_nonneg_left hy hpos
    omega

lemma lt_sq_of_not_isInt (h : ¬ IsInt (x * x)) : 2 ^ 63 < x * x := by
  have hnonneg := mul_self_nonneg x
  have habs := Int.natAbs_mul_self (a := x)
  simp only [IsInt, minInt, maxInt] at h
  rcases Nat.lt_or_ge x.natAbs 3037000500 with hlt | hge
  · have hle : x.natAbs * x.natAbs ≤ 3037000499 * 3037000499 := Nat.mul_le_mul (by omega) (by omega)
    omega
  · have hle : 3037000500 * 3037000500 ≤ x.natAbs * x.natAbs := Nat.mul_le_mul hge hge
    omega

lemma not_isInt_mul_pow {r : Int} (h : ¬ IsInt (x * x)) (hr : r ≠ 0) {k : Nat} (hk : k ≠ 0) :
    ¬ IsInt (r * (x * x) ^ k) := by
  have hsq := lt_sq_of_not_isInt h
  have hpow : x * x ≤ (x * x) ^ k := le_self_pow₀ (by omega) hk
  have habs : ((x * x) ^ k).natAbs ≤ (r * (x * x) ^ k).natAbs := by
    rw [Int.natAbs_mul]
    exact Nat.le_mul_of_pos_left _ (by omega)
  simp only [IsInt, minInt, maxInt]
  omega

lemma pow_bits (x : Int) {e : Int} (he : 0 ≤ e) :
    x ^ e.toNat = (if e % 2 = 1 then x else 1) * (x * x) ^ (e / 2).toNat := by
  have hbits : e.toNat = (e % 2).toNat + 2 * (e / 2).toNat := by omega
  rw [hbits, pow_add, pow_mul, sq]
  split
  · rename_i hodd
    rw [hodd, Int.toNat_one, pow_one]
  · rw [show e % 2 = 0 by omega, Int.toNat_zero, pow_zero]

lemma powLoop_eq (n : Nat) : ∀ {result factor e : Int}, 0 ≤ e → e < 2 ^ n → IsInt result → IsInt factor →
    (result = 0 → factor = 0) → powLoop n result factor e = some (fit (result * factor ^ e.toNat)) := by
  induction n with
  | zero =>
    intro result factor e hlo hhi hr _ _
    have he : e = 0 := by omega
    rw [powLoop, if_pos he.le, he, Int.toNat_zero, pow_zero, mul_one, fit_of_isInt hr]
  | succ n ih =>
    intro result factor e hlo hhi hr hf hzero
    rw [powLoop]
    split
    · rename_i hle
      rw [show e = 0 by omega, Int.toNat_zero, pow_zero, mul_one, fit_of_isInt hr]
    rename_i hpos
    have hround : (if e % 2 = 1 then mulInt result factor else .ok result) =
        fit (result * if e % 2 = 1 then factor else 1) := by
      split
      · exact mulInt_eq hr hf
      · rw [mul_one, fit_of_isInt hr]
    rw [hround, pow_bits factor hlo, ← mul_assoc]
    have hzero' : result * (if e % 2 = 1 then factor else 1) = 0 → factor = 0 := by
      intro h
      rcases mul_eq_zero.mp h with h | h
      · exact hzero h
      · split at h
        · exact h
        · cases h
    have hzero_fits : factor = 0 → IsInt (result * if e % 2 = 1 then factor else 1) := by
      rintro rfl
      split
      · rw [mul_zero]
        decide
      · rw [mul_one]
        exact hr
    generalize result * (if e % 2 = 1 then factor else 1) = r at hzero' hzero_fits ⊢
    by_cases hfit : IsInt r
    · rw [fit_of_isInt hfit]
      dsimp only
      split
      · rename_i hlast
        rw [hlast, Int.toNat_zero, pow_zero, mul_one, fit_of_isInt hfit]
      rename_i hmore
      rw [mulInt_eq hf hf]
      by_cases hsq : IsInt (factor * factor)
      · rw [fit_of_isInt hsq]
        exact ih (by omega) (by omega) hfit hsq fun h => by rw [hzero' h, mul_zero]
      · rw [fit_of_not hsq, fit_of_not (not_isInt_mul_pow hsq (fun h => hsq ?_) (by omega))]
        rw [hzero' h]
        decide
    · rw [fit_of_not hfit]
      have hsq : 0 < factor * factor := mul_self_pos.mpr fun h => hfit (hzero_fits h)
      rw [fit_of_not (not_isInt_mul hfit (one_le_pow₀ hsq))]

lemma powIntPositive_eq {base exp : Int} (hb : IsInt base) (he : IsInt exp) (hexp : 0 ≤ exp) :
    powIntPositive base exp = some (fit (base ^ exp.toNat)) := by
  have hlt : exp < 2 ^ 64 := by
    have := he.2
    simp only [maxInt] at this
    omega
  rw [powIntPositive, powLoop_eq 64 hexp hlt (by decide) hb (fun h => absurd h one_ne_zero), one_mul]

/-- Every integer operator returns the exact result, or an error where there is none. -/
theorem integer_operators_exact {a b : Int} (ha : IsInt a) (hb : IsInt b) :
    addInt a b = fit (a + b) ∧ subInt a b = fit (a - b) ∧ mulInt a b = fit (a * b) ∧ negInt a = fit (-a) ∧
    (floorDivInt a b = if b = 0 then .error .divideByZero else fit (a.fdiv b)) ∧
    (modInt a b = if b = 0 then .error .moduloByZero else fit (a.fmod b)) ∧
    (b ≠ 0 → a = a.fdiv b * b + a.fmod b ∧ IsInt (a.fmod b) ∧
      (0 < b → 0 ≤ a.fmod b ∧ a.fmod b < b) ∧ (b < 0 → b < a.fmod b ∧ a.fmod b ≤ 0)) ∧
    (0 ≤ b → powIntPositive a b = some (fit (a ^ b.toNat))) := by
  refine ⟨addInt_eq ha hb, subInt_eq ha hb, mulInt_eq ha hb, negInt_eq ha, ?_, ?_, fun hb0 => ?_,
    powIntPositive_eq ha hb⟩
  · split
    · rename_i hb0
      rw [floorDivInt, if_pos hb0]
    · exact floorDivInt_eq ha ‹_›
  · split
    · rename_i hb0
      rw [modInt, if_pos hb0]
    · exact modInt_eq a hb ‹_›
  · refine ⟨?_, fmod_isInt a hb hb0, fmod_bounds a hb0⟩
    rw [mul_comm, Int.mul_fdiv_add_fmod]

/-- The least integer is a power, and is divided by -1 nowhere. -/
theorem integer_operators_exact_least :
    powIntPositive (-2) 63 = some (.ok minInt) ∧ floorDivInt minInt (-1) = .error .intOverflow ∧
      modInt minInt (-1) = .ok 0 := by
  have hpow := (integer_operators_exact (a := -2) (b := 63) (by decide) (by decide)).2.2.2.2.2.2.2 (by decide)
  have hdiv := (integer_operators_exact (a := minInt) (b := -1) (by decide) (by decide)).2.2.2.2
  exact ⟨hpow.trans (by decide), hdiv.1.trans (by decide), hdiv.2.1.trans (by decide)⟩

end Sqi.Expr

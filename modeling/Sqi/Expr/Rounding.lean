import Sqi.Expr.Integers

/-! `round(int, int)` of expressions (`funcsmath.go`), against the nearest multiple of a power of ten. -/

namespace Sqi.Expr
open Word

/-! ## Nearest multiples -/

/-- `k` times `unit` is nearest to `n`, and `k` is even where another multiple is as near. -/
structure NearestEven (unit n k : Int) : Prop where
  nearest : ∀ j, (n - k * unit).natAbs ≤ (n - j * unit).natAbs
  even : ∀ j, j ≠ k → (n - j * unit).natAbs = (n - k * unit).natAbs → k % 2 = 0

section
variable {unit n k j : Int}

lemma mul_le_distances (hunit : 0 < unit) {m : Int} (h : m ≤ (j - k).natAbs) :
    m * unit ≤ (n - k * unit).natAbs + (n - j * unit).natAbs := by
  have hmul : m * unit ≤ (j * unit - k * unit).natAbs := by
    rw [← sub_mul, Int.natAbs_mul, Nat.cast_mul, Int.natAbs_of_nonneg hunit.le]
    exact mul_le_mul_of_nonneg_right h hunit.le
  omega

lemma NearestEven.of_half (hunit : 0 < unit) (hle : 2 * ((n - k * unit).natAbs : Int) ≤ unit)
    (htie : 2 * ((n - k * unit).natAbs : Int) = unit → k % 2 = 0) : NearestEven unit n k where
  nearest j := by
    rcases eq_or_ne j k with rfl | h
    · exact le_rfl
    · have := mul_le_distances (n := n) (m := 1) hunit (j := j) (k := k) (by omega)
      omega
  even j h e := by
    have := mul_le_distances (n := n) (m := 1) hunit (j := j) (k := k) (by omega)
    exact htie (by omega)

lemma NearestEven.half (h : NearestEven unit n k) (hunit : 0 < unit) :
    2 * ((n - k * unit).natAbs : Int) ≤ unit := by
  have hup := h.nearest (k + 1)
  have hdown := h.nearest (k - 1)
  rw [add_mul, one_mul] at hup
  rw [sub_mul, one_mul] at hdown
  omega

lemma NearestEven.unique (hk : NearestEven unit n k) (hj : NearestEven unit n j) (hunit : 0 < unit) : j = k := by
  by_contra hne
  have hsame := le_antisymm (hj.nearest k) (hk.nearest j)
  -- two even factors differ by two, too far for both products to be within half a unit
  have heven := hk.even j hne hsame
  have heven' := hj.even k (Ne.symm hne) hsame.symm
  have := mul_le_distances (n := n) (m := 2) hunit (j := j) (k := k) (by omega)
  have := hk.half hunit
  have := hj.half hunit
  omega

end

def roundIntBeyondScale (n places : Int) : Except EvalError Int :=
  if 19 < places ∨ (-5000000000000000000 ≤ n ∧ n ≤ 5000000000000000000) then .ok 0 else .error .intOverflow

/-- The loop of `roundIntToDigits`: no scale where the next power of ten is out of range. -/
def scaleLoop : Nat → Int → Option Int
  | 0, scale => some scale
  | k + 1, scale => if maxInt / 10 < scale then none else scaleLoop k (wrap (scale * 10))

def roundQuotient (n scale : Int) : Int :=
  let q := n.tdiv scale
  let r := n.tmod scale
  let half := scale.tdiv 2
  if half < r ∨ r = half ∧ q.tmod 2 ≠ 0 then wrap (q + 1)
  else if r < -half ∨ r = -half ∧ q.tmod 2 ≠ 0 then wrap (q - 1)
  else q

def roundIntToDigits (n ndigits : Int) : Except EvalError Int :=
  if 0 ≤ ndigits then .ok n
  else
    -- a range over a negative count makes no turn
    match scaleLoop (wrap (-ndigits)).toNat 1 with
    | none => roundIntBeyondScale n (wrap (-ndigits))
    | some scale => mulInt (roundQuotient n scale) scale

lemma scaleLoop_eq (k p : Nat) (h : p ≤ 18) :
    scaleLoop k (10 ^ p) = if p + k ≤ 18 then some (10 ^ (p + k)) else none := by
  induction k generalizing p with
  | zero => rw [scaleLoop, if_pos (by omega), Nat.add_zero]
  | succ k ih =>
    rw [scaleLoop]
    rcases Nat.lt_or_eq_of_le h with hlt | rfl
    · have hstep : ∀ p < 18, ¬ maxInt / 10 < (10 : Int) ^ p ∧ wrap (10 ^ p * 10) = 10 ^ (p + 1) := by decide
      rw [if_neg (hstep p hlt).1, (hstep p hlt).2, ih (p + 1) hlt, Nat.add_right_comm, Nat.add_assoc]
    · rw [if_pos (by decide), if_neg (by omega)]

lemma roundQuotient_nearest {n scale : Int} (hn : IsInt n) (hscale : 2 ≤ scale) (heven : scale % 2 = 0) :
    NearestEven scale n (roundQuotient n scale) ∧ IsInt (roundQuotient n scale) := by
  have hdiv : n.tdiv scale * scale + n.tmod scale = n := by rw [mul_comm]; exact Int.mul_tdiv_add_tmod n scale
  have hlt := Int.tmod_lt_of_pos n (show 0 < scale by omega)
  have hgt := Int.lt_tmod_of_pos n (show 0 < scale by omega)
  have hquot : (n.tdiv scale).natAbs ≤ n.natAbs / 2 := by
    rw [Int.natAbs_tdiv]
    exact Nat.div_le_div_left (by omega) (by decide)
  have hparity : (n.tdiv scale).tmod 2 ≠ 0 ↔ n.tdiv scale % 2 ≠ 0 := by
    rw [ne_eq, ← Int.dvd_iff_tmod_eq_zero, Int.dvd_iff_emod_eq_zero]
  have hhalf : scale.tdiv 2 * 2 = scale := Int.tdiv_mul_cancel (Int.dvd_of_emod_eq_zero heven)
  simp only [IsInt, minInt, maxInt] at hn
  have hwrap : ∀ d, -1 ≤ d ∧ d ≤ 1 → IsInt (n.tdiv scale + d) := by
    intro d hd
    simp only [IsInt, minInt, maxInt]
    omega
  simp only [roundQuotient, hparity]
  split
  · rw [wrap_of_isInt (hwrap 1 (by decide))]
    refine ⟨.of_half (by omega) ?_ ?_, hwrap 1 (by decide)⟩ <;> rw [add_mul, one_mul] <;> omega
  split
  · rw [sub_eq_add_neg, wrap_of_isInt (hwrap (-1) (by decide))]
    refine ⟨.of_half (by omega) ?_ ?_, hwrap (-1) (by decide)⟩ <;> rw [add_mul, neg_one_mul] <;> omega
  · exact ⟨.of_half (by omega) (by omega) (by omega), by simpa using hwrap 0 (by decide)⟩

lemma roundIntBeyondScale_nearest {n : Int} (hn : IsInt n) {p : Nat} (h : 19 ≤ p) :
    ∃ k, NearestEven (10 ^ p) n k ∧ roundIntBeyondScale n p = fit (k * 10 ^ p) := by
  simp only [IsInt, minInt, maxInt] at hn
  have hpow : (10 : Int) ^ 19 ≤ 10 ^ p := pow_le_pow_right₀ (by decide) h
  have hzero : 2 * (n.natAbs : Int) ≤ 10 ^ p → NearestEven (10 ^ p) n 0 := fun hle =>
    .of_half (by positivity) (by simpa using hle) fun _ => rfl
  unfold roundIntBeyondScale
  split
  · rename_i hsmall
    refine ⟨0, hzero ?_, by rw [zero_mul]; rfl⟩
    rcases hsmall with hlarge | hle
    · have := pow_le_pow_right₀ (show (1 : Int) ≤ 10 by decide) (show 20 ≤ p by omega)
      omega
    · omega
  · -- only the first power out of range has a half that `n` can pass
    obtain rfl : p = 19 := by omega
    rcases lt_or_gt_of_ne (show n ≠ 0 by omega) with hlt | hgt
    · exact ⟨-1, .of_half (by decide) (by omega) (by omega), rfl⟩
    · exact ⟨1, .of_half (by decide) (by omega) (by omega), rfl⟩

lemma roundIntToDigits_nearest {n d : Int} (hn : IsInt n) (hd : IsInt d) (hneg : d < 0) (hmin : d ≠ minInt) :
    ∃ k, NearestEven (10 ^ (-d).toNat) n k ∧ roundIntToDigits n d = fit (k * 10 ^ (-d).toNat) := by
  have hplaces : IsInt (-d) := by
    simp only [IsInt, minInt, maxInt] at hd hmin ⊢
    omega
  obtain ⟨p, hp⟩ := Int.eq_ofNat_of_zero_le (show 0 ≤ -d by omega)
  have hloop := scaleLoop_eq p 0 (by decide)
  rw [pow_zero, Nat.zero_add] at hloop
  rw [roundIntToDigits, if_neg (by omega), wrap_of_isInt hplaces, hp, Int.toNat_natCast, hloop]
  by_cases hrepr : p ≤ 18
  · have hscale : ∀ p ≤ 18, 1 ≤ p → (2 : Int) ≤ 10 ^ p ∧ (10 : Int) ^ p % 2 = 0 ∧ IsInt (10 ^ p) := by decide
    obtain ⟨htwo, heven, hfit⟩ := hscale p hrepr (by omega)
    obtain ⟨hnearest, hquot⟩ := roundQuotient_nearest hn htwo heven
    rw [if_pos hrepr]
    exact ⟨_, hnearest, mulInt_eq hquot hfit⟩
  · rw [if_neg hrepr]
    exact roundIntBeyondScale_nearest hn (by omega)

lemma nearest_zero {n : Int} (hn : IsInt n) : NearestEven (10 ^ (-minInt).toNat) n 0 := by
  have hlarge : (10 : Int) ^ 20 ≤ 10 ^ (-minInt).toNat := pow_le_pow_right₀ (by decide) (by decide)
  simp only [IsInt, minInt, maxInt] at hn
  refine .of_half (by omega) ?_ fun _ => rfl
  rw [zero_mul]
  omega

lemma roundIntToDigits_minInt {n : Int} (hn : IsInt n) :
    roundIntToDigits n minInt = .ok (if n.tmod 2 ≠ 0 then wrap (n + 1) else n) := by
  have hscale : scaleLoop (wrap (-minInt)).toNat 1 = some 1 := rfl
  have hquot : roundQuotient n 1 = if n.tmod 2 ≠ 0 then wrap (n + 1) else n := by
    simp only [roundQuotient, Int.tdiv_one, Int.tmod_one, show (1 : Int).tdiv 2 = 0 from rfl, neg_zero,
      lt_self_iff_false,
      true_and, false_or]
    split
    · rfl
    · rfl
  have hfit : IsInt (roundQuotient n 1) := by
    rw [hquot]
    split
    · exact wrap_isInt _
    · exact hn
  rw [roundIntToDigits, if_neg (by decide), hscale, ← hquot]
  dsimp only
  rw [mulInt_eq hfit (by decide), mul_one, fit_of_isInt hfit]

/-- Rounding goes to the nearest multiple, ties to the even one, except at the least
number of digits, where only 0 and -1 are rounded to 0. -/
theorem round_int_exact {n d : Int} (hn : IsInt n) (hd : IsInt d) :
    ((0 ≤ d → roundIntToDigits n d = .ok n) ∧ (d < 0 → (∃ k, NearestEven (10 ^ (-d).toNat) n k) ∧
        ∀ k, NearestEven (10 ^ (-d).toNat) n k → roundIntToDigits n d = fit (k * 10 ^ (-d).toNat))) ↔
      d ≠ minInt ∨ n = 0 ∨ n = -1 := by
  by_cases hmin : d = minInt
  · subst hmin
    have hzero := nearest_zero hn
    have hfit : fit (0 * 10 ^ (-minInt).toNat) = .ok 0 := by
      rw [zero_mul]
      rfl
    have hwrap : wrap (n + 1) = 0 → n = -1 := by
      intro h
      obtain ⟨k, hk⟩ := wrap_eq_sub (n + 1)
      simp only [IsInt, minInt, maxInt] at hn
      omega
    constructor
    · rintro ⟨-, h⟩
      have hround := (h (by decide)).2 0 hzero
      rw [roundIntToDigits_minInt hn, hfit, Except.ok.injEq] at hround
      split at hround
      · exact .inr (.inr (hwrap hround))
      · exact .inr (.inl hround)
    · intro h
      refine ⟨fun h => absurd h (by decide), fun _ => ⟨⟨0, hzero⟩, fun k hk => ?_⟩⟩
      rw [hzero.unique hk (by positivity), hfit, roundIntToDigits_minInt hn]
      rcases h with h | rfl | rfl
      · exact absurd rfl h
      · rfl
      · rfl
  · refine iff_of_true ⟨fun h => if_pos h, fun hneg => ?_⟩ (.inl hmin)
    obtain ⟨k, hk, e⟩ := roundIntToDigits_nearest hn hd hneg hmin
    refine ⟨⟨k, hk⟩, fun j hj => ?_⟩
    rw [hk.unique hj (by positivity), e]

theorem round_int_exact_tie : roundIntToDigits 25 (-1) = .ok 20 := by
  have h := (round_int_exact (n := 25) (d := -1) (by decide) (by decide)).mpr (by decide)
  exact (h.2 (by decide)).2 2 (.of_half (by decide) (by decide) (by decide))

/-- The least exponent has no negation: no scale is computed, and one is rounded to two. -/
theorem round_to_least_exponent :
    IsInt 1 ∧ IsInt minInt ∧ NearestEven (10 ^ (-minInt).toNat) 1 0 ∧ roundIntToDigits 1 minInt = .ok 2 := by
  exact ⟨by decide, by decide, nearest_zero (by decide), by decide⟩

end Sqi.Expr

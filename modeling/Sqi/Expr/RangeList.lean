import Sqi.Expr.RangeExpr
import Sqi.Expr.Slice

/-! The function `range` of expressions (`funcslist.go`), against Python's. -/

namespace Sqi.Expr
open Word Progression Program Prog

/-- The conversion to `uint64`. -/
def uint64 (n : Int) : Int := n % 2 ^ 64

/-- The end of `rangeCount`, from the span and the step's magnitude on. -/
def countOf (span mag : Int) : Int :=
  let count := if span % mag ≠ 0 then uint64 (span / mag + 1) else span / mag
  if maxElements < count then maxElements + 1 else count
def rangeCount (start stop step : Int) : Int :=
  if 0 < step ∧ start < stop then countOf (uint64 (uint64 stop - uint64 start)) (uint64 step)
  else if step < 0 ∧ stop < start then countOf (uint64 (uint64 start - uint64 stop)) (uint64 (wrap (-step)))
  else 0
def rangeVals (step : Int) : Nat → Int → List Int
  | 0, _ => []
  | k + 1, n => n :: rangeVals step k (wrap (n + step))

def rangeList (F : Type) (start stop step : Int) : Eval (Value F) :=
  if step = 0 then .fail .rangeZeroStep
  else do
    let count := rangeCount start stop step
    .ofExcept (checkCount count)
    reserve count
    return if count = 0 then .list .null [] else .list .int ((rangeVals step count.toNat start).map .int)

variable {start stop step : Int}

lemma countOf_eq {span mag : Int} (hspan : 0 ≤ span ∧ span < 2 ^ 64) (hmag : 0 < mag) :
    countOf span mag = min ((span + mag - 1) / mag) (maxElements + 1) := by
  have hdiv := Int.mul_ediv_add_emod span mag
  have hmod := Int.emod_nonneg span hmag.ne'
  have hlt := Int.emod_lt_of_pos span hmag
  have hquot : 0 ≤ span / mag := Int.ediv_nonneg hspan.1 hmag.le
  have hceil : (span + mag - 1) / mag = if span % mag ≠ 0 then uint64 (span / mag + 1) else span / mag := by
    split
    · -- a remainder leaves room for the one more
      have hle := le_mul_of_one_le_left hquot (show 1 ≤ mag from hmag)
      rw [uint64, Int.emod_eq_of_lt (by omega) (by omega)]
      refine ((Int.ediv_emod_unique (r := span % mag - 1) hmag).mpr ⟨?_, by omega, by omega⟩).1
      rw [mul_add, mul_one]
      omega
    · exact ((Int.ediv_emod_unique (r := mag - 1) hmag).mpr ⟨by omega, by omega, by omega⟩).1
  rw [hceil, countOf]
  omega

lemma countOf_between {lo hi mag : Int} (hlo : IsInt lo) (hhi : IsInt hi) (h : lo < hi)
    (hmag : 0 < mag ∧ mag ≤ -minInt) :
    countOf (uint64 (uint64 hi - uint64 lo)) (uint64 mag) = min ((hi - lo + mag - 1) / mag) (maxElements + 1) := by
  simp only [IsInt, minInt, maxInt] at hlo hhi hmag
  have hspan : uint64 (uint64 hi - uint64 lo) = hi - lo := by
    unfold uint64
    omega
  have hsame : uint64 mag = mag := by
    unfold uint64
    omega
  rw [hspan, hsame, countOf_eq (by omega) hmag.1]

lemma rangeCount_eq (hstart : IsInt start) (hstop : IsInt stop) (hstep : IsInt step) (h : step ≠ 0) :
    rangeCount start stop step = min (termsBefore start stop step : Int) (maxElements + 1) := by
  have hcount : 0 < termsBefore start stop step ↔ 0 < step ∧ start < stop ∨ step < 0 ∧ stop < start := by
    rcases lt_or_gt_of_ne h with hneg | hpos
    · rw [lt_termsBefore_down hneg]
      omega
    · rw [lt_termsBefore_up hpos]
      omega
  rw [rangeCount]
  split
  · rename_i hup
    rw [countOf_between hstart hstop hup.2 ⟨hup.1, hstep.2.trans (by decide)⟩, termsBefore, if_pos hup.1,
      Int.toNat_of_nonneg (Int.ediv_nonneg (by omega) (by omega))]
  split
  · rename_i hdown
    have hneg : uint64 (wrap (-step)) = uint64 (-step) := Int.bmod_emod
    rw [hneg, countOf_between hstop hstart hdown.2 ⟨by omega, by have := hstep.1; omega⟩, termsBefore,
      if_neg (by omega), Int.toNat_of_nonneg (Int.ediv_nonneg (by omega) (by omega)),
        sub_eq_add_neg (start - stop) step]
  · have : (0 : Int) < maxElements := by decide
    omega

lemma rangeVals_eq {k : Nat} (h : ∀ i : Nat, i < k → IsInt (start + i * step)) :
    rangeVals step k start = terms start step k := by
  induction k generalizing start with
  | zero => rfl
  | succ k ih =>
    rw [rangeVals, terms_succ]
    refine congrArg (start :: ·) ?_
    -- the sum after the last element may wrap: nothing reads it
    cases k with
    | zero => rfl
    | succ k =>
      have hnext : wrap (start + step) = start + step := wrap_of_isInt (by simpa using h 1 (by omega))
      rw [hnext]
      refine ih fun i hi => ?_
      have hlater := h (i + 1) (by omega)
      rwa [Nat.cast_succ, add_mul, one_mul, add_comm _ step, ← add_assoc] at hlater

lemma isInt_of_lt_termsBefore (hstart : IsInt start) (hstop : IsInt stop) (h : step ≠ 0) {i : Nat}
    (hi : i < termsBefore start stop step) : IsInt (start + i * step) := by
  simp only [IsInt] at *
  rcases lt_or_gt_of_ne h with hneg | hpos
  · have := mul_nonpos_of_nonneg_of_nonpos (Int.natCast_nonneg i) hneg.le
    have := (lt_termsBefore_down hneg i).mp hi
    omega
  · have := mul_nonneg (Int.natCast_nonneg i) hpos.le
    have := (lt_termsBefore_up hpos i).mp hi
    omega

lemma reserve_not_tooLarge (n : Int) (m : Meter) (b : TooLarge) : (reserve n m).1 ≠ .error (.tooLarge b) := by
  unfold reserve deadlinePassed Prog.tx
  dsimp only
  split_ifs <;> (try split) <;> (try split_ifs) <;> simp

/-- `range` yields the integers of Python's, or fails when there are more than the limit. -/
theorem range_is_python (F : Type) (hstart : IsInt start) (hstop : IsInt stop) (hstep : IsInt step) (h : step ≠ 0) :
    ∃ count : Nat,
      (∀ i : Nat, i < count ↔ if 0 < step then start + i * step < stop else stop < start + i * step) ∧
      (rangeCount start stop step = if (count : Int) ≤ maxElements then (count : Int) else maxElements + 1) ∧
      (maxElements < (count : Int) → rangeList F start stop step = .fail (.tooLarge (.elements (maxElements + 1)))) ∧
      ((count : Int) ≤ maxElements →
        (rangeList F start stop step = do
          reserve count
          return .list (if count = 0 then .null else .int) ((terms start step count).map .int)) ∧
        ∀ m b, (rangeList F start stop step m).1 ≠ .error (.tooLarge b)) := by
  refine ⟨termsBefore start stop step, fun i => ?_, ?_, fun hover => ?_, fun hwithin => ?_⟩
  · split
    · exact lt_termsBefore_up ‹_› i
    · exact lt_termsBefore_down (by omega) i
  · rw [rangeCount_eq hstart hstop hstep h]
    omega
  · unfold rangeList
    rw [if_neg h, rangeCount_eq hstart hstop hstep h, min_eq_right (by omega)]
    rfl
  · have hcount : rangeCount start stop step = termsBefore start stop step := by
      rw [rangeCount_eq hstart hstop hstep h]
      omega
    have hlist : rangeList F start stop step = do
        reserve (termsBefore start stop step)
        return .list (if termsBefore start stop step = 0 then .null else .int)
          ((terms start step (termsBefore start stop step)).map .int) := by
      have hcheck : checkCount (termsBefore start stop step) = .ok () := by
        rw [checkCount, checkElementCount, if_neg (by omega)]
        rfl
      funext m
      unfold rangeList
      simp only [if_neg h, hcount]
      rw [hcheck, bind_ok (ofExcept_apply _ m), Int.toNat_natCast,
        rangeVals_eq fun i hi => isInt_of_lt_termsBefore hstart hstop h hi]
      by_cases hzero : termsBefore start stop step = 0 <;> simp [hzero]
    refine ⟨hlist, fun m b hsize => ?_⟩
    rw [hlist] at hsize
    cases hr : reserve (termsBefore start stop step) m with
    | mk r m' =>
      cases r with
      | error e =>
        rw [bind_error hr] at hsize
        cases hsize
        exact reserve_not_tooLarge _ m b (by rw [hr])
      | ok u =>
        rw [bind_ok hr] at hsize
        cases hsize

theorem range_is_python_extremes :
    rangeList Unit (-maxInt) maxInt maxInt = do
      reserve 2
      return .list .int [.int (-maxInt), .int 0] := by
  have hmax : IsInt maxInt := by decide
  have hmin : IsInt (-maxInt) := by decide
  obtain ⟨count, -, hcount, -, hlist⟩ := range_is_python Unit hmin hmax hmax (by decide)
  have htwo : rangeCount (-maxInt) maxInt maxInt = 2 := by decide
  rw [htwo, maxElements] at hcount
  obtain rfl : count = 2 := by split at hcount <;> omega
  exact (hlist (by decide)).1

end Sqi.Expr

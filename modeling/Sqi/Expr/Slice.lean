import Sqi.Lib.Progression
import Sqi.Lib.Word

/-! The indices of a slice (`slice.go`), against Python's. -/

namespace Sqi.Expr
open Option Progression Word

def clampSliceBound (i length : Int) (forward : Bool) : Int :=
  let i := if i < 0 then wrap (i + length) else i
  let lo := if forward then 0 else -1
  let hi := if forward then length else length - 1
  if i < lo then lo else if hi < i then hi else i

def sliceIndices (fuel : Nat) (start stop step : Option Int) (length : Int) : Option (List Int) :=
  let stride := step.getD 1
  let forward : Bool := 0 < stride
  let first := (start.map fun i => clampSliceBound i length forward).getD (if forward then 0 else length - 1)
  let bound := (stop.map fun i => clampSliceBound i length forward).getD (if forward then length else -1)
  if forward then collect (· < bound) (fun i => wrap (i + stride)) fuel first
  else collect (bound < ·) (fun i => wrap (i + stride)) fuel first

/-! ## Python -/

def termsBefore (start stop step : Int) : Nat :=
  if 0 < step then ((stop - start + step - 1) / step).toNat else ((start - stop - step - 1) / -step).toNat
def pyRange (start stop step : Int) : List Int := terms start step (termsBefore start stop step)
def pyBound (n step v : Int) : Int :=
  if v < 0 then max (v + n) (if step < 0 then -1 else 0) else min v (if step < 0 then n - 1 else n)
def pyIndices (start stop step : Option Int) (n : Int) : List Int :=
  let step := step.getD 1
  pyRange ((start.map (pyBound n step)).getD (if step < 0 then n - 1 else 0))
    ((stop.map (pyBound n step)).getD (if step < 0 then -1 else n)) step

variable {start stop step n : Int} {fuel : Nat}

lemma lt_termsBefore_up (h : 0 < step) (i : Nat) :
    i < termsBefore start stop step ↔ start + i * step < stop := by
  rw [termsBefore, if_pos h, Int.lt_toNat, Int.lt_iff_add_one_le, Int.le_ediv_iff_mul_le h, add_mul, one_mul]
  omega

lemma lt_termsBefore_down (h : step < 0) (i : Nat) :
    i < termsBefore start stop step ↔ stop < start + i * step := by
  rw [termsBefore, if_neg (by omega), Int.lt_toNat, Int.lt_iff_add_one_le, Int.le_ediv_iff_mul_le (by omega), add_mul,
    one_mul, mul_neg]
  omega

lemma mem_pyRange (h : step ≠ 0) {v : Int} :
    v ∈ pyRange start stop step ↔ ∃ i : Nat, v = start + i * step ∧ (0 < step → v < stop) ∧ (step < 0 → stop < v) := by
  rw [pyRange, mem_terms]
  refine exists_congr fun i => ?_
  rcases lt_or_gt_of_ne h with h | h
  · rw [lt_termsBefore_down h]
    constructor
    · rintro ⟨hi, rfl⟩
      exact ⟨rfl, fun hpos => absurd h (by omega), fun _ => hi⟩
    · rintro ⟨rfl, -, hi⟩
      exact ⟨hi h, rfl⟩
  · rw [lt_termsBefore_up h]
    constructor
    · rintro ⟨hi, rfl⟩
      exact ⟨rfl, fun _ => hi, fun hneg => absurd h (by omega)⟩
    · rintro ⟨rfl, hi, -⟩
      exact ⟨hi h, rfl⟩

/-! ## The two agree -/

lemma clampSliceBound_eq {i length : Int} (hi : IsInt i) (hlen : 0 ≤ length ∧ length ≤ maxInt) (hstep : step ≠ 0) :
    clampSliceBound i length (0 < step) = pyBound length step i := by
  have hadd : (if i < 0 then wrap (i + length) else i) = if i < 0 then i + length else i := by
    split
    · refine wrap_of_isInt ?_
      simp only [IsInt, minInt, maxInt] at *
      omega
    · rfl
  unfold clampSliceBound pyBound
  rw [hadd]
  rcases lt_or_gt_of_ne hstep with hs | hs
  · simp only [decide_eq_false (show ¬ 0 < step by omega), Bool.false_eq_true, if_false, if_pos hs]
    split_ifs <;> omega
  · simp only [decide_eq_true hs, if_true, if_neg (show ¬ step < 0 by omega)]
    split_ifs <;> omega

lemma pyBound_getD_range (v : Option Int) (step default : Int) (hn : 0 ≤ n)
    (hdefault : (if step < 0 then -1 else 0) ≤ default ∧ default ≤ if step < 0 then n - 1 else n) :
    (if step < 0 then -1 else 0) ≤ (v.map (pyBound n step)).getD default ∧
      (v.map (pyBound n step)).getD default ≤ if step < 0 then n - 1 else n := by
  cases v with
  | none => exact hdefault
  | some v =>
    simp only [map_some, getD_some, pyBound]
    split_ifs <;> omega

lemma clamp_getD_eq {v : Option Int} {length default : Int} (hv : ∀ i ∈ v, IsInt i)
    (hlen : 0 ≤ length ∧ length ≤ maxInt) (hstep : step ≠ 0) :
    (v.map fun i => clampSliceBound i length (0 < step)).getD default = (v.map (pyBound length step)).getD default := by
  cases v with
  | none => rfl
  | some i => exact clampSliceBound_eq (hv i rfl) hlen hstep

lemma le_getLast_pyRange {first bound stride : Int} (hpos : 0 < stride) {i : Nat} (hi : first + i * stride < bound) :
    ∃ last ∈ (pyRange first bound stride).getLast?, first + i * stride ≤ last := by
  have hlt := (lt_termsBefore_up hpos i).mpr hi
  have hlast : (pyRange first bound stride).getLast? =
      some (first + (termsBefore first bound stride - 1 : Nat) * stride) := by
    rw [pyRange, List.getLast?_eq_getElem?, length_terms, getElem?_terms (by omega)]
  refine ⟨_, hlast, ?_⟩
  have := Int.mul_le_mul_of_nonneg_right (show (i : Int) ≤ (termsBefore first bound stride - 1 : Nat) by omega) hpos.le
  omega

/-- The loop lists what Python does until its index wraps, which it does behind the last index if anywhere. -/
lemma collect_up {first bound stride : Int} (hpos : 0 < stride) (hstride : stride ≤ maxInt) (hfirst : 0 ≤ first)
    (hbound : 0 ≤ bound ∧ bound ≤ n) (hmax : n ≤ maxInt) (hfuel : n.toNat < fuel) :
    collect (· < bound) (fun i => wrap (i + stride)) fuel first = some (pyRange first bound stride) ↔
      ∀ last ∈ (pyRange first bound stride).getLast?, last + stride ≤ maxInt := by
  have hle : ∀ i : Nat, first + i * stride < bound → (i : Int) ≤ n - 1 := by
    intro i hi
    have : (i : Int) * 1 ≤ i * stride := Int.mul_le_mul_of_nonneg_left (by omega) (by omega)
    omega
  constructor
  · intro h last hlast
    have hstop := not_go_of_collect h last hlast
    obtain ⟨i, rfl, hup, -⟩ := (mem_pyRange hpos.ne').mp (List.mem_of_getLast? hlast)
    have := hup hpos
    by_contra hover
    rw [wrap_of_over (by omega) (by simp only [maxInt] at *; omega)] at hstop
    simp only [maxInt] at *
    omega
  intro hfit
  refine collect_eq (fun i hi => (lt_termsBefore_up hpos i).mp hi) (fun i hi => ?_)
    (fun hgo => absurd ((lt_termsBefore_up hpos _).mpr hgo) (lt_irrefl _)) ?_
  · obtain ⟨last, hlast, hi⟩ := le_getLast_pyRange hpos ((lt_termsBefore_up hpos i).mp hi)
    have := hfit last hlast
    have : 0 ≤ (i : Int) * stride := mul_nonneg (by omega) hpos.le
    refine wrap_of_isInt ⟨?_, by omega⟩
    simp only [minInt]
    omega
  · -- every round takes another position of the sequence
    by_contra hlt
    have := hle n.toNat ((lt_termsBefore_up hpos _).mp (by omega))
    omega

lemma collect_down {first bound stride : Int} (hneg : stride < 0) (hmin : minInt ≤ stride) (hfirst : first ≤ n - 1)
    (hbound : -1 ≤ bound) (hn : 0 ≤ n) (hmax : n ≤ maxInt) (hfuel : n.toNat < fuel) :
    collect (bound < ·) (fun i => wrap (i + stride)) fuel first = some (pyRange first bound stride) := by
  have hle : ∀ i : Nat, bound < first + i * stride → (i : Int) ≤ n - 1 := by
    intro i hi
    have : (i : Int) * stride ≤ i * (-1) := Int.mul_le_mul_of_nonneg_left (by omega) (by omega)
    omega
  refine collect_eq (fun i hi => (lt_termsBefore_down hneg i).mp hi) (fun i hi => ?_)
    (fun hgo => absurd ((lt_termsBefore_down hneg _).mpr hgo) (lt_irrefl _)) ?_
  · have hi := (lt_termsBefore_down hneg i).mp hi
    have : (i : Int) * stride ≤ 0 := mul_nonpos_of_nonneg_of_nonpos (by omega) hneg.le
    exact wrap_of_isInt ⟨by omega, by omega⟩
  · by_contra hlt
    have := hle n.toNat ((lt_termsBefore_down hneg _).mp (by omega))
    omega

/-- Slices follow Python exactly if the last index Python takes plus the step is an integer of 64 bits. -/
theorem slice_indices_python {n : Int} (hn : 0 ≤ n ∧ n ≤ maxInt) (start stop step : Option Int)
    (hstart : ∀ v ∈ start, IsInt v) (hstop : ∀ v ∈ stop, IsInt v) (hstep : ∀ v ∈ step, IsInt v ∧ v ≠ 0)
    {fuel : Nat} (hfuel : n.toNat < fuel) :
    (sliceIndices fuel start stop step n = some (pyIndices start stop step n) ∧
      ∀ i ∈ pyIndices start stop step n, 0 ≤ i ∧ i < n) ↔
    ∀ last ∈ (pyIndices start stop step n).getLast?, last + step.getD 1 ≤ maxInt := by
  obtain ⟨stride, hstride⟩ : ∃ s, step.getD 1 = s := ⟨_, rfl⟩
  have hs : IsInt stride ∧ stride ≠ 0 := by
    cases step with
    | none =>
      cases hstride
      decide
    | some v =>
      cases hstride
      exact hstep v rfl
  obtain ⟨⟨hmin, hmax⟩, hzero⟩ := hs
  unfold sliceIndices pyIndices
  dsimp only
  rw [hstride, clamp_getD_eq hstart hn hzero, clamp_getD_eq hstop hn hzero]
  rcases lt_or_gt_of_ne hzero with hneg | hpos
  · have hup : ¬ 0 < stride := not_lt_of_gt hneg
    have hfirst := pyBound_getD_range start stride (n - 1) hn.1 (by simp [hneg]; omega)
    have hbound := pyBound_getD_range stop stride (-1) hn.1 (by simp [hneg]; omega)
    simp only [hneg, hup, decide_false, Bool.false_eq_true, if_true, if_false] at hfirst hbound ⊢
    generalize (start.map (pyBound n stride)).getD (n - 1) = first at hfirst ⊢
    generalize (stop.map (pyBound n stride)).getD (-1) = bound at hbound ⊢
    have inside : ∀ i ∈ pyRange first bound stride, 0 ≤ i ∧ i < n := fun i hi => by
      obtain ⟨k, rfl, -, hdown⟩ := (mem_pyRange hzero).mp hi
      have := hdown hneg
      have : (k : Int) * stride ≤ 0 := mul_nonpos_of_nonneg_of_nonpos (by omega) hneg.le
      omega
    refine iff_of_true ⟨collect_down hneg hmin hfirst.2 hbound.1 hn.1 hn.2 hfuel, inside⟩ fun last hlast => ?_
    have := inside last (List.mem_of_getLast? hlast)
    omega
  · have hdown : ¬ stride < 0 := not_lt_of_gt hpos
    have hfirst := pyBound_getD_range start stride 0 hn.1 (by simp [hdown]; omega)
    have hbound := pyBound_getD_range stop stride n hn.1 (by simp [hdown]; omega)
    simp only [hpos, hdown, decide_true, if_true, if_false] at hfirst hbound ⊢
    rw [collect_up hpos hmax hfirst.1 hbound hn.2 hfuel, and_iff_left]
    intro i hi
    obtain ⟨k, rfl, hup, -⟩ := (mem_pyRange hzero).mp hi
    have := hup hpos
    have : 0 ≤ (k : Int) * stride := mul_nonneg (by omega) hpos.le
    omega

theorem slice_indices_python_reversed :
    sliceIndices 6 (some (-2)) none (some (-2)) 5 = some [3, 1] ∧ ∀ i ∈ [3, 1], (0 : Int) ≤ i ∧ i < 5 :=
  (slice_indices_python (by decide) (some (-2)) none (some (-2)) (by simp; decide) nofun (by simp; decide)
    (by decide)).mpr (by decide)

/-- From index 1 of two elements the largest step wraps to the least integer, and the
loop goes on: it lists two indices that are none. -/
theorem wrapped_slice_index :
    sliceIndices 4 (some 1) none (some maxInt) 2 = some [1, minInt, -1] ∧
      pyIndices (some 1) none (some maxInt) 2 = [1] := by
  decide +kernel

end Sqi.Expr

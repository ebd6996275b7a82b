import Sqi.Lib.Progression
import Sqi.OpenJD.Range

/-! What a range counts and what it yields (`Count` and `Iterate` of package
`intrange`), against the set the specification gives it: the start, and every
later term that is not past the end. -/

namespace Sqi
open Word Progression

namespace IntRange

structure Fits (r : IntRange) : Prop where
  start : IsInt r.start
  stop : IsInt r.stop
  step : IsInt r.step

def members (r : IntRange) : Set Int := reach r.start r.stop r.stride
def stepCount (r : IntRange) : Nat := steps r.start r.stop r.stride

lemma stride_ne_zero (r : IntRange) : r.stride ≠ 0 := by
  unfold stride
  split
  · decide
  · assumption

variable {r : IntRange} {v : Int}

lemma stride_of_step (h : r.step ≠ 0) : r.stride = r.step := if_neg h
lemma ncard_members (r : IntRange) : r.members.ncard = r.stepCount + 1 := ncard_reach r.stride_ne_zero
lemma stepCount_of_mismatch (h : decide (0 < r.stop - r.start) ≠ decide (0 < r.stride)) :
    r.stepCount = 0 := by
  have hs := r.stride_ne_zero
  unfold stepCount steps
  rcases lt_or_ge 0 (r.stop - r.start) with hspan | hspan
  · have hdown : r.stride ≤ 0 := by
      by_contra hpos
      exact h (by rw [decide_eq_true hspan, decide_eq_true (by omega)])
    exact Int.toNat_of_nonpos (Int.tdiv_nonpos_of_nonneg_of_nonpos hspan.le hdown)
  · have hup : 0 ≤ r.stride := by
      by_contra hneg
      exact h (by rw [decide_eq_false (by omega), decide_eq_false (by omega)])
    have hq := Int.tdiv_nonneg (a := -(r.stop - r.start)) (by omega) hup
    rw [Int.neg_tdiv] at hq
    exact Int.toNat_of_nonpos (by omega)

lemma stepCount_of_match (h : decide (0 < r.stop - r.start) = decide (0 < r.stride)) :
    (r.stepCount : Int) = (r.stop - r.start).tdiv r.stride := by
  have hs := r.stride_ne_zero
  unfold stepCount steps
  refine Int.toNat_of_nonneg ?_
  rcases lt_or_ge 0 (r.stop - r.start) with hspan | hspan
  · rw [decide_eq_true hspan, eq_comm, decide_eq_true_eq] at h
    exact Int.tdiv_nonneg hspan.le h.le
  · rw [decide_eq_false (by omega), eq_comm, decide_eq_false_iff_not] at h
    rw [← Int.neg_tdiv_neg]
    exact Int.tdiv_nonneg (by omega) (by omega)

lemma span_turns (h : r.Fits) (hspan : ¬ IsInt (r.stop - r.start)) :
    (0 < wrap (r.stop - r.start) ∧ r.stop < r.start) ∨ (wrap (r.stop - r.start) < 0 ∧ r.start < r.stop) := by
  obtain ⟨hstart, hstop, -⟩ := h
  simp only [IsInt, minInt, maxInt] at hstart hstop hspan
  rcases lt_or_ge r.start r.stop with hlt | hge
  · right
    rw [wrap_of_over (by simp only [maxInt]; omega) (by simp only [maxInt]; omega)]
    omega
  · left
    rw [wrap_of_under (by simp only [minInt]; omega) (by simp only [minInt]; omega)]
    omega

lemma count_eq (h : r.Fits) :
    r.count = if IsInt (r.stop - r.start) ∧ (r.stepCount : Int) + 1 ≤ maxInt then (r.stepCount : Int) + 1
      else maxInt := by
  unfold count
  dsimp only
  by_cases hspan : IsInt (r.stop - r.start)
  · rw [wrap_of_isInt hspan, if_neg (by omega)]
    by_cases hdir : decide (0 < r.stop - r.start) = decide (0 < r.stride)
    · have hcount := stepCount_of_match hdir
      rw [if_neg (not_not.mpr hdir), ← hcount]
      by_cases hmin : r.stop - r.start = minInt ∧ r.stride = -1
      · -- the one quotient that does not fit: the least span, one step at a time
        have hbig : (r.stepCount : Int) = 2 ^ 63 := by
          rw [hcount, hmin.1, hmin.2]
          rfl
        rw [if_pos hmin, if_neg]
        rintro ⟨-, hle⟩
        rw [hbig] at hle
        exact absurd hle (by decide)
      · have hle := (tdiv_isInt hspan r.stride_ne_zero hmin).2
        rw [← hcount] at hle
        rw [if_neg hmin]
        by_cases htop : (r.stepCount : Int) = maxInt
        · rw [if_pos htop, if_neg (by omega)]
        · rw [if_neg htop, if_pos ⟨hspan, by omega⟩]
    · rw [if_pos hdir, stepCount_of_mismatch hdir, if_pos ⟨hspan, by decide⟩]
      rfl
  · rw [if_pos (span_turns h hspan), if_neg fun hboth => hspan hboth.1]

lemma count_of_ne (h : r.Fits) (hc : r.count ≠ maxInt) : r.count = r.stepCount + 1 := by
  rw [count_eq h] at hc ⊢
  split
  · rfl
  · rename_i hbig
    rw [if_neg hbig] at hc
    exact absurd rfl hc

/-! ## The enumeration -/

lemma iterateUp_eq_walk (r : IntRange) (fuel : Nat) (v : Int) :
    r.iterateUp fuel v = walk (fun v => v ≤ r.stop ∨ v = r.start) (fun v => maxInt - r.stride < v) r.stride fuel v := by
  induction fuel generalizing v with
  | zero => rfl
  | succ fuel ih => rw [iterateUp, walk, ih]

lemma iterateDown_eq_walk (r : IntRange) (fuel : Nat) (v : Int) : r.iterateDown fuel v =
      walk (fun v => r.stop ≤ v ∨ v = r.start) (fun v => v < minInt - r.stride) r.stride fuel v := by
  induction fuel generalizing v with
  | zero => rfl
  | succ fuel ih => rw [iterateDown, walk, ih]

def loop (r : IntRange) (fuel : Nat) : List Int :=
  if 0 < r.stride then r.iterateUp fuel r.start else r.iterateDown fuel r.start

lemma loop_eq (h : r.Fits) (fuel : Nat) :
    r.loop fuel = terms r.start r.stride (min fuel (r.stepCount + 1)) := by
  obtain ⟨-, hstop, -⟩ := h
  unfold loop
  split
  · rename_i hup
    rw [iterateUp_eq_walk]
    refine walk_within r.stride_ne_zero (fun i hi => le_steps_up hup hi) (fun v hv => ?_) fuel
    have := hstop.2
    omega
  · have hdown : r.stride < 0 := by
      have := r.stride_ne_zero
      omega
    rw [iterateDown_eq_walk]
    refine walk_within r.stride_ne_zero (fun i hi => le_steps_down hdown hi) (fun v hv => ?_) fuel
    have := hstop.1
    omega

def expansion (r : IntRange) : List Int := terms r.start r.stride (r.stepCount + 1)

lemma mem_expansion : v ∈ r.expansion ↔ v ∈ r.members := (mem_reach_iff r.stride_ne_zero).symm
lemma nodup_expansion (r : IntRange) : r.expansion.Nodup := nodup_terms r.stride_ne_zero

lemma iterate_eq (h : r.Fits) (hc : r.count ≠ maxInt) : r.iterate = r.expansion := by
  have hn : r.count.toNat = r.stepCount + 1 := by
    rw [count_of_ne h hc]
    omega
  have hloop : r.iterate = r.loop r.count.toNat := by
    rw [iterate, if_neg hc]
    rfl
  rw [hloop, loop_eq h, hn, Nat.min_self, expansion]

lemma isInt_of_mem (h : r.Fits) (hv : v ∈ r.members) : IsInt v := by
  obtain ⟨⟨hlo, hhi⟩, ⟨hlo', hhi'⟩, -⟩ := h
  rcases hv with rfl | ⟨m, -, rfl, hup, hdown⟩
  · exact ⟨hlo, hhi⟩
  rcases lt_or_gt_of_ne r.stride_ne_zero with hs | hs
  · have hle : (m : Int) * r.stride ≤ 0 := mul_nonpos_of_nonneg_of_nonpos (by omega) hs.le
    have := hdown hs
    exact ⟨by omega, by omega⟩
  · have hge : 0 ≤ (m : Int) * r.stride := mul_nonneg (by omega) hs.le
    have := hup hs
    exact ⟨by omega, by omega⟩

/-- Counting and iterating agree with the set of the specification. -/
theorem count_agrees_with_members (r : IntRange) (h : r.Fits) (hstep : r.step ≠ 0) :
    (r.count = if IsInt (r.stop - r.start) ∧ IsInt r.members.ncard then (r.members.ncard : Int) else maxInt) ∧
    (r.count ≠ maxInt → (∀ v, v ∈ r.iterate ↔ v ∈ r.members) ∧ r.iterate.Nodup ∧
      (∀ (i : Nat) v, r.iterate[i]? = some v → v = r.start + i * r.step ∧ IsInt v) ∧
      ∀ fuel, r.iterate.length ≤ fuel → r.loop fuel = r.iterate) := by
  have hcard : (r.members.ncard : Int) = r.stepCount + 1 := by rw [ncard_members, Nat.cast_succ]
  constructor
  · rw [count_eq h, hcard]
    have hmin : minInt ≤ (r.stepCount : Int) + 1 := by
      simp only [minInt]
      omega
    exact if_congr (and_congr_right fun _ => ⟨fun hmax => ⟨hmin, hmax⟩, fun hfit => hfit.2⟩) rfl rfl
  · intro hc
    have hiter := iterate_eq h hc
    have hmem : ∀ v, v ∈ r.iterate ↔ v ∈ r.members := fun v => by rw [hiter, mem_expansion]
    refine ⟨hmem, ?_, fun i v hv => ⟨?_, ?_⟩, fun fuel hfuel => ?_⟩
    · rw [hiter]
      exact r.nodup_expansion
    · have hi : i < r.stepCount + 1 := by
        have := (List.getElem?_eq_some_iff.mp hv).1
        rwa [hiter, expansion, length_terms] at this
      rw [hiter, expansion, getElem?_terms hi, stride_of_step hstep] at hv
      exact (Option.some.inj hv).symm
    · exact isInt_of_mem h ((hmem v).mp (List.mem_of_getElem? hv))
    · rw [hiter, expansion, length_terms] at hfuel
      rw [loop_eq h, Nat.min_eq_right hfuel, hiter, expansion]

theorem count_agrees_with_members_down :
    iterate ⟨12, 7, -2⟩ = [12, 10, 8] ∧ count ⟨12, 7, -2⟩ ≠ maxInt ∧
      ∀ v, v ∈ iterate ⟨12, 7, -2⟩ ↔ v ∈ members ⟨12, 7, -2⟩ :=
  ⟨by decide, by decide,
    ((count_agrees_with_members ⟨12, 7, -2⟩ ⟨by decide, by decide, by decide⟩ (by decide)).2 (by decide)).1⟩

/-- A count can be the largest integer exactly: the range from zero to one below
it has that many members and a span that fits, and `Iterate` yields none. -/
theorem largest_exact_count_yields_none :
    IsInt ((⟨0, maxInt - 1, 1⟩ : IntRange).stop - (⟨0, maxInt - 1, 1⟩ : IntRange).start) ∧
    (members ⟨0, maxInt - 1, 1⟩).ncard = maxInt ∧
    count ⟨0, maxInt - 1, 1⟩ = (members ⟨0, maxInt - 1, 1⟩).ncard ∧
    iterate ⟨0, maxInt - 1, 1⟩ = [] ∧ 0 ∈ members ⟨0, maxInt - 1, 1⟩ := by
  have hcard : ((members ⟨0, maxInt - 1, 1⟩).ncard : Int) = maxInt := by
    rw [ncard_members]
    decide +kernel
  refine ⟨by decide, hcard, ?_, by decide, .inl rfl⟩
  rw [hcard]
  decide

end IntRange
end Sqi

import Mathlib.Data.Set.Card
import Mathlib.Tactic.Linarith
import Mathlib.Tactic.Ring

/-! Arithmetic progressions of integers with a stop. -/

namespace Progression
open List

/-! ## The first terms -/

def terms (start step : Int) (n : Nat) : List Int := (List.range n).map fun i : Nat => start + i * step

section
variable {start step : Int} {n : Nat}

@[simp] lemma terms_zero : terms start step 0 = [] := rfl

lemma terms_succ : terms start step (n + 1) = start :: terms (start + step) step n := by
  simp only [terms, range_succ_eq_map, map_cons, map_map]
  refine congrArg₂ List.cons (by simp) (map_congr_left fun i _ => ?_)
  simp only [Function.comp_apply, Nat.cast_succ]
  ring

@[simp] lemma length_terms : (terms start step n).length = n := by simp [terms]
lemma getElem?_terms {i : Nat} (h : i < n) : (terms start step n)[i]? = some (start + i * step) := by
  simp [terms, getElem?_map, getElem?_range h]
lemma mem_terms {v : Int} : v ∈ terms start step n ↔ ∃ i : Nat, i < n ∧ start + i * step = v := by
  simp [terms, mem_map]

lemma terms_increasing (h : 0 < step) : (terms start step n).Pairwise (· < ·) := by
  induction n generalizing start with
  | zero => exact .nil
  | succ n ih =>
    rw [terms_succ]
    refine .cons (fun v hv => ?_) ih
    obtain ⟨i, _, rfl⟩ := mem_terms.mp hv
    have : 0 ≤ (i : Int) * step := by positivity
    omega

lemma terms_decreasing (h : step < 0) : (terms start step n).Pairwise (· > ·) := by
  induction n generalizing start with
  | zero => exact .nil
  | succ n ih =>
    rw [terms_succ]
    refine .cons (fun v hv => ?_) ih
    obtain ⟨i, _, rfl⟩ := mem_terms.mp hv
    have : (i : Int) * step ≤ 0 := mul_nonpos_of_nonneg_of_nonpos (by omega) h.le
    omega

lemma nodup_terms (h : step ≠ 0) : (terms start step n).Nodup := by
  rcases lt_or_gt_of_ne h with h | h
  · exact (terms_decreasing h).imp fun hlt => (ne_of_lt hlt).symm
  · exact (terms_increasing h).imp ne_of_lt

end

/-! ## Terms up to a stop -/

def steps (start stop step : Int) : Nat := ((stop - start).tdiv step).toNat
def reach (start stop step : Int) : Set Int :=
  {v | v = start ∨ ∃ m : Nat, 1 ≤ m ∧ v = start + m * step ∧ (0 < step → v ≤ stop) ∧ (step < 0 → stop ≤ v)}

section
variable {start stop step : Int} {m : Nat}

lemma le_steps_up (h : 0 < step) (hm : 1 ≤ m) : m ≤ steps start stop step ↔ start + m * step ≤ stop := by
  unfold steps
  rcases le_or_gt start stop with hle | hlt
  · rw [Int.tdiv_eq_ediv_of_nonneg (by omega), Int.le_toNat (Int.ediv_nonneg (by omega) h.le), Int.le_ediv_iff_mul_le h]
    omega
  have hq : (stop - start).tdiv step ≤ 0 := by
    have := Int.tdiv_nonneg (a := start - stop) (b := step) (by omega) h.le
    rw [← Int.neg_sub, Int.neg_tdiv]
    omega
  have hpos : 0 < m * step := by positivity
  omega

lemma le_steps_down (h : step < 0) (hm : 1 ≤ m) : m ≤ steps start stop step ↔ stop ≤ start + m * step := by
  have hflip : steps start stop step = steps stop start (-step) := by
    unfold steps
    rw [Int.tdiv_neg, ← Int.neg_tdiv, Int.neg_sub]
  rw [hflip, le_steps_up (by omega) hm, mul_neg]
  omega

lemma not_past_iff (h : step ≠ 0) (hm : 1 ≤ m) :
    ((0 < step → start + m * step ≤ stop) ∧ (step < 0 → stop ≤ start + m * step)) ↔
    m ≤ steps start stop step := by
  rcases lt_or_gt_of_ne h with h | h
  · rw [le_steps_down h hm]
    exact ⟨fun hp => hp.2 h, fun hp => ⟨fun hpos => absurd h (by omega), fun _ => hp⟩⟩
  · rw [le_steps_up h hm]
    exact ⟨fun hp => hp.1 h, fun hp => ⟨fun _ => hp, fun hneg => absurd h (by omega)⟩⟩

lemma mem_reach_iff (h : step ≠ 0) {v : Int} :
    v ∈ reach start stop step ↔ v ∈ terms start step (steps start stop step + 1) := by
  rw [mem_terms]
  constructor
  · rintro (rfl | ⟨m, hm, rfl, hpast⟩)
    · exact ⟨0, by omega, by simp⟩
    · exact ⟨m, Nat.lt_succ_of_le ((not_past_iff h hm).mp hpast), rfl⟩
  rintro ⟨m, hm, rfl⟩
  rcases Nat.eq_zero_or_pos m with rfl | hpos
  · exact .inl (by simp)
  · exact .inr ⟨m, hpos, rfl, (not_past_iff h hpos).mpr (by omega)⟩

lemma ncard_reach (h : step ≠ 0) : (reach start stop step).ncard = steps start stop step + 1 := by
  have hset : reach start stop step = ↑(terms start step (steps start stop step + 1)).toFinset := by
    ext v
    simp [mem_reach_iff h]
  rw [hset, Set.ncard_coe_finset, toFinset_card_of_nodup (nodup_terms h), length_terms]

end

/-! ## Loops over the terms -/

def walk (go last : Int → Prop) [DecidablePred go] [DecidablePred last] (step : Int) : Nat → Int → List Int
  | 0, _ => []
  | fuel + 1, v => if go v then v :: if last v then [] else walk go last step fuel (v + step) else []

lemma walk_eq {go last : Int → Prop} [DecidablePred go] [DecidablePred last] {step start : Int} {n : Nat}
    (hgo : ∀ i : Nat, i < n → go (start + i * step))
    (hlast : ∀ i : Nat, i + 1 < n → ¬ last (start + i * step))
    (hend : ¬ go (start + n * step) ∨ ∃ m : Nat, n = m + 1 ∧ last (start + m * step)) (fuel : Nat) :
    walk go last step fuel start = terms start step (min fuel n) := by
  induction fuel generalizing start n with
  | zero => simp [walk]
  | succ fuel ih =>
    rw [walk]
    cases n with
    | zero =>
      rcases hend with hend | ⟨m, hm, -⟩
      · rw [if_neg (by simpa using hend)]
        rfl
      · cases hm
    | succ n =>
      have hfirst := hgo 0 (Nat.succ_pos n)
      simp only [Nat.cast_zero, zero_mul, add_zero] at hfirst
      have shift : ∀ i : Nat, start + step + i * step = start + (i + 1 : Nat) * step := by
        intro i
        push_cast
        ring
      rw [if_pos hfirst, Nat.succ_min_succ, terms_succ]
      by_cases hbreak : last start
      · -- a break at the first term: it is the only one
        have hone : n = 0 := by
          by_contra hne
          exact hlast 0 (by omega) (by simpa using hbreak)
        rw [if_pos hbreak, hone, Nat.min_zero, terms_zero]
      · rw [if_neg hbreak, ih]
        · intro i hi
          rw [shift]
          exact hgo (i + 1) (by omega)
        · intro i hi
          rw [shift]
          exact hlast (i + 1) (by omega)
        rw [shift]
        rcases hend with hend | ⟨m, hm, hend⟩
        · exact .inl hend
        · cases m with
          | zero => exact absurd (by simpa using hend) hbreak
          | succ m => exact .inr ⟨m, by omega, by rwa [shift]⟩

lemma walk_within {inside last : Int → Prop} [DecidablePred inside] [DecidablePred last] {step start : Int}
    {n : Nat} (hstep : step ≠ 0) (within : ∀ i : Nat, 1 ≤ i → (i ≤ n ↔ inside (start + i * step)))
    (hlast : ∀ v, inside (v + step) → ¬ last v) (fuel : Nat) :
    walk (fun v => inside v ∨ v = start) last step fuel start = terms start step (min fuel (n + 1)) := by
  refine walk_eq (fun i hi => ?_) (fun i hi => ?_) (.inl ?_) fuel
  · rcases Nat.eq_zero_or_pos i with rfl | hpos
    · exact .inr (by simp)
    · exact .inl ((within i hpos).mp (by omega))
  · have hnext := (within (i + 1) (by omega)).mp (by omega)
    rw [Nat.cast_succ, add_mul, one_mul, ← add_assoc] at hnext
    exact hlast _ hnext
  · rintro (hgo | hgo)
    · exact absurd ((within _ (by omega)).mpr hgo) (by omega)
    · rcases mul_eq_zero.mp (show ((n + 1 : Nat) : Int) * step = 0 by omega) with hz | hz
      · omega
      · exact hstep hz

def collect (go : Int → Prop) [DecidablePred go] (next : Int → Int) : Nat → Int → Option (List Int)
  | 0, _ => none
  | fuel + 1, i => if go i then (collect go next fuel (next i)).map (i :: ·) else some []

lemma not_go_of_collect {go : Int → Prop} [DecidablePred go] {next : Int → Int} {fuel : Nat} {i : Int} {l : List Int}
    (h : collect go next fuel i = some l) : ∀ last ∈ l.getLast?, ¬ go (next last) := by
  induction fuel generalizing i l with
  | zero => cases h
  | succ fuel ih =>
    rw [collect] at h
    split at h
    · obtain ⟨rest, hrest, rfl⟩ := Option.map_eq_some_iff.mp h
      cases rest with
      | nil =>
        rintro _ ⟨⟩
        cases fuel with
        | zero => cases hrest
        | succ fuel =>
          rw [collect] at hrest
          split at hrest
          · simp at hrest
          · assumption
      | cons j rest =>
        rw [getLast?_cons_cons]
        exact ih hrest
    · cases h
      simp

lemma collect_eq {go : Int → Prop} [DecidablePred go] {next : Int → Int} {step start : Int} {n fuel : Nat}
    (hgo : ∀ i : Nat, i < n → go (start + i * step))
    (hnext : ∀ i : Nat, i < n → next (start + i * step) = start + i * step + step)
    (hend : ¬ go (start + n * step)) (hfuel : n < fuel) :
    collect go next fuel start = some (terms start step n) := by
  induction fuel generalizing start n with
  | zero => omega
  | succ fuel ih =>
    rw [collect]
    cases n with
    | zero => rw [if_neg (by simpa using hend), terms_zero]
    | succ n =>
      have shift : ∀ i : Nat, start + step + i * step = start + (i + 1 : Nat) * step := by
        intro i
        push_cast
        ring
      have hfirst := hgo 0 (Nat.succ_pos n)
      have hstep := hnext 0 (Nat.succ_pos n)
      simp only [Nat.cast_zero, zero_mul, add_zero] at hfirst hstep
      rw [if_pos hfirst, hstep, terms_succ, ih]
      · rfl
      · intro i hi
        rw [shift]
        exact hgo (i + 1) (by omega)
      · intro i hi
        rw [shift]
        exact hnext (i + 1) (by omega)
      · rw [shift]
        exact hend
      · omega

end Progression

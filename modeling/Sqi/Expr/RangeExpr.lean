import Sqi.Expr.Meter
import Sqi.OpenJD.RangeText

/-! Range expressions in the expression language (`rangeexpr.go`): how many integers one denotes, and whether
their expansion fits the operation budget. -/

namespace Sqi.Expr
open GoText IntRange List Program Progression Word Prog

/-! ## The source -/

def parseRange (text : Text) : Except EvalError (List IntRange) :=
  (parseWithPolicy {} text).mapError (.invalidRange text)
def checkCount (n : Int) : Except EvalError Unit := (checkElementCount n).mapError .tooLarge

def totalCount (total : Int) : List IntRange → Except EvalError Int
  | [] => .ok total
  | r :: ranges => do
    let total := wrap (total + r.count)
    checkCount total
    totalCount total ranges

def expandOneRange (r : IntRange) : List Int := if r.step < 0 then r.iterate.reverse else r.iterate
def expandRanges (ranges : List IntRange) : List Int :=
  (ranges.foldl (fun out r => appendNew out r.iterate) []).insertionSort (· ≤ ·)

def rangeInts (text : Text) : Except EvalError (List Int) := do
  let ranges ← parseRange text
  let _ ← totalCount 0 ranges
  match ranges with
  | [r] => return expandOneRange r
  | ranges => return expandRanges ranges

def rangeExprCount (text : Text) : Except EvalError Int := do
  let ranges ← parseRange text
  match ranges with
  | [r] => return r.count
  | ranges =>
    let _ ← totalCount 0 ranges
    return (expandRanges ranges).length

def countBounds (low high : Int) : List IntRange → Except EvalError (Int × Int)
  | [] => .ok (low, high)
  | r :: ranges => do
    let n := r.count
    let high := wrap (high + n)
    checkCount high
    countBounds (if low < n then n else low) high ranges

def rangeExprCountBounds (text : Text) : Except EvalError (Int × Int) := do
  let ranges ← parseRange text
  match ranges with
  | [r] => return (r.count, r.count)
  | ranges => countBounds 0 0 ranges

def reserveRangeExprExpansion (text : Text) : Eval Unit := do
  let (low, high) ← .ofExcept (rangeExprCountBounds text)
  match ← (reserve high).attempt with
  | .ok () => pure ()
  | .error (.deadlineExceeded past) => .fail (.deadlineExceeded past)
  | .error _ =>
    reserve low
    let n ← .ofExcept (rangeExprCount text)
    reserve n

/-! ## What a range expression denotes -/

def denoted (ranges : List IntRange) : Set Int := {v | ∃ r ∈ ranges, v ∈ r.members}

noncomputable def sizes (ranges : List IntRange) : Nat := (ranges.map fun r => r.members.ncard).sum

lemma length_expansion (r : IntRange) : r.expansion.length = r.members.ncard := by
  rw [ncard_members, IntRange.expansion, length_terms]
lemma denoted_eq (ranges : List IntRange) : denoted ranges = ↑(ranges.flatMap IntRange.expansion).toFinset := by
  ext v
  simp [denoted, mem_expansion]
lemma finite_denoted (ranges : List IntRange) : (denoted ranges).Finite := by
  rw [denoted_eq]
  exact Finset.finite_toSet _

lemma ncard_denoted_le (ranges : List IntRange) : (denoted ranges).ncard ≤ sizes ranges := by
  have hsum : (ranges.flatMap IntRange.expansion).length = sizes ranges := by
    simp only [sizes, length_flatMap, length_expansion]
  rw [denoted_eq, Set.ncard_coe_finset, ← hsum]
  exact toFinset_card_le _

variable {ranges : List IntRange} {r : IntRange} {text : Text}

lemma le_ncard_denoted (hr : r ∈ ranges) : r.members.ncard ≤ (denoted ranges).ncard :=
  Set.ncard_le_ncard (fun _ hv => ⟨r, hr, hv⟩) (finite_denoted ranges)

lemma length_eq_ncard {vals : List Int} (hnodup : vals.Nodup)
    (hmem : ∀ v, v ∈ vals ↔ v ∈ denoted ranges) : vals.length = (denoted ranges).ncard := by
  have hset : denoted ranges = ↑vals.toFinset := by
    ext v
    simp [hmem]
  rw [hset, Set.ncard_coe_finset, toFinset_card_of_nodup hnodup]

lemma count_of_span (h : r.Fits) (hspan : IsInt (r.stop - r.start)) :
    r.count = min (r.members.ncard : Int) maxInt := by
  rw [count_eq h, ncard_members]
  push_cast
  split
  · omega
  · rename_i hbig
    have : ¬ (r.stepCount : Int) + 1 ≤ maxInt := fun hle => hbig ⟨hspan, hle⟩
    omega

lemma count_of_wide (h : r.Fits) (hspan : ¬ IsInt (r.stop - r.start)) : r.count = maxInt := by
  rw [count_eq h, if_neg fun hboth => hspan hboth.1]

lemma count_range (h : r.Fits) : 0 < r.count ∧ r.count ≤ maxInt := by
  rw [count_eq h]
  split
  · omega
  · decide

lemma members_pos (r : IntRange) : 0 < r.members.ncard := by
  rw [ncard_members]
  exact Nat.succ_pos _

lemma checkCount_total (h : r.Fits) {total : Int} (htotal : 0 ≤ total ∧ total ≤ maxElements) :
    (checkCount (wrap (total + r.count)) = .ok () ∧ wrap (total + r.count) = total + r.members.ncard ∧
      total + r.members.ncard ≤ maxElements ∧ IsInt (r.stop - r.start)) ∨
    (∃ e, checkCount (wrap (total + r.count)) = .error e) ∧
      (IsInt (r.stop - r.start) → maxElements < total + r.members.ncard) := by
  have hpos := members_pos r
  have hcount : IsInt (r.stop - r.start) → r.count = min (r.members.ncard : Int) maxInt := count_of_span h
  by_cases hle : IsInt (r.stop - r.start) ∧ total + r.members.ncard ≤ maxElements
  · left
    have hexact : wrap (total + r.count) = total + r.members.ncard := by
      rw [hcount hle.1, wrap_of_isInt]
      · simp only [maxElements, maxInt] at *
        omega
      · simp only [IsInt, minInt, maxElements, maxInt] at *
        omega
    refine ⟨?_, hexact, hle.2, hle.1⟩
    rw [hexact, checkCount, checkElementCount, if_neg (by omega)]
    rfl
  · right
    refine ⟨?_, fun hspan => by by_contra hsmall; exact hle ⟨hspan, by omega⟩⟩
    -- the sum is over the bound, or has wrapped to a negative number
    have hbig : maxElements < total + r.count ∧ r.count ≤ maxInt := by
      refine ⟨?_, (count_range h).2⟩
      by_cases hspan : IsInt (r.stop - r.start)
      · rw [hcount hspan]
        simp only [hspan, true_and, not_le] at hle
        simp only [maxElements, maxInt] at *
        omega
      · rw [count_of_wide h hspan]
        simp only [maxElements, maxInt] at *
        omega
    have hout : wrap (total + r.count) < 0 ∨ maxElements < wrap (total + r.count) := by
      by_cases hwide : total + r.count ≤ maxInt
      · right
        rw [wrap_of_isInt ⟨by simp only [minInt, maxElements] at *; omega, hwide⟩]
        exact hbig.1
      · left
        rw [wrap_of_over (by omega) (by simp only [maxElements, maxInt] at *; omega)]
        simp only [maxElements, maxInt] at *
        omega
    rw [checkCount, checkElementCount, if_pos hout]
    exact ⟨_, rfl⟩

lemma sizes_cons (r : IntRange) (ranges : List IntRange) : sizes (r :: ranges) = r.members.ncard + sizes ranges := by
  simp [sizes]

lemma totalCount_spec (h : ∀ r ∈ ranges, r.Fits) (total : Int) (htotal : 0 ≤ total ∧ total ≤ maxElements) :
    (totalCount total ranges = .ok (total + sizes ranges) ∧ total + sizes ranges ≤ maxElements ∧
      ∀ r ∈ ranges, IsInt (r.stop - r.start)) ∨
    (∃ e, totalCount total ranges = .error e) ∧
      ((∀ r ∈ ranges, IsInt (r.stop - r.start)) → maxElements < total + sizes ranges) := by
  induction ranges generalizing total with
  | nil => exact .inl ⟨by simp [totalCount, sizes], by simpa [sizes] using htotal.2, nofun⟩
  | cons r ranges ih =>
    obtain ⟨hr, hrest⟩ := forall_mem_cons.mp h
    rw [totalCount, sizes_cons, forall_mem_cons]
    rcases checkCount_total hr htotal with ⟨hcheck, hwrap, hle, hspan⟩ | ⟨⟨e, he⟩, hover⟩
    · rw [hcheck, hwrap]
      push_cast
      rw [← add_assoc]
      exact (ih hrest _ (by omega)).imp (fun ⟨hok, hle, hall⟩ => ⟨hok, hle, hspan, hall⟩)
        fun ⟨herr, hover⟩ => ⟨herr, fun hall => hover hall.2⟩
    · rw [he]
      push_cast
      refine .inr ⟨⟨e, rfl⟩, fun hall => ?_⟩
      have := hover hall.1
      omega

lemma countBounds_spec (h : ∀ r ∈ ranges, r.Fits) (low high : Int) (hhigh : 0 ≤ high ∧ high ≤ maxElements) :
    (∃ low', countBounds low high ranges = .ok (low', high + sizes ranges) ∧ high + sizes ranges ≤ maxElements ∧
      (∀ r ∈ ranges, IsInt (r.stop - r.start)) ∧ (low' = low ∨ ∃ r ∈ ranges, low' = r.members.ncard) ∧ low ≤ low' ∧
      ∀ r ∈ ranges, (r.members.ncard : Int) ≤ low') ∨
    (∃ e, countBounds low high ranges = .error e) ∧
      ((∀ r ∈ ranges, IsInt (r.stop - r.start)) → maxElements < high + sizes ranges) := by
  induction ranges generalizing low high with
  | nil =>
    exact .inl ⟨low, by simp [countBounds, sizes], by simpa [sizes] using hhigh.2, nofun, .inl rfl, le_rfl, nofun⟩
  | cons r ranges ih =>
    obtain ⟨hr, hrest⟩ := forall_mem_cons.mp h
    rw [countBounds, sizes_cons]
    rcases checkCount_total hr hhigh with ⟨hcheck, hwrap, hle, hspan⟩ | ⟨⟨e, he⟩, hover⟩
    · have hcount : r.count = r.members.ncard := by
        rw [count_of_span hr hspan]
        simp only [maxElements, maxInt] at *
        omega
      rw [hcheck, hwrap, hcount]
      push_cast
      rw [← add_assoc]
      rcases ih hrest (if low < r.members.ncard then (r.members.ncard : Int) else low) (high + r.members.ncard)
        (by omega) with ⟨low', hbounds, hbound, hspans, hlow, hge, hall⟩ | ⟨herror, hover⟩
      · refine .inl ⟨low', hbounds, hbound, forall_mem_cons.mpr ⟨hspan, hspans⟩, ?_, by split at hge <;> omega,
          forall_mem_cons.mpr ⟨by split at hge <;> omega, hall⟩⟩
        rcases hlow with rfl | ⟨q, hq, rfl⟩
        · split
          · exact .inr ⟨r, mem_cons_self, rfl⟩
          · exact .inl rfl
        · exact .inr ⟨q, mem_cons_of_mem r hq, rfl⟩
      · exact .inr ⟨herror, fun hall => hover (forall_mem_cons.mp hall).2⟩
    · rw [he]
      push_cast
      refine .inr ⟨⟨e, rfl⟩, fun hall => ?_⟩
      have := hover (forall_mem_cons.mp hall).1
      omega

lemma expandRanges_spec (hiter : ∀ r ∈ ranges, r.iterate = r.expansion) :
    (expandRanges ranges).Nodup ∧ ∀ v, v ∈ expandRanges ranges ↔ v ∈ denoted ranges := by
  obtain ⟨hnodup, hmem⟩ := foldl_appendNew_spec [] ranges nodup_nil
  have hperm := perm_insertionSort (· ≤ ·) (ranges.foldl (fun out r => appendNew out r.iterate) [])
  refine ⟨hperm.nodup_iff.mpr hnodup, fun v => ?_⟩
  unfold expandRanges
  rw [hperm.mem_iff, hmem]
  simp only [not_mem_nil, false_or, denoted, Set.mem_ofPred_eq]
  exact exists_congr fun r => and_congr_right fun hr => by rw [hiter r hr, mem_expansion]

lemma ncard_le_sizes (hr : r ∈ ranges) : r.members.ncard ≤ sizes ranges :=
  single_le_sum (fun _ _ => Nat.zero_le _) _ (mem_map_of_mem hr)

lemma iterate_of_sizes (h : ∀ r ∈ ranges, r.Fits) (hspan : ∀ r ∈ ranges, IsInt (r.stop - r.start))
    (hsizes : (sizes ranges : Int) ≤ maxElements) : ∀ r ∈ ranges, r.iterate = r.expansion := by
  intro r hr
  refine iterate_eq (h r hr) ?_
  have := ncard_le_sizes hr
  rw [count_of_span (h r hr) (hspan r hr)]
  simp only [maxElements, maxInt] at *
  omega

lemma parseRange_ok (h : parseRange text = .ok ranges) : ranges ≠ [] ∧ ∀ r ∈ ranges, r.Fits := by
  unfold parseRange at h
  cases hp : parseWithPolicy {} text with
  | error e =>
    rw [hp] at h
    cases h
  | ok rs =>
    rw [hp] at h
    cases h
    obtain ⟨hne, hallowed, -⟩ := parseWithPolicy_ok hp
    exact ⟨hne, fun r hr => (hallowed r hr).fits⟩

lemma count_of_single (h : parseRange text = .ok [r]) :
    rangeExprCountBounds text = .ok (r.count, r.count) ∧ rangeExprCount text = .ok r.count := by
  unfold rangeExprCountBounds rangeExprCount
  rw [h]
  exact ⟨rfl, rfl⟩

lemma count_of_several (h : parseRange text = .ok ranges) (hlen : ranges.length ≠ 1) :
    rangeExprCountBounds text = countBounds 0 0 ranges ∧
      ∀ total, totalCount 0 ranges = .ok total → rangeExprCount text = .ok ((expandRanges ranges).length : Int) := by
  unfold rangeExprCountBounds rangeExprCount
  rw [h]
  match ranges, hlen with
  | [], _ => exact ⟨rfl, fun _ _ => rfl⟩
  | [_], hlen => exact absurd rfl hlen
  | r :: q :: ranges, _ =>
    refine ⟨rfl, fun total htotal => ?_⟩
    change (totalCount 0 (r :: q :: ranges) >>= fun _ => _) = _
    rw [htotal]
    rfl

lemma reserveExpansion_iff {low high n : Int} {m : Meter}
    (hbounds : rangeExprCountBounds text = .ok (low, high)) (hdeadline : m.deadline = none)
    (hops : 0 ≤ m.ops ∧ m.ops ≤ maxInt) (hlimit : 0 ≤ m.opLimit ∧ m.opLimit ≤ maxInt) (hlow : 0 < low)
    (hn : low ≤ n ∧ n ≤ high) (hhigh : high ≤ maxInt) (hcount : rangeExprCount text = .ok n) :
    (∃ m', reserveRangeExprExpansion text m = (.ok (), m')) ↔ m.ops + n ≤ m.opLimit ∨ maxInt < m.ops + high := by
  have hrun : reserveRangeExprExpansion text m = (match (reserve high m).1 with
      | .ok () => pure ()
      | .error (.deadlineExceeded past) => Prog.fail (EvalError.deadlineExceeded past)
      | .error _ => (do reserve low; let n ← Prog.ofExcept (rangeExprCount text); reserve n : Eval Unit))
      (reserve high m).2 := by
    unfold reserveRangeExprExpansion
    rw [bind_ok (by rw [hbounds]; rfl)]
    rfl
  rw [hrun, reserve_eq hdeadline hops hlimit ⟨by omega, hhigh⟩]
  by_cases hfirst : m.ops + high ≤ m.opLimit ∨ maxInt < m.ops + high
  · rw [if_pos hfirst]
    exact ⟨fun _ => by omega, fun _ => ⟨m, rfl⟩⟩
  rw [if_neg hfirst]
  dsimp only
  have hreserve := reserve_eq hdeadline hops hlimit ⟨hlow, by omega⟩
  by_cases hsmall : m.ops + low ≤ m.opLimit
  · rw [if_pos (.inl hsmall)] at hreserve
    rw [bind_ok hreserve, bind_ok (by rw [hcount]; rfl), reserve_eq hdeadline hops hlimit ⟨by omega, by omega⟩]
    split
    · exact ⟨fun _ => by omega, fun _ => ⟨m, rfl⟩⟩
    · exact ⟨fun ⟨_, h⟩ => (by cases h), fun h => by omega⟩
  · rw [if_neg (by omega)] at hreserve
    rw [bind_error hreserve]
    exact ⟨fun ⟨_, h⟩ => (by cases h), fun h => by omega⟩

/-- When the bounds hold the number of integers and the sums of the reservation do not wrap, or the answer is
the same though they do. -/
def Reservable (ranges : List IntRange) (ops limit : Int) : Prop :=
  if ranges.length = 1 then
    (∀ r ∈ ranges, IsInt (r.stop - r.start) ∧ (r.members.ncard : Int) ≤ maxInt ∨ (r.members.ncard : Int) = maxInt) ∧
      ops + (denoted ranges).ncard ≤ maxInt
  else if (∀ r ∈ ranges, IsInt (r.stop - r.start)) ∧ (sizes ranges : Int) ≤ maxElements then
    ops + sizes ranges ≤ maxInt ∨ ops + (denoted ranges).ncard ≤ limit
  else maxElements < (sizes ranges : Int) ∧ limit < ops + (denoted ranges).ncard

/-- The bounds hold the number of integers, and the reservation succeeds exactly if they fit the budget. -/
def Reserves (text : Text) (ranges : List IntRange) (m : Meter) : Prop :=
  (∀ low high, rangeExprCountBounds text = .ok (low, high) →
      low ≤ (denoted ranges).ncard ∧ ((denoted ranges).ncard : Int) ≤ high) ∧
    (∀ e, rangeExprCountBounds text = .error e → maxElements < sizes ranges) ∧
    ((∃ m', reserveRangeExprExpansion text m = (.ok (), m')) ↔ m.ops + (denoted ranges).ncard ≤ m.opLimit)

section
variable {m : Meter}

lemma reservation_single (hparse : parseRange text = .ok [r]) (hdeadline : m.deadline = none)
    (hops : 0 ≤ m.ops ∧ m.ops ≤ maxInt) (hlimit : 0 ≤ m.opLimit ∧ m.opLimit ≤ maxInt) :
    Reserves text [r] m ↔ Reservable [r] m.ops m.opLimit := by
  have hfits : r.Fits := (parseRange_ok hparse).2 r (mem_singleton_self r)
  obtain ⟨hbounds, hcount⟩ := count_of_single hparse
  obtain ⟨hpos, hmax⟩ := count_range hfits
  have hset : denoted [r] = r.members := by
    ext v
    simp [denoted]
  have hexact : r.count = r.members.ncard ↔
      IsInt (r.stop - r.start) ∧ (r.members.ncard : Int) ≤ maxInt ∨ (r.members.ncard : Int) = maxInt := by
    by_cases hspan : IsInt (r.stop - r.start)
    · rw [count_of_span hfits hspan]
      simp only [hspan, true_and]
      omega
    · rw [count_of_wide hfits hspan]
      simp only [hspan, false_and, false_or]
      omega
  rw [Reserves, Reservable, if_pos length_singleton, forall_mem_singleton, ← hexact, hset, hbounds,
    reserveExpansion_iff hbounds hdeadline hops hlimit hpos ⟨le_rfl, le_rfl⟩ hmax hcount]
  constructor
  · rintro ⟨hbound, -, hiff⟩
    have := hbound _ _ rfl
    omega
  · rintro ⟨he, hle⟩
    refine ⟨fun low high h => ?_, fun e h => (by cases h), by omega⟩
    cases h
    omega

lemma reservation_several (hparse : parseRange text = .ok ranges) (hlen : ranges.length ≠ 1)
    (hdeadline : m.deadline = none) (hops : 0 ≤ m.ops ∧ m.ops ≤ maxInt)
    (hlimit : 0 ≤ m.opLimit ∧ m.opLimit ≤ maxInt) :
    Reserves text ranges m ↔ Reservable ranges m.ops m.opLimit := by
  obtain ⟨hne, hfits⟩ := parseRange_ok hparse
  obtain ⟨hbounds, hcount⟩ := count_of_several hparse hlen
  have hupper := ncard_denoted_le ranges
  rw [Reserves, Reservable, if_neg hlen]
  rcases countBounds_spec hfits 0 0 ⟨le_rfl, by decide⟩ with
    ⟨low, hloop, hbound, hspans, hlow, -, hall⟩ | ⟨⟨e, hloop⟩, hover⟩
  · rw [hloop, zero_add] at hbounds
    rw [zero_add] at hbound
    obtain ⟨q, hq⟩ := exists_mem_of_ne_nil ranges hne
    have hlowpos : 0 < low := by
      have := members_pos q
      have := hall q hq
      omega
    have hlower : low ≤ (denoted ranges).ncard := by
      rcases hlow with rfl | ⟨r, hr, rfl⟩
      · omega
      · exact_mod_cast le_ncard_denoted hr
    -- no count is near the largest integer, so the expansion has them all
    obtain ⟨hnodup, hmem⟩ := expandRanges_spec (iterate_of_sizes hfits hspans hbound)
    obtain ⟨total, htotal⟩ : ∃ total, totalCount 0 ranges = .ok total := by
      rcases totalCount_spec hfits 0 ⟨le_rfl, by decide⟩ with ⟨htotal, -⟩ | ⟨-, hover⟩
      · exact ⟨_, htotal⟩
      · have := hover hspans
        omega
    have hnumber := hcount total htotal
    rw [length_eq_ncard hnodup hmem] at hnumber
    have hmax : (sizes ranges : Int) ≤ maxInt := hbound.trans (by decide)
    rw [if_pos ⟨hspans, hbound⟩, hbounds,
      reserveExpansion_iff hbounds hdeadline hops hlimit hlowpos ⟨hlower, by omega⟩ hmax hnumber]
    constructor
    · rintro ⟨-, -, hiff⟩
      omega
    · intro hcond
      refine ⟨fun low' high' h => ?_, fun e h => (by cases h), by omega⟩
      cases h
      omega
  · rw [hloop] at hbounds
    rw [zero_add] at hover
    have hrefused : ¬ ∃ m', reserveRangeExprExpansion text m = (.ok (), m') := by
      rintro ⟨m', h⟩
      unfold reserveRangeExprExpansion at h
      rw [bind_error (by rw [hbounds]; rfl)] at h
      cases h
    rw [if_neg fun ⟨hspans, hle⟩ => absurd (hover hspans) (by omega), hbounds, iff_false_left hrefused, not_le]
    exact ⟨fun ⟨_, herr, hlt⟩ => ⟨herr e rfl, hlt⟩, fun ⟨hlarge, hlt⟩ => ⟨nofun, fun _ _ => hlarge, hlt⟩⟩

end

/-- The reservation of an expansion holds the number of integers it denotes, exactly when `Reservable` says. -/
theorem reservation_exact {text : Text} {ranges : List IntRange} (hparse : parseRange text = .ok ranges)
    {m : Meter} (hdeadline : m.deadline = none) (hops : 0 ≤ m.ops ∧ m.ops ≤ maxInt)
    (hlimit : 0 ≤ m.opLimit ∧ m.opLimit ≤ maxInt) :
    Reserves text ranges m ↔ Reservable ranges m.ops m.opLimit := by
  by_cases hlen : ranges.length = 1
  · obtain ⟨r, rfl⟩ := length_eq_one_iff.mp hlen
    exact reservation_single hparse hdeadline hops hlimit
  · exact reservation_several hparse hlen hdeadline hops hlimit

def overlapping : List IntRange := [⟨1, 5, 1⟩, ⟨3, 7, 1⟩]

/-- Two overlapping sub-ranges hold ten integers counted one by one and seven in all, so
a budget with room for seven is enough. -/
theorem reservation_exact_overlap :
    ((∃ m', reserveRangeExprExpansion "1-5,3-7".toList (.after 3 10) = (.ok (), m')) ↔
      (3 : Int) + (denoted overlapping).ncard ≤ 10) ∧ (denoted overlapping).ncard = 7 := by
  have hparse : parseRange "1-5,3-7".toList = .ok overlapping := by decide +kernel
  have hnumber : (denoted overlapping).ncard = 7 := by
    rw [denoted_eq, Set.ncard_coe_finset]
    decide +kernel
  have hfive : (⟨1, 5, 1⟩ : IntRange).members.ncard = 5 ∧ (⟨3, 7, 1⟩ : IntRange).members.ncard = 5 := by
    rw [ncard_members, ncard_members]
    decide +kernel
  have hsizes : sizes overlapping = 10 := by simp [overlapping, sizes, hfive]
  refine ⟨((reservation_exact (m := .after 3 10) hparse rfl (by decide) (by decide)).mpr ?_).2.2, hnumber⟩
  have hspans : ∀ r ∈ overlapping, IsInt (r.stop - r.start) := by decide
  rw [Reservable, if_neg (by decide), if_pos ⟨hspans, by simp [hsizes, maxElements]⟩]
  simp [hsizes, maxInt, Meter.after]

/-- The range from zero to the largest integer holds one integer more than its count
says, and after one operation the reservation wraps and lets it through. -/
theorem wrapped_reservation :
    parseRange "0-9223372036854775807".toList = .ok [⟨0, maxInt, 1⟩] ∧
      (denoted [⟨0, maxInt, 1⟩]).ncard = 9223372036854775808 ∧
      rangeExprCountBounds "0-9223372036854775807".toList = .ok (maxInt, maxInt) ∧
      ∃ m', reserveRangeExprExpansion "0-9223372036854775807".toList (.after 1 10) = (.ok (), m') := by
  refine ⟨by decide +kernel, ?_, by decide +kernel, .after 1 10, ?_⟩
  · have hset : denoted [⟨0, maxInt, 1⟩] = (⟨0, maxInt, 1⟩ : IntRange).members := by
      ext v
      simp [denoted]
    rw [hset, ncard_members]
    decide +kernel
  · rfl

end Sqi.Expr

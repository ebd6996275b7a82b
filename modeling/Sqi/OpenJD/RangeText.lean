import Sqi.Lib.Numeral
import Sqi.OpenJD.Parameter
import Sqi.OpenJD.RangeCount

/-! Range expressions as texts: what the parser accepts, and that it reads back the
elements the formatters write. -/

namespace Sqi
open GoText IntRange List Program Progression Word

/-! ## What is accepted -/

structure IntRange.Allowed (p : RangePolicy) (r : IntRange) : Prop where
  fits : r.Fits
  step_ne_zero : r.step ≠ 0
  positive : p.positiveStepOnly = true → 0 < r.step
  ascending : p.ascendingOnly = true → r.start ≤ r.stop

def RangeChar (c : Char) : Prop := c.isDigit = true ∨ c ∈ ['-', '+', ':', ','] ∨ isSpace c
def RangeBounds.Fits : RangeBounds → Prop
  | .single n => IsInt n
  | .range start stop => IsInt start ∧ IsInt stop

variable {s expr : Text} {p : RangePolicy} {step v : Int} {r : IntRange} {ranges : List IntRange}
  {vals : List Int} {n : Int}

lemma rangeChar_of_atoi (h : atoi (trimSpace s) = some n) : ∀ c ∈ s, RangeChar c := by
  intro c hc
  rcases mem_trimSpace_or_isSpace hc with hc | hc
  · rcases chars_of_atoi h c hc with hd | rfl | rfl
    · exact .inl hd
    · exact .inr (.inl (by decide))
    · exact .inr (.inl (by decide))
  · exact .inr (.inr hc)

lemma splitRange_ok {b : RangeBounds} (h : splitRange s = .ok b) : b.Fits ∧ ∀ c ∈ s, RangeChar c := by
  have whole : (∀ c ∈ trimSpace s, RangeChar c) → ∀ c ∈ s, RangeChar c := by
    intro hall c hc
    rcases mem_trimSpace_or_isSpace hc with hc | hc
    · exact hall c hc
    · exact .inr (.inr hc)
  unfold splitRange at h
  cases hs : trimSpace s with
  | nil =>
    rw [hs] at h
    cases h
  | cons c cs =>
    rw [hs] at h whole
    dsimp only at h
    rw [span_eq_takeWhile_dropWhile] at h
    have hjoin := takeWhile_append_dropWhile (p := fun r => decide (r ≠ '-')) (l := cs)
    cases hdrop : cs.dropWhile (fun r => decide (r ≠ '-')) with
    | nil =>
      rw [hdrop] at h
      dsimp only at h
      split at h
      · cases h
      rename_i n hn
      cases h
      refine ⟨isInt_of_atoi hn, whole fun d hd => ?_⟩
      rcases chars_of_atoi hn d hd with hd | rfl | rfl
      · exact .inl hd
      · exact .inr (.inl (by decide))
      · exact .inr (.inl (by decide))
    | cons d after =>
      have hd : d = '-' := by
        have hhead := head?_dropWhile_not (fun r => decide (r ≠ '-')) cs
        rw [hdrop] at hhead
        simpa using hhead
      rw [hdrop] at h hjoin
      dsimp only at h
      split at h
      · cases h
      rename_i start hstart
      split at h
      · cases h
      rename_i stop hstop
      cases h
      refine ⟨⟨isInt_of_atoi hstart, isInt_of_atoi hstop⟩, whole ?_⟩
      rw [← hjoin, hd, ← cons_append]
      intro e he
      rcases mem_append.mp he with he | he
      · exact rangeChar_of_atoi hstart e he
      · rcases mem_cons.mp he with rfl | he
        · exact .inr (.inl (by decide))
        · exact rangeChar_of_atoi hstop e he

lemma parseStep_ok {stepText : Text} (h : parseStep p stepText = .ok step) :
    IsInt step ∧ step ≠ 0 ∧ (p.positiveStepOnly = true → 0 < step) ∧ ∀ c ∈ stepText, RangeChar c := by
  unfold parseStep at h
  split at h
  · rename_i hnil
    cases h
    exact ⟨by decide, by decide, fun _ => by decide, by simp [hnil]⟩
  split at h
  · cases h
  rename_i n hn
  split at h
  · cases h
  split at h
  · cases h
  rename_i hzero hneg
  cases h
  refine ⟨isInt_of_atoi hn, hzero, fun hp => ?_, rangeChar_of_atoi hn⟩
  by_contra hle
  exact hneg ⟨hp, by omega⟩

lemma parseRangeElement_ok (h : parseRangeElement p s = .ok r) : r.Allowed p ∧ ∀ c ∈ s, RangeChar c := by
  unfold parseRangeElement at h
  obtain ⟨⟨body, stepText⟩, hcut⟩ : ∃ parts, (cutLast ':' s).getD (s, []) = parts := ⟨_, rfl⟩
  rw [hcut] at h
  dsimp only at h
  obtain ⟨bounds, hbounds, h⟩ := except_bind_eq_ok.mp h
  obtain ⟨hfits, hbody⟩ := splitRange_ok hbounds
  -- the text is the body, and the step after its mark
  have chars : (∀ c ∈ stepText, RangeChar c) → ∀ c ∈ s, RangeChar c := by
    intro hstep
    cases hc : cutLast ':' s with
    | none =>
      rw [hc] at hcut
      cases hcut
      exact hbody
    | some parts =>
      rw [hc] at hcut
      cases hcut
      rw [eq_of_cutLast hc]
      intro c hmem
      rcases mem_append.mp hmem with hmem | hmem
      · exact hbody c hmem
      · rcases mem_cons.mp hmem with rfl | hmem
        · exact .inr (.inl (by decide))
        · exact hstep c hmem
  cases bounds with
  | single n =>
    dsimp only at h
    split at h
    · rename_i hnil
      cases h
      have hone : IsInt 1 := by decide
      exact ⟨⟨⟨hfits, hfits, hone⟩, one_ne_zero, fun _ => one_pos, fun _ => le_refl n⟩, chars (by simp [hnil])⟩
    · cases h
  | range start stop =>
    obtain ⟨step, hstep, h⟩ := except_bind_eq_ok.mp h
    obtain ⟨hint, hzero, hpos, hchars⟩ := parseStep_ok hstep
    split at h
    · cases h
    rename_i hasc
    cases h
    refine ⟨⟨⟨hfits.1, hfits.2, hint⟩, hzero, hpos, fun hp => ?_⟩, chars hchars⟩
    by_contra hlt
    exact hasc ⟨hp, not_le.mp hlt⟩

lemma parseRangeParts_ok {parts : List Text} (h : parseRangeParts p parts = .ok ranges) :
    (∀ r ∈ ranges, r.Allowed p) ∧ ∀ part ∈ parts, ∀ c ∈ part, RangeChar c := by
  have whole : ∀ {part : Text}, (∀ c ∈ trimSpace part, RangeChar c) → ∀ c ∈ part, RangeChar c := by
    intro part hall c hc
    rcases mem_trimSpace_or_isSpace hc with hc | hc
    · exact hall c hc
    · exact .inr (.inr hc)
  induction parts generalizing ranges with
  | nil =>
    cases h
    exact ⟨nofun, nofun⟩
  | cons part parts ih =>
    rw [parseRangeParts] at h
    split at h
    · rename_i hblank
      obtain ⟨hranges, hparts⟩ := ih h
      exact ⟨hranges, forall_mem_cons.mpr ⟨whole (by simp [hblank]), hparts⟩⟩
    obtain ⟨r, hr, h⟩ := except_bind_eq_ok.mp h
    obtain ⟨rs, hrs, h⟩ := except_bind_eq_ok.mp h
    cases h
    obtain ⟨hallowed, hchars⟩ := parseRangeElement_ok hr
    obtain ⟨hranges, hparts⟩ := ih hrs
    exact ⟨forall_mem_cons.mpr ⟨hallowed, hranges⟩, forall_mem_cons.mpr ⟨whole hchars, hparts⟩⟩

lemma parseWithPolicy_ok (h : parseWithPolicy p s = .ok ranges) :
    ranges ≠ [] ∧ (∀ r ∈ ranges, r.Allowed p) ∧ ∀ c ∈ s, RangeChar c := by
  unfold parseWithPolicy at h
  split at h
  · cases h
  obtain ⟨rs, hrs, h⟩ := except_bind_eq_ok.mp h
  split at h
  · cases h
  rename_i hne
  cases h
  obtain ⟨hranges, hparts⟩ := parseRangeParts_ok hrs
  refine ⟨hne, hranges, fun c hc => ?_⟩
  have hjoin : [','].intercalate (s.splitOn ',') = s := intercalate_splitOn ','
  rw [← hjoin] at hc
  rcases mem_of_mem_intercalate hc with hc | ⟨part, hpart, hc⟩
  · obtain rfl := mem_singleton.mp hc
    exact .inr (.inl (by decide))
  · exact hparts part hpart c hc

/-! ## What is written -/

inductive Spells : Text → IntRange → Prop
  | single (n : Int) : Spells (itoa n).toList ⟨n, n, 1⟩
  | range (start stop : Int) : Spells ((itoa start).toList ++ '-' :: (itoa stop).toList) ⟨start, stop, 1⟩
  | stepped (start stop step : Int) :
    Spells ((itoa start).toList ++ '-' :: (itoa stop).toList ++ ':' :: (itoa step).toList) ⟨start, stop, step⟩

lemma itoa_cons (n : Int) : ∃ c ds, (itoa n).toList = c :: ds ∧ (c.isDigit = true ∨ c = '-') ∧
    ∀ d ∈ ds, d.isDigit = true := by
  have hlist := toList_toString n
  split at hlist
  · cases hs : n.toNat.repr.toList with
    | nil => exact absurd hs (repr_ne_nil _)
    | cons c ds =>
      have hdigits := isDigit_repr n.toNat
      rw [hs] at hlist hdigits
      obtain ⟨hc, hds⟩ := forall_mem_cons.mp hdigits
      exact ⟨c, ds, hlist, .inl hc, hds⟩
  · exact ⟨'-', _, hlist, .inr rfl, isDigit_repr _⟩

lemma itoa_chars (n : Int) : ∀ c ∈ (itoa n).toList, c.isDigit = true ∨ c = '-' := by
  obtain ⟨c, ds, hlist, hc, hds⟩ := itoa_cons n
  rw [hlist]
  exact forall_mem_cons.mpr ⟨hc, fun d hd => .inl (hds d hd)⟩

lemma not_mem_itoa {c : Char} (hc : c.isDigit = false) (hm : c ≠ '-') (n : Int) : c ∉ (itoa n).toList := by
  intro h
  rcases itoa_chars n c h with h | h
  · rw [h] at hc
    cases hc
  · exact hm h

lemma itoa_not_isSpace (n : Int) : ∀ c ∈ (itoa n).toList, ¬ isSpace c := by
  intro c hc
  rcases itoa_chars n c hc with hd | rfl
  · exact not_isSpace_of_isDigit hd
  · decide

lemma trimSpace_itoa (n : Int) : trimSpace (itoa n).toList = (itoa n).toList :=
  trimSpace_eq_self (itoa_not_isSpace n)

lemma splitRange_itoa (h : IsInt n) : splitRange (itoa n).toList = .ok (.single n) := by
  have hread := atoi_toString h
  obtain ⟨c, ds, hlist, -, hds⟩ := itoa_cons n
  have hdash : '-' ∉ ds := fun hmem => isDigit_ne (hds _ hmem) (by decide) rfl
  unfold splitRange
  rw [trimSpace_itoa, hlist]
  dsimp only
  rw [span_ne_of_not_mem hdash]
  dsimp only
  rw [← hlist, itoa, hread]

lemma splitRange_range {start stop : Int} (hstart : IsInt start) (hstop : IsInt stop) :
    splitRange ((itoa start).toList ++ '-' :: (itoa stop).toList) = .ok (.range start stop) := by
  obtain ⟨c, ds, hlist, -, hds⟩ := itoa_cons start
  have hdash : '-' ∉ ds := fun hmem => isDigit_ne (hds _ hmem) (by decide) rfl
  have hnospace : ∀ c ∈ (itoa start).toList ++ '-' :: (itoa stop).toList, ¬ isSpace c := by
    intro c hc
    rcases mem_append.mp hc with hc | hc
    · exact itoa_not_isSpace start c hc
    · rcases mem_cons.mp hc with rfl | hc
      · decide
      · exact itoa_not_isSpace stop c hc
  unfold splitRange
  rw [trimSpace_eq_self hnospace, hlist, cons_append]
  dsimp only
  rw [span_ne_append hdash]
  dsimp only
  rw [← hlist, trimSpace_itoa, trimSpace_itoa, itoa, itoa, atoi_toString hstart, atoi_toString hstop]

lemma parseStep_itoa (h : IsInt step) (hzero : step ≠ 0)
    (hpos : p.positiveStepOnly = true → 0 < step) : parseStep p (itoa step).toList = .ok step := by
  obtain ⟨c, ds, hlist, -, -⟩ := itoa_cons step
  unfold parseStep
  rw [if_neg (by simp [hlist]), trimSpace_itoa, itoa, atoi_toString h]
  dsimp only
  rw [if_neg hzero, if_neg fun hneg => absurd (hpos hneg.1) (by omega)]

lemma Spells.parse (h : Spells s r) (hr : r.Allowed p) : parseRangeElement p s = .ok r := by
  obtain ⟨⟨hstart, hstop, hstep⟩, hzero, hpos, hasc⟩ := hr
  have colon : ∀ n, ':' ∉ (itoa n).toList := not_mem_itoa (by decide) (by decide)
  have order : ∀ {a b : Int}, (p.ascendingOnly = true → a ≤ b) → ¬ (p.ascendingOnly = true ∧ b < a) :=
    fun hle hlt => absurd (hle hlt.1) (not_le.mpr hlt.2)
  unfold parseRangeElement
  cases h with
  | single n =>
    rw [cutLast_of_not_mem (colon n)]
    dsimp only [Option.getD_none]
    rw [splitRange_itoa hstart]
    rfl
  | range start stop =>
    have hnone : ':' ∉ (itoa start).toList ++ '-' :: (itoa stop).toList := by simp [colon]
    rw [cutLast_of_not_mem hnone]
    dsimp only [Option.getD_none]
    rw [splitRange_range hstart hstop]
    change (if p.ascendingOnly = true ∧ stop < start then _ else _) = _
    rw [if_neg (order hasc)]
  | stepped start stop step =>
    rw [cutLast_append (colon step)]
    dsimp only [Option.getD_some]
    rw [splitRange_range hstart hstop]
    change (parseStep p (itoa step).toList >>= fun step =>
      if p.ascendingOnly = true ∧ stop < start then _ else _) = _
    rw [parseStep_itoa hstep hzero hpos]
    change (if p.ascendingOnly = true ∧ stop < start then _ else _) = _
    rw [if_neg (order hasc)]

lemma parseStep_lenient {stepText : Text} (h : parseStep p stepText = .ok step) :
    parseStep {} stepText = .ok step := by
  unfold parseStep at h ⊢
  split at h
  · rwa [if_pos ‹_›]
  rw [if_neg ‹_›]
  cases ha : atoi (trimSpace stepText) with
  | none =>
    rw [ha] at h
    cases h
  | some n =>
    rw [ha] at h
    dsimp only at h ⊢
    split at h
    · cases h
    split at h
    · cases h
    · rwa [if_neg ‹_›, if_neg (by simp)]

lemma parseRangeElement_lenient (h : parseRangeElement p s = .ok r) : parseRangeElement {} s = .ok r := by
  unfold parseRangeElement at h ⊢
  obtain ⟨b, hb, h⟩ := except_bind_eq_ok.mp h
  refine except_bind_eq_ok.mpr ⟨b, hb, ?_⟩
  cases b with
  | single n => exact h
  | range start stop =>
    obtain ⟨step, hstep, h⟩ := except_bind_eq_ok.mp h
    refine except_bind_eq_ok.mpr ⟨step, ?_, ?_⟩
    · exact parseStep_lenient hstep
    · split at h
      · cases h
      · simpa using h

lemma parseWithPolicy_lenient (h : parseWithPolicy p expr = .ok ranges) : parseWithPolicy {} expr = .ok ranges := by
  have parts : ∀ {parts ranges}, parseRangeParts p parts = .ok ranges → parseRangeParts {} parts = .ok ranges := by
    intro parts
    induction parts with
    | nil => exact fun h => h
    | cons part parts ih =>
      intro ranges h
      rw [parseRangeParts] at h ⊢
      split at h
      · rw [if_pos ‹_›, ih h]
      · obtain ⟨r, hr, h⟩ := except_bind_eq_ok.mp h
        obtain ⟨rs, hrs, h⟩ := except_bind_eq_ok.mp h
        rw [if_neg ‹_›]
        exact except_bind_eq_ok.mpr ⟨r, parseRangeElement_lenient hr, except_bind_eq_ok.mpr ⟨rs, ih hrs, h⟩⟩
  unfold parseWithPolicy at h ⊢
  split at h
  · cases h
  · obtain ⟨rs, hrs, h⟩ := except_bind_eq_ok.mp h
    rw [if_neg ‹_›]
    exact except_bind_eq_ok.mpr ⟨rs, parts hrs, h⟩

lemma Spells.plain (h : Spells s r) : s ≠ [] ∧ ',' ∉ s ∧ ∀ c ∈ s, ¬ isSpace c := by
  have comma : ∀ n, ',' ∉ (itoa n).toList := not_mem_itoa (by decide) (by decide)
  have hne : ∀ n, (itoa n).toList ≠ [] := fun n => by
    obtain ⟨c, ds, hlist, -, -⟩ := itoa_cons n
    simp [hlist]
  cases h with
  | single n => exact ⟨hne n, comma n, itoa_not_isSpace n⟩
  | range start stop =>
    refine ⟨by simp, by simp [comma], fun c hc => ?_⟩
    simp only [mem_append, mem_cons] at hc
    rcases hc with hc | rfl | hc
    · exact itoa_not_isSpace start c hc
    · decide
    · exact itoa_not_isSpace stop c hc
  | stepped start stop step =>
    refine ⟨by simp, by simp [comma], fun c hc => ?_⟩
    simp only [mem_append, mem_cons] at hc
    rcases hc with (hc | rfl | hc) | rfl | hc
    · exact itoa_not_isSpace start c hc
    · decide
    · exact itoa_not_isSpace stop c hc
    · decide
    · exact itoa_not_isSpace step c hc

lemma parseRangeParts_spelled {parts : List Text}
    (h : Forall₂ Spells parts ranges) (hr : ∀ r ∈ ranges, r.Allowed p) :
    parseRangeParts p parts = .ok ranges := by
  induction h with
  | nil => rfl
  | @cons part r parts ranges hspell _ ih =>
    obtain ⟨hne, -, hspace⟩ := hspell.plain
    obtain ⟨hallowed, hrest⟩ := forall_mem_cons.mp hr
    rw [parseRangeParts, trimSpace_eq_self hspace, if_neg hne, hspell.parse hallowed, ih hrest]
    rfl

lemma parseWithPolicy_spelled {parts : List String}
    (h : Forall₂ Spells (parts.map String.toList) ranges) (hne : ranges ≠ [])
    (hr : ∀ r ∈ ranges, r.Allowed p) : parseWithPolicy p (",".intercalate parts).toList = .ok ranges := by
  have hparts : parts.map String.toList ≠ [] := by
    intro hnil
    rw [hnil] at h
    cases h
    exact hne rfl
  have hplain : ∀ part ∈ parts.map String.toList, part ≠ [] ∧ ',' ∉ part ∧ ∀ c ∈ part, ¬ isSpace c := by
    intro part hpart
    obtain ⟨r, -, hspell⟩ := Table.of_mem_left h hpart
    exact hspell.plain
  rw [String.toList_intercalate, show ",".toList = [','] from rfl]
  -- no character is a space, so the text is not blank
  have hspace : ∀ c ∈ [','].intercalate (parts.map String.toList), ¬ isSpace c := by
    intro c hc
    rcases mem_of_mem_intercalate hc with hc | ⟨part, hpart, hc⟩
    · obtain rfl := mem_singleton.mp hc
      decide
    · exact (hplain part hpart).2.2 c hc
  have hsplit := splitOn_intercalate ',' (fun part hpart => (hplain part hpart).2.1) hparts
  have hblank : [','].intercalate (parts.map String.toList) ≠ [] := by
    intro hnil
    rw [hnil] at hsplit
    have hsingle : parts.map String.toList = [[]] := by rw [← hsplit]; rfl
    exact (hplain [] (by simp [hsingle])).1 rfl
  unfold parseWithPolicy
  rw [trimSpace_eq_self hspace, if_neg hblank, hsplit, parseRangeParts_spelled h hr]
  exact if_neg hne

/-! ## Rendered values -/

structure IntRange.Plain (r : IntRange) : Prop where
  fits : r.Fits
  positive : 0 < r.step
  ascending : r.start ≤ r.stop
  span : IsInt (r.stop - r.start)

lemma IntRange.Plain.allowed (h : r.Plain) (p : RangePolicy) : r.Allowed p :=
  ⟨h.fits, h.positive.ne', fun _ => h.positive, fun _ => h.ascending⟩

lemma IntRange.expansion_of_steps (n : Nat) (hpos : 0 < step) :
    (⟨v, v + n * step, step⟩ : IntRange).expansion = terms v step (n + 1) := by
  have hcount : (⟨v, v + n * step, step⟩ : IntRange).stepCount = n := by
    unfold IntRange.stepCount steps
    rw [stride_of_step hpos.ne', show v + n * step - v = n * step by ring, Int.mul_tdiv_cancel _ hpos.ne',
      Int.toNat_natCast]
  rw [IntRange.expansion, hcount, stride_of_step hpos.ne']

/-! ## Runs of values -/

/-- The values a formatter writes as one element: the first, the last, and the step its subtraction found
between them, with `more` values after the first. -/
structure ValueRun where
  first : Int
  last : Int
  step : Int
  more : Nat

namespace ValueRun

def range (r : ValueRun) : IntRange := ⟨r.first, r.last, r.step⟩

/-- No step of the run wraps, and its span fits a machine integer. -/
def Exact (r : ValueRun) : Prop := r.last - r.first = r.more * r.step ∧ r.last - r.first ≤ maxInt
deriving Decidable

structure Of (r : ValueRun) (vals : List Int) : Prop where
  first : vals.head? = some r.first
  last : vals.getLast? = some r.last
  length : vals.length = r.more + 1
  chain : vals.IsChain fun a b => wrap (b - a) = r.step
  positive : 0 < r.step
  step_isInt : IsInt r.step
  ints : ∀ v ∈ vals, IsInt v

def single (v : Int) : ValueRun := ⟨v, v, 1, 0⟩

lemma single_of (hv : IsInt v) : (single v).Of [v] :=
  ⟨rfl, rfl, rfl, .singleton v, one_pos, show IsInt 1 by decide, by simpa using hv⟩

end ValueRun

lemma sub_of_wrap {a b : Int} (ha : IsInt a) (hb : IsInt b) (hpos : 0 < step) (h : wrap (b - a) = step) :
    b = a + step ∨ b = a + step - 2 ^ 64 := by
  by_cases hfit : IsInt (b - a)
  · rw [wrap_of_isInt hfit] at h
    omega
  right
  simp only [IsInt, minInt, maxInt] at ha hb hfit
  rcases lt_or_ge (b - a) 0 with hneg | hnonneg
  · rw [wrap_of_under (by simp only [minInt]; omega) (by simp only [minInt]; omega)] at h
    omega
  · rw [wrap_of_over (by simp only [maxInt]; omega) (by simp only [maxInt]; omega)] at h
    omega

/-- Each step that wraps takes the last value `2 ^ 64` below where the steps would lead. -/
lemma getLast?_of_steps (hint : ∀ a ∈ v :: vals, IsInt a) (hpos : 0 < step)
    (hchain : (v :: vals).IsChain fun a b => wrap (b - a) = step) :
    ∃ wraps : Nat, (v :: vals).getLast? = some (v + vals.length * step - wraps * 2 ^ 64) ∧
      (wraps = 0 → v :: vals = terms v step (vals.length + 1)) := by
  induction vals generalizing v with
  | nil => exact ⟨0, by simp, fun _ => by rw [terms_succ]; rfl⟩
  | cons w vals ih =>
    obtain ⟨hw, hchain⟩ := isChain_cons_cons.mp hchain
    obtain ⟨hv, hint⟩ := forall_mem_cons.mp hint
    obtain ⟨wraps, hlast, hterms⟩ := ih hint hchain
    rw [getLast?_cons_cons, hlast, length_cons]
    rcases sub_of_wrap hv (hint w mem_cons_self) hpos hw with rfl | rfl
    · refine ⟨wraps, ?_, fun h => by rw [terms_succ, ← hterms h]⟩
      push_cast
      ring_nf
    · refine ⟨wraps + 1, ?_, fun h => by omega⟩
      push_cast
      ring_nf

namespace ValueRun
variable {run : ValueRun}

lemma Of.cases (h : run.Of vals) : ∃ wraps : Nat, run.last = run.first + run.more * run.step - wraps * 2 ^ 64 ∧
    (wraps = 0 → vals = terms run.first run.step (run.more + 1)) := by
  cases vals with
  | nil => cases h.first
  | cons v vals =>
    obtain ⟨wraps, hlast, hterms⟩ := getLast?_of_steps h.ints h.positive h.chain
    have hfirst : run.first = v := (Option.some.inj h.first).symm
    have hlen : vals.length = run.more := Nat.succ.inj h.length
    rw [hlen] at hlast hterms
    rw [hfirst]
    exact ⟨wraps, Option.some.inj (h.last.symm.trans hlast), hterms⟩

lemma Of.fits (h : run.Of vals) : run.range.Fits :=
  ⟨h.ints _ (mem_of_head? h.first), h.ints _ (mem_of_getLast? h.last), h.step_isInt⟩

lemma Of.plain (h : run.Of vals) (exact : run.Exact) : run.range.Plain ∧ run.range.expansion = vals := by
  obtain ⟨wraps, hlast, hterms⟩ := h.cases
  obtain ⟨hspan, hle⟩ := exact
  have hnonneg : 0 ≤ (run.more : Int) * run.step := mul_nonneg (by omega) h.positive.le
  have hwraps : wraps = 0 := by omega
  refine ⟨⟨h.fits, h.positive, by dsimp only [range]; omega, by dsimp only [range, IsInt, minInt]; omega⟩, ?_⟩
  rw [hterms hwraps, ← IntRange.expansion_of_steps run.more h.positive, range, show run.last =
    run.first + run.more * run.step by omega]

/-- A run that wraps is written as a range of fewer values. -/
lemma Of.length_expansion (h : run.Of vals) (hle : run.first ≤ run.last) :
    run.range.expansion.length ≤ vals.length ∧
      (vals.length ≤ run.range.expansion.length → run.last - run.first = run.more * run.step) := by
  obtain ⟨wraps, hlast, -⟩ := h.cases
  have hpos := h.positive
  have hspan : 0 ≤ run.last - run.first := by omega
  have hsteps : (run.range.stepCount : Int) = (run.last - run.first) / run.step := by
    unfold IntRange.stepCount steps
    rw [stride_of_step hpos.ne']
    change (((run.last - run.first).tdiv run.step).toNat : Int) = _
    rw [Int.tdiv_eq_ediv_of_nonneg hspan, Int.toNat_of_nonneg (Int.ediv_nonneg hspan hpos.le)]
  rw [IntRange.expansion, length_terms, h.length]
  rcases Nat.eq_zero_or_pos wraps with rfl | hwraps
  · rw [show run.last - run.first = run.more * run.step by omega, Int.mul_ediv_cancel _ hpos.ne'] at hsteps
    exact ⟨by omega, fun _ => by omega⟩
  · have hless : (run.last - run.first) / run.step < run.more := Int.ediv_lt_of_lt_mul hpos (by omega)
    exact ⟨by omega, fun _ => by omega⟩

end ValueRun

inductive Renders : List String → List ValueRun → List Int → Prop
  | nil : Renders [] [] []
  | cons {part : String} {parts : List String} {run : ValueRun} {runs : List ValueRun} {piece vals : List Int}
    (text : Spells part.toList run.range) (of : run.Of piece) (rest : Renders parts runs vals) :
    Renders (part :: parts) (run :: runs) (piece ++ vals)

lemma spells_range (start stop : Int) :
    Spells (itoa start ++ "-" ++ itoa stop).toList ⟨start, stop, 1⟩ := by
  have htext := Spells.range start stop
  simpa only [String.toList_append, append_assoc, cons_append, nil_append, show "-".toList = ['-'] from rfl]
    using htext

lemma spells_stepped (start stop step : Int) :
    Spells (itoa start ++ "-" ++ itoa stop ++ ":" ++ itoa step).toList ⟨start, stop, step⟩ := by
  have htext := Spells.stepped start stop step
  simpa only [String.toList_append, append_assoc, cons_append, nil_append, show "-".toList = ['-'] from rfl,
    show ":".toList = [':'] from rfl] using htext

section
variable {parts : List String} {runs : List ValueRun}

lemma Renders.value (hv : IsInt v) (rest : Renders parts runs vals) :
    Renders (itoa v :: parts) (.single v :: runs) (v :: vals) :=
  .cons (.single v) (ValueRun.single_of hv) rest

lemma Renders.spelled (h : Renders parts runs vals) :
    Forall₂ Spells (parts.map String.toList) (runs.map ValueRun.range) := by
  induction h with
  | nil => exact .nil
  | cons text _ _ ih => exact .cons text ih

lemma Renders.of (h : Renders parts runs vals) : ∀ run ∈ runs, run.range.Fits ∧ 0 < run.step := by
  induction h with
  | nil => exact nofun
  | cons _ of _ ih => exact forall_mem_cons.mpr ⟨⟨of.fits, of.positive⟩, ih⟩

lemma Renders.ne_nil (h : Renders parts runs vals) (hne : vals ≠ []) : runs.map ValueRun.range ≠ [] := by
  cases h with
  | nil => exact absurd rfl hne
  | cons => exact cons_ne_nil _ _

lemma Renders.parse_lenient (h : Renders parts runs vals) (hne : vals ≠ []) :
    parseWithPolicy {} (",".intercalate parts).toList = .ok (runs.map ValueRun.range) := by
  refine parseWithPolicy_spelled h.spelled (h.ne_nil hne) fun r hr => ?_
  obtain ⟨run, hrun, rfl⟩ := mem_map.mp hr
  obtain ⟨hfits, hpos⟩ := h.of run hrun
  exact ⟨hfits, hpos.ne', fun _ => hpos, nofun⟩

lemma Renders.plain (h : Renders parts runs vals) (exact : ∀ run ∈ runs, run.Exact) :
    (∀ r ∈ runs.map ValueRun.range, r.Plain) ∧ (runs.map ValueRun.range).flatMap expansion = vals := by
  induction h with
  | nil => exact ⟨nofun, rfl⟩
  | cons _ of _ ih =>
    obtain ⟨hrun, exact⟩ := forall_mem_cons.mp exact
    obtain ⟨hplain, hvals⟩ := of.plain hrun
    obtain ⟨hrest, hall⟩ := ih exact
    exact ⟨forall_mem_cons.mpr ⟨hplain, hrest⟩, by rw [map_cons, flatMap_cons, hvals, hall]⟩

lemma Renders.exact (h : Renders parts runs vals) (hle : ∀ run ∈ runs, run.first ≤ run.last)
    (hspan : ∀ run ∈ runs, run.last - run.first ≤ maxInt) :
    ((runs.map ValueRun.range).flatMap expansion).length ≤ vals.length ∧
      (vals.length ≤ ((runs.map ValueRun.range).flatMap expansion).length → ∀ run ∈ runs, run.Exact) := by
  induction h with
  | nil => exact ⟨le_rfl, fun _ => nofun⟩
  | cons _ of _ ih =>
    obtain ⟨hrun, hle⟩ := forall_mem_cons.mp hle
    obtain ⟨hfirst, hspan⟩ := forall_mem_cons.mp hspan
    obtain ⟨hlen, hexact⟩ := of.length_expansion hrun
    obtain ⟨hrest, hall⟩ := ih hle hspan
    rw [map_cons, flatMap_cons, length_append, length_append]
    exact ⟨by omega, fun h => forall_mem_cons.mpr ⟨⟨hexact (by omega), hfirst⟩, hall (by omega)⟩⟩

end

lemma IntRange.Plain.count (h : r.Plain) (hlen : (r.expansion.length : Int) < maxInt) :
    r.count = r.expansion.length ∧ r.iterate = r.expansion := by
  have hlength : (r.expansion.length : Int) = r.stepCount + 1 := by simp [IntRange.expansion]
  have hcount : r.count = r.expansion.length := by
    rw [hlength] at hlen ⊢
    rw [count_eq h.fits, if_pos ⟨h.span, hlen.le⟩]
  exact ⟨hcount, iterate_eq h.fits (by omega)⟩

lemma steppedRun_eq {last : Int} {n : Nat} {rest : List Int} (h : steppedRun step v vals = (last, n, rest)) :
    ∃ run, v :: vals = v :: run ++ rest ∧ run.length = n ∧ (v :: run).getLast? = some last ∧
      (v :: run).IsChain fun a b => wrap (b - a) = step := by
  induction vals generalizing v n last with
  | nil =>
    cases h
    exact ⟨[], rfl, rfl, rfl, .singleton v⟩
  | cons w vals ih =>
    rw [steppedRun] at h
    split at h
    · rename_i hstep
      obtain ⟨⟨last', n', rest'⟩, hrest⟩ : ∃ r, steppedRun step w vals = r := ⟨_, rfl⟩
      rw [hrest] at h
      cases h
      obtain ⟨run, hvals, hlen, hlast, hchain⟩ := ih hrest
      exact ⟨w :: run, by rw [hvals]; rfl, by rw [length_cons, hlen], by rw [getLast?_cons_cons, hlast],
        isChain_cons_cons.mpr ⟨hstep, hchain⟩⟩
    · cases h
      exact ⟨[], rfl, rfl, rfl, .singleton v⟩

lemma appendNew_eq_eraseDups (seen values : List Int) :
    appendNew seen values = seen ++ (values.filter (· ∉ seen)).eraseDups := by
  unfold appendNew
  induction values generalizing seen with
  | nil => simp
  | cons v values ih =>
    rw [foldl_cons, ih]
    by_cases hv : v ∈ seen
    · rw [if_pos hv, filter_cons_of_neg (by simpa using hv)]
    rw [if_neg hv, filter_cons_of_pos (by simpa using hv), eraseDups_cons, filter_filter,
      append_assoc, singleton_append]
    congr 3
    exact filter_congr fun w _ => by by_cases hw : w = v <;> simp [hw]

lemma appendNew_eq {seen values : List Int} (h : (seen ++ values).Nodup) : appendNew seen values = seen ++ values := by
  unfold appendNew
  induction values generalizing seen with
  | nil => simp
  | cons v values ih =>
    have hnew : v ∉ seen := fun hv => (nodup_append.mp h).2.2 v hv v mem_cons_self rfl
    rw [append_cons] at h ⊢
    rw [foldl_cons, if_neg hnew, ih h]

lemma appendNew_spec (seen values : List Int) (h : seen.Nodup) :
    (appendNew seen values).Nodup ∧ ∀ v, v ∈ appendNew seen values ↔ v ∈ seen ∨ v ∈ values := by
  unfold appendNew
  induction values generalizing seen with
  | nil => exact ⟨h, by simp⟩
  | cons w values ih =>
    rw [foldl_cons]
    split
    · rename_i hw
      obtain ⟨hnodup, hmem⟩ := ih seen h
      refine ⟨hnodup, fun v => ?_⟩
      rw [hmem, mem_cons]
      exact ⟨fun hv => hv.imp_right .inr, fun hv => hv.elim .inl fun hv => hv.elim (fun e => .inl (e ▸ hw)) .inr⟩
    · rename_i hw
      obtain ⟨hnodup, hmem⟩ := ih (seen ++ [w]) (nodup_append.mpr
        ⟨h, nodup_singleton w, fun v hv u hu e => hw (by rwa [← mem_singleton.mp hu, ← e])⟩)
      refine ⟨hnodup, fun v => ?_⟩
      rw [hmem, mem_append, mem_singleton, mem_cons, or_assoc]

lemma foldl_appendNew_spec (seen : List Int) (ranges : List IntRange) (h : seen.Nodup) :
    (ranges.foldl (fun out r => appendNew out r.iterate) seen).Nodup ∧
      ∀ v, v ∈ ranges.foldl (fun out r => appendNew out r.iterate) seen ↔ v ∈ seen ∨ ∃ r ∈ ranges, v ∈ r.iterate := by
  induction ranges generalizing seen with
  | nil => exact ⟨h, by simp⟩
  | cons r ranges ih =>
    obtain ⟨hfirst, hmem⟩ := appendNew_spec seen r.iterate h
    obtain ⟨hnodup, hrest⟩ := ih _ hfirst
    refine ⟨hnodup, fun v => ?_⟩
    rw [foldl_cons, hrest, hmem]
    simp [or_assoc]

lemma foldl_appendNew {seen : List Int} (hiter : ∀ r ∈ ranges, r.iterate = r.expansion)
    (h : (seen ++ ranges.flatMap expansion).Nodup) :
    ranges.foldl (fun out r => appendNew out r.iterate) seen = seen ++ ranges.flatMap expansion := by
  induction ranges generalizing seen with
  | nil => simp
  | cons r ranges ih =>
    obtain ⟨hr, hrest⟩ := forall_mem_cons.mp hiter
    rw [flatMap_cons, ← append_assoc] at h ⊢
    rw [foldl_cons, hr, appendNew_eq (nodup_append.mp h).1, ih hrest h]

lemma parseIntRangeElements_ok (h : parseIntRangeElements expr = .ok ranges) :
    ranges = [] ∨ parseWithPolicy openjdRangePolicy expr = .ok ranges := by
  unfold parseIntRangeElements at h
  split at h
  · cases h
  split at h
  · cases h
    exact .inl rfl
  · exact .inr h

lemma allowed_of_parse (h : parseIntRangeElements expr = .ok ranges) :
    ∀ r ∈ ranges, r.Allowed openjdRangePolicy := by
  rcases parseIntRangeElements_ok h with rfl | h
  · exact fun r hr => absurd hr not_mem_nil
  · exact (parseWithPolicy_ok h).2.1

lemma sumRangeCounts_some {start total : Int} (hfits : ∀ r ∈ ranges, r.Fits)
    (h : sumRangeCounts start ranges = some total) :
    total = start + (ranges.flatMap expansion).length ∧ ∀ r ∈ ranges, r.iterate = r.expansion := by
  induction ranges generalizing start with
  | nil =>
    cases h
    exact ⟨by simp, fun r hr => absurd hr not_mem_nil⟩
  | cons r ranges ih =>
    obtain ⟨hr, hrest⟩ := forall_mem_cons.mp hfits
    rw [sumRangeCounts] at h
    split at h
    · cases h
    rename_i hle
    split at h
    · cases h
    have hne : r.count ≠ maxInt := by
      simp only [maxRangeValues, maxInt] at hle ⊢
      omega
    have hlen : (r.expansion.length : Int) = r.count := by
      rw [count_of_ne hr hne, expansion, length_terms, Nat.cast_succ]
    obtain ⟨htotal, hiter⟩ := ih hrest h
    refine ⟨?_, forall_mem_cons.mpr ⟨iterate_eq hr hne, hiter⟩⟩
    rw [htotal, flatMap_cons, length_append, Nat.cast_add, hlen]
    omega

lemma parseIntRangeExpr_eq (h : parseIntRangeElements expr = .ok ranges) : parseIntRangeExpr expr =
      match sumRangeCounts 0 ranges with
      | none => .error .tooManyValues
      | some total =>
        if total = 0 then .error .noValues else .ok (ranges.flatMap expansion).eraseDups := by
  have hfits : ∀ r ∈ ranges, r.Fits := fun r hr => (allowed_of_parse h r hr).fits
  simp only [parseIntRangeExpr, h, bind, Except.bind]
  cases hsum : sumRangeCounts 0 ranges with
  | none => rfl
  | some total =>
    obtain ⟨htotal, hiter⟩ := sumRangeCounts_some hfits hsum
    have hresult : ranges.foldl (fun out r => appendNew out r.iterate) [] =
        (ranges.flatMap expansion).eraseDups := by
      rw [← flatMap_congr hiter]
      refine foldl_flatMap.symm.trans ((appendNew_eq_eraseDups [] _).trans ?_)
      simp
    have hempty : (ranges.flatMap expansion).eraseDups = [] ↔ total = 0 := by
      rw [htotal, eq_nil_iff_forall_not_mem]
      simp only [mem_eraseDups]
      rw [← eq_nil_iff_forall_not_mem, ← length_eq_zero_iff]
      omega
    dsimp only
    rw [hresult]
    exact if_congr hempty rfl rfl

end Sqi

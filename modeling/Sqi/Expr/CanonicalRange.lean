import Sqi.Expr.RangeExpr
import Sqi.Expr.Slice

/-! Range text made from integers: `canonicalRange` (`rangeexpr.go`), the function
`range_expr` on a list (`funcsconv.go`) and slices of a range expression
(`slice.go`). -/

namespace Sqi.Expr
open GoText List Option Program Progression Word Prog

/-! ## The source -/

def runText (start stop delta : Int) : String :=
  if delta = 1 then itoa start ++ "-" ++ itoa stop else itoa start ++ "-" ++ itoa stop ++ ":" ++ itoa delta

def canonicalParts : Nat → List Int → List String
  | 0, _ => []
  | _, [] => []
  | n + 1, v :: w :: x :: vals =>
    let delta := wrap (w - v)
    if delta ≠ 0 ∧ wrap (x - w) = delta then
      let (last, _, rest) := steppedRun delta x vals
      runText v last delta :: canonicalParts n rest
    else itoa v :: canonicalParts n (w :: x :: vals)
  | n + 1, v :: vals => itoa v :: canonicalParts n vals

def canonicalRange (ints : List Int) : String := ",".intercalate (canonicalParts ints.length ints)
def newRangeExpr {F : Type} (text : Text) : Except EvalError (Value F) := do
  let _ ← parseRange text
  return .rangeExpr text
def compact : List Int → List Int
  | [] => []
  | [v] => [v]
  | v :: w :: vals => if v = w then compact (w :: vals) else v :: compact (w :: vals)
def rangeExprOfList {F : Type} (elems : List Int) : Except EvalError (Value F) :=
  if elems = [] then .error .noRangeValues
  else newRangeExpr (canonicalRange (compact (elems.insertionSort (· ≤ ·)))).toList

def pick {α : Type} (elems : List α) (i : Int) : Except EvalError α :=
  if i < 0 then .error .indexOutOfRange
  else
    match elems[i.toNat]? with
    | none => .error .indexOutOfRange
    | some v => .ok v

def sliceList {α : Type} (fuel : Nat) (elems : List α) (start stop step : Option Int) : Except EvalError (List α) :=
  match sliceIndices fuel start stop step elems.length with
  | none => .error .stillRunning
  | some indices => indices.mapM (pick elems)
def chargeExpansion (text : Text) : Eval Unit := do
  reserveRangeExprExpansion text
  let n ← .ofExcept (rangeExprCount text)
  charge n

def sliceRangeExpr {F : Type} (fuel : Nat) (text : Text) (start stop step : Option Int) : Eval (Value F) := do
  chargeExpansion text
  let ints ← .ofExcept (rangeInts text)
  let picked ← .ofExcept (sliceList fuel ints start stop step)
  if step.any (· < 0) ∨ picked = [] then return .list .int (picked.map .int)
  else .ofExcept (newRangeExpr (canonicalRange picked).toList)

/-! ## The round trip -/

variable {fuel : Nat} {vals : List Int} {F : Type} {i : Int}

/-- The runs `canonicalRange` finds. -/
def canonicalRuns : Nat → List Int → List ValueRun
  | 0, _ => []
  | _, [] => []
  | n + 1, v :: w :: x :: vals =>
    let delta := wrap (w - v)
    if delta ≠ 0 ∧ wrap (x - w) = delta then
      let (last, more, rest) := steppedRun delta x vals
      ⟨v, last, delta, more + 2⟩ :: canonicalRuns n rest
    else .single v :: canonicalRuns n (w :: x :: vals)
  | n + 1, v :: vals => .single v :: canonicalRuns n vals

/-- Two equal steps between increasing integers do not wrap. -/
lemma wrap_of_two_steps {v w x : Int} (hv : IsInt v) (hx : IsInt x) (hvw : v < w) (hwx : w < x)
    (h : wrap (x - w) = wrap (w - v)) : wrap (w - v) = w - v := by
  refine wrap_of_isInt ?_
  by_contra hwide
  simp only [IsInt, minInt, maxInt] at *
  rw [wrap_of_over (n := w - v) (by simp only [maxInt]; omega) (by simp only [maxInt]; omega)] at h
  by_cases hnext : x - w ≤ maxInt
  · rw [wrap_of_isInt ⟨by simp only [minInt]; omega, hnext⟩] at h
    omega
  · rw [wrap_of_over (by omega) (by simp only [maxInt]; omega)] at h
    simp only [maxInt] at hnext
    omega

lemma spells_runText (start stop delta : Int) : Spells (runText start stop delta).toList ⟨start, stop, delta⟩ := by
  unfold runText
  split
  · rw [‹delta = 1›]
    exact spells_range start stop
  · exact spells_stepped start stop delta

lemma renders_canonicalParts (hfuel : vals.length ≤ fuel)
    (hsorted : vals.Pairwise (· < ·)) (hint : ∀ v ∈ vals, IsInt v) :
    Sqi.Renders (canonicalParts fuel vals) (canonicalRuns fuel vals) vals := by
  induction fuel generalizing vals with
  | zero =>
    obtain rfl := length_eq_zero_iff.mp (Nat.le_zero.mp hfuel)
    exact .nil
  | succ fuel ih =>
    have part : ∀ {rest : List Int}, rest.length ≤ fuel → rest <:+ vals →
        Sqi.Renders (canonicalParts fuel rest) (canonicalRuns fuel rest) rest :=
      fun hlen hsuffix => ih hlen (hsorted.sublist hsuffix.sublist) fun a ha => hint a (hsuffix.subset ha)
    match vals with
    | [] => exact .nil
    | [v] => exact .value (hint v mem_cons_self) (part (by simp) (suffix_cons v []))
    | [v, w] => exact .value (hint v mem_cons_self) (part (by simpa using hfuel) (suffix_cons v [w]))
    | v :: w :: x :: vals =>
      have hv : IsInt v := hint v mem_cons_self
      simp only [length_cons] at hfuel
      rw [canonicalParts, canonicalRuns]
      dsimp only
      split
      · rename_i hrun
        obtain ⟨hlt, htail⟩ := pairwise_cons.mp hsorted
        have hpos : 0 < wrap (w - v) := by
          have hvw := hlt w mem_cons_self
          have hwx := (pairwise_cons.mp htail).1 x mem_cons_self
          rw [wrap_of_two_steps hv (hint x (by simp)) hvw hwx hrun.2]
          omega
        obtain ⟨⟨last, more, rest⟩, hstepped⟩ : ∃ r, steppedRun (wrap (w - v)) x vals = r := ⟨_, rfl⟩
        obtain ⟨run, hvals, hlen, hlast, hchain⟩ := steppedRun_eq hstepped
        have hlength := congrArg List.length hvals
        simp only [length_cons, length_append] at hlength
        have hwhole : v :: w :: x :: vals = v :: w :: x :: run ++ rest := congrArg (v :: w :: ·) hvals
        have hof : (⟨v, last, wrap (w - v), more + 2⟩ : ValueRun).Of (v :: w :: x :: run) := by
          refine ⟨rfl, by rw [getLast?_cons_cons, getLast?_cons_cons, hlast], by simp [hlen],
            isChain_cons_cons.mpr ⟨rfl, isChain_cons_cons.mpr ⟨hrun.2, hchain⟩⟩, hpos, wrap_isInt _,
              fun a ha => hint a ?_⟩
          rw [hwhole]
          exact mem_append_left rest ha
        have hafter : Sqi.Renders (canonicalParts fuel rest) (canonicalRuns fuel rest) rest :=
          part (by omega) ⟨_, hwhole.symm⟩
        rw [hstepped, hwhole]
        exact .cons (spells_runText v last _) hof hafter
      · exact .value hv (part (by simp; omega) (suffix_cons v _))

lemma getLast?_of_increasing {step v : Int} {piece : List Int} (hint : ∀ a ∈ v :: piece, IsInt a) (hpos : 0 < step)
    (hstep : IsInt step) (hchain : (v :: piece).IsChain fun a b => wrap (b - a) = step)
    (hsorted : (v :: piece).Pairwise (· < ·)) : (v :: piece).getLast? = some (v + piece.length * step) := by
  induction piece generalizing v with
  | nil => simp
  | cons w piece ih =>
    obtain ⟨hw, hchain⟩ := isChain_cons_cons.mp hchain
    obtain ⟨hlt, hsorted⟩ := pairwise_cons.mp hsorted
    obtain ⟨hv, hint⟩ := forall_mem_cons.mp hint
    have hnext : w = v + step := by
      have hvw := hlt w mem_cons_self
      have hmax := hstep.2
      simp only [maxInt] at hmax
      rcases sub_of_wrap hv (hint w mem_cons_self) hpos hw with e | e
      · exact e
      · omega
    rw [getLast?_cons_cons, ih hint hchain hsorted, hnext, length_cons]
    push_cast
    ring_nf

/-- The step of an increasing run is the difference itself. -/
lemma steps_of_increasing {run : ValueRun} {piece : List Int} (h : run.Of piece) (hsorted : piece.Pairwise (· < ·)) :
    run.last - run.first = run.more * run.step := by
  cases piece with
  | nil => cases h.first
  | cons v piece =>
    have hend := getLast?_of_increasing h.ints h.positive h.step_isInt h.chain hsorted
    have hlast : run.last = v + piece.length * run.step := Option.some.inj (h.last.symm.trans hend)
    have hfirst : v = run.first := Option.some.inj h.first
    have hmore : piece.length = run.more := Nat.succ.inj h.length
    rw [hlast, hfirst, hmore]
    ring

section
variable {parts : List String} {runs : List ValueRun}

lemma Renders.exact_of_span (h : Sqi.Renders parts runs vals) (hsorted : vals.Pairwise (· < ·))
    (hspan : ∀ run ∈ runs, run.last - run.first ≤ maxInt) : ∀ run ∈ runs, run.Exact := by
  induction h with
  | nil => exact nofun
  | cons _ of _ ih =>
    obtain ⟨hpiece, hrest, -⟩ := pairwise_append.mp hsorted
    obtain ⟨hrun, hspan⟩ := forall_mem_cons.mp hspan
    exact forall_mem_cons.mpr ⟨⟨steps_of_increasing of hpiece, hrun⟩, ih hrest hspan⟩

lemma Renders.parseRange (h : Sqi.Renders parts runs vals) (hne : vals ≠ []) :
    Expr.parseRange (",".intercalate parts).toList = .ok (runs.map ValueRun.range) := by
  unfold Expr.parseRange
  rw [h.parse_lenient hne]
  rfl

/-- The text expands to its values exactly if no run spans too far and there are not too many of them. -/
lemma Renders.rangeInts_iff (h : Sqi.Renders parts runs vals) (hne : vals ≠ []) (hsorted : vals.Pairwise (· < ·)) :
    rangeInts (",".intercalate parts).toList = .ok vals ↔
      (vals.length : Int) ≤ maxElements ∧ ∀ run ∈ runs, run.Exact := by
  have hfits : ∀ r ∈ runs.map ValueRun.range, r.Fits := by
    intro r hr
    obtain ⟨run, hrun, rfl⟩ := mem_map.mp hr
    exact (h.of run hrun).1
  have hsum : ∀ ranges : List IntRange, (ranges.flatMap IntRange.expansion).length = sizes ranges := fun ranges => by
    simp only [sizes, length_flatMap, length_expansion]
  have hspans : (∀ r ∈ runs.map ValueRun.range, IsInt (r.stop - r.start)) → ∀ run ∈ runs, run.Exact :=
    fun hall => Renders.exact_of_span h hsorted fun run hrun => (hall _ (mem_map_of_mem hrun)).2
  unfold Expr.rangeInts
  rw [Renders.parseRange h hne]
  change (totalCount 0 (runs.map ValueRun.range) >>= fun _ => _) = _ ↔ _
  rcases totalCount_spec hfits 0 ⟨le_rfl, by decide⟩ with ⟨htotal, hle, hall⟩ | ⟨⟨e, herror⟩, hover⟩
  · have hexact := hspans hall
    obtain ⟨hplain, hvals⟩ := h.plain hexact
    rw [zero_add, ← hsum, hvals] at hle
    refine iff_of_true ?_ ⟨hle, hexact⟩
    have hiter := iterate_of_sizes hfits hall (by rw [← hsum, hvals]; exact hle)
    have hnil := h.ne_nil hne
    rw [htotal]
    generalize runs.map ValueRun.range = ranges at *
    subst hvals
    rcases ranges with _ | ⟨r, _ | ⟨q, ranges⟩⟩
    case nil => exact absurd rfl hnil
    case cons.nil =>
      change Except.ok (expandOneRange r) = _
      rw [expandOneRange, if_neg (not_lt_of_gt (hplain r mem_cons_self).positive), hiter r mem_cons_self]
      simp
    case cons.cons =>
      change Except.ok (expandRanges (r :: q :: ranges)) = _
      have hnodup : ([] ++ (r :: q :: ranges).flatMap IntRange.expansion).Nodup := hsorted.imp ne_of_lt
      rw [expandRanges, foldl_appendNew hiter hnodup, nil_append]
      rw [List.Pairwise.insertionSort_eq (hsorted.imp le_of_lt)]
  · rw [herror]
    refine iff_of_false (fun h => by cases h) fun hcond => ?_
    obtain ⟨hplain, hvals⟩ := h.plain hcond.2
    have := hover fun r hr => (hplain r hr).span
    rw [zero_add, ← hsum, hvals] at this
    omega

end

lemma compact_spec (h : vals.Pairwise (· ≤ ·)) :
    (compact vals).Pairwise (· < ·) ∧ ∀ v, v ∈ compact vals ↔ v ∈ vals := by
  induction vals using compact.induct with
  | case1 => exact ⟨.nil, fun _ => Iff.rfl⟩
  | case2 v => exact ⟨pairwise_singleton _ v, fun _ => Iff.rfl⟩
  | case3 v vals ih =>
    obtain ⟨hsorted, hmem⟩ := ih (pairwise_cons.mp h).2
    rw [compact, if_pos rfl]
    refine ⟨hsorted, fun u => ?_⟩
    rw [hmem, mem_cons (a := u) (b := v) (l := v :: vals)]
    exact ⟨.inr, fun hu => hu.elim (fun e => e ▸ mem_cons_self) id⟩
  | case4 v w vals hne ih =>
    obtain ⟨hle, hrest⟩ := pairwise_cons.mp h
    obtain ⟨hsorted, hmem⟩ := ih hrest
    rw [compact, if_neg hne]
    refine ⟨pairwise_cons.mpr ⟨fun u hu => ?_, hsorted⟩, fun u => by rw [mem_cons, mem_cons, hmem]⟩
    -- `w` is over `v`, and nothing after it is below it
    have hw : v ≤ w := hle w mem_cons_self
    rcases mem_cons.mp ((hmem u).mp hu) with rfl | hu
    · omega
    · have := (pairwise_cons.mp hrest).1 u hu
      omega

lemma compact_sort_eq {elems : List Int} (hsorted : vals.Pairwise (· < ·)) (h : ∀ v, v ∈ elems ↔ v ∈ vals) :
    compact (elems.insertionSort (· ≤ ·)) = vals := by
  obtain ⟨hinc, hmem⟩ := compact_spec (pairwise_insertionSort (· ≤ ·) elems)
  refine hinc.eq_of_mem_iff hsorted fun v => ?_
  rw [hmem, (perm_insertionSort (· ≤ ·) elems).mem_iff, h]

lemma collect_increasing {bound stride : Int} (hpos : 0 < stride) (hstride : IsInt stride)
    (hi : 0 ≤ i ∧ IsInt i) {out : List Int} (h : collect (· < bound) (fun i => wrap (i + stride)) fuel i = some out)
    (hout : ∀ v ∈ out, 0 ≤ v) : out.Pairwise (· < ·) ∧ ∀ v ∈ out, i ≤ v := by
  induction fuel generalizing i out with
  | zero => cases h
  | succ fuel ih =>
    rw [collect] at h
    split at h
    · obtain ⟨rest, hrest, rfl⟩ := map_eq_some_iff.mp h
      cases rest with
      | nil => exact ⟨pairwise_singleton _ i, by simp⟩
      | cons j rest =>
        -- the next index was listed, so it has not wrapped
        have hj : j = wrap (i + stride) := by
          cases fuel with
          | zero => cases hrest
          | succ fuel =>
            rw [collect] at hrest
            split at hrest
            · obtain ⟨_, -, e⟩ := map_eq_some_iff.mp hrest
              cases e
              rfl
            · cases hrest
        have hnext : wrap (i + stride) = i + stride := by
          refine wrap_of_isInt ?_
          have hlisted := hout j (by simp)
          by_contra hover
          simp only [IsInt, minInt, maxInt] at hi hstride hover
          rw [hj, wrap_of_over (by simp only [maxInt]; omega) (by simp only [maxInt]; omega)] at hlisted
          omega
        obtain ⟨hinc, hge⟩ := ih ⟨by omega, wrap_isInt _⟩ hrest fun v hv => hout v (mem_cons_of_mem i hv)
        rw [hnext] at hge
        refine ⟨pairwise_cons.mpr ⟨fun v hv => ?_, hinc⟩, forall_mem_cons.mpr ⟨le_rfl, fun v hv => ?_⟩⟩
        · have := hge v hv
          omega
        · have := hge v hv
          omega
    · cases h
      exact ⟨.nil, forall_mem_nil _⟩

lemma pick_ok {α : Type} {elems : List α} {v : α} (h : pick elems i = .ok v) :
    0 ≤ i ∧ elems[i.toNat]? = some v := by
  unfold pick at h
  split at h
  · cases h
  rename_i hi
  split at h
  · cases h
  · rename_i hv
    cases h
    exact ⟨by omega, hv⟩

lemma picked_increasing {indices picked : List Int} (hvals : vals.Pairwise (· < ·))
    (hindices : indices.Pairwise (· < ·)) (h : indices.mapM (pick vals) = .ok picked) : picked.Pairwise (· < ·) := by
  induction indices generalizing picked with
  | nil =>
    cases h
    exact .nil
  | cons i indices ih =>
    obtain ⟨hlt, hrest⟩ := pairwise_cons.mp hindices
    rw [mapM_cons] at h
    obtain ⟨v, hv, h⟩ := except_bind_eq_ok.mp h
    obtain ⟨more, hmore, h⟩ := except_bind_eq_ok.mp h
    cases h
    refine pairwise_cons.mpr ⟨fun w hw => ?_, ih hrest hmore⟩
    obtain ⟨j, hj, hw⟩ := exists_of_mem_mapM hmore hw
    obtain ⟨hi, hv⟩ := pick_ok hv
    obtain ⟨-, hw⟩ := pick_ok hw
    obtain ⟨hbi, rfl⟩ := List.getElem?_eq_some_iff.mp hv
    obtain ⟨hbj, rfl⟩ := List.getElem?_eq_some_iff.mp hw
    have := hlt j hj
    exact pairwise_iff_getElem.mp hvals i.toNat j.toNat hbi hbj (by omega)

lemma first_range {n : Int} (hn : 0 ≤ n) (start : Option Int) :
    0 ≤ (start.map fun i => clampSliceBound i n true).getD 0 ∧
      (start.map fun i => clampSliceBound i n true).getD 0 ≤ n := by
  cases start with
  | none => exact ⟨le_rfl, hn⟩
  | some i =>
    simp only [map_some, getD_some, clampSliceBound, if_true]
    split_ifs <;> omega

lemma sliceList_increasing {picked : List Int} (hvals : vals.Pairwise (· < ·)) (hlen : (vals.length : Int) ≤ maxInt)
    {start stop step : Option Int} (hstep : ∀ s ∈ step, IsInt s ∧ 0 < s)
    (h : sliceList fuel vals start stop step = .ok picked) : picked.Pairwise (· < ·) ∧ picked ⊆ vals := by
  unfold sliceList at h
  cases hindices : sliceIndices fuel start stop step vals.length with
  | none =>
    rw [hindices] at h
    cases h
  | some indices =>
    rw [hindices] at h
    dsimp only at h
    have hsub : picked ⊆ vals := by
      intro v hv
      obtain ⟨i, -, hi⟩ := exists_of_mem_mapM h hv
      exact mem_of_getElem? (pick_ok hi).2
    refine ⟨picked_increasing hvals ?_ h, hsub⟩
    -- every index picked an element, so none is negative
    have hvalid : ∀ i ∈ indices, 0 ≤ i := by
      intro i hi
      obtain ⟨v, -, hv⟩ := exists_ok_of_mem_mapM h hi
      exact (pick_ok hv).1
    obtain ⟨stride, hstride⟩ : ∃ s, step.getD 1 = s := ⟨_, rfl⟩
    have hs : IsInt stride ∧ 0 < stride := by
      cases step with
      | none =>
        cases hstride
        exact ⟨by decide, by decide⟩
      | some s =>
        cases hstride
        exact hstep s rfl
    obtain ⟨hfirst, hbound⟩ := first_range (Int.natCast_nonneg vals.length) start
    unfold sliceIndices at hindices
    simp only [hstride, decide_eq_true hs.2, if_true] at hindices
    refine (collect_increasing hs.2 hs.1 ⟨hfirst, ?_⟩ hindices hvalid).1
    simp only [IsInt, minInt] at *
    omega

inductive Denotes {F : Type} : Value F → List Int → Prop
  | rangeExpr {text : Text} {ints : List Int} (h : rangeInts text = .ok ints) : Denotes (.rangeExpr text) ints
  | list (ints : List Int) : Denotes (.list .int (ints.map .int)) ints

/-- The runs that `canonicalRange` writes as ranges span no further than a machine integer, and the values are no
more than an expansion may have. -/
def Expandable (vals : List Int) : Prop :=
  (vals.length : Int) ≤ maxElements ∧ ∀ run ∈ canonicalRuns vals.length vals, run.Exact
deriving Decidable

lemma canonicalRange_denotes (hne : vals ≠ []) (hsorted : vals.Pairwise (· < ·)) (hint : ∀ v ∈ vals, IsInt v) :
    newRangeExpr (canonicalRange vals).toList = .ok (.rangeExpr (canonicalRange vals).toList : Value F) ∧
    (rangeInts (canonicalRange vals).toList = .ok vals ↔ Expandable vals) := by
  have hrenders := renders_canonicalParts le_rfl hsorted hint
  refine ⟨?_, Renders.rangeInts_iff hrenders hne hsorted⟩
  rw [newRangeExpr, canonicalRange, Renders.parseRange hrenders hne]
  rfl

/-- Canonical range text keeps its integers exactly if they are `Expandable`, and a slice of a range
expression those it picks. -/
theorem canonical_range_round_trip {F : Type} {vals : List Int} (hne : vals ≠ []) (hsorted : vals.Pairwise (· < ·))
    (hint : ∀ v ∈ vals, IsInt v) :
    ((∃ ranges, parseRange (canonicalRange vals).toList = .ok ranges) ∧
      rangeInts (canonicalRange vals).toList = .ok vals ↔ Expandable vals) ∧
    (∀ elems : List Int, (∀ v, v ∈ elems ↔ v ∈ vals) →
      ((∃ text, rangeExprOfList elems = .ok (.rangeExpr text : Value F) ∧ rangeInts text = .ok vals) ↔
        Expandable vals)) ∧
    ∀ text, rangeInts text = .ok vals → (vals.length : Int) ≤ maxInt →
      ∀ (fuel : Nat) (start stop step : Option Int), (∀ s ∈ step, IsInt s ∧ 0 < s) →
      ∀ picked, sliceList fuel vals start stop step = .ok picked →
      ∀ m m', chargeExpansion text m = (.ok (), m') →
      ((∃ out : Value F, sliceRangeExpr fuel text start stop step m = (.ok out, m') ∧ Denotes out picked) ↔
        picked = [] ∨ Expandable picked) := by
  obtain ⟨hnew, hexpand⟩ := canonicalRange_denotes (F := F) hne hsorted hint
  refine ⟨?_, fun elems hmem => ?_,
    fun text htext hmax fuel start stop step hstep picked hpicked m m' hcharge => ?_⟩
  · rw [← hexpand]
    exact and_iff_right ⟨_, Renders.parseRange (renders_canonicalParts le_rfl hsorted hint) hne⟩
  · have helems : elems ≠ [] := by
      rintro rfl
      obtain ⟨v, hv⟩ := exists_mem_of_ne_nil vals hne
      exact absurd ((hmem v).mpr hv) not_mem_nil
    rw [rangeExprOfList, if_neg helems, compact_sort_eq hsorted hmem, hnew, ← hexpand]
    simp
  · obtain ⟨hinc, hsub⟩ := sliceList_increasing hsorted hmax hstep hpicked
    have hforward : step.any (· < 0) = false := by
      cases step with
      | none => rfl
      | some s =>
        have := (hstep s rfl).2
        simp only [any_some, decide_eq_false_iff_not]
        omega
    have hrun : sliceRangeExpr (F := F) fuel text start stop step m =
        (if step.any (· < 0) ∨ picked = [] then pure (.list .int (picked.map .int))
          else Prog.ofExcept (newRangeExpr (canonicalRange picked).toList)) m' := by
      unfold sliceRangeExpr
      rw [bind_ok hcharge, bind_ok (by rw [htext]; rfl), bind_ok (by rw [hpicked]; rfl)]
    rw [hrun, hforward]
    by_cases hempty : picked = []
    · rw [if_pos (.inr hempty)]
      exact iff_of_true ⟨_, rfl, .list picked⟩ (.inl hempty)
    obtain ⟨hnew, hexpand⟩ := canonicalRange_denotes (F := F) hempty hinc fun v hv => hint v (hsub hv)
    rw [if_neg (by simp [hempty]), hnew, ← hexpand]
    simp only [hempty, false_or]
    constructor
    · rintro ⟨out, h, hdenotes⟩
      cases h
      cases hdenotes
      assumption
    · exact fun h => ⟨_, rfl, .rangeExpr h⟩

theorem canonical_range_round_trip_runs :
    canonicalRange [-4, -2, 0, 5, 6, 7, 90] = "-4-0:2,5-7,90" ∧
      rangeInts "-4-0:2,5-7,90".toList = .ok [-4, -2, 0, 5, 6, 7, 90] := by
  have htext : canonicalRange [-4, -2, 0, 5, 6, 7, 90] = "-4-0:2,5-7,90" := by decide +kernel
  have hround := ((canonical_range_round_trip (F := Unit) (show [-4, -2, 0, 5, 6, 7, 90] ≠ [] by decide) (by decide)
    (by decide)).1.mpr (by decide +kernel)).2
  rw [htext] at hround
  exact ⟨htext, hround⟩

/-- Three integers one step apart are written as one range whose span overflows; its
count saturates, and the text does not expand. -/
theorem wide_run_not_expanded :
    [-9000000000000000000, 0, 9000000000000000000].Pairwise (fun a b : Int => a < b) ∧
      canonicalRange [-9000000000000000000, 0, 9000000000000000000] =
        "-9000000000000000000-9000000000000000000:9000000000000000000" ∧
      rangeInts (canonicalRange [-9000000000000000000, 0, 9000000000000000000]).toList =
        .error (.tooLarge (.elements maxInt)) := by
  refine ⟨by decide, by decide +kernel, by decide +kernel⟩

end Sqi.Expr

import Sqi.OpenJD.Chunks
import Sqi.OpenJD.RangeText
import Sqi.OpenJD.Submit

/-! The text of a chunk read back (`formatContiguousChunk` and
`formatNoncontiguousChunk` of `expand.go` against `parseIntRangeExpr` of
`range.go`), and the bounds `DeriveChunkBounds` takes from it. -/

namespace Sqi
open GoText List Option Progression Word

variable {chunks : List (List Int)} {c vals : List Int} {text : String} {row : TaskParams}
  {tp : TaskParamDefinition} {ranges : List IntRange} {chunkSize : Nat} {all : List Int} {key : String}

lemma infix_of_mem_cutRounds {run : List Int} {n k rounds i start : Nat}
    (h : cutRounds run n k rounds i start = some chunks) : ∀ c ∈ chunks, c <:+: run := by
  induction rounds generalizing i start chunks with
  | zero =>
    cases h
    exact nofun
  | succ rounds ih =>
    rw [cutRounds] at h
    split at h
    · obtain ⟨rest, hrest, rfl⟩ := map_eq_some_iff.mp h
      have htaken : ∀ j, run.take j <:+: run := fun j => ⟨[], run.drop j, take_append_drop j run⟩
      exact forall_mem_cons.mpr ⟨(drop_suffix _ _).isInfix.trans (htaken _), ih hrest⟩
    · cases h

lemma exists_of_mem_mapM_some {α β : Type} {f : α → Option β} {as : List α} {bs : List β} (h : as.mapM f = some bs) :
    ∀ b ∈ bs, ∃ a ∈ as, f a = some b := by
  induction as generalizing bs with
  | nil =>
    cases h
    exact nofun
  | cons a as ih =>
    rw [mapM_cons] at h
    obtain ⟨b, hb, h⟩ := bind_eq_some_iff.mp h
    obtain ⟨rest, hrest, h⟩ := bind_eq_some_iff.mp h
    cases h
    refine forall_mem_cons.mpr ⟨⟨a, mem_cons_self, hb⟩, fun c hc => ?_⟩
    obtain ⟨d, hd, hfd⟩ := ih hrest c hc
    exact ⟨d, mem_cons_of_mem a hd, hfd⟩

lemma chain_of_mem_cutValues (h : cutValues all chunkSize true = some chunks) (hc : c ∈ chunks) :
    c.IsChain fun a b => b = wrap (a + 1) := by
  obtain ⟨cuts, hcuts, rfl⟩ := map_eq_some_iff.mp h
  obtain ⟨pieces, hpieces, hc⟩ := mem_flatten.mp hc
  obtain ⟨run, hrun, hcut⟩ := exists_of_mem_mapM_some hcuts pieces hpieces
  exact List.IsChain.infix (consecutiveRuns_chain all run hrun) (infix_of_mem_cutRounds hcut c hc)

/-! ## What the formatters write -/

/-- The runs `formatNoncontiguousChunk` finds. -/
def noncontiguousRuns : Nat → List Int → List ValueRun
  | 0, _ => []
  | _, [] => []
  | _, [v] => [.single v]
  | n + 1, v :: w :: vals =>
    let step := wrap (w - v)
    if step ≤ 0 then .single v :: noncontiguousRuns n (w :: vals)
    else
      let (last, more, rest) := steppedRun step w vals
      if more = 0 then .single v :: .single w :: noncontiguousRuns n vals
      else ⟨v, last, step, more + 1⟩ :: noncontiguousRuns n rest

def chunkRuns (contiguous : Bool) (vals : List Int) : List ValueRun :=
  if contiguous then [⟨vals.headD 0, vals.getLastD 0, 1, vals.length - 1⟩] else noncontiguousRuns vals.length vals

lemma wrap_sub_of_successor {a b : Int} (ha : IsInt a) (h : b = wrap (a + 1)) : wrap (b - a) = 1 := by
  by_cases hfit : IsInt (a + 1)
  · rw [h, wrap_of_isInt hfit, add_sub_cancel_left]
    decide
  · obtain rfl : a = maxInt := by
      simp only [IsInt, minInt, maxInt] at *
      omega
    rw [h]
    decide

lemma renders_contiguous (hne : c ≠ []) (hchain : c.IsChain fun a b => b = wrap (a + 1)) (hint : ∀ v ∈ c, IsInt v) :
    Renders [formatContiguousChunk c] (chunkRuns true c) c := by
  obtain ⟨v, vals, rfl⟩ := exists_cons_of_ne_nil hne
  have hlast : (v :: vals).getLast? = some ((v :: vals).getLastD 0) := by
    rw [getLastD_eq_getLast?, getLast?_eq_some_getLast hne]
    rfl
  have hsteps : (v :: vals).IsChain fun a b => wrap (b - a) = 1 :=
    hchain.imp_of_mem_imp fun a b ha _ h => wrap_sub_of_successor (hint a ha) h
  have hrun : (⟨v, (v :: vals).getLastD 0, 1, vals.length⟩ : ValueRun).Of (v :: vals) :=
    ⟨rfl, hlast, rfl, hsteps, one_pos, show IsInt 1 by decide, hint⟩
  have hrenders := Renders.cons (spells_range _ _) hrun .nil
  rwa [append_nil] at hrenders

lemma renders_noncontiguousParts {fuel : Nat} (hfuel : vals.length ≤ fuel) (hint : ∀ v ∈ vals, IsInt v) :
    Renders (noncontiguousParts fuel vals) (noncontiguousRuns fuel vals) vals := by
  induction fuel generalizing vals with
  | zero =>
    obtain rfl := length_eq_zero_iff.mp (Nat.le_zero.mp hfuel)
    exact .nil
  | succ fuel ih =>
    cases vals with
    | nil => exact .nil
    | cons v vals =>
      obtain ⟨hv, htail⟩ := forall_mem_cons.mp hint
      cases vals with
      | nil => exact .value hv .nil
      | cons w vals =>
        obtain ⟨hw, hrest⟩ := forall_mem_cons.mp htail
        simp only [length_cons] at hfuel
        rw [noncontiguousParts, noncontiguousRuns]
        dsimp only
        split
        · exact .value hv (ih (by simp; omega) htail)
        rename_i hpos
        obtain ⟨⟨last, more, rest⟩, hrun⟩ : ∃ r, steppedRun (wrap (w - v)) w vals = r := ⟨_, rfl⟩
        obtain ⟨run, hvals, hlen, hlast, hchain⟩ := steppedRun_eq hrun
        rw [hrun]
        dsimp only
        split
        · exact .value hv (.value hw (ih (by omega) hrest))
        have hlength := congrArg List.length hvals
        simp only [length_cons, length_append] at hlength
        have hof : (⟨v, last, wrap (w - v), more + 1⟩ : ValueRun).Of (v :: w :: run) := by
          refine ⟨rfl, by rw [getLast?_cons_cons, hlast], by simp [hlen], isChain_cons_cons.mpr ⟨rfl, hchain⟩,
            by dsimp only; omega, wrap_isInt _, forall_mem_cons.mpr ⟨hv, fun a ha => htail a ?_⟩⟩
          rw [hvals]
          exact mem_append_left rest ha
        have hafter : Renders (noncontiguousParts fuel rest) (noncontiguousRuns fuel rest) rest :=
          ih (by omega) fun a ha => htail a (hvals ▸ mem_append_right _ ha)
        rw [show v :: w :: vals = v :: w :: run ++ rest from congrArg (v :: ·) hvals]
        split
        · refine .cons ?_ hof hafter
          rw [ValueRun.range, ‹wrap (w - v) = 1›]
          exact spells_range v last
        · exact .cons (spells_stepped v last _) hof hafter

lemma renders_chunk {contiguous : Bool} (h : cutValues all chunkSize contiguous = some chunks) (hc : c ∈ chunks)
    (hne : c ≠ []) (hint : ∀ v ∈ c, IsInt v) :
    ∃ parts, chunkFormat contiguous c = ",".intercalate parts ∧ Renders parts (chunkRuns contiguous c) c := by
  cases contiguous with
  | true => exact ⟨_, rfl, renders_contiguous hne (chain_of_mem_cutValues h hc) hint⟩
  | false => exact ⟨_, rfl, renders_noncontiguousParts le_rfl hint⟩

lemma parseIntRangeElements_of_ok {s : Text}
    (h : parseWithPolicy openjdRangePolicy s = .ok ranges) : parseIntRangeElements s = .ok ranges := by
  unfold parseIntRangeElements
  rw [h, if_neg]
  intro hblank
  rw [parseWithPolicy, if_pos hblank] at h
  cases h

lemma sumRangeCounts_eq {total : Int} (htotal : 0 ≤ total)
    (hcount : ∀ r ∈ ranges, r.count = r.expansion.length)
    (hle : total + (ranges.flatMap IntRange.expansion).length ≤ maxRangeValues) :
    sumRangeCounts total ranges = some (total + (ranges.flatMap IntRange.expansion).length) := by
  induction ranges generalizing total with
  | nil => simp [sumRangeCounts]
  | cons r ranges ih =>
    obtain ⟨hr, hrest⟩ := forall_mem_cons.mp hcount
    rw [flatMap_cons, length_append, Nat.cast_add] at hle ⊢
    rw [sumRangeCounts, hr, if_neg (by omega), if_neg (by omega), ih (by omega) hrest (by omega)]
    congr 1
    omega

lemma parseIntRangeExpr_ok {expr : Text} {ints : List Int} (h : parseIntRangeExpr expr = .ok ints) :
    ∃ ranges total, parseIntRangeElements expr = .ok ranges ∧ sumRangeCounts 0 ranges = some total ∧
      ints = (ranges.flatMap IntRange.expansion).eraseDups := by
  cases hparse : parseIntRangeElements expr with
  | error e =>
    simp only [parseIntRangeExpr, hparse, bind, Except.bind] at h
    cases h
  | ok ranges =>
    rw [parseIntRangeExpr_eq hparse] at h
    cases hsum : sumRangeCounts 0 ranges with
    | none =>
      rw [hsum] at h
      cases h
    | some total =>
      rw [hsum] at h
      dsimp only at h
      split at h
      · cases h
      · cases h
        exact ⟨ranges, total, rfl, hsum, rfl⟩

lemma sumRangeCounts_bounds {start total : Int} (h : sumRangeCounts start ranges = some total)
    (hstart : start ≤ maxRangeValues) : total ≤ maxRangeValues ∧ ∀ r ∈ ranges, r.count ≤ maxRangeValues := by
  induction ranges generalizing start with
  | nil =>
    cases h
    exact ⟨hstart, nofun⟩
  | cons r ranges ih =>
    rw [sumRangeCounts] at h
    split at h
    · cases h
    split at h
    · cases h
    obtain ⟨htotal, hall⟩ := ih h (by omega)
    exact ⟨htotal, forall_mem_cons.mpr ⟨by omega, hall⟩⟩

section
variable {parts : List String} {runs : List ValueRun} (h : Renders parts runs vals) (hne : vals ≠ [])
include h hne

lemma Renders.parseIntRangeExpr (hnodup : vals.Nodup) (hlen : (vals.length : Int) ≤ maxRangeValues)
    (exact : ∀ run ∈ runs, run.Exact) : parseIntRangeExpr (",".intercalate parts).toList = .ok vals := by
  obtain ⟨hplain, hvals⟩ := h.plain exact
  have hcount : ∀ r ∈ runs.map ValueRun.range, r.count = r.expansion.length ∧ r.iterate = r.expansion := by
    intro r hr
    refine (hplain r hr).count ?_
    have hpart := (sublist_flatten_of_mem (mem_map_of_mem (f := IntRange.expansion) hr)).length_le
    rw [← flatMap_def, hvals] at hpart
    simp only [maxRangeValues, maxInt] at *
    omega
  have hparse := parseWithPolicy_spelled h.spelled (h.ne_nil hne) fun r hr => (hplain r hr).allowed openjdRangePolicy
  simp only [Sqi.parseIntRangeExpr, parseIntRangeElements_of_ok hparse, bind, Except.bind]
  rw [sumRangeCounts_eq le_rfl (fun r hr => (hcount r hr).1) (by simpa [hvals] using hlen)]
  dsimp only
  rw [foldl_appendNew (fun r hr => (hcount r hr).2) (by simpa [hvals] using hnodup), nil_append, hvals]
  exact if_neg hne

/-- A run that wraps is too short and one whose span overflows is refused, so only exact runs are read back. -/
lemma Renders.exact_of_parse (hnodup : vals.Nodup)
    (hread : Sqi.parseIntRangeExpr (",".intercalate parts).toList = .ok vals) :
    (vals.length : Int) ≤ maxRangeValues ∧ ∀ run ∈ runs, run.Exact := by
  obtain ⟨ranges, total, hranges, hsum, hvals⟩ := parseIntRangeExpr_ok hread
  obtain rfl : ranges = runs.map ValueRun.range := by
    rcases parseIntRangeElements_ok hranges with rfl | hparse
    · exact absurd hvals hne
    · exact Except.ok.inj ((parseWithPolicy_lenient hparse).symm.trans (h.parse_lenient hne))
  obtain ⟨htotal, hcounts⟩ := sumRangeCounts_bounds hsum (by decide)
  have hfits : ∀ r ∈ runs.map ValueRun.range, r.Fits := fun r hr => (allowed_of_parse hranges r hr).fits
  have hlen : vals.length ≤ ((runs.map ValueRun.range).flatMap IntRange.expansion).length :=
    (List.Nodup.subperm hnodup fun v hv => mem_eraseDups.mp (hvals ▸ hv)).length_le
  have hcounted := (sumRangeCounts_some hfits hsum).1
  refine ⟨by omega, (h.exact (fun run hrun => ?_) fun run hrun => ?_).2 hlen⟩
  · exact (allowed_of_parse hranges _ (mem_map_of_mem hrun)).ascending rfl
  · have hcount := hcounts _ (mem_map_of_mem hrun)
    rw [IntRange.count_eq (hfits _ (mem_map_of_mem hrun))] at hcount
    split at hcount
    · rename_i hboth
      exact hboth.1.2
    · exact absurd hcount (by decide)

end

lemma chunkBounds_eq (h : parseIntRangeExpr text.toList = .ok c) (hne : c ≠ []) :
    ∃ lo hi, chunkBounds text = some (lo, hi) ∧ lo ∈ c ∧ hi ∈ c ∧ ∀ v ∈ c, lo ≤ v ∧ v ≤ hi := by
  obtain ⟨n, ints, rfl⟩ := exists_cons_of_ne_nil hne
  obtain ⟨hlo, hleast⟩ := min?_eq_some_iff.mp (show (n :: ints).min? = some (ints.foldl min n) from min?_cons')
  obtain ⟨hhi, hgreatest⟩ := max?_eq_some_iff.mp (show (n :: ints).max? = some (ints.foldl max n) from max?_cons')
  refine ⟨ints.foldl min n, ints.foldl max n, ?_, hlo, hhi, fun v hv => ⟨hleast v hv, hgreatest v hv⟩⟩
  unfold chunkBounds
  rw [h]

lemma lookup_deriveBounds_of_ne (hstart : key ≠ tp.name ++ ".Start") (hend : key ≠ tp.name ++ ".End") :
    (deriveBounds row tp).lookup key = row.lookup key := by
  unfold deriveBounds
  split
  · split
    · rfl
    · rw [lookup_put_eq, if_neg hend, lookup_put_eq, if_neg hstart]
  · rfl

lemma lookup_foldl_deriveBounds (row : TaskParams) {defs : List TaskParamDefinition}
    (h : ∀ tp ∈ defs, key ≠ tp.name ++ ".Start" ∧ key ≠ tp.name ++ ".End") :
    (defs.foldl deriveBounds row).lookup key = row.lookup key := by
  induction defs generalizing row with
  | nil => rfl
  | cons tp defs ih =>
    obtain ⟨⟨hstart, hend⟩, hrest⟩ := forall_mem_cons.mp h
    rw [foldl_cons, ih _ hrest, lookup_deriveBounds_of_ne hstart hend]

lemma start_ne_end (a b : String) : a ++ ".Start" ≠ b ++ ".End" := by
  intro h
  have hlast := congrArg (fun s => s.toList.getLast?) h
  simp at hlast

lemma lookup_deriveBounds {lo hi : Int}
    (htype : tp.type = .chunkInt) (hrow : row.lookup tp.name = some text) (h : chunkBounds text = some (lo, hi)) :
    (deriveBounds row tp).lookup (tp.name ++ ".Start") = some (itoa lo) ∧
      (deriveBounds row tp).lookup (tp.name ++ ".End") = some (itoa hi) := by
  unfold deriveBounds
  rw [if_pos htype, hrow, bind_some, h]
  dsimp only
  rw [lookup_put_eq, lookup_put_eq, lookup_put_eq, if_neg (start_ne_end _ _), if_pos rfl, if_pos rfl]
  exact ⟨rfl, rfl⟩

lemma lookup_deriveChunkBounds {ps : StepParameterSpace}
    {lo hi : Int} (htp : tp ∈ ps.taskParameterDefinitions) (htype : tp.type = .chunkInt)
    (hnames : (ps.taskParameterDefinitions.map (·.name)).Nodup)
    (hkeys : ∀ q ∈ ps.taskParameterDefinitions, tp.name ≠ q.name ++ ".Start" ∧ tp.name ≠ q.name ++ ".End")
    (hrow : row.lookup tp.name = some text) (h : chunkBounds text = some (lo, hi)) :
    ∃ out, deriveChunkBounds [row] (some ps) = [out] ∧
      out.lookup (tp.name ++ ".Start") = some (itoa lo) ∧ out.lookup (tp.name ++ ".End") = some (itoa hi) := by
  obtain ⟨before, after, hdefs⟩ := append_of_mem htp
  rw [hdefs] at hnames hkeys
  have hother : ∀ q ∈ after, tp.name ≠ q.name := by
    rw [map_append, nodup_append, map_cons, nodup_cons] at hnames
    exact fun q hq e => hnames.2.1.1 (e ▸ mem_map_of_mem hq)
  refine ⟨ps.taskParameterDefinitions.foldl deriveBounds row, rfl, ?_⟩
  rw [hdefs, foldl_append, foldl_cons]
  have hbefore := lookup_foldl_deriveBounds row fun q hq => hkeys q (mem_append_left _ hq)
  obtain ⟨hstart, hend⟩ := lookup_deriveBounds htype (hbefore.trans hrow) h
  rw [lookup_foldl_deriveBounds, lookup_foldl_deriveBounds]
  · exact ⟨hstart, hend⟩
  · exact fun q hq => ⟨fun e => start_ne_end _ _ e.symm, fun e => hother q hq ((String.append_left_inj _).mp e)⟩
  · exact fun q hq => ⟨fun e => hother q hq ((String.append_left_inj _).mp e), start_ne_end _ _⟩

/-- The text of a chunk is read back as the chunk, with its least and greatest value, exactly if the runs it
is written in are exact and the parser takes that many values. -/
theorem chunk_text_round_trip {all : List Int} {chunkSize : Nat} {contiguous : Bool} {chunks : List (List Int)}
    (hcut : cutValues all chunkSize contiguous = some chunks) {c : List Int} (hc : c ∈ chunks) (hne : c ≠ [])
    (hnodup : c.Nodup) (hint : ∀ v ∈ c, IsInt v) :
    (parseIntRangeExpr (chunkFormat contiguous c).toList = .ok c ∧
      ∃ lo ∈ c, ∃ hi ∈ c, (∀ v ∈ c, lo ≤ v ∧ v ≤ hi) ∧
        ∀ (row : TaskParams) (ps : StepParameterSpace), ∀ tp ∈ ps.taskParameterDefinitions, tp.type = .chunkInt →
          (ps.taskParameterDefinitions.map (·.name)).Nodup →
          (∀ q ∈ ps.taskParameterDefinitions, tp.name ≠ q.name ++ ".Start" ∧ tp.name ≠ q.name ++ ".End") →
          row.lookup tp.name = some (chunkFormat contiguous c) →
          ∃ out, deriveChunkBounds [row] (some ps) = [out] ∧
            out.lookup (tp.name ++ ".Start") = some (itoa lo) ∧ out.lookup (tp.name ++ ".End") = some (itoa hi)) ↔
    (c.length : Int) ≤ maxRangeValues ∧ ∀ run ∈ chunkRuns contiguous c, run.Exact := by
  obtain ⟨parts, htext, hrenders⟩ := renders_chunk hcut hc hne hint
  constructor
  · rintro ⟨hread, -⟩
    rw [htext] at hread
    exact hrenders.exact_of_parse hne hnodup hread
  rintro ⟨hlen, exact⟩
  have hread : parseIntRangeExpr (chunkFormat contiguous c).toList = .ok c := by
    rw [htext]
    exact hrenders.parseIntRangeExpr hne hnodup hlen exact
  obtain ⟨lo, hi, hbounds, hlo, hhi, hall⟩ := chunkBounds_eq hread hne
  refine ⟨hread, lo, hlo, hi, hhi, hall, fun row ps tp htp htype hnames hkeys hrow => ?_⟩
  exact lookup_deriveChunkBounds htp htype hnames hkeys hrow hbounds

theorem chunk_text_round_trip_steps :
    chunkFormat false [-7, -4, -1, 20, 3] = "-7--1:3,20,3" ∧
      parseIntRangeExpr "-7--1:3,20,3".toList = .ok [-7, -4, -1, 20, 3] := by
  have htext : chunkFormat false [-7, -4, -1, 20, 3] = "-7--1:3,20,3" := by decide +kernel
  have hcut : cutValues [-7, -4, -1, 20, 3] 5 false = some [[-7, -4, -1, 20, 3]] := by decide +kernel
  refine ⟨htext, ?_⟩
  rw [← htext]
  exact ((chunk_text_round_trip hcut mem_cons_self (by decide) (by decide) (by decide)).mpr
    ⟨by decide, by decide +kernel⟩).1

/-- The step from the largest integer to the least one wraps to 1, so three values are
written as a range from above to below, which the parser refuses. -/
theorem wrapped_chunk_not_read :
    [maxInt, minInt, minInt + 1].Nodup ∧
      cutValues [maxInt, minInt, minInt + 1] 3 false = some [[maxInt, minInt, minInt + 1]] ∧
      chunkFormat false [maxInt, minInt, minInt + 1] = "9223372036854775807--9223372036854775807" ∧
      parseIntRangeExpr (chunkFormat false [maxInt, minInt, minInt + 1]).toList =
        .error (.startAfterEnd maxInt (minInt + 1)) := by
  refine ⟨by decide, by decide +kernel, by decide +kernel, by decide +kernel⟩

end Sqi

import Mathlib.Data.List.Chain
import Sqi.OpenJD.Parameter

/-! How `chunkValues` cuts the values of a CHUNK[INT] parameter (`expand.go`). -/

namespace Sqi
open List Word Cuts

/-! ## The loop in machine arithmetic -/

def cutRounds (run : List Int) (n k : Nat) : Nat → Nat → Nat → Option (List (List Int))
  | 0, _, _ => some []
  | rounds + 1, i, start =>
    let stop := (wrap ((i + 1) * n + k - 1)).tdiv k
    if start ≤ stop ∧ stop ≤ n then
      (cutRounds run n k rounds (i + 1) stop.toNat).map ((run.take stop.toNat).drop start :: ·)
    else none

def cutRun (chunkSize : Nat) (run : List Int) : Option (List (List Int)) :=
  let n := run.length
  let k := chunkCount n chunkSize
  cutRounds run n k k 0 0

def cutValues (all : List Int) (chunkSize : Nat) (contiguous : Bool) : Option (List (List Int)) :=
  let runs := if contiguous then consecutiveRuns all else [all]
  (runs.mapM (cutRun chunkSize)).map List.flatten
def chunkFormat (contiguous : Bool) : List Int → String :=
  if contiguous then formatContiguousChunk else formatNoncontiguousChunk

section
variable {n k i : Nat}

lemma chunkStop_eq (hk : 0 < k) (hfit : ((i : Int) + 1) * n + k - 1 ≤ maxInt) :
    (wrap ((i + 1) * n + k - 1)).tdiv k = evenBound n k (i + 1) := by
  have hcast : ((i : Int) + 1) * n + k - 1 = ((i + 1) * n + k - 1 : Nat) := by
    have : 1 ≤ (i + 1) * n + k := by omega
    push_cast [this]
    rfl
  rw [hcast] at hfit ⊢
  rw [wrap_of_isInt ⟨by simp only [minInt]; omega, hfit⟩, evenBound]
  rfl

lemma chunkStop_over (hn : (n : Int) ≤ maxInt) (hprev : (i : Int) * n + k - 1 ≤ maxInt)
    (hover : maxInt < ((i : Int) + 1) * n + k - 1) : (wrap (((i : Int) + 1) * n + k - 1)).tdiv k ≤ 0 := by
  rw [add_mul, one_mul] at hover ⊢
  rw [wrap_of_over hover (by simp only [maxInt] at *; omega)]
  have hneg : 0 ≤ -((i : Int) * n + n + k - 1 - 2 ^ 64) := by
    simp only [maxInt] at *
    omega
  have hquot := Int.tdiv_nonneg hneg (Int.natCast_nonneg k)
  rw [Int.neg_tdiv] at hquot
  omega

lemma cutRounds_eq (run : List Int) (hk : 0 < k) (hlen : n = run.length) (hfit : (k : Int) * n + k - 1 ≤ maxInt)
    {rounds : Nat} (hi : i + rounds = k) :
    cutRounds run n k rounds i (evenBound n k i) = some ((List.range' i rounds).map fun j =>
        (run.take (evenBound n k (j + 1))).drop (evenBound n k j)) := by
  induction rounds generalizing i with
  | zero => rfl
  | succ rounds ih =>
    have hmono := evenBound_mono (n := n) hk i
    have hle := evenBound_le (n := n) hk (i := i + 1) (by omega)
    have hround : ((i : Int) + 1) * n ≤ k * n := mul_le_mul_of_nonneg_right (by omega) (Int.natCast_nonneg n)
    rw [cutRounds, chunkStop_eq hk (by omega), if_pos ⟨by omega, by omega⟩, Int.toNat_natCast, ih (by omega),
      range'_succ]
    rfl

/-- The first product that overflows ends the loop, or cuts an empty chunk. -/
lemma nil_mem_cutRounds (run : List Int) (hk : 0 < k) (hn : (n : Int) ≤ maxInt)
    (hover : maxInt < (k : Int) * n + k - 1) {rounds : Nat} (hi : i + rounds = k)
    (hprev : (i : Int) * n + k - 1 ≤ maxInt) {chunks : List (List Int)}
    (h : cutRounds run n k rounds i (evenBound n k i) = some chunks) : [] ∈ chunks := by
  induction rounds generalizing i chunks with
  | zero =>
    obtain rfl : i = k := by omega
    omega
  | succ rounds ih =>
    rw [cutRounds] at h
    by_cases hfit : ((i : Int) + 1) * n + k - 1 ≤ maxInt
    · rw [chunkStop_eq hk hfit, Int.toNat_natCast] at h
      split at h
      · obtain ⟨rest, hrest, rfl⟩ := Option.map_eq_some_iff.mp h
        exact mem_cons_of_mem _ (ih (by omega) (by exact_mod_cast hfit) hrest)
      · cases h
    · have hstop := chunkStop_over hn hprev (not_le.mp hfit)
      split at h
      · obtain ⟨rest, -, rfl⟩ := Option.map_eq_some_iff.mp h
        rw [Int.toNat_of_nonpos hstop, take_zero, drop_nil]
        exact mem_cons_self
      · cases h

end

variable {chunkSize : Nat} {run : List Int} {runs : List (List Int)}

/-- The products of the loop over a run fit a machine integer. -/
def CutsFit (chunkSize : Nat) (run : List Int) : Prop :=
  (fewest run.length chunkSize : Int) * run.length + fewest run.length chunkSize - 1 ≤ maxInt
deriving Decidable

section
variable (hne : run ≠ [])
include hne

lemma cutRun_eq (hfit : CutsFit chunkSize run) : cutRun chunkSize run = some (chunkSlices chunkSize run) := by
  have hk : 0 < fewest run.length chunkSize := Nat.succ_pos _
  unfold cutRun chunkSlices pieces
  dsimp only
  rw [chunkCount_eq (length_pos_iff.mpr hne)]
  have hrounds := cutRounds_eq run hk rfl hfit (Nat.zero_add _)
  rw [evenBound_zero hk] at hrounds
  rw [hrounds, range_eq_range']

lemma cutsFit_of_cutRun (hlen : (run.length : Int) ≤ maxInt) {chunks : List (List Int)}
    (h : cutRun chunkSize run = some chunks) (hall : ∀ c ∈ chunks, c ≠ []) : CutsFit chunkSize run := by
  by_contra hover
  have hk : 0 < fewest run.length chunkSize := Nat.succ_pos _
  have hle : fewest run.length chunkSize ≤ run.length := by
    have := Nat.div_le_self (run.length - 1) chunkSize
    have := length_pos_iff.mpr hne
    unfold fewest
    omega
  unfold cutRun at h
  dsimp only at h
  rw [chunkCount_eq (length_pos_iff.mpr hne)] at h
  refine hall [] (nil_mem_cutRounds run hk hlen (not_le.mp hover) (Nat.zero_add _) (by push_cast; omega) ?_) rfl
  rwa [evenBound_zero hk]

end

structure CutEvenly (chunkSize : Nat) (run : List Int) (chunks : List (List Int)) : Prop where
  flatten : chunks.flatten = run
  nonempty : ∀ c ∈ chunks, c ≠ []
  bounded : ∀ c ∈ chunks, c.length ≤ chunkSize
  even : ∀ c ∈ chunks, ∀ d ∈ chunks, c.length ≤ d.length + 1
  fewest : ∀ other : List (List Int), other.flatten = run → (∀ c ∈ other, c.length ≤ chunkSize) →
    chunks.length ≤ other.length

lemma cutEvenly_chunkSlices (hsize : 1 ≤ chunkSize) (hne : run ≠ []) :
    CutEvenly chunkSize run (chunkSlices chunkSize run) := by
  have hpos := length_pos_iff.mpr hne
  obtain ⟨hhigh, hlow⟩ := fewest_fits hpos hsize
  have hk : 0 < fewest run.length chunkSize := Nat.succ_pos _
  unfold chunkSlices
  dsimp only
  rw [chunkCount_eq hpos]
  refine ⟨flatten_even hk run, fun c hc => ?_, fun c hc => ?_, fun c hc d hd => ?_, fun other hflat hother => ?_⟩
  · exact length_pos_iff.mp (Nat.lt_of_lt_of_le hlow (length_even hk hc).1)
  · exact Nat.le_trans (length_even hk hc).2 hhigh
  · exact length_even_le_succ hk hc hd
  · rw [length_pieces, ← hflat]
    exact fewest_le hsize (by rwa [hflat]) hother

lemma CutEvenly.part {before group after : List (List Int)} (h : CutEvenly chunkSize run (before ++ group ++ after)) :
    CutEvenly chunkSize group.flatten group := by
  have hmem : ∀ c ∈ group, c ∈ before ++ group ++ after := fun c hc => by simp [hc]
  refine ⟨rfl, fun c hc => h.nonempty c (hmem c hc), fun c hc => h.bounded c (hmem c hc),
    fun c hc d hd => h.even c (hmem c hc) d (hmem d hd), fun other hflat hother => ?_⟩
  have hbound := h.bounded
  simp only [forall_mem_append] at hbound
  have hless := h.fewest (before ++ other ++ after) (by rw [← h.flatten]; simp [hflat])
    (forall_mem_append.mpr ⟨forall_mem_append.mpr ⟨hbound.1.1, hother⟩, hbound.2⟩)
  simp only [length_append] at hless
  omega

/-! ## Runs of consecutive integers -/

def Consecutive (vals : List Int) : Prop := vals.IsChain fun a b => b = a + 1

def Gap (run next : List Int) : Prop := ∀ a ∈ run.getLast?, ∀ b ∈ next.head?, b ≠ a + 1

structure MaximalRuns (vals : List Int) (runs : List (List Int)) : Prop where
  flatten : runs.flatten = vals
  nonempty : ∀ run ∈ runs, run ≠ []
  consecutive : ∀ run ∈ runs, Consecutive run
  maximal : runs.IsChain Gap

lemma wrap_succ_iff {v w : Int} (hv : IsInt v) (hw : IsInt w) (h : ¬ (v = maxInt ∧ w = minInt)) :
    w = wrap (v + 1) ↔ w = v + 1 := by
  simp only [IsInt, minInt, maxInt] at *
  by_cases htop : v = 2 ^ 63 - 1
  · rw [wrap_of_over (by simp only [maxInt]; omega) (by simp only [maxInt]; omega)]
    omega
  · rw [wrap_of_isInt]
    simp only [IsInt, minInt, maxInt]
    omega

lemma consecutiveRuns_chain (vals : List Int) :
    ∀ run ∈ consecutiveRuns vals, run.IsChain fun a b => b = wrap (a + 1) := by
  induction vals with
  | nil => exact nofun
  | cons v vals ih =>
    rw [consecutiveRuns]
    split
    · rename_i w run runs heq
      rw [heq] at ih
      obtain ⟨hrun, hruns⟩ := forall_mem_cons.mp ih
      split
      · rename_i hw
        exact forall_mem_cons.mpr ⟨isChain_cons_cons.mpr ⟨hw, hrun⟩, hruns⟩
      · exact forall_mem_cons.mpr ⟨.singleton v, ih⟩
    · exact forall_mem_cons.mpr ⟨.singleton v, ih⟩

lemma consecutiveRuns_gap {vals : List Int} (hint : ∀ v ∈ vals, IsInt v) : (consecutiveRuns vals).IsChain Gap := by
  induction vals with
  | nil => exact .nil
  | cons v vals ih =>
    obtain ⟨hv, hvals⟩ := forall_mem_cons.mp hint
    have hmax := ih hvals
    have hflat := (runs_flatten vals).1
    rw [consecutiveRuns]
    split
    · rename_i w run runs heq
      rw [heq] at hflat hmax
      have hw : IsInt w := hvals w (by rw [← hflat]; simp)
      split
      · cases runs with
        | nil => exact .singleton _
        | cons next runs =>
          obtain ⟨hlast, hrest⟩ := isChain_cons_cons.mp hmax
          exact isChain_cons_cons.mpr ⟨by simpa [Gap] using hlast, hrest⟩
      · rename_i hne
        refine isChain_cons_cons.mpr ⟨?_, hmax⟩
        intro a ha b hb e
        cases ha
        cases hb
        have e : w = v + 1 := e
        exact hne (by rw [← e, wrap_of_isInt hw])
    · rename_i hruns
      cases hc : consecutiveRuns vals with
      | nil => exact .singleton _
      | cons run runs =>
        cases run with
        | nil => exact absurd rfl ((runs_flatten vals).2 [] (by simp [hc]))
        | cons w run => exact absurd hc (hruns w run runs)

/-- Consecutive chunks, put together wherever the next one goes on. -/
lemma exists_groups {chunks : List (List Int)} (hne : ∀ c ∈ chunks, c ≠ []) (hcons : ∀ c ∈ chunks, Consecutive c) :
    ∃ groups : List (List (List Int)), groups.flatten = chunks ∧
      (∀ g ∈ groups, g.flatten ≠ [] ∧ Consecutive g.flatten) ∧ (groups.map List.flatten).IsChain Gap := by
  induction chunks with
  | nil => exact ⟨[], rfl, nofun, .nil⟩
  | cons c chunks ih =>
    obtain ⟨hc, hne⟩ := forall_mem_cons.mp hne
    obtain ⟨hcc, hcons⟩ := forall_mem_cons.mp hcons
    obtain ⟨groups, hflat, hgroups, hchain⟩ := ih hne hcons
    cases groups with
    | nil => exact ⟨[[c]], by simp [← hflat], by simpa using ⟨hc, hcc⟩, .singleton _⟩
    | cons g groups =>
      obtain ⟨⟨hg, hgc⟩, hgroups⟩ := forall_mem_cons.mp hgroups
      obtain ⟨b, rest, hb⟩ := exists_cons_of_ne_nil hg
      by_cases hnext : Gap c g.flatten
      · refine ⟨[c] :: g :: groups, by simp [← hflat], ?_, isChain_cons_cons.mpr ⟨by simpa using hnext, hchain⟩⟩
        exact forall_mem_cons.mpr ⟨by simpa using ⟨hc, hcc⟩, forall_mem_cons.mpr ⟨⟨hg, hgc⟩, hgroups⟩⟩
      · refine ⟨(c :: g) :: groups, by simp [← hflat], forall_mem_cons.mpr ⟨⟨by simp [hc], ?_⟩, hgroups⟩, ?_⟩
        · simp only [Gap, not_forall, not_not] at hnext
          obtain ⟨a, ha, b, hb, e⟩ := hnext
          refine isChain_append.mpr ⟨hcc, hgc, fun x hx y hy => ?_⟩
          obtain rfl := Option.mem_unique ha hx
          obtain rfl := Option.mem_unique hb hy
          exact e
        · cases groups with
          | nil => exact .singleton _
          | cons next groups =>
            obtain ⟨hlast, hrest⟩ := isChain_cons_cons.mp hchain
            refine isChain_cons_cons.mpr ⟨fun a ha => hlast a ?_, hrest⟩
            rwa [flatten_cons, getLast?_append_of_ne_nil _ hg] at ha

lemma exists_maximalRuns {cuts : List (List (List Int))} (hcuts : Forall₂ (CutEvenly chunkSize) runs cuts)
    (hne : ∀ run ∈ runs, run ≠ []) (hgap : runs.IsChain Gap) (hcons : ∀ c ∈ cuts.flatten, Consecutive c) :
    ∃ runs' cuts', MaximalRuns runs.flatten runs' ∧ Forall₂ (CutEvenly chunkSize) runs' cuts' ∧
      cuts.flatten = cuts'.flatten := by
  induction hcuts with
  | nil => exact ⟨[], [], ⟨rfl, nofun, nofun, .nil⟩, .nil, rfl⟩
  | @cons run chunks runs cuts hcut hrest ih =>
    obtain ⟨hrun, hne⟩ := forall_mem_cons.mp hne
    rw [flatten_cons, forall_mem_append] at hcons
    obtain ⟨runs', cuts', hmax, heven, hflat⟩ := ih hne hgap.tail hcons.2
    obtain ⟨groups, hgroups, hall, hchain⟩ := exists_groups hcut.nonempty hcons.1
    have hjoin : (groups.map List.flatten).flatten = run := by rw [← flatten_flatten, hgroups, hcut.flatten]
    refine ⟨groups.map List.flatten ++ runs', groups ++ cuts', ⟨?_, ?_, ?_, ?_⟩, ?_, ?_⟩
    · rw [flatten_append, hjoin, hmax.flatten, flatten_cons]
    · exact forall_mem_append.mpr ⟨forall_mem_map.mpr fun g hg => (hall g hg).1, hmax.nonempty⟩
    · exact forall_mem_append.mpr ⟨forall_mem_map.mpr fun g hg => (hall g hg).2, hmax.consecutive⟩
    · refine isChain_append.mpr ⟨hchain, hmax.maximal, fun x hx y hy a ha b hb => ?_⟩
      -- the last group ends where the run ends, and the next one begins with the next run
      have hlast : a ∈ run.getLast? := by
        obtain ⟨init, e⟩ := getLast?_eq_some_iff.mp hx
        have hxne : x ≠ [] := by
          rintro rfl
          cases ha
        rw [← hjoin, e, flatten_append, flatten_singleton, getLast?_append_of_ne_nil _ hxne]
        exact ha
      have hfirst : b ∈ runs.flatten.head? := by
        obtain ⟨tail, e⟩ := head?_eq_some_iff.mp hy
        rw [← hmax.flatten, e, flatten_cons, head?_append, hb]
        rfl
      cases runs with
      | nil => cases hfirst
      | cons next runs =>
        obtain ⟨c, cs, e⟩ := exists_cons_of_ne_nil (hne next mem_cons_self)
        refine (isChain_cons_cons.mp hgap).1 a hlast b ?_
        rw [flatten_cons, e, cons_append, head?_cons] at hfirst
        rwa [e, head?_cons]
    · refine rel_append ?_ heven
      rw [forall₂_map_left_iff, forall₂_same]
      intro g hg
      obtain ⟨before, after, e⟩ := append_of_mem hg
      have hpart : CutEvenly chunkSize run (before.flatten ++ g ++ after.flatten) := by
        rw [e, flatten_append, flatten_cons, ← append_assoc] at hgroups
        exact hgroups ▸ hcut
      exact hpart.part
    · rw [flatten_cons, flatten_append, hgroups, hflat]

/-! ## Where a run wraps -/

/-- Where the least integer follows the largest one in a run, the run is cut between them. -/
def WrapsAtCuts (chunkSize : Nat) (run : List Int) : Prop :=
  ∀ p, run[p]? = some maxInt → run[p + 1]? = some minInt →
    ∃ j, evenBound run.length (fewest run.length chunkSize) j = p + 1

lemma consecutive_chunkSlices_iff (hne : run ≠ []) (hint : ∀ v ∈ run, IsInt v)
    (hchain : run.IsChain fun a b => b = wrap (a + 1)) :
    (∀ c ∈ chunkSlices chunkSize run, Consecutive c) ↔ WrapsAtCuts chunkSize run := by
  have hk : 0 < fewest run.length chunkSize := Nat.succ_pos _
  have hmono := monotone_nat_of_le_succ fun i => evenBound_mono (n := run.length) hk i
  unfold chunkSlices
  dsimp only
  rw [chunkCount_eq (length_pos_iff.mpr hne)]
  refine (isChain_pieces_iff (evenBound_zero hk) hmono (evenBound_last hk)).trans ⟨?_, ?_⟩
  · intro hsucc p ha hb
    by_contra hcut
    exact absurd (hsucc p _ _ ha hb hcut) (by decide)
  · intro hwraps p a b ha hb hcut
    have hstep : b = wrap (a + 1) := by
      obtain ⟨-, rfl⟩ := List.getElem?_eq_some_iff.mp ha
      obtain ⟨hp, rfl⟩ := List.getElem?_eq_some_iff.mp hb
      exact isChain_iff_getElem.mp hchain p hp
    refine (wrap_succ_iff (hint a (mem_of_getElem? ha)) (hint b (mem_of_getElem? hb)) ?_).mp hstep
    rintro ⟨rfl, rfl⟩
    exact hcut (hwraps p ha hb)

/-! ## All values -/

lemma mapM_cutRun (h : ∀ run ∈ runs, run ≠ [] ∧ CutsFit chunkSize run) :
    runs.mapM (cutRun chunkSize) = some (runs.map (chunkSlices chunkSize)) := by
  induction runs with
  | nil => rfl
  | cons run runs ih =>
    obtain ⟨⟨hne, hfit⟩, hrest⟩ := forall_mem_cons.mp h
    rw [mapM_cons, cutRun_eq hne hfit, ih hrest]
    rfl

lemma cutsFit_of_mapM {cuts : List (List (List Int))} (hcuts : runs.mapM (cutRun chunkSize) = some cuts)
    (hne : ∀ run ∈ runs, run ≠ [] ∧ (run.length : Int) ≤ maxInt) (hall : ∀ c ∈ cuts.flatten, c ≠ []) :
    ∀ run ∈ runs, CutsFit chunkSize run := by
  induction runs generalizing cuts with
  | nil => exact nofun
  | cons run runs ih =>
    obtain ⟨⟨hrun, hlen⟩, hne⟩ := forall_mem_cons.mp hne
    rw [mapM_cons] at hcuts
    obtain ⟨chunks, hchunks, h⟩ := Option.bind_eq_some_iff.mp hcuts
    obtain ⟨rest, hrest, h⟩ := Option.bind_eq_some_iff.mp h
    cases h
    rw [flatten_cons, forall_mem_append] at hall
    exact forall_mem_cons.mpr ⟨cutsFit_of_cutRun hrun hlen hchunks hall.1, ih hrest hne hall.2⟩

lemma flatten_cuts {cuts : List (List (List Int))}
    (h : Forall₂ (CutEvenly chunkSize) runs cuts) : cuts.flatten.flatten = runs.flatten := by
  induction h with
  | nil => rfl
  | cons hcut _ ih => rw [flatten_cons, flatten_append, ih, hcut.flatten, flatten_cons]

def valueRuns (all : List Int) (contiguous : Bool) : List (List Int) :=
  if contiguous then consecutiveRuns all else [all]

lemma flatten_valueRuns (all : List Int) (contiguous : Bool) : (valueRuns all contiguous).flatten = all := by
  unfold valueRuns
  split
  · exact (runs_flatten all).1
  · simp

lemma cutValues_eq {all : List Int} (hsize : 1 ≤ chunkSize) {contiguous : Bool}
    (hruns : valueRuns all contiguous = runs) (hne : ∀ run ∈ runs, run ≠ [])
    (hfit : ∀ run ∈ runs, CutsFit chunkSize run) :
    Forall₂ (CutEvenly chunkSize) runs (runs.map (chunkSlices chunkSize)) ∧
      cutValues all chunkSize contiguous = some (runs.map (chunkSlices chunkSize)).flatten ∧
      chunkValues all chunkSize contiguous =
        (runs.map (chunkSlices chunkSize)).flatten.map (chunkFormat contiguous) := by
  unfold valueRuns at hruns
  refine ⟨?_, ?_, ?_⟩
  · rw [forall₂_map_right_iff, forall₂_same]
    exact fun run hrun => cutEvenly_chunkSlices hsize (hne run hrun)
  · unfold cutValues
    rw [hruns]
    dsimp only
    rw [mapM_cutRun fun run hrun => ⟨hne run hrun, hfit run hrun⟩]
    rfl
  · rw [map_flatten, map_map, ← flatMap_def]
    unfold chunkValues chunkFormat
    cases contiguous with
    | true =>
      rw [if_pos rfl] at hruns ⊢
      rw [hruns]
      rfl
    | false =>
      rw [if_neg (by decide)] at hruns ⊢
      rw [hruns]
      rfl

/-- Chunking partitions the values in order, contiguous chunks along runs and evenly, exactly if there is a
value (or the size is 1), the products of its loop fit and each run that wraps is cut where it wraps. -/
theorem chunks_partition {all : List Int} (hint : ∀ v ∈ all, IsInt v) (hlen : (all.length : Int) ≤ maxInt)
    {chunkSize : Nat} (hsize : 1 ≤ chunkSize) (contiguous : Bool) :
    (∃ chunks, cutValues all chunkSize contiguous = some chunks ∧
      chunkValues all chunkSize contiguous = chunks.map (chunkFormat contiguous) ∧
      (∀ c ∈ chunks, c ≠ [] ∧ c.length ≤ chunkSize) ∧ chunks.flatten = all ∧
      (contiguous = true → (∀ c ∈ chunks, Consecutive c) ∧
        ∃ runs cuts, MaximalRuns all runs ∧ Forall₂ (CutEvenly chunkSize) runs cuts ∧
          chunks = cuts.flatten)) ↔
    (contiguous = false → all ≠ [] ∨ chunkSize = 1) ∧
      (∀ run ∈ valueRuns all contiguous, run ≠ [] → CutsFit chunkSize run) ∧
      (contiguous = true → ∀ run ∈ valueRuns all contiguous, WrapsAtCuts chunkSize run) := by
  by_cases hempty : contiguous = false ∧ all = []
  · -- no value: one empty chunk, or none if the size is 1
    obtain ⟨rfl, rfl⟩ := hempty
    by_cases hone : chunkSize = 1
    · subst hone
      exact iff_of_true ⟨[], by decide, by decide, nofun, rfl, nofun⟩
        ⟨fun _ => .inr rfl, by simp [valueRuns], nofun⟩
    · refine iff_of_false ?_ fun h => (h.1 rfl).elim (fun h => h rfl) hone
      rintro ⟨chunks, hcut, -, hall, -⟩
      have hcount : chunkCount 0 chunkSize = 1 := by
        have hquot : ((0 : Nat) - 1 : Int).tdiv chunkSize = 0 := by
          rw [show ((0 : Nat) - 1 : Int) = -1 by rfl, Int.neg_tdiv, Int.tdiv_eq_zero_of_lt (by decide) (by omega)]
          rfl
        rw [chunkCount, hquot]
        rfl
      have hchunks : cutValues [] chunkSize false = some [[]] := by
        simp [cutValues, cutRun, hcount, cutRounds]
        decide
      obtain rfl := Option.some.inj (hchunks.symm.trans hcut)
      exact (hall [] mem_cons_self).1 rfl
  have hvalue : contiguous = false → all ≠ [] := fun h e => hempty ⟨h, e⟩
  obtain ⟨runs, hruns⟩ : ∃ runs, valueRuns all contiguous = runs := ⟨_, rfl⟩
  have hflat : runs.flatten = all := hruns ▸ flatten_valueRuns all contiguous
  have hne : ∀ run ∈ runs, run ≠ [] := by
    rw [← hruns, valueRuns]
    split
    · exact (runs_flatten all).2
    · rename_i h
      simpa using hvalue (by simpa using h)
  have hpart : ∀ run ∈ runs, run <:+: all := fun run hrun => hflat ▸ infix_of_mem_flatten hrun
  rw [hruns]
  have hwraps : contiguous = true → ∀ run ∈ runs, ((∀ c ∈ chunkSlices chunkSize run, Consecutive c) ↔
      WrapsAtCuts chunkSize run) := fun h run hrun => by
    refine consecutive_chunkSlices_iff (hne run hrun) (fun v hv => hint v ((hpart run hrun).subset hv)) ?_
    rw [valueRuns, if_pos h] at hruns
    exact consecutiveRuns_chain all run (hruns ▸ hrun)
  constructor
  · rintro ⟨chunks, hcut, -, hall, -, hcontig⟩
    have hfit : ∀ run ∈ runs, CutsFit chunkSize run := by
      unfold cutValues at hcut
      obtain ⟨cuts, hcuts, rfl⟩ := Option.map_eq_some_iff.mp hcut
      refine cutsFit_of_mapM (hruns ▸ hcuts) (fun run hrun => ⟨hne run hrun, ?_⟩) fun c hc => (hall c hc).1
      have := (hpart run hrun).length_le
      omega
    obtain ⟨-, hcut', -⟩ := cutValues_eq hsize hruns hne hfit
    obtain rfl := Option.some.inj (hcut'.symm.trans hcut)
    refine ⟨fun h => .inl (hvalue h), fun run hrun _ => hfit run hrun, fun h run hrun => ?_⟩
    refine (hwraps h run hrun).mp fun c hc => (hcontig h).1 c ?_
    exact mem_flatten.mpr ⟨_, mem_map_of_mem hrun, hc⟩
  · rintro ⟨-, hfit, hcut⟩
    obtain ⟨hcuts, hchunks, hvalues⟩ := cutValues_eq hsize hruns hne fun run hrun => hfit run hrun (hne run hrun)
    have hpiece : ∀ c ∈ (runs.map (chunkSlices chunkSize)).flatten, ∃ run ∈ runs, c ∈ chunkSlices chunkSize run := by
      intro c hc
      obtain ⟨pieces, hpieces, hc⟩ := mem_flatten.mp hc
      obtain ⟨run, hrun, rfl⟩ := mem_map.mp hpieces
      exact ⟨run, hrun, hc⟩
    refine ⟨_, hchunks, hvalues, fun c hc => ?_, (flatten_cuts hcuts).trans hflat, fun hcontig => ?_⟩
    · obtain ⟨run, hrun, hc⟩ := hpiece c hc
      have heven := cutEvenly_chunkSlices hsize (hne run hrun)
      exact ⟨heven.nonempty c hc, heven.bounded c hc⟩
    have hcons : ∀ c ∈ (runs.map (chunkSlices chunkSize)).flatten, Consecutive c := fun c hc => by
      obtain ⟨run, hrun, hc⟩ := hpiece c hc
      exact (hwraps hcontig run hrun).mpr (hcut hcontig run hrun) c hc
    have hgap : runs.IsChain Gap := by
      rw [← hruns, valueRuns, if_pos hcontig]
      exact consecutiveRuns_gap hint
    obtain ⟨runs', cuts', hmax, heven, e⟩ := exists_maximalRuns hcuts hne hgap hcons
    exact ⟨hcons, runs', cuts', hflat ▸ hmax, heven, e⟩

def shots : List Int := [1, 2, 3, 4, 5, 6, 7, 20]

theorem chunks_partition_frames :
    ∃ chunks, cutValues shots 3 true = some chunks ∧ chunks.flatten = shots ∧
      chunkValues shots 3 true = ["1-3", "4-5", "6-7", "20-20"] := by
  have hwraps : ∀ run ∈ valueRuns shots true, WrapsAtCuts 3 run := by
    intro run hrun p hp
    have hmax : ∀ run ∈ valueRuns shots true, maxInt ∉ run := by decide
    exact absurd (mem_of_getElem? hp) (hmax run hrun)
  obtain ⟨chunks, hcut, -, -, hflat, -⟩ := (chunks_partition (show ∀ v ∈ shots, IsInt v by decide)
    (by decide) (show 1 ≤ 3 by decide) true).mpr ⟨nofun, by decide, fun _ => hwraps⟩
  exact ⟨chunks, hcut, hflat, by decide +kernel⟩

/-- The successor of the largest integer wraps to the least one, so the two are taken
for a run of consecutive integers and put into one chunk. -/
theorem wrapped_run_in_one_chunk :
    [maxInt, minInt].Nodup ∧ cutValues [maxInt, minInt] 2 true = some [[maxInt, minInt]] ∧
      chunkValues [maxInt, minInt] 2 true = ["9223372036854775807--9223372036854775808"] ∧
      ¬ Consecutive [maxInt, minInt] := by
  refine ⟨by decide, by decide +kernel, by decide +kernel, ?_⟩
  unfold Consecutive
  decide

end Sqi

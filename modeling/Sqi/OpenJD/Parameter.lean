import Sqi.Lib.Cuts
import Sqi.Lib.Program
import Sqi.OpenJD.Range

/-! The values of one task parameter (`expand.go`): `expandTaskParam` turns a definition into the strings its
tasks take, one per task. -/

namespace Sqi
open List Word GoText Program

inductive TaskParamType where
  | int
  | float
  | string
  | path
  | chunkInt
  | unknown (text : String)
deriving DecidableEq

structure TaskChunks where
  defaultTaskCount : Int
  defaultTaskCountExpr : Option String
  rangeConstraint : String
deriving DecidableEq

structure TaskParamDefinition where
  name : String
  type : TaskParamType
  rangeExpr : Option String
  rangeList : List String
  chunks : Option TaskChunks
deriving DecidableEq

inductive TaskParamError where
  | rangeExpr (expr : String) (err : RangeError)
  | emptyRangeList
  | invalidInteger (text : String)
  | invalidListInteger (text : String)
  | invalidFloat (text : String)
  | noValues
  | unresolvedTaskCount (expr : String)
  | unknownType (text : String)
deriving DecidableEq

def itoa (n : Int) : String := toString n
def expandRangeExpr (expr : String) : Except TaskParamError (List Int) :=
  match parseIntRangeExpr expr.toList with
  | .error e => .error (.rangeExpr expr e)
  | .ok ints => .ok ints

def validateIntList (items : List String) : Except TaskParamError (List String) :=
  if items = [] then .error .emptyRangeList
  else
    items.mapM fun s =>
      match atoi (trimSpace s.toList) with
      | none => .error (.invalidInteger s)
      | some n => .ok (itoa n)

def validateFloatList (canonicalFloat : Text → Option String) (items : List String) :
    Except TaskParamError (List String) :=
  if items = [] then .error .emptyRangeList
  else
    items.mapM fun s =>
      match canonicalFloat (trimSpace s.toList) with
      | none => .error (.invalidFloat s)
      | some f => .ok f

def consecutiveRuns : List Int → List (List Int)
  | [] => []
  | v :: vals =>
    match consecutiveRuns vals with
    | (w :: run) :: runs => if w = wrap (v + 1) then (v :: w :: run) :: runs else [v] :: (w :: run) :: runs
    | runs => [v] :: runs

def formatContiguousChunk (vals : List Int) : String :=
  itoa (vals.headD 0) ++ "-" ++ itoa (vals.getLastD 0)

def steppedRun (step v : Int) : List Int → Int × Nat × List Int
  | [] => (v, 0, [])
  | w :: vals =>
    if wrap (w - v) = step then
      let (last, n, rest) := steppedRun step w vals
      (last, n + 1, rest)
    else (v, 0, w :: vals)

def noncontiguousParts : Nat → List Int → List String
  | 0, _ => []
  | _, [] => []
  | _, [v] => [itoa v]
  | n + 1, v :: w :: vals =>
    let step := wrap (w - v)
    if step ≤ 0 then itoa v :: noncontiguousParts n (w :: vals)
    else
      let (last, more, rest) := steppedRun step w vals
      if more = 0 then itoa v :: itoa w :: noncontiguousParts n vals
      else if step = 1 then (itoa v ++ "-" ++ itoa last) :: noncontiguousParts n rest
      else (itoa v ++ "-" ++ itoa last ++ ":" ++ itoa step) :: noncontiguousParts n rest

def formatNoncontiguousChunk (vals : List Int) : String :=
  ",".intercalate (noncontiguousParts vals.length vals)
def chunkCount (n chunkSize : Nat) : Nat := (((n : Int) - 1).tdiv chunkSize + 1).toNat
def chunkSlices (chunkSize : Nat) (run : List Int) : List (List Int) :=
  let n := run.length
  let k := chunkCount n chunkSize
  Cuts.pieces (Cuts.evenBound n k) k run

def chunkRun (chunkSize : Nat) (format : List Int → String) (run : List Int) : List String :=
  (chunkSlices chunkSize run).map format
def chunkValues (all : List Int) (chunkSize : Nat) (contiguous : Bool) : List String :=
  if contiguous then (consecutiveRuns all).flatMap (chunkRun chunkSize formatContiguousChunk)
  else [all].flatMap (chunkRun chunkSize formatNoncontiguousChunk)

def chunkIntegers (tp : TaskParamDefinition) : Except TaskParamError (List Int) :=
  match tp.rangeExpr with
  | some expr => expandRangeExpr expr
  | none =>
    tp.rangeList.mapM fun s =>
      match atoi (trimSpace s.toList) with
      | none => .error (.invalidListInteger s)
      | some n => .ok n

def expandChunkInt (tp : TaskParamDefinition) : Except TaskParamError (List String) :=
  match tp.chunks.bind (·.defaultTaskCountExpr) with
  | some expr => .error (.unresolvedTaskCount expr)
  | none => do
    let all ← chunkIntegers tp
    if all = [] then .error .noValues
    else
      match tp.chunks with
      | none => return chunkValues all 1 true
      | some c =>
        let chunkSize := if 0 < c.defaultTaskCount then c.defaultTaskCount.toNat else 1
        return chunkValues all chunkSize (c.rangeConstraint ≠ "NONCONTIGUOUS")

def expandTaskParam (canonicalFloat : Text → Option String) (tp : TaskParamDefinition) :
    Except TaskParamError (List String) :=
  match tp.type with
  | .int =>
    match tp.rangeExpr with
    | some expr => (expandRangeExpr expr).map fun ints => ints.map itoa
    | none => validateIntList tp.rangeList
  | .chunkInt => expandChunkInt tp
  | .float => validateFloatList canonicalFloat tp.rangeList
  | .string | .path => if tp.rangeList = [] then .error .emptyRangeList else .ok tp.rangeList
  | .unknown text => .error (.unknownType text)

/-! ## Every parameter has a value -/

lemma mapM_ok_ne_nil {α β ε : Type} {f : α → Except ε β} {as : List α} {bs : List β}
    (h : as.mapM f = .ok bs) (hne : as ≠ []) : bs ≠ [] := by
  cases as with
  | nil => exact absurd rfl hne
  | cons a as =>
    rw [mapM_cons] at h
    simp only [bind, Except.bind, pure, Except.pure] at h
    split at h
    · cases h
    split at h
    · cases h
    · cases h
      simp

lemma runs_flatten (vals : List Int) :
    (consecutiveRuns vals).flatten = vals ∧ ∀ run ∈ consecutiveRuns vals, run ≠ [] := by
  induction vals with
  | nil => exact ⟨rfl, nofun⟩
  | cons v vals ih =>
    obtain ⟨hflat, hne⟩ := ih
    rw [consecutiveRuns]
    split
    · rename_i w run runs heq
      rw [heq] at hflat hne
      have hflat' : w :: run ++ runs.flatten = vals := by simpa using hflat
      split
      · exact ⟨by simp [← hflat'], forall_mem_cons.mpr ⟨by simp, fun r hr => hne r (mem_cons_of_mem _ hr)⟩⟩
      · exact ⟨by simp [← hflat'], forall_mem_cons.mpr ⟨by simp, hne⟩⟩
    · exact ⟨by simp [hflat], forall_mem_cons.mpr ⟨by simp, hne⟩⟩

lemma chunkCount_eq {n : Nat} (hn : 0 < n) (chunkSize : Nat) : chunkCount n chunkSize = Cuts.fewest n chunkSize := by
  have hsub : ((n : Int) - 1) = ((n - 1 : Nat) : Int) := by omega
  have hquot : ((n - 1 : Nat) : Int).tdiv chunkSize = ((n - 1) / chunkSize : Nat) := rfl
  unfold chunkCount Cuts.fewest
  rw [hsub, hquot, ← Nat.cast_succ, Int.toNat_natCast]

lemma chunkRun_ne_nil (chunkSize : Nat) (format : List Int → String) {run : List Int} (h : run ≠ []) :
    chunkRun chunkSize format run ≠ [] := by
  have hlen : (chunkRun chunkSize format run).length = Cuts.fewest run.length chunkSize := by
    simp [chunkRun, chunkSlices, chunkCount_eq (length_pos_iff.mpr h)]
  intro hnil
  rw [hnil] at hlen
  cases hlen

lemma chunkValues_ne_nil {all : List Int} (h : all ≠ []) (chunkSize : Nat) (contiguous : Bool) :
    chunkValues all chunkSize contiguous ≠ [] := by
  have flat : ∀ (runs : List (List Int)) (format : List Int → String), runs.flatten = all → (∀ run ∈ runs, run ≠ []) →
      runs.flatMap (chunkRun chunkSize format) ≠ [] := by
    intro runs format hflat hne
    cases runs with
    | nil => exact absurd hflat.symm h
    | cons run runs => simp [chunkRun_ne_nil chunkSize format (hne run mem_cons_self)]
  unfold chunkValues
  split
  · exact flat _ _ (runs_flatten all).1 (runs_flatten all).2
  · exact flat _ _ (by simp) (by simpa using h)

lemma expandRangeExpr_ne_nil {expr : String} {ints : List Int} (h : expandRangeExpr expr = .ok ints) :
    ints ≠ [] := by
  unfold expandRangeExpr at h
  split at h
  · cases h
  · rename_i hp
    cases h
    exact parseIntRangeExpr_ne_nil hp

variable {tp : TaskParamDefinition} {vals : List String} {canonicalFloat : Text → Option String}

lemma expandChunkInt_ne_nil (h : expandChunkInt tp = .ok vals) : vals ≠ [] := by
  unfold expandChunkInt at h
  split at h
  · cases h
  simp only [bind, Except.bind] at h
  split at h
  · cases h
  split at h
  · cases h
  rename_i hne
  split at h <;> (cases h; exact chunkValues_ne_nil hne _ _)

lemma expandTaskParam_ne_nil (h : expandTaskParam canonicalFloat tp = .ok vals) : vals ≠ [] := by
  have list : ∀ {f : String → Except TaskParamError String},
      (if tp.rangeList = [] then .error .emptyRangeList else tp.rangeList.mapM f) = .ok vals → vals ≠ [] := by
    intro f h
    split at h
    · cases h
    · exact mapM_ok_ne_nil h ‹_›
  unfold expandTaskParam at h
  split at h
  · split at h
    · rename_i expr _
      cases hx : expandRangeExpr expr with
      | error e =>
        rw [hx] at h
        cases h
      | ok ints =>
        rw [hx] at h
        cases h
        simpa using expandRangeExpr_ne_nil hx
    · exact list h
  · exact expandChunkInt_ne_nil h
  · exact list h
  · split at h
    · cases h
    · cases h
      assumption
  · split at h
    · cases h
    · cases h
      assumption
  · cases h

end Sqi

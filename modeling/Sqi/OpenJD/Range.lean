import Sqi.Lib.Text

/-! Integer range expressions, `1,3,7-10:2` (package `intrange`), and the stricter reading task parameters
give them (`range.go`). -/

namespace Sqi
open Word GoText

structure IntRange where
  start : Int
  stop : Int
  step : Int
deriving DecidableEq

structure RangePolicy where
  positiveStepOnly : Bool := false
  ascendingOnly : Bool := false

inductive RangeError where
  | empty
  | emptyValue
  | invalidInteger (text : Text)
  | invalidRangeStart (text : Text)
  | invalidRangeEnd (text : Text)
  | invalidStep (text : Text) (positive : Bool)
  | stepWithoutRange (step : Text)
  | startAfterEnd (start stop : Int)
  | tooManyValues
  | noValues
deriving DecidableEq

namespace IntRange

def stride (r : IntRange) : Int := if r.step = 0 then 1 else r.step

def count (r : IntRange) : Int :=
  let span := wrap (r.stop - r.start)
  if (0 < span ∧ r.stop < r.start) ∨ (span < 0 ∧ r.start < r.stop) then maxInt
  else if decide (0 < span) ≠ decide (0 < r.stride) then 1
  else if span = minInt ∧ r.stride = -1 then maxInt
  else
    let count := span.tdiv r.stride
    if count = maxInt then maxInt else count + 1

def iterateUp (r : IntRange) : Nat → Int → List Int
  | 0, _ => []
  | n + 1, v =>
    if v ≤ r.stop ∨ v = r.start then
      v :: if maxInt - r.stride < v then [] else iterateUp r n (v + r.stride)
    else []

def iterateDown (r : IntRange) : Nat → Int → List Int
  | 0, _ => []
  | n + 1, v =>
    if r.stop ≤ v ∨ v = r.start then
      v :: if v < minInt - r.stride then [] else iterateDown r n (v + r.stride)
    else []

def iterate (r : IntRange) : List Int :=
  if r.count = maxInt then []
  else if 0 < r.stride then r.iterateUp r.count.toNat r.start
  else r.iterateDown r.count.toNat r.start

end IntRange

inductive RangeBounds where
  | single (n : Int)
  | range (start stop : Int)

def splitRange (s : Text) : Except RangeError RangeBounds :=
  match trimSpace s with
  | [] => .error .emptyValue
  | c :: cs =>
    match cs.span (· ≠ '-') with
    | (_, []) =>
      match atoi (c :: cs) with
      | none => .error (.invalidInteger (c :: cs))
      | some n => .ok (.single n)
    | (before, _ :: after) =>
      match atoi (trimSpace (c :: before)) with
      | none => .error (.invalidRangeStart (c :: before))
      | some start =>
        match atoi (trimSpace after) with
        | none => .error (.invalidRangeEnd after)
        | some stop => .ok (.range start stop)

def parseStep (p : RangePolicy) (stepText : Text) : Except RangeError Int :=
  if stepText = [] then .ok 1
  else
    match atoi (trimSpace stepText) with
    | none => .error (.invalidStep stepText p.positiveStepOnly)
    | some step =>
      if step = 0 then .error (.invalidStep stepText p.positiveStepOnly)
      else if p.positiveStepOnly ∧ step < 0 then .error (.invalidStep stepText true)
      else .ok step

def parseRangeElement (p : RangePolicy) (s : Text) : Except RangeError IntRange := do
  let (s, stepText) := (cutLast ':' s).getD (s, [])
  match ← splitRange s with
  | .single n => if stepText = [] then .ok ⟨n, n, 1⟩ else .error (.stepWithoutRange stepText)
  | .range start stop =>
    let step ← parseStep p stepText
    if p.ascendingOnly ∧ stop < start then .error (.startAfterEnd start stop)
    else .ok ⟨start, stop, step⟩

def parseRangeParts (p : RangePolicy) : List Text → Except RangeError (List IntRange)
  | [] => .ok []
  | part :: parts =>
    if trimSpace part = [] then parseRangeParts p parts
    else do
      let r ← parseRangeElement p (trimSpace part)
      let rs ← parseRangeParts p parts
      return r :: rs

def parseWithPolicy (p : RangePolicy) (s : Text) : Except RangeError (List IntRange) :=
  if trimSpace s = [] then .error .empty
  else do
    let ranges ← parseRangeParts p (s.splitOn ',')
    if ranges = [] then .error .empty else return ranges

/-! ## Task parameter ranges -/

def maxRangeValues : Int := 10000000
def openjdRangePolicy : RangePolicy := ⟨true, true⟩

def parseIntRangeElements (expr : Text) : Except RangeError (List IntRange) :=
  if trimSpace expr = [] then .error .empty
  else
    match parseWithPolicy openjdRangePolicy expr with
    | .error .empty => .ok []
    | r => r

def sumRangeCounts (total : Int) : List IntRange → Option Int
  | [] => some total
  | r :: rs =>
    if maxRangeValues < r.count then none
    else if maxRangeValues < total + r.count then none
    else sumRangeCounts (total + r.count) rs

def appendNew (seen values : List Int) : List Int :=
  values.foldl (fun out v => if v ∈ out then out else out ++ [v]) seen

def parseIntRangeExpr (expr : Text) : Except RangeError (List Int) := do
  let ranges ← parseIntRangeElements expr
  match sumRangeCounts 0 ranges with
  | none => .error .tooManyValues
  | some _ =>
    let result := ranges.foldl (fun out r => appendNew out r.iterate) []
    if result = [] then .error .noValues else return result

lemma parseIntRangeExpr_ne_nil {expr : Text} {ints : List Int} (h : parseIntRangeExpr expr = .ok ints) :
    ints ≠ [] := by
  unfold parseIntRangeExpr at h
  cases he : parseIntRangeElements expr with
  | error e =>
    rw [he] at h
    cases h
  | ok ranges =>
    simp only [he, bind, Except.bind] at h
    split at h
    · cases h
    split at h
    · cases h
    · rename_i hne
      cases h
      exact hne

end Sqi

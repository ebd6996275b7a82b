import Mathlib.Data.List.Sort
import Sqi.Expr.Value

/-! The algebra of types (`type.go`): equality, text, unions in normal form, and the
questions the evaluator asks of a type (`listElem`, `includes` of `coerce.go`). -/

namespace Sqi.Expr
open GoText Ty

mutual

def Ty.equal : Ty → Ty → Bool
  | .null, .null | .bool, .bool | .int, .int | .float, .float | .string, .string | .path, .path
  | .rangeExpr, .rangeExpr | .any, .any | .noReturn, .noReturn => true
  | .list a, .list b => a.equal b
  | .unresolved a, .unresolved b => a.equal b
  | .union as, .union bs => Ty.equalAll as bs
  | .var i, .var j => i = j
  | _, _ => false

def Ty.equalAll : List Ty → List Ty → Bool
  | [], [] => true
  | a :: as, b :: bs => a.equal b && Ty.equalAll as bs
  | _, _ => false

end

mutual

lemma Ty.equal_iff (a b : Ty) : a.equal b = true ↔ a = b := by
  cases a <;> cases b <;> simp [Ty.equal]
  case list.list => exact equal_iff ..
  case union.union => exact equalAll_iff ..
  case unresolved.unresolved => exact equal_iff ..

lemma Ty.equalAll_iff (as bs : List Ty) : Ty.equalAll as bs = true ↔ as = bs := by
  cases as <;> cases bs <;> simp [Ty.equalAll]
  rw [equal_iff, equalAll_iff]

end

instance : DecidableEq Ty := fun a b => decidable_of_iff _ (equal_iff a b)

mutual

def Ty.text : Ty → Text
  | .null => "nulltype".toList
  | .bool => "bool".toList
  | .int => "int".toList
  | .float => "float".toList
  | .string => "string".toList
  | .path => "path".toList
  | .rangeExpr => "range_expr".toList
  | .list e => "list[".toList ++ e.text ++ "]".toList
  | .union ms =>
    -- `unionString`: an optional type is written with a question mark
    match ms, Ty.texts ms with
    | [_, .null], [t, _] => t ++ "?".toList
    | _, ts => " | ".toList.intercalate ts
  | .unresolved c => if c = .any then "unresolved".toList else "unresolved[".toList ++ c.text ++ "]".toList
  | .any => "any".toList
  | .noReturn => "noreturn".toList
  | .var 0 => "T".toList
  | .var i => "T".toList ++ (toString i).toList

def Ty.texts : List Ty → List Text
  | [] => []
  | t :: ts => t.text :: Ty.texts ts

end

def textLess : Text → Text → Bool
  | _, [] => false
  | [], _ :: _ => true
  | a :: as, b :: bs => if a = b then textLess as bs else a.val < b.val
def unionLess (a b : Ty) : Bool :=
  if decide (a = .null) ≠ decide (b = .null) then b = .null else textLess a.text b.text

mutual

def Ty.members : Ty → List Ty
  | .unresolved c => c.members
  | .union ms => Ty.membersAll ms
  | .noReturn => []
  | t => [t]

def Ty.membersAll : List Ty → List Ty
  | [] => []
  | t :: ts => t.members ++ Ty.membersAll ts

end

mutual

def Ty.hoists : Ty → Bool
  | .unresolved _ => true
  | .union ms => Ty.hoistsAny ms
  | _ => false
def Ty.hoistsAny : List Ty → Bool
  | [] => false
  | t :: ts => t.hoists || Ty.hoistsAny ts

end

def normalizeUnionMembers (members : List Ty) : Ty :=
  if .any ∈ members then .any
  else
    match members.foldl (fun uniq m => if m ∈ uniq then uniq else uniq ++ [m]) [] with
    | [] => .noReturn
    | [t] => t
    | uniq => .union (uniq.insertionSort fun a b => unionLess b a = false)

def Ty.unionOf (ts : List Ty) : Ty :=
  let out := normalizeUnionMembers (Ty.membersAll ts)
  if Ty.hoistsAny ts then out.unresolvedOf else out

def Ty.unwrap : Ty → Ty
  | .unresolved c => c
  | t => t

end Sqi.Expr

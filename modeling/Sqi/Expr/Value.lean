import Sqi.Lib.Text

/-! Types and values of the expression language (`type.go`, `value.go`), and the fixed bounds on what one
operation may build (`limits.go`). -/

namespace Sqi.Expr
open GoText

inductive Ty where
  | null
  | bool
  | int
  | float
  | string
  | path
  | rangeExpr
  | list (elem : Ty)
  | union (members : List Ty)
  | unresolved (constraint : Ty)
  | any
  | noReturn
  | var (i : Fin 4)
deriving Repr

def Ty.unresolvedOf : Ty → Ty
  | .unresolved c => .unresolved c
  | t => .unresolved t
def Ty.listOf : Ty → Ty
  | .unresolved c => (Ty.listOf c).unresolvedOf
  | t => .list t

inductive PathFormat where
  | posix
  | windows
deriving DecidableEq

inductive Value (F : Type) where
  | null
  | bool (b : Bool)
  | int (i : Int)
  | float (f : F) (rendered : Text)
  | string (s : Text)
  | path (s : Text) (flavor : PathFormat)
  | rangeExpr (s : Text)
  | list (elem : Ty) (elems : List (Value F))
  | unresolved (constraint : Ty)

/-! ## Fixed bounds -/

def maxElements : Int := 10000000
def maxStringBytes : Int := 10000000

inductive TooLarge where
  | elements (n : Int)
  | bytes (n : Int)
  | repeated (unitSize n limit : Int)
deriving DecidableEq

def checkElementCount (n : Int) : Except TooLarge Unit :=
  if n < 0 ∨ maxElements < n then .error (.elements n) else .ok ()
def checkStringBytes (n : Int) : Except TooLarge Unit :=
  if n < 0 ∨ maxStringBytes < n then .error (.bytes n) else .ok ()
def checkRepeat (unitSize n limit : Int) : Except TooLarge Int :=
  if unitSize ≤ 0 ∨ n ≤ 0 then .ok 0
  else if limit.tdiv unitSize < n then .error (.repeated unitSize n limit)
  else .ok (unitSize * n)

def byteLen (s : Text) : Int := utf8Len s
def boundedString (s : Text) : Except TooLarge Text := do
  checkStringBytes (byteLen s)
  return s

lemma boundedString_ok {s out : Text} (h : boundedString s = .ok out) : out = s := by
  unfold boundedString at h
  cases hc : checkStringBytes (byteLen s) with
  | error e =>
    rw [hc] at h
    cases h
  | ok u =>
    rw [hc] at h
    cases h
    rfl

def checkParts (total : Int) : List Text → Except TooLarge Unit
  | [] => .ok ()
  | p :: ps => do
    checkStringBytes (total + byteLen p)
    checkParts (total + byteLen p) ps

def joinValues {α : Type} (vals : List α) (sep : Text) (text : α → Text) : Except TooLarge Text :=
  if vals = [] then .ok []
  else do
    let total ← checkRepeat (byteLen sep) (vals.length - 1) maxStringBytes
    checkParts total (vals.map text)
    return sep.intercalate (vals.map text)

lemma joinValues_ok {α : Type} {vals : List α} {sep : Text} {text : α → Text} {out : Text}
    (h : joinValues vals sep text = .ok out) : out = sep.intercalate (vals.map text) := by
  unfold joinValues at h
  split at h
  · rename_i e
    subst e
    cases h
    rfl
  · cases hr : checkRepeat (byteLen sep) (vals.length - 1) maxStringBytes with
    | error e =>
      rw [hr] at h
      cases h
    | ok total =>
      cases hp : checkParts total (vals.map text) with
      | error e =>
        simp only [hr, hp, bind, Except.bind] at h
        cases h
      | ok u =>
        simp only [hr, hp, bind, Except.bind] at h
        cases h
        rfl

end Sqi.Expr

import Sqi.Expr.Value

/-! The syntax tree of an expression (`ast.go`), without the source offsets, which only the
texts of errors use. -/

namespace Sqi.Expr
open GoText

inductive Op where
  | add
  | sub
  | mul
  | div
  | floorDiv
  | mod
  | pow
  | neg
  | pos
  | not
  | and
  | or
  | lt
  | gt
  | le
  | ge
  | eq
  | ne
  | in_
  | notIn
deriving DecidableEq

inductive Node (F : Type) where
  | int (val : Int)
  | float (val : F)
  | string (val : Text)
  | bool (val : Bool)
  | null
  | name (parts : List Text)
  | unary (op : Op) (x : Node F)
  | binary (op : Op) (l r : Node F)
  | compare (ops : List Op) (operands : List (Node F))
  | logical (op : Op) (l r : Node F)
  | cond (then_ if_ else_ : Node F)
  | list (elems : List (Node F))
  | index (x idx : Node F)
  | slice (x : Node F) (start stop step : Option (Node F))
  | comp (elem : Node F) (var : Text) (iter : Node F) (filter : Option (Node F))
  | access (x : Node F) (attr : Text)
  | call (callee : Node F) (args : List (Node F))

end Sqi.Expr
